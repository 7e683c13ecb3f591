import Mathlib.Logic.Function.Basic
import Wsmq.Lib.Accesses
import Wsmq.Lib.Runs

/-!
# Objects behind a compare-and-swap lock

Processes `ι` call operations `ω` of one object in shared memory.  A call takes
the lock word from 0 to 1 by compare-and-swap, runs its program one access at a
time and puts the word back.  A process can be killed between any two steps; a
new process then takes its place and finds the memory as it was left.
-/

namespace Lib.SpinLock
open Lib.Accesses Lib.Runs

structure Object (σ κ ω β : Type) where
  code : ω → Code σ κ β
  body : κ → Code σ κ β

/-- The shared memory with its lock word. -/
structure Guarded (σ : Type) where
  word : Nat
  mem : σ

/-- Where a process stands: between two calls, before the lock, behind it with the rest of its
program, or killed. -/
inductive Local (σ κ ω β : Type) where
  | idle
  | acquiring (op : ω)
  | inside (op : ω) (rest : Code σ κ β)
  | killed

structure Return (ι ω β : Type) where
  proc : ι
  op : ω
  result : β

structure State (ι σ κ ω β : Type) where
  shared : Guarded σ
  procs : ι → Local σ κ ω β
  returns : List (Return ι ω β)

inductive Event (ι ω : Type) where
  | call (p : ι) (op : ω)
  | tryAcquire (p : ι)
  | access (p : ι)
  | tryRelease (p : ι)
  | kill (p : ι)
  | start (p : ι)

variable {ι σ κ ω β : Type}

def initial (s : σ) : State ι σ κ ω β := ⟨⟨0, s⟩, fun _ => .idle, []⟩

namespace State

def setMem (s : State ι σ κ ω β) (m : σ) : State ι σ κ ω β :=
  { s with shared := { s.shared with mem := m } }

def setWord (s : State ι σ κ ω β) (w : Nat) : State ι σ κ ω β :=
  { s with shared := { s.shared with word := w } }

def addReturn (s : State ι σ κ ω β) (r : Return ι ω β) : State ι σ κ ω β :=
  { s with returns := s.returns ++ [r] }

def setProc [DecidableEq ι] (s : State ι σ κ ω β) (p : ι) (l : Local σ κ ω β) :
    State ι σ κ ω β :=
  { s with procs := Function.update s.procs p l }

/-- `p` holds the lock. -/
def Inside (s : State ι σ κ ω β) (p : ι) : Prop := ∃ op rest, s.procs p = .inside op rest

/-- The lock is taken and nobody is left to give it back. -/
def Orphaned (s : State ι σ κ ω β) : Prop := s.shared.word = 1 ∧ ∀ p, ¬ s.Inside p

@[simp] theorem setProc_shared [DecidableEq ι] (s : State ι σ κ ω β) (p : ι)
    (l : Local σ κ ω β) : (s.setProc p l).shared = s.shared := rfl

@[simp] theorem setProc_returns [DecidableEq ι] (s : State ι σ κ ω β) (p : ι)
    (l : Local σ κ ω β) : (s.setProc p l).returns = s.returns := rfl

theorem setProc_procs [DecidableEq ι] (s : State ι σ κ ω β) (p q : ι) (l : Local σ κ ω β) :
    (s.setProc p l).procs q = if q = p then l else s.procs q := by
  simp only [setProc, Function.update_apply]

theorem setProc_inside [DecidableEq ι] (s : State ι σ κ ω β) (p q : ι) (l : Local σ κ ω β) :
    (s.setProc p l).Inside q ↔ if q = p then ∃ op rest, l = .inside op rest else s.Inside q := by
  unfold Inside
  rw [setProc_procs]
  split <;> rfl

end State

/-- One step of one process; no result means that the process cannot take it. -/
def step [DecidableEq ι] (obj : Object σ κ ω β) (s : State ι σ κ ω β) :
    Event ι ω → Option (State ι σ κ ω β)
  | .call p op =>
    match s.procs p with
    | .idle => some (s.setProc p (.acquiring op))
    | _ => none
  | .tryAcquire p =>
    match s.procs p with
    | .acquiring op =>
      if s.shared.word = 0 then some ((s.setWord 1).setProc p (.inside op (obj.code op)))
      else some s
    | _ => none
  | .access p =>
    match s.procs p with
    | .inside op (.access upd next) =>
      some ((s.setMem (upd s.shared.mem)).setProc p (.inside op (next s.shared.mem)))
    | .inside op (.jump k) => some (s.setProc p (.inside op (obj.body k)))
    | _ => none
  | .tryRelease p =>
    match s.procs p with
    | .inside op (.done b) =>
      if s.shared.word = 1 then
        some (((s.setWord 0).setProc p .idle).addReturn ⟨p, op, b⟩)
      else some s
    | _ => none
  | .kill p => some (s.setProc p .killed)
  | .start p =>
    match s.procs p with
    | .killed => some (s.setProc p .idle)
    | _ => none

section

variable [DecidableEq ι] {obj : Object σ κ ω β} {s t : State ι σ κ ω β} {s₀ : σ}

/-- What a step can do. -/
inductive Taken (obj : Object σ κ ω β) (s : State ι σ κ ω β) :
    Event ι ω → State ι σ κ ω β → Prop
  | call {p op} (h : s.procs p = .idle) : Taken obj s (.call p op) (s.setProc p (.acquiring op))
  | acquired {p op} (h : s.procs p = .acquiring op) (hw : s.shared.word = 0) :
      Taken obj s (.tryAcquire p) ((s.setWord 1).setProc p (.inside op (obj.code op)))
  | spun {p op} (h : s.procs p = .acquiring op) (hw : s.shared.word ≠ 0) :
      Taken obj s (.tryAcquire p) s
  | accessed {p op upd next} (h : s.procs p = .inside op (.access upd next)) :
      Taken obj s (.access p)
        ((s.setMem (upd s.shared.mem)).setProc p (.inside op (next s.shared.mem)))
  | jumped {p op k} (h : s.procs p = .inside op (.jump k)) :
      Taken obj s (.access p) (s.setProc p (.inside op (obj.body k)))
  | released {p op b} (h : s.procs p = .inside op (.done b)) (hw : s.shared.word = 1) :
      Taken obj s (.tryRelease p) (((s.setWord 0).setProc p .idle).addReturn ⟨p, op, b⟩)
  | unreleased {p op b} (h : s.procs p = .inside op (.done b)) (hw : s.shared.word ≠ 1) :
      Taken obj s (.tryRelease p) s
  | kill {p} : Taken obj s (.kill p) (s.setProc p .killed)
  | start {p} (h : s.procs p = .killed) : Taken obj s (.start p) (s.setProc p .idle)

theorem taken_of_step {e : Event ι ω} (h : step obj s e = some t) : Taken obj s e t := by
  cases e with
  | call p op =>
    simp only [step] at h
    split at h <;> cases h
    exact .call ‹_›
  | tryAcquire p =>
    simp only [step] at h
    split at h
    · split at h <;> cases h
      · exact .acquired ‹_› ‹_›
      · exact .spun ‹_› ‹_›
    · cases h
  | access p =>
    simp only [step] at h
    split at h <;> cases h
    · exact .accessed ‹_›
    · exact .jumped ‹_›
  | tryRelease p =>
    simp only [step] at h
    split at h
    · split at h <;> cases h
      · exact .released ‹_› ‹_›
      · exact .unreleased ‹_› ‹_›
    · cases h
  | kill p =>
    cases h
    exact .kill
  | start p =>
    simp only [step] at h
    split at h <;> cases h
    exact .start ‹_›

/-! ## Mutual exclusion -/

structure Held (s : State ι σ κ ω β) : Prop where
  word : s.shared.word = 0 ∨ s.shared.word = 1
  locked : ∀ p, s.Inside p → s.shared.word = 1
  unique : ∀ p q, s.Inside p → s.Inside q → p = q

omit [DecidableEq ι] in
theorem held_initial (s₀ : σ) : Held (initial s₀ : State ι σ κ ω β) := by
  have hno (p : ι) : ¬ (initial s₀ : State ι σ κ ω β).Inside p := by
    rintro ⟨op, rest, h⟩
    cases h
  exact ⟨.inl rfl, fun p h => absurd h (hno p), fun p _ h => absurd h (hno p)⟩

/-- A process that was outside, and stays outside, does not matter. -/
theorem Held.outside {p : ι} {l : Local σ κ ω β} (h : Held s)
    (hl : ∀ op rest, l ≠ .inside op rest) : Held (s.setProc p l) := by
  have hsub (q : ι) (hq : (s.setProc p l).Inside q) : s.Inside q := by
    rw [State.setProc_inside] at hq
    split at hq
    · obtain ⟨op, rest, e⟩ := hq
      exact absurd e (hl op rest)
    · exact hq
  exact ⟨h.word, fun q hq => h.locked q (hsub q hq),
    fun q r hq hr => h.unique q r (hsub q hq) (hsub r hr)⟩

/-- The holder goes on inside. -/
theorem Held.continue {p : ι} {m : σ} {op : ω} {rest : Code σ κ β} (h : Held s)
    (hp : s.Inside p) : Held ((s.setMem m).setProc p (.inside op rest)) := by
  have hsub (q : ι) (hq : ((s.setMem m).setProc p (.inside op rest)).Inside q) : s.Inside q := by
    rw [State.setProc_inside] at hq
    split at hq
    · next e => exact e ▸ hp
    · exact hq
  exact ⟨h.word, fun q hq => h.locked q (hsub q hq),
    fun q r hq hr => h.unique q r (hsub q hq) (hsub r hr)⟩

omit [DecidableEq ι] in
theorem Held.free_outside (h : Held s) (hw : s.shared.word = 0) (p : ι) : ¬ s.Inside p := by
  intro hp
  have := h.locked p hp
  omega

theorem Held.step {e : Event ι ω} (h : Held s) (hstep : step obj s e = some t) : Held t := by
  cases taken_of_step hstep with
  | call _ => exact h.outside (by simp)
  | spun _ _ => exact h
  | unreleased _ _ => exact h
  | kill => exact h.outside (by simp)
  | start _ => exact h.outside (by simp)
  | accessed hp => exact h.continue ⟨_, _, hp⟩
  | jumped hp => exact h.continue (m := s.shared.mem) ⟨_, _, hp⟩
  | @acquired p op hp hw =>
    have hin (q : ι) (hq : ((s.setWord 1).setProc p (.inside op (obj.code op))).Inside q) :
        q = p := by
      rw [State.setProc_inside] at hq
      split at hq
      · assumption
      · exact absurd hq (h.free_outside hw q)
    exact ⟨.inr rfl, fun _ _ => rfl, fun q r hq hr => (hin q hq).trans (hin r hr).symm⟩
  | @released p op b hp hw =>
    have hout (q : ι) : ¬ (((s.setWord 0).setProc p .idle).addReturn ⟨p, op, b⟩).Inside q := by
      intro hq
      change ((s.setWord 0).setProc p .idle).Inside q at hq
      rw [State.setProc_inside] at hq
      split at hq
      · simp at hq
      · next hne => exact hne (h.unique q p hq ⟨_, _, hp⟩)
    exact ⟨.inl rfl, fun q hq => absurd hq (hout q), fun q _ hq => absurd hq (hout q)⟩

/-! ## The object behaves as if calls were single steps -/

/-- The returns are those of the operations run one after the other, undisturbed. -/
def Legal (obj : Object σ κ ω β) : σ → List (Return ι ω β) → σ → Prop
  | m, [], m' => m' = m
  | m, r :: rs, m' => ∃ n, Ends obj.body (obj.code r.op) m r.result n ∧ Legal obj n rs m'

omit [DecidableEq ι] in
theorem Legal.snoc {rs : List (Return ι ω β)} {r : Return ι ω β} {m n : σ}
    (h : Legal obj s₀ rs m) (hr : Ends obj.body (obj.code r.op) m r.result n) :
    Legal obj s₀ (rs ++ [r]) n := by
  induction rs generalizing s₀ with
  | nil =>
    cases h
    exact ⟨n, hr, rfl⟩
  | cons r' rs ih =>
    obtain ⟨n', hends, hrest⟩ := h
    exact ⟨n', hends, ih hrest⟩

/-- `m` is the memory after the calls that have returned.  A call inside the lock has turned it
into the present memory, and will end as it would have ended undisturbed. -/
structure Linear (obj : Object σ κ ω β) (s₀ : σ) (s : State ι σ κ ω β) (m : σ) : Prop where
  legal : Legal obj s₀ s.returns m
  free : s.shared.word = 0 → s.shared.mem = m
  inside : ∀ p op rest, s.procs p = .inside op rest → ∀ b n,
    Ends obj.body rest s.shared.mem b n ↔ Ends obj.body (obj.code op) m b n

omit [DecidableEq ι] in
theorem linear_initial (s₀ : σ) : Linear obj s₀ (initial s₀ : State ι σ κ ω β) s₀ :=
  ⟨rfl, fun _ => rfl, fun _ _ _ h => nomatch h⟩

theorem Linear.outside {p : ι} {l : Local σ κ ω β} {m : σ} (h : Linear obj s₀ s m)
    (hl : ∀ op rest, l ≠ .inside op rest) : Linear obj s₀ (s.setProc p l) m := by
  refine ⟨h.legal, h.free, fun q op rest hq => ?_⟩
  rw [State.setProc_procs] at hq
  split at hq
  · exact absurd hq (hl op rest)
  · exact h.inside q op rest hq

/-- The holder makes one step that does not change where it will end. -/
theorem Linear.continue {p : ι} {m m' : σ} {op : ω} {rest rest' : Code σ κ β}
    (h : Linear obj s₀ s m) (hheld : Held s) (hp : s.procs p = .inside op rest)
    (hends : ∀ b n, Ends obj.body rest' m' b n ↔ Ends obj.body rest s.shared.mem b n) :
    Linear obj s₀ ((s.setMem m').setProc p (.inside op rest')) m := by
  have hword := hheld.locked p ⟨_, _, hp⟩
  refine ⟨h.legal, fun hw => ?_, fun q op' rest'' hq b n => ?_⟩
  · change s.shared.word = 0 at hw
    omega
  · rw [State.setProc_procs] at hq
    split at hq
    · cases hq
      exact (hends b n).trans (h.inside p op rest hp b n)
    · next hne => exact absurd (hheld.unique q p ⟨_, _, hq⟩ ⟨_, _, hp⟩) hne

theorem Linear.step {e : Event ι ω} {m : σ} (h : Linear obj s₀ s m) (hheld : Held s)
    (hstep : step obj s e = some t) : ∃ m', Linear obj s₀ t m' := by
  cases taken_of_step hstep with
  | call _ => exact ⟨m, h.outside (by simp)⟩
  | spun _ _ => exact ⟨m, h⟩
  | unreleased _ _ => exact ⟨m, h⟩
  | kill => exact ⟨m, h.outside (by simp)⟩
  | start _ => exact ⟨m, h.outside (by simp)⟩
  | accessed hp => exact ⟨m, h.continue hheld hp fun _ _ => ends_access.symm⟩
  | jumped hp =>
    have hnext := h.continue hheld hp fun b n => (ends_jump (s := s.shared.mem)).symm
    exact ⟨m, hnext⟩
  | @acquired p op hp hw =>
    refine ⟨m, h.legal, fun hone => (nomatch hone), fun q op' rest hq b n => ?_⟩
    rw [State.setProc_procs] at hq
    split at hq
    · cases hq
      change Ends obj.body _ s.shared.mem b n ↔ _
      rw [h.free hw]
    · exact absurd ⟨_, _, hq⟩ (hheld.free_outside hw q)
  | @released p op b hp hw =>
    have hends := (h.inside p op _ hp b s.shared.mem).mp (.done _ _)
    refine ⟨s.shared.mem, h.legal.snoc hends, fun _ => rfl, fun q op' rest hq => ?_⟩
    change ((s.setWord 0).setProc p .idle).procs q = _ at hq
    rw [State.setProc_procs] at hq
    split at hq
    · cases hq
    · next hne => exact absurd (hheld.unique q p ⟨_, _, hq⟩ ⟨_, _, hp⟩) hne

/-- In every run at most one process is inside, and the calls that have returned give what they
give when they run one after the other in the order of their returns. -/
theorem run_linear {es : List (Event ι ω)} (hrun : run (step obj) (initial s₀) es = some s) :
    Held s ∧ ∃ m, Linear obj s₀ s m := by
  have hkeeps : ∀ (r : State ι σ κ ω β) (e : Event ι ω) (t : State ι σ κ ω β),
      (Held r ∧ ∃ m, Linear obj s₀ r m) → step obj r e = some t →
        Held t ∧ ∃ m, Linear obj s₀ t m :=
    fun _ _ _ ⟨hheld, _, h⟩ hstep => ⟨hheld.step hstep, h.step hheld hstep⟩
  exact invariant_of_step hkeeps ⟨held_initial s₀, s₀, linear_initial s₀⟩ hrun

/-! ## A holder that is killed -/

/-- Nobody gets the lock back, and no call returns any more. -/
theorem orphaned_step {e : Event ι ω} (h : s.Orphaned) (hstep : step obj s e = some t) :
    t.Orphaned ∧ t.returns = s.returns := by
  obtain ⟨hword, hno⟩ := h
  have houtside {p : ι} {l : Local σ κ ω β} (hl : ∀ op rest, l ≠ .inside op rest) :
      (s.setProc p l).Orphaned ∧ (s.setProc p l).returns = s.returns := by
    refine ⟨⟨hword, fun q hq => ?_⟩, rfl⟩
    rw [State.setProc_inside] at hq
    split at hq
    · obtain ⟨op, rest, e⟩ := hq
      exact hl op rest e
    · exact hno q hq
  cases taken_of_step hstep with
  | call _ => exact houtside (by simp)
  | kill => exact houtside (by simp)
  | start _ => exact houtside (by simp)
  | spun _ _ => exact ⟨⟨hword, hno⟩, rfl⟩
  | unreleased _ _ => exact ⟨⟨hword, hno⟩, rfl⟩
  | acquired _ hw => omega
  | accessed hp => exact absurd ⟨_, _, hp⟩ (hno _)
  | jumped hp => exact absurd ⟨_, _, hp⟩ (hno _)
  | released hp _ => exact absurd ⟨_, _, hp⟩ (hno _)

theorem orphaned_run {es : List (Event ι ω)} (h : s.Orphaned)
    (hrun : run (step obj) s es = some t) : t.Orphaned ∧ t.returns = s.returns := by
  have hkeeps : ∀ (r : State ι σ κ ω β) (e : Event ι ω) (r' : State ι σ κ ω β),
      (r.Orphaned ∧ r.returns = s.returns) → step obj r e = some r' → r'.Orphaned ∧ r'.returns = s.returns := by
    intro r e r' hr hstep
    have hnext := orphaned_step hr.1 hstep
    exact ⟨hnext.1, hnext.2.trans hr.2⟩
  exact invariant_of_step hkeeps ⟨h, rfl⟩ hrun

/-- The step kills a process that holds the lock. -/
def KillsHolder (s : State ι σ κ ω β) : Event ι ω → Prop
  | .kill p => s.Inside p
  | _ => False

theorem orphaned_iff_killsHolder {e : Event ι ω} (hheld : Held s) (h : ¬ s.Orphaned)
    (hstep : step obj s e = some t) : t.Orphaned ↔ KillsHolder s e := by
  have hkeep {p : ι} {l : Local σ κ ω β} (hp : ¬ s.Inside p) : ¬ (s.setProc p l).Orphaned := by
    rintro ⟨hword, hno⟩
    refine h ⟨hword, fun q hq => hno q ?_⟩
    rw [State.setProc_inside, if_neg]
    · exact hq
    · rintro rfl
      exact hp hq
  have hnot {p : ι} {l : Local σ κ ω β} (hp : s.procs p = l) (hl : ∀ op rest, l ≠ .inside op rest) :
      ¬ s.Inside p := fun ⟨op, rest, e⟩ => hl op rest (hp.symm.trans e)
  cases taken_of_step hstep with
  | call hp => exact iff_of_false (hkeep (hnot hp (by simp))) not_false
  | start hp => exact iff_of_false (hkeep (hnot hp (by simp))) not_false
  | spun _ _ => exact iff_of_false h not_false
  | unreleased _ _ => exact iff_of_false h not_false
  | @acquired p op _ _ =>
    refine iff_of_false (fun ho => ho.2 p ?_) not_false
    rw [State.setProc_inside, if_pos rfl]
    exact ⟨_, _, rfl⟩
  | @accessed p _ _ _ _ =>
    refine iff_of_false (fun ho => ho.2 p ?_) not_false
    rw [State.setProc_inside, if_pos rfl]
    exact ⟨_, _, rfl⟩
  | @jumped p _ _ _ =>
    refine iff_of_false (fun ho => ho.2 p ?_) not_false
    rw [State.setProc_inside, if_pos rfl]
    exact ⟨_, _, rfl⟩
  | released _ _ => exact iff_of_false (fun ho => nomatch ho.1) not_false
  | @kill p =>
    by_cases hp : s.Inside p
    · refine iff_of_true ⟨hheld.locked p hp, fun q hq => ?_⟩ hp
      rw [State.setProc_inside] at hq
      split at hq
      · simp at hq
      · next hne => exact hne (hheld.unique q p hq hp)
    · exact iff_of_false (hkeep hp) hp

/-- The lock is lost exactly when some step of the run killed its holder. -/
theorem run_orphaned_iff {es : List (Event ι ω)}
    (hrun : run (step obj) (initial s₀) es = some s) :
    s.Orphaned ↔ ¬ AllSteps (step obj) (fun r e => ¬ KillsHolder r e) (initial s₀) es := by
  have hkeeps : ∀ (r : State ι σ κ ω β) (e : Event ι ω) (t : State ι σ κ ω β), Held r →
      step obj r e = some t → Held t := fun _ _ _ h hstep => h.step hstep
  have hgood : ∀ (r : State ι σ κ ω β) (e : Event ι ω) (t : State ι σ κ ω β), Held r →
      ¬ r.Orphaned → step obj r e = some t → (¬ KillsHolder r e ↔ ¬ t.Orphaned) := fun _ _ _ hheld h hstep =>
    not_congr (orphaned_iff_killsHolder hheld h hstep).symm
  have hall := allSteps_iff hkeeps hgood (held_initial s₀) (fun h => nomatch h.1) hrun
  rw [hall]
  constructor
  · intro ho hgood
    exact hgood es [] s (List.append_nil _).symm hrun ho
  · intro hbad
    by_contra ho
    refine hbad fun pre post r hes hr hor => ho ?_
    rw [hes] at hrun
    obtain ⟨r', hr', hrest⟩ := run_append_some hrun
    cases hr.symm.trans hr'
    exact (orphaned_run hor hrest).1

/-! ## Every other call can return -/

/-- The holder runs on alone until its call returns. -/
theorem holder_returns {c : Code σ κ β} {m n : σ} {b : β} (hends : Ends obj.body c m b n)
    {p : ι} {op : ω} (hp : s.procs p = .inside op c) (hm : s.shared.mem = m)
    (hw : s.shared.word = 1) :
    ∃ es, run (step obj) s es = some
      ((((s.setMem n).setWord 0).setProc p .idle).addReturn ⟨p, op, b⟩) := by
  induction hends generalizing s with
  | done b m =>
    refine ⟨[.tryRelease p], ?_⟩
    subst hm
    simp only [run, step, hp, hw, ↓reduceIte, Option.bind_some]
    rfl
  | @access upd next m n b hends ih =>
    subst hm
    obtain ⟨es, hes⟩ := ih (s := (s.setMem (upd s.shared.mem)).setProc p
      (.inside op (next s.shared.mem))) (by rw [State.setProc_procs, if_pos rfl]) rfl hw
    refine ⟨.access p :: es, ?_⟩
    simp only [run, step, hp, Option.bind_some, hes]
    simp [State.setProc, State.setMem, State.setWord, State.addReturn]
  | @jump k m n b hends ih =>
    subst hm
    obtain ⟨es, hes⟩ := ih (s := s.setProc p (.inside op (obj.body k)))
      (by rw [State.setProc_procs, if_pos rfl]) rfl hw
    refine ⟨.access p :: es, ?_⟩
    simp only [run, step, hp, Option.bind_some, hes]
    simp [State.setProc, State.setMem, State.setWord, State.addReturn]

/-- `p` is in the middle of the call `op`. -/
def Pending (s : State ι σ κ ω β) (p : ι) (op : ω) : Prop :=
  s.procs p = .acquiring op ∨ ∃ rest, s.procs p = .inside op rest

/-- Some continuation of the run has the pending call of `p` return. -/
def CanReturn (obj : Object σ κ ω β) (s : State ι σ κ ω β) (p : ι) (op : ω) : Prop :=
  ∃ es t, run (step obj) s es = some t ∧
    ∃ before b, t.returns = s.returns ++ before ++ [⟨p, op, b⟩]

/-- Undisturbed, every operation ends on every memory that calls can lead to. -/
def Halts (ι : Type) (obj : Object σ κ ω β) (s₀ : σ) : Prop :=
  ∀ (rs : List (Return ι ω β)) m, Legal obj s₀ rs m → ∀ op, ∃ b n, Ends obj.body (obj.code op) m b n

theorem free_canReturn {p : ι} {op : ω} (hp : s.procs p = .acquiring op)
    (hw : s.shared.word = 0) {b : β} {n : σ}
    (hends : Ends obj.body (obj.code op) s.shared.mem b n) :
    ∃ es t, run (step obj) s es = some t ∧ t.returns = s.returns ++ [⟨p, op, b⟩] := by
  obtain ⟨es, hes⟩ := holder_returns (s := (s.setWord 1).setProc p (.inside op (obj.code op)))
    hends (by rw [State.setProc_procs, if_pos rfl]) rfl rfl
  have hfirst : run (step obj) s (.tryAcquire p :: es) =
      run (step obj) ((s.setWord 1).setProc p (.inside op (obj.code op))) es := by
    simp only [run, step, hp, hw, ↓reduceIte, Option.bind_some]
  exact ⟨_, _, hfirst.trans hes, rfl⟩

omit [DecidableEq ι] in
theorem inside_ends {m : σ} (h : Linear obj s₀ s m) (hhalts : Halts ι obj s₀) {p : ι}
    {op : ω} {rest : Code σ κ β} (hp : s.procs p = .inside op rest) :
    ∃ b n, Ends obj.body rest s.shared.mem b n ∧ Ends obj.body (obj.code op) m b n := by
  obtain ⟨b, n, hends⟩ := hhalts _ m h.legal op
  exact ⟨b, n, (h.inside p op rest hp b n).mpr hends, hends⟩

/-- As long as the lock is not lost, every pending call can return. -/
theorem canReturn {m : σ} (hheld : Held s) (h : Linear obj s₀ s m) (hhalts : Halts ι obj s₀)
    (hlock : ¬ s.Orphaned) {p : ι} {op : ω} (hp : Pending s p op) : CanReturn obj s p op := by
  rcases hp with hp | ⟨rest, hp⟩
  · rcases hheld.word with hw | hw
    · obtain ⟨b, n, hends⟩ := hhalts _ m h.legal op
      rw [← h.free hw] at hends
      obtain ⟨es, t, hrun, hret⟩ := free_canReturn hp hw hends
      exact ⟨es, t, hrun, [], b, by rw [hret, List.append_nil]⟩
    · -- the holder first finishes its call, then `p` finds the lock free
      obtain ⟨q, hq⟩ : ∃ q, s.Inside q := by
        by_contra hno
        exact hlock ⟨hw, fun q hq => hno ⟨q, hq⟩⟩
      obtain ⟨op', rest, hq⟩ := hq
      obtain ⟨b', n', hrest, hends'⟩ := inside_ends h hhalts hq
      obtain ⟨es, hes⟩ := holder_returns hrest hq rfl hw
      have hne : p ≠ q := by
        rintro rfl
        rw [hp] at hq
        cases hq
      have hlegal : Legal obj s₀ (s.returns ++ [⟨q, op', b'⟩]) n' := h.legal.snoc hends'
      obtain ⟨b, n, hends⟩ := hhalts _ n' hlegal op
      let freed := (((s.setMem n').setWord 0).setProc q .idle).addReturn ⟨q, op', b'⟩
      have hp' : freed.procs p = s.procs p := by
        change (((s.setMem n').setWord 0).setProc q .idle).procs p = _
        rw [State.setProc_procs, if_neg hne]
        rfl
      have hfree : freed.shared.word = 0 := rfl
      obtain ⟨es', t, hrun, hret⟩ := free_canReturn (hp'.trans hp) hfree hends
      refine ⟨es ++ es', t, ?_, [⟨q, op', b'⟩], b, hret⟩
      rw [run_append, hes]
      exact hrun
  · obtain ⟨b, n, hends, _⟩ := inside_ends h hhalts hp
    obtain ⟨es, hes⟩ := holder_returns hends hp rfl (hheld.locked p ⟨_, _, hp⟩)
    exact ⟨es, _, hes, [], b, by simp [State.addReturn, State.setProc, State.setMem, State.setWord]⟩

theorem canReturn_iff {es : List (Event ι ω)} (hhalts : Halts ι obj s₀)
    (hrun : run (step obj) (initial s₀) es = some s) {p : ι} {op : ω} (hp : Pending s p op) :
    CanReturn obj s p op ↔
      AllSteps (step obj) (fun r e => ¬ KillsHolder r e) (initial s₀) es := by
  rw [← not_iff_comm.mp (run_orphaned_iff hrun).symm]
  constructor
  · rintro ⟨es', t, hcont, before, b, hret⟩ ho
    have hsame := (orphaned_run ho hcont).2
    rw [hret, List.append_assoc] at hsame
    simp at hsame
  · intro hlock
    obtain ⟨hheld, m, hlin⟩ := run_linear hrun
    exact canReturn hheld hlin hhalts hlock hp

end

end Lib.SpinLock
