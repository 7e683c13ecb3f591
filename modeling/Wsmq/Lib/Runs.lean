/-! Runs of a partial step function over labels: a step without a result is one
the system cannot take, or after which its behaviour is undefined. -/

namespace Lib.Runs

variable {σ α : Type} (step : σ → α → Option σ)

/-- The state after the steps `as`. -/
def run : σ → List α → Option σ
  | s, [] => some s
  | s, a :: as => (step s a).bind fun t => run t as

/-- Every step taken from `s` on along `as` meets the condition. -/
def AllSteps (guard : σ → α → Prop) : σ → List α → Prop
  | _, [] => True
  | s, a :: as => guard s a ∧ ∀ t, step s a = some t → AllSteps guard t as

/-- The condition can be checked along the run. -/
instance decidableAllSteps {guard : σ → α → Prop} [∀ s a, Decidable (guard s a)] :
    (s : σ) → (as : List α) → Decidable (AllSteps step guard s as)
  | _, [] => isTrue trivial
  | s, a :: as =>
    have : ∀ t, Decidable (AllSteps step guard t as) := fun t => decidableAllSteps t as
    inferInstanceAs (Decidable (guard s a ∧ ∀ t ∈ step s a, AllSteps step guard t as))

variable {step}

@[simp] theorem run_nil (s : σ) : run step s [] = some s := rfl

theorem run_cons_some {s t : σ} {a : α} {as : List α} (h : run step s (a :: as) = some t) :
    ∃ r, step s a = some r ∧ run step r as = some t :=
  Option.bind_eq_some_iff.mp h

theorem run_append (s : σ) (as bs : List α) :
    run step s (as ++ bs) = (run step s as).bind fun t => run step t bs := by
  induction as generalizing s with
  | nil => rfl
  | cons a as ih =>
    rw [List.cons_append, run, run]
    cases step s a with
    | none => rfl
    | some r => exact ih r

theorem run_append_some {s t : σ} {as bs : List α} (h : run step s (as ++ bs) = some t) :
    ∃ r, run step s as = some r ∧ run step r bs = some t := by
  rw [run_append] at h
  exact Option.bind_eq_some_iff.mp h

/-- The states around the steps `a` and `b` of a run. -/
theorem run_segment {s : σ} {as bs : List α} {a b : α}
    (h : (run step s (as ++ a :: bs ++ [b])).isSome) :
    ∃ s₁ s₂ s₃ s₄, run step s as = some s₁ ∧ step s₁ a = some s₂ ∧ run step s₂ bs = some s₃ ∧
      step s₃ b = some s₄ ∧ run step s (as ++ [a]) = some s₂ ∧
      run step s (as ++ a :: bs) = some s₃ ∧ run step s (as ++ a :: bs ++ [b]) = some s₄ := by
  obtain ⟨s₄, h₄⟩ := Option.isSome_iff_exists.mp h
  obtain ⟨s₃, h₃, hb⟩ := run_append_some h₄
  obtain ⟨s₁, h₁, hrest⟩ := run_append_some h₃
  obtain ⟨s₂, ha, h₂⟩ := run_cons_some hrest
  obtain ⟨_, hb, ht⟩ := run_cons_some hb
  cases ht
  refine ⟨s₁, s₂, s₃, s₄, h₁, ha, h₂, hb, ?_, h₃, h₄⟩
  rw [run_append, h₁, Option.bind_some, run, ha]
  rfl

theorem allSteps_append {guard : σ → α → Prop} {s r : σ} {as bs : List α}
    (h : AllSteps step guard s (as ++ bs)) (hr : run step s as = some r) :
    AllSteps step guard s as ∧ AllSteps step guard r bs := by
  induction as generalizing s with
  | nil =>
    cases hr
    exact ⟨trivial, h⟩
  | cons a as ih =>
    obtain ⟨q, hq, hrun⟩ := run_cons_some hr
    have hrest := ih (h.2 q hq) hrun
    refine ⟨⟨h.1, fun t ht => ?_⟩, hrest.2⟩
    rw [hq] at ht
    cases ht
    exact hrest.1

theorem allSteps_append_of {guard : σ → α → Prop} {s r : σ} {as bs : List α}
    (h : AllSteps step guard s as) (hr : run step s as = some r) (h' : AllSteps step guard r bs) :
    AllSteps step guard s (as ++ bs) := by
  induction as generalizing s with
  | nil =>
    cases hr
    exact h'
  | cons a as ih =>
    obtain ⟨q, hq, hrun⟩ := run_cons_some hr
    refine ⟨h.1, fun t ht => ?_⟩
    cases hq.symm.trans ht
    exact ih (h.2 q hq) hrun

/-- What every step that meets the condition preserves, a whole run preserves. -/
theorem invariant {guard : σ → α → Prop} {inv : σ → Prop}
    (hstep : ∀ s a t, inv s → guard s a → step s a = some t → inv t)
    {s t : σ} {as : List α} (hs : inv s) (hg : AllSteps step guard s as)
    (hrun : run step s as = some t) : inv t := by
  induction as generalizing s with
  | nil =>
    cases hrun
    exact hs
  | cons a as ih =>
    obtain ⟨r, hr, hrest⟩ := run_cons_some hrun
    exact ih (hstep s a r hs hg.1 hr) (hg.2 r hr) hrest

theorem allSteps_of_mem {guard : σ → α → Prop} {as : List α}
    (h : ∀ s, ∀ a ∈ as, guard s a) (s : σ) : AllSteps step guard s as := by
  induction as generalizing s with
  | nil => trivial
  | cons a as ih =>
    exact ⟨h s a List.mem_cons_self, fun t _ => ih (fun s b hb => h s b (List.mem_cons_of_mem a hb)) t⟩

/-- The condition, step by step. -/
theorem allSteps_iff_forall {guard : σ → α → Prop} {s t : σ} {as : List α}
    (hrun : run step s as = some t) :
    AllSteps step guard s as ↔
      ∀ pre a post r, as = pre ++ a :: post → run step s pre = some r → guard r a := by
  constructor
  · rintro h pre a post r rfl hr
    exact (allSteps_append h hr).2.1
  · intro h
    induction as generalizing s with
    | nil => trivial
    | cons a as ih =>
      obtain ⟨q, hq, hrest⟩ := run_cons_some hrun
      refine ⟨h [] a as s rfl rfl, fun t' ht' => ?_⟩
      cases hq.symm.trans ht'
      refine ih hrest fun pre b post r has hr => ?_
      exact h (a :: pre) b post r (congrArg (a :: ·) has) (by simp [run, hq, hr])

theorem allSteps_and {guard guard' : σ → α → Prop} {s : σ} {as : List α}
    (h : AllSteps step guard s as) (h' : AllSteps step guard' s as) :
    AllSteps step (fun s a => guard s a ∧ guard' s a) s as := by
  induction as generalizing s with
  | nil => trivial
  | cons a as ih => exact ⟨⟨h.1, h'.1⟩, fun t ht => ih (h.2 t ht) (h'.2 t ht)⟩

/-- A condition that implies another one in the states that are met. -/
theorem allSteps_imp {guard guard' : σ → α → Prop} {inv : σ → Prop}
    (hinv : ∀ s a t, inv s → step s a = some t → inv t)
    (himp : ∀ s a, inv s → guard s a → guard' s a) {s : σ} {as : List α} (hs : inv s)
    (h : AllSteps step guard s as) : AllSteps step guard' s as := by
  induction as generalizing s with
  | nil => trivial
  | cons a as ih => exact ⟨himp s a hs h.1, fun t ht => ih (hinv s a t hs ht) (h.2 t ht)⟩

/-- The rule for runs without a condition on their steps. -/
theorem invariant_of_step {inv : σ → Prop}
    (hstep : ∀ s a t, inv s → step s a = some t → inv t)
    {s t : σ} {as : List α} (hs : inv s) (hrun : run step s as = some t) : inv t :=
  invariant (fun s a t hi _ => hstep s a t hi) hs
    (allSteps_of_mem (fun _ _ _ => trivial : ∀ _, ∀ a ∈ as, True) s) hrun

/-- Where a step that is allowed leads from a good state to a good state exactly when it meets
the condition, a run meets it throughout exactly when all its states are good. -/
theorem allSteps_iff_of_allowed {guard allowed : σ → α → Prop} {inv good : σ → Prop}
    (hstep : ∀ s a t, inv s → good s → allowed s a → step s a = some t →
      (guard s a ↔ good t) ∧ (good t → inv t))
    {s t : σ} {as : List α} (hi : inv s) (hs : good s) (ha : AllSteps step allowed s as)
    (hrun : run step s as = some t) :
    AllSteps step guard s as ↔
      ∀ pre post r, as = pre ++ post → run step s pre = some r → good r := by
  induction as generalizing s with
  | nil =>
    refine ⟨fun _ pre post r has hr => ?_, fun _ => trivial⟩
    obtain ⟨rfl, _⟩ := List.nil_eq_append_iff.mp has
    cases hr
    exact hs
  | cons a as ih =>
    obtain ⟨q, hq, hrest⟩ := run_cons_some hrun
    obtain ⟨hiff, hinv⟩ := hstep s a q hi hs ha.1 hq
    constructor
    · rintro ⟨hguard, hall⟩ pre post r has hr
      have hgood := hiff.mp hguard
      have hnext := (ih (hinv hgood) hgood (ha.2 q hq) hrest).mp (hall q hq)
      cases pre with
      | nil =>
        cases hr
        exact hs
      | cons b pre =>
        obtain ⟨rfl, hrest'⟩ := List.cons_eq_cons.mp has
        obtain ⟨q', hq', hr⟩ := run_cons_some hr
        cases hq.symm.trans hq'
        exact hnext pre post r hrest' hr
    · intro hall
      have hgood : good q := hall [a] as q rfl (by simp [run, hq])
      refine ⟨hiff.mpr hgood, fun t' ht' => ?_⟩
      cases hq.symm.trans ht'
      refine (ih (hinv hgood) hgood (ha.2 q hq) hrest).mpr fun pre post r has hr => ?_
      exact hall (a :: pre) post r (congrArg (a :: ·) has) (by simp [run, hq, hr])

/-- The same where every step is allowed and keeps the invariant. -/
theorem allSteps_iff {guard : σ → α → Prop} {inv good : σ → Prop}
    (hinv : ∀ s a t, inv s → step s a = some t → inv t)
    (hgood : ∀ s a t, inv s → good s → step s a = some t → (guard s a ↔ good t))
    {s t : σ} {as : List α} (hi : inv s) (hs : good s) (hrun : run step s as = some t) :
    AllSteps step guard s as ↔
      ∀ pre post r, as = pre ++ post → run step s pre = some r → good r :=
  allSteps_iff_of_allowed
    (fun s a t hi hs _ ht => ⟨hgood s a t hi hs ht, fun _ => hinv s a t hi ht⟩) hi hs
    (allSteps_of_mem (fun _ _ _ => trivial : ∀ _, ∀ a ∈ as, True) s) hrun

end Lib.Runs
