import Wsmq.Lib.RoundRobin
import Wsmq.Lib.Runs
import Wsmq.MessageQueue

/-!
# Consumers take turns

`m_iPushIndex` is the place of the consumer that was served last.  It stays right as long as
no consumer leaves from that place or one before it: `CancelSubscribe` does not move it.
-/

namespace Wsmq
open Lib Lib.ByteString Lib.RoundRobin

namespace MessageQueue

section Turns

variable [Platform]

inductive Call
  | addMessage (pMsg : SeverStoreMessage)
  | addMessageFront (pMsg : SeverStoreMessage)
  | addSubscribe (iCliIndex : Int) (iConfirmLevel : Nat)
  | cancelSubscribe (iCliIndex : Int)
  | popFrontMsg (bPush : Bool)

/-- A queue and the consumers that its pushed messages went to, the last one at the end. -/
structure Pushes where
  queue : MessageQueue
  served : List Int := []

/-- The queue after a call. -/
def Pushes.call (s : Pushes) : Call → Option Pushes
  | .addMessage pMsg => some { s with queue := s.queue.addMessage pMsg }
  | .addMessageFront pMsg => some { s with queue := s.queue.addMessageFront pMsg }
  | .addSubscribe c level => some { s with queue := s.queue.addSubscribe c level }
  | .cancelSubscribe c => some { s with queue := s.queue.cancelSubscribe c }
  | .popFrontMsg bPush =>
    match s.queue.popFrontMsg bPush with
    | none => some s
    | some (pFrontMsg, q) =>
      some ⟨q, if bPush then s.served ++ [pFrontMsg.index] else s.served⟩

/-- The consumer that leaves stands behind the one that was served last. -/
def Behind (s : Pushes) : Call → Prop
  | .cancelSubscribe c =>
    c ∉ s.queue.subscribeConsumers.take (s.queue.pushIndex + 1).toNat
  | _ => True

instance (s : Pushes) (call : Call) : Decidable (Behind s call) := by
  cases call <;> unfold Behind <;> infer_instance

/-- In the order of subscription `c` follows the consumer that was served last. -/
def Follows (consumers served : List Int) (c : Int) : Prop :=
  match served.getLast? with
  | none => consumers.head? = some c
  | some last => ∃ i, consumers[i]? = some last ∧
      consumers[(i + 1) % consumers.length]? = some c

/-- A message is pushed to `c`. -/
def Pushed (s s' : Pushes) (c : Int) : Prop :=
  s.call (.popFrontMsg true) = some s' ∧ s'.served = s.served ++ [c]

/-- Along the calls every push goes to the next consumer, and between two pushes to `c`
everybody who is subscribed all the time gets one. -/
structure Fair (s₀ : Pushes) (calls : List Call) : Prop where
  next : ∀ pre post s s' c, calls = pre ++ .popFrontMsg true :: post →
    Runs.run Pushes.call s₀ pre = some s → Pushed s s' c →
      Follows s.queue.subscribeConsumers s.served c
  turn : ∀ pre mid post s₁ s₂ s₃ s₄ c d between,
    calls = pre ++ .popFrontMsg true :: (mid ++ .popFrontMsg true :: post) →
    Runs.run Pushes.call s₀ pre = some s₁ → Pushed s₁ s₂ c →
    Runs.run Pushes.call s₂ mid = some s₃ → s₃.served = s₂.served ++ between → c ∉ between →
    Pushed s₃ s₄ c → d ≠ c →
    Runs.AllSteps Pushes.call (fun s _ => d ∈ s.queue.subscribeConsumers) s₂ mid →
    d ∈ s₃.queue.subscribeConsumers → d ∈ between

/-! ## The queue as a rota -/

/-- The rota that the consumers and the index stand for. -/
structure Points (s : Pushes) (r : Rota Int) : Prop where
  members : s.queue.subscribeConsumers = r.members
  index : s.queue.pushIndex + 1 = r.done.length
  nodup : r.members.Nodup
  last : s.served.getLast? = r.done.getLast?

variable {q q' : MessageQueue} {s s' : Pushes} {r r' : Rota Int}

theorem takeFront_turns {m : SeverStoreMessage} (h : q.takeFront = some (m, q')) :
    q'.subscribeConsumers = q.subscribeConsumers ∧ q'.pushIndex = q.pushIndex := by
  unfold takeFront at h
  split at h
  · cases h
    exact ⟨rfl, rfl⟩
  · split at h
    · cases h
    · cases h
      exact ⟨rfl, rfl⟩

theorem addMessage_turns (q : MessageQueue) (m : SeverStoreMessage) :
    (q.addMessage m).subscribeConsumers = q.subscribeConsumers ∧
      (q.addMessage m).pushIndex = q.pushIndex := by
  unfold addMessage
  split
  · exact ⟨rfl, rfl⟩
  · exact ⟨rfl, rfl⟩

theorem addMessageFront_turns (q : MessageQueue) (m : SeverStoreMessage) :
    (q.addMessageFront m).subscribeConsumers = q.subscribeConsumers ∧
      (q.addMessageFront m).pushIndex = q.pushIndex := by
  unfold addMessageFront
  split
  · exact ⟨rfl, rfl⟩
  · exact ⟨rfl, rfl⟩

theorem Points.same (h : Points s r) (hsubs : s'.queue.subscribeConsumers = s.queue.subscribeConsumers)
    (hindex : s'.queue.pushIndex = s.queue.pushIndex) (hserved : s'.served = s.served) :
    Points s' r :=
  ⟨hsubs.trans h.members, hindex ▸ h.index, h.nodup, hserved ▸ h.last⟩

/-- A pushed message goes to whoever is next in the rota. -/
theorem Points.push (h : Points s r) {m : SeverStoreMessage}
    (hpop : s.queue.popFrontMsg true = some (m, q')) :
    ∃ r', r.serve = some (m.index, r') ∧ Points ⟨q', s.served ++ [m.index]⟩ r' := by
  obtain ⟨hmembers, hindex, hnodup, hlast⟩ := h
  obtain ⟨done, todo⟩ := r
  simp only [popFrontMsg, Bool.true_and] at hpop
  split at hpop
  · cases hpop
  · next hsome =>
    split at hpop
    · cases hpop
    · next x q₁ htake =>
      obtain ⟨hsubs, _⟩ := takeFront_turns htake
      cases hpop
      have hlen := congrArg List.length hmembers
      dsimp only [Rota.members] at hmembers hindex hlen
      cases todo with
      | cons b rest =>
        rw [List.length_append, List.length_cons] at hlen
        have hnext : s.queue.nextPushIndex = done.length := by
          rw [nextPushIndex, hindex, if_neg (by omega)]
        have hc : s.queue.subscribeConsumers.getD s.queue.nextPushIndex.toNat 0 = b := by
          rw [hnext, hmembers, Int.toNat_natCast]
          simp
        refine ⟨⟨done ++ [b], rest⟩, by rw [hc]; rfl, ?_, ?_, ?_, ?_⟩
        · simp [Rota.members, hsubs, hmembers]
        · simp [hnext]
        · simpa [Rota.members] using hnodup
        · show (s.served ++ [s.queue.subscribeConsumers.getD _ 0]).getLast? = _
          rw [hc, List.getLast?_concat, List.getLast?_concat]
      | nil =>
        rw [List.append_nil] at hlen hmembers
        have hnext : s.queue.nextPushIndex = 0 := by
          rw [nextPushIndex, hindex, if_pos (by omega)]
        cases done with
        | nil =>
          rw [hmembers] at hsome
          exact absurd rfl hsome
        | cons a rest =>
          have hc : s.queue.subscribeConsumers.getD s.queue.nextPushIndex.toNat 0 = a := by
            rw [hnext, hmembers]
            rfl
          refine ⟨⟨[a], rest⟩, by rw [hc]; rfl, ?_, ?_, ?_, ?_⟩
          · simp [Rota.members, hsubs, hmembers]
          · simp [hnext]
          · simpa [Rota.members] using hnodup
          · show (s.served ++ [s.queue.subscribeConsumers.getD _ 0]).getLast? = _
            rw [hc, List.getLast?_concat]
            rfl

/-- The consumer that the rota serves follows the one that was served last. -/
theorem Points.follows (h : Points s r) {c : Int} (hserve : r.serve = some (c, r')) :
    Follows s.queue.subscribeConsumers s.served c := by
  obtain ⟨hmembers, _, _, hlast⟩ := h
  obtain ⟨done, todo⟩ := r
  dsimp only [Rota.members] at hmembers hlast
  unfold Follows
  rw [hlast, hmembers]
  rcases done.eq_nil_or_concat with rfl | ⟨xs, last, rfl⟩
  · cases todo with
    | nil => cases hserve
    | cons b rest =>
      cases hserve
      rfl
  · rw [List.concat_eq_append] at hserve ⊢
    rw [List.getLast?_concat]
    refine ⟨xs.length, by simp, ?_⟩
    cases todo with
    | cons b rest =>
      cases hserve
      have hlt : xs.length + 1 < (xs ++ [last] ++ c :: rest).length := by
        simp only [List.length_append, List.length_cons, List.length_nil]
        omega
      rw [Nat.mod_eq_of_lt hlt]
      simp
    | nil =>
      have hlen : xs.length + 1 = (xs ++ [last] ++ []).length := by simp
      rw [← hlen, Nat.mod_self, List.append_nil]
      cases xs with
      | nil =>
        cases hserve
        rfl
      | cons a xs =>
        cases hserve
        rfl

/-- The consumers that were served are those up to the index. -/
theorem Points.take (h : Points s r) :
    s.queue.subscribeConsumers.take (s.queue.pushIndex + 1).toNat = r.done := by
  rw [h.index, Int.toNat_natCast, h.members]
  exact List.take_left

/-- A consumer that is yet to be served leaves. -/
theorem Points.cancelSubscribe (h : Points s r) {c : Int} (hdone : c ∉ r.done) :
    (s.queue.cancelSubscribe c).subscribeConsumers = r.done ++ r.todo.erase c := by
  have htodo : r.todo.Nodup := (List.nodup_append.mp h.nodup).2.1
  have hleft : r.done.filter (fun x => decide (x ≠ c)) = r.done := by
    refine List.filter_eq_self.mpr fun x hx => decide_eq_true ?_
    rintro rfl
    exact hdone hx
  rw [MessageQueue.cancelSubscribe]
  dsimp only
  rw [h.members, eraseConsumer_of_nodup c h.nodup, Rota.members, List.filter_append,
    htodo.erase_eq_filter, hleft]
  refine congrArg _ (List.filter_congr fun x _ => ?_)
  by_cases hx : x = c
  · simp [hx]
  · simp [hx]

/-- A call that meets the condition is a move of the rota. -/
theorem Points.call (h : Points s r) {call : Call} (hbehind : Behind s call)
    (hcall : s.call call = some s') :
    ∃ o r', Move r o r' ∧ Points s' r' ∧ s'.served = s.served ++ o.toList := by
  have hidle : s'.queue.subscribeConsumers = s.queue.subscribeConsumers →
      s'.queue.pushIndex = s.queue.pushIndex → s'.served = s.served →
        ∃ o r', Move r o r' ∧ Points s' r' ∧ s'.served = s.served ++ o.toList :=
    fun hsubs hindex hserved =>
      ⟨none, r, .idle, h.same hsubs hindex hserved, by rw [hserved]; exact (List.append_nil _).symm⟩
  cases call with
  | addMessage m =>
    cases hcall
    obtain ⟨hsubs, hindex⟩ := addMessage_turns s.queue m
    exact hidle hsubs hindex rfl
  | addMessageFront m =>
    cases hcall
    obtain ⟨hsubs, hindex⟩ := addMessageFront_turns s.queue m
    exact hidle hsubs hindex rfl
  | addSubscribe c level =>
    cases hcall
    by_cases hin : c ∈ s.queue.subscribeConsumers
    · have hadd : s.queue.addSubscribe c level = { s.queue with confirmLevel := level } :=
        if_pos hin
      rw [hadd] at hidle ⊢
      exact hidle rfl rfl rfl
    · have hadd : s.queue.addSubscribe c level =
          { s.queue with
            subscribeConsumers := s.queue.subscribeConsumers ++ [c]
            confirmLevel := level } := if_neg hin
      have hmove : Move r none ⟨r.done, r.todo ++ [c]⟩ := .join c (h.members ▸ hin)
      refine ⟨none, _, hmove, ⟨?_, ?_, hmove.nodup h.nodup, h.last⟩, (List.append_nil _).symm⟩
      · rw [hadd]
        dsimp only
        rw [h.members, Rota.members, Rota.members, List.append_assoc]
      · rw [hadd]
        exact h.index
  | cancelSubscribe c =>
    cases hcall
    have hdone : c ∉ r.done := by
      rw [← h.take]
      exact hbehind
    have hcancel := h.cancelSubscribe hdone
    by_cases hin : c ∈ r.todo
    · have hmove : Move r none ⟨r.done, r.todo.erase c⟩ := .leave c hin
      exact ⟨none, _, hmove, ⟨hcancel, h.index, hmove.nodup h.nodup, h.last⟩,
        (List.append_nil _).symm⟩
    · rw [List.erase_of_not_mem hin] at hcancel
      exact hidle (hcancel.trans h.members.symm) rfl rfl
  | popFrontMsg bPush =>
    simp only [Pushes.call] at hcall
    split at hcall
    · cases hcall
      exact hidle rfl rfl rfl
    · next m q' hpop =>
      cases hcall
      cases bPush with
      | true =>
        obtain ⟨r', hserve, hpoints⟩ := h.push hpop
        exact ⟨some m.index, r', .serve _ _ hserve, hpoints, rfl⟩
      | false =>
        rw [popFrontMsg_false] at hpop
        obtain ⟨hsubs, hindex⟩ := takeFront_turns hpop
        exact hidle hsubs hindex rfl

/-! ## Runs -/

/-- The constructor. -/
def fresh (strName : Name) (iPriority : Int) (bDurable bAutoDel : Bool) : Pushes :=
  ⟨{ queueName := strName, priority := iPriority, durable := bDurable, autoDel := bAutoDel }, []⟩

theorem points_fresh (n : Name) (p : Int) (b a : Bool) : Points (fresh n p b a) ⟨[], []⟩ :=
  ⟨rfl, rfl, List.nodup_nil, rfl⟩

theorem Points.run {calls : List Call} (h : Points s r)
    (hbehind : Runs.AllSteps Pushes.call Behind s calls)
    (hrun : Runs.run Pushes.call s calls = some s') : ∃ r', Points s' r' := by
  have hstep : ∀ s call s', (∃ r, Points s r) → Behind s call → s.call call = some s' →
      ∃ r', Points s' r' := by
    rintro s call s' ⟨r, hr⟩ hb hcall
    obtain ⟨_, r', _, hr', _⟩ := hr.call hb hcall
    exact ⟨r', hr'⟩
  exact Runs.invariant hstep ⟨r, h⟩ hbehind hrun

/-- Calls during which `d` is subscribed are a course of the rota. -/
theorem Points.course {d : Int} (calls : List Call) {s s' : Pushes} {r : Rota Int}
    (h : Points s r) (hbehind : Runs.AllSteps Pushes.call Behind s calls)
    (hd : Runs.AllSteps Pushes.call (fun s _ => d ∈ s.queue.subscribeConsumers) s calls)
    (hrun : Runs.run Pushes.call s calls = some s') (hlast : d ∈ s'.queue.subscribeConsumers) :
    ∃ l r', Course d r l r' ∧ Points s' r' ∧ s'.served = s.served ++ l := by
  induction calls generalizing s r with
  | nil =>
    cases hrun
    exact ⟨[], r, .nil r (h.members ▸ hlast), h, (List.append_nil _).symm⟩
  | cons call calls ih =>
    obtain ⟨s₁, hcall, hrest⟩ := Runs.run_cons_some hrun
    obtain ⟨o, r₁, hmove, h₁, hserved₁⟩ := h.call hbehind.1 hcall
    obtain ⟨l, r', hcourse, h', hserved⟩ := ih h₁ (hbehind.2 s₁ hcall) (hd.2 s₁ hcall) hrest
    refine ⟨o.toList ++ l, r', .cons (h.members ▸ hd.1) hmove hcourse, h', ?_⟩
    rw [hserved, hserved₁, List.append_assoc]

/-- The consumer that was pushed to is the one that the rota serves. -/
theorem Points.pushed (h : Points s r) {c : Int} (hpush : Pushed s s' c) :
    ∃ r', r.serve = some (c, r') ∧ Points s' r' := by
  obtain ⟨hcall, hserved⟩ := hpush
  simp only [Pushes.call] at hcall
  split at hcall
  · cases hcall
    have hlen := congrArg List.length hserved
    rw [List.length_append, List.length_singleton] at hlen
    omega
  · next m q hpop =>
    cases hcall
    obtain ⟨r', hserve, hpoints⟩ := h.push hpop
    obtain rfl : m.index = c := List.singleton_inj.mp (List.append_cancel_left hserved)
    exact ⟨r', hserve, hpoints⟩

/-- As long as every consumer that leaves stands behind the one served last, all get their
turns, whatever else happens to the queue. -/
theorem fair_of_behind (n : Name) (p : Int) (b a : Bool) (calls : List Call)
    (h : Runs.AllSteps Pushes.call Behind (fresh n p b a) calls) : Fair (fresh n p b a) calls := by
  refine ⟨?_, ?_⟩
  · rintro pre post s s' c rfl hpre hpush
    obtain ⟨r, hr⟩ := (points_fresh n p b a).run (Runs.allSteps_append h hpre).1 hpre
    obtain ⟨r', hserve, _⟩ := hr.pushed hpush
    exact hr.follows hserve
  · rintro pre mid post s₁ s₂ s₃ s₄ c d between rfl hpre hpush hmid hserved hout hagain hne hd hd₃
    obtain ⟨hbefore, hafter⟩ := Runs.allSteps_append h hpre
    obtain ⟨r₁, hr₁⟩ := (points_fresh n p b a).run hbefore hpre
    obtain ⟨r₂, hserve, hr₂⟩ := hr₁.pushed hpush
    have hbehind := (Runs.allSteps_append (hafter.2 s₂ hpush.1) hmid).1
    obtain ⟨l, r₃, hcourse, hr₃, hserved'⟩ := hr₂.course mid hbehind hd hmid hd₃
    obtain rfl : l = between := List.append_cancel_left (hserved'.symm.trans hserved)
    obtain ⟨r₄, hserve', _⟩ := hr₃.pushed hagain
    exact hcourse.mem_of_served hr₂.nodup hne
      (ahead_of_serve hserve hr₁.nodup hcourse.mem_start hne) hout hserve'

end Turns

section Examples

attribute [local instance] Platform.plain

/-- A message for whoever is next. -/
def plainMessage : SeverStoreMessage :=
  { id := 0, msgSeq := 0, priority := -1, durable := false, msgBody := [] }

/-- Three consumers and four messages. -/
def threeConsumers : List Call :=
  [.addSubscribe 1 0, .addSubscribe 2 0, .addSubscribe 3 0, .addMessage plainMessage,
    .addMessage plainMessage, .addMessage plainMessage, .addMessage plainMessage]

/-- Consumer 3 leaves before it has had its turn. -/
theorem fair_threeConsumers : Fair (fresh [] (-1) false false)
    (threeConsumers ++ [.popFrontMsg true, .cancelSubscribe 3, .popFrontMsg true]) :=
  fair_of_behind [] (-1) false false _ (by decide +kernel)

/-- Consumer 1 leaves after consumer 2 was served, and 2 is served again although 3 waits. -/
theorem unfair_threeConsumers : ¬ Fair (fresh [] (-1) false false)
    (threeConsumers ++ [.popFrontMsg true, .popFrontMsg true, .cancelSubscribe 1,
      .popFrontMsg true]) := by
  intro h
  have hstates : (Runs.run Pushes.call (fresh [] (-1) false false)
      (threeConsumers ++ [.popFrontMsg true])).bind (fun s₁ =>
        (s₁.call (.popFrontMsg true)).bind fun s₂ =>
          (Runs.run Pushes.call s₂ [.cancelSubscribe 1]).bind fun s₃ =>
            (s₃.call (.popFrontMsg true)).map fun s₄ =>
              ([s₁.served, s₂.served, s₃.served, s₄.served], s₂.queue.subscribeConsumers,
                s₃.queue.subscribeConsumers)) =
      some ([[1], [1, 2], [1, 2], [1, 2, 2]], [1, 2, 3], [2, 3]) := by decide +kernel
  obtain ⟨s₁, hpre, hstates⟩ := Option.bind_eq_some_iff.mp hstates
  obtain ⟨s₂, hpush, hstates⟩ := Option.bind_eq_some_iff.mp hstates
  obtain ⟨s₃, hmid, hstates⟩ := Option.bind_eq_some_iff.mp hstates
  obtain ⟨s₄, hagain, hstates⟩ := Option.map_eq_some_iff.mp hstates
  simp only [Prod.mk.injEq, List.cons.injEq, and_true] at hstates
  obtain ⟨⟨h₁, h₂, h₃, h₄⟩, hsubs₂, hsubs₃⟩ := hstates
  have hwaits : 3 ∈ s₂.queue.subscribeConsumers ∧ 3 ∈ s₃.queue.subscribeConsumers := by
    rw [hsubs₂, hsubs₃]
    decide
  have hnone := h.turn (threeConsumers ++ [.popFrontMsg true]) [.cancelSubscribe 1] [] s₁ s₂ s₃ s₄
    2 3 [] rfl hpre ⟨hpush, by rw [h₁, h₂]; rfl⟩ hmid (by rw [h₂, h₃]; rfl) List.not_mem_nil
    ⟨hagain, by rw [h₃, h₄]; rfl⟩ (by decide) ⟨hwaits.1, fun _ _ => trivial⟩ hwaits.2
  cases hnone

end Examples

end MessageQueue

end Wsmq
