import Wsmq.Processes

/-!
# Waiting for each other

The connect server takes nothing out of `LOGIC_TO_CONNECT` while it has client packages to
enqueue, and the logic server takes nothing out of `CONNECT_TO_LOGIC` while it has messages to
enqueue.
-/

namespace Wsmq.Processes
open Lib Lib.ByteString Lib.Fifo Lib.CircularWait

section

variable [Platform] {s t : Processes}

def link (s : Processes) : Link Block Block.cost :=
  ⟨s.toLogic, s.toConnect, s.connectPending, s.logicPending⟩

/-- Both processes repeat `Enqueue`, and neither package fits. -/
def CircularWait (s : Processes) : Prop := s.link.Waits

instance (s : Processes) : Decidable s.CircularWait := inferInstanceAs (Decidable s.link.Waits)

/-- The packages that a turn of the logic server is going to enqueue. -/
def sends (s : Processes) (a : LogicServer.Step) : List (Block × Bool) :=
  ((s.turn a).map logicPending).getD []

/-- The queue from clients once the turn has taken its package. -/
def leftToLogic (s : Processes) (a : LogicServer.Step) : BlockQueue :=
  ((s.turn a).map toLogic).getD s.toLogic

/-- When a process gets packages to enqueue, they all fit, or those of the other process do. -/
def RoomFor (s : Processes) : Step → Prop
  | .receive iIndex packs =>
    Passes s.toLogic (s.received iIndex packs) ∨ Passes s.toConnect s.logicPending
  | .turn a => Passes (s.leftToLogic a) s.connectPending ∨ Passes s.toConnect (s.sends a)
  | .multiAckTurn =>
    Passes s.toLogic s.connectPending ∨
      Passes s.toConnect ((s.multiAckTurn.map logicPending).getD [])
  | _ => True

/-! ## Steps -/

theorem safe_of_idle (h : s.connectPending = []) : s.link.Safe := by
  refine Or.inl ?_
  show Passes s.toLogic s.connectPending
  rw [h]
  trivial

@[simp] theorem connectPending_setSlot (s : Processes) (k : Int) (c : ClientSlot) :
    (s.setSlot k c).connectPending = s.connectPending := rfl

@[simp] theorem connectPending_closed (s : Processes) (k : Int) :
    (s.closed k).connectPending = s.connectPending := by
  unfold closed clientExit
  dsimp only
  split <;> rfl

@[simp] theorem connectPending_accept (s : Processes) :
    s.accept.connectPending = s.connectPending := by
  unfold accept
  split <;> rfl

@[simp] theorem connectPending_dispatch (s : Processes) (b : Block) (sendOk : Bool) :
    (s.dispatch b sendOk).connectPending = s.connectPending := by
  unfold dispatch
  split_ifs
  · rfl
  · rfl
  · rfl
  · exact connectPending_closed s _
  · rfl
  · rfl

theorem connectPending_dequeue {sendOk : Bool} (h : s.dequeueToConnect sendOk = some t) :
    t.connectPending = s.connectPending := by
  obtain ⟨r, _, h⟩ := Option.bind_eq_some_iff.mp h
  split at h
  · cases h
  · cases h
    exact connectPending_dispatch _ _ _

theorem connectPending_sendBuffered (s : Processes) (k : Int) (sendOk : Bool) :
    (s.sendBuffered k sendOk).connectPending = s.connectPending := by
  unfold sendBuffered
  split
  · rfl
  · exact connectPending_closed s k

/-- A turn leaves the queue to the connect server and its packages alone. -/
theorem turn_link {a : LogicServer.Step} (h : s.turn a = some t) :
    t.link = ⟨s.leftToLogic a, s.toConnect, s.connectPending, s.sends a⟩ := by
  have hlogic : t.toLogic = s.leftToLogic a := by
    rw [leftToLogic, h]
    rfl
  have hsends : t.logicPending = s.sends a := by
    rw [sends, h]
    rfl
  have hkeep : t.toConnect = s.toConnect ∧ t.connectPending = s.connectPending := by
    cases a with
    | package p =>
      obtain ⟨r, _, h⟩ := Option.bind_eq_some_iff.mp h
      split at h
      · cases h
      · obtain ⟨st, _, rfl⟩ := Option.map_eq_some_iff.mp h
        exact ⟨rfl, rfl⟩
    | drainConnect => cases h
    | pushMessage =>
      obtain ⟨st, _, rfl⟩ := Option.map_eq_some_iff.mp h
      exact ⟨rfl, rfl⟩
    | sendMultiAck =>
      obtain ⟨st, _, rfl⟩ := Option.map_eq_some_iff.mp h
      exact ⟨rfl, rfl⟩
    | drainPersis =>
      obtain ⟨st, _, rfl⟩ := Option.map_eq_some_iff.mp h
      exact ⟨rfl, rfl⟩
    | rehash tables =>
      obtain ⟨st, _, rfl⟩ := Option.map_eq_some_iff.mp h
      exact ⟨rfl, rfl⟩
  rw [link, hlogic, hsends, hkeep.1, hkeep.2]

theorem multiAckTurn_link (h : s.multiAckTurn = some t) :
    t.link = ⟨s.toLogic, s.toConnect, s.connectPending,
      (s.multiAckTurn.map logicPending).getD []⟩ := by
  rw [h]
  unfold multiAckTurn at h
  split at h
  · cases h
  · cases h
    rfl

/-- A step leads from a state in which one process gets through to such a state exactly when
there is room for what it brings. -/
theorem step_safe_iff {a : Step} (hs : s.link.Safe) (h : s.step a = some t) :
    RoomFor s a ↔ t.link.Safe := by
  cases a with
  | accept =>
    obtain ⟨_, h⟩ | ⟨hidle, h⟩ := LogicServer.ite_eq_some h
    · cases h
    · cases h
      exact iff_of_true trivial (safe_of_idle ((connectPending_accept s).trans (not_not.mp hidle)))
  | receive k packs =>
    obtain ⟨_, h⟩ | ⟨_, h⟩ := LogicServer.ite_eq_some h
    · cases h
    · obtain ⟨_, h⟩ | ⟨_, h⟩ := LogicServer.ite_eq_some h
      · cases h
      · cases h
        exact Iff.rfl
  | close k =>
    obtain ⟨_, h⟩ | ⟨hidle, h⟩ := LogicServer.ite_eq_some h
    · cases h
    · cases h
      refine iff_of_true trivial (safe_of_idle ((connectPending_closed s k).trans ?_))
      exact not_not.mp fun hne => hidle (Or.inl hne)
  | putToLogic =>
    cases h
    exact iff_of_true trivial hs.putLeft
  | dispatch sendOk =>
    obtain ⟨_, h⟩ | ⟨hidle, h⟩ := LogicServer.ite_eq_some h
    · cases h
    · exact iff_of_true trivial
        (safe_of_idle ((connectPending_dequeue h).trans (not_not.mp hidle)))
  | sendBuffered k sendOk =>
    obtain ⟨_, h⟩ | ⟨hidle, h⟩ := LogicServer.ite_eq_some h
    · cases h
    · cases h
      exact iff_of_true trivial
        (safe_of_idle ((connectPending_sendBuffered s k sendOk).trans (not_not.mp hidle)))
  | turn a =>
    obtain ⟨_, h⟩ | ⟨_, h⟩ := LogicServer.ite_eq_some h
    · cases h
    · rw [turn_link h]
      exact Iff.rfl
  | multiAckTurn =>
    obtain ⟨_, h⟩ | ⟨_, h⟩ := LogicServer.ite_eq_some h
    · cases h
    · rw [multiAckTurn_link h]
      exact Iff.rfl
  | putToConnect =>
    cases h
    exact iff_of_true trivial hs.putRight

/-! ## Runs -/

/-- The attempts of the two processes: `true` stands for the connect server. -/
def attempt (b : Bool) : Step := if b then .putToLogic else .putToConnect

theorem run_attempts (s : Processes) (turns : List Bool) :
    ∃ t, run s (turns.map attempt) = some t ∧ t.link = s.link.goOn turns := by
  induction turns generalizing s with
  | nil => exact ⟨s, rfl, rfl⟩
  | cons b turns ih =>
    cases b with
    | true => exact ih { s with
        toLogic := (put s.toLogic s.connectPending).1
        connectPending := (put s.toLogic s.connectPending).2 }
    | false => exact ih { s with
        toConnect := (put s.toConnect s.logicPending).1
        logicPending := (put s.toConnect s.logicPending).2 }

theorem safe_iff_attempts :
    s.link.Safe ↔ ∀ (turns : List Bool) (t : Processes),
      run s (turns.map attempt) = some t → ¬ t.CircularWait := by
  rw [Link.safe_iff]
  constructor
  · intro h turns t hrun
    obtain ⟨t', hrun', hlink⟩ := run_attempts s turns
    cases hrun.symm.trans hrun'
    rw [CircularWait, hlink]
    exact h turns
  · intro h turns
    obtain ⟨t, hrun, hlink⟩ := run_attempts s turns
    rw [← hlink]
    exact h turns t hrun

/-- There is always room for what a step brings exactly when the processes, from whatever state
of the run they go on trying, never come to wait for each other. -/
theorem no_circularWait_iff {n : Nat} {capToLogic capToConnect capPersis : Option Nat}
    {as : List Step} (hrun : run (start n capToLogic capToConnect capPersis) as = some t) :
    Runs.AllSteps step RoomFor (start n capToLogic capToConnect capPersis) as ↔
      ∀ pre post r, as = pre ++ post →
        run (start n capToLogic capToConnect capPersis) pre = some r →
          ∀ (turns : List Bool) (r' : Processes),
            run r (turns.map attempt) = some r' → ¬ r'.CircularWait := by
  have hgood : ∀ s a t, True → s.link.Safe → step s a = some t →
      (RoomFor s a ↔ t.link.Safe) := fun s a t _ hs h => step_safe_iff hs h
  rw [Runs.allSteps_iff (fun _ _ _ _ _ => trivial) hgood trivial (safe_of_idle rfl) hrun]
  constructor
  · intro h pre post r has hr
    exact safe_iff_attempts.mp (h pre post r has hr)
  · intro h pre post r has hr
    exact safe_iff_attempts.mpr (h pre post r has hr)

end

section Runs

attribute [local instance] Platform.plain

def publishHello : LogicServer.Step := .publish 2 false 0 0

/-- Client 1 subscribes to "q", and client 2 publishes three messages that lead to it. -/
def threeMessages : List Step :=
  [.accept, .accept] ++ ask 1 (.makeQueue 1 false) ++ [.dispatch true] ++
    ask 1 (.makeExchange 1) ++ [.dispatch true] ++ ask 1 (.makeBinding 1) ++ [.dispatch true] ++
    ask 1 (.subscribe 1) ++ [.dispatch true] ++
    ask 2 publishHello ++ ask 2 publishHello ++ ask 2 publishHello

theorem no_circularWait_threeMessages :
    ∃ t, run (start 3 (some 130) (some 70) none) threeMessages = some t ∧
      (Runs.AllSteps step RoomFor (start 3 (some 130) (some 70) none) threeMessages ↔
        ∀ pre post r, threeMessages = pre ++ post →
          run (start 3 (some 130) (some 70) none) pre = some r →
            ∀ (turns : List Bool) (r' : Processes),
              run r (turns.map attempt) = some r' → ¬ r'.CircularWait) := by
  have hsome : (run (start 3 (some 130) (some 70) none) threeMessages).isSome := by
    decide +kernel
  obtain ⟨t, ht⟩ := Option.isSome_iff_exists.mp hsome
  exact ⟨t, ht, no_circularWait_iff ht⟩

/-- The three messages are on their way to client 1 when client 2 publishes two more. -/
def moreMessages : List Step :=
  threeMessages ++ [.turn .pushMessage, .receive 2 [requestBytes publishHello,
    requestBytes publishHello], .putToConnect, .putToConnect, .putToLogic]

theorem circularWait_reached :
    ∃ t, run (start 3 (some 130) (some 70) none) moreMessages = some t ∧ t.CircularWait := by
  have hwait : (run (start 3 (some 130) (some 70) none) moreMessages).any
      fun t => decide t.CircularWait := by decide +kernel
  obtain ⟨t, ht, hcircular⟩ := (Option.any_eq_true _ _).mp hwait
  exact ⟨t, ht, of_decide_eq_true hcircular⟩

end Runs

end Wsmq.Processes
