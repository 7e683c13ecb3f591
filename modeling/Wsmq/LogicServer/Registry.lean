import Wsmq.LogicServer.StepRefinement

/-!
# The two maps of queues

`QueuesRegistered` says that every live queue stands in the map it belongs to.  It
is lost exactly when a subscription is cancelled while another client is
subscribed: `OnCancelSubscribe` takes the queue out of `m_mSubcribeQueues` and puts
it back into neither map.
-/

namespace Wsmq.LogicServer
open Lib Lib.ByteString Lib.Packing Lib.Brokers

section Invariant

variable [Platform] {st st' : LogicServer}

/-- Every live queue is in exactly one of the maps, under its own name. -/
structure QueuesRegistered (st : LogicServer) : Prop where
  disjoint : ∀ n, n ∈ st.unSubcribeQueues → n ∉ st.subcribeQueues
  registered : ∀ id q, st.queues id = some q →
    Xor (st.unSubcribeQueues.lookup q.queueName = some id)
      (st.subcribeQueues.lookup q.queueName = some id)
  ownName : ∀ n id,
    st.unSubcribeQueues.lookup n = some id ∨ st.subcribeQueues.lookup n = some id →
      ∃ q, st.queues id = some q ∧ q.queueName = n
  subscribed : ∀ id q, st.queues id = some q →
    (st.subcribeQueues.lookup q.queueName = some id ↔ q.subscribeConsumers ≠ [])

theorem exists_queue {id : QueueId} {r : Queue Name Int} (h : (broker st).queues id = some r) :
    ∃ q, st.queues id = some q ∧ queueOf q = r := Option.map_eq_some_iff.mp h

/-- What is registered under a name is alive under it. -/
theorem exists_queue_of_entry (hr : Registered (broker st)) {n : Name} {id : QueueId}
    (h : st.unSubcribeQueues.lookup n = some id ∨ st.subcribeQueues.lookup n = some id) :
    ∃ q, st.queues id = some q ∧ q.queueName = n := by
  rcases h with h | h
  · obtain ⟨r, hr, hn, _⟩ := hr.idle n id h
    obtain ⟨q, hq, rfl⟩ := exists_queue hr
    exact ⟨q, hq, hn⟩
  · obtain ⟨r, hr, hn, _⟩ := hr.active n id h
    obtain ⟨q, hq, rfl⟩ := exists_queue hr
    exact ⟨q, hq, hn⟩

theorem consumers_of_idle (hr : Registered (broker st)) {n : Name} {id : QueueId}
    {q : MessageQueue} (hq : st.queues id = some q)
    (h : st.unSubcribeQueues.lookup n = some id) : q.subscribeConsumers = [] := by
  obtain ⟨r, hr, _, hnil⟩ := hr.idle n id h
  cases (broker_queues hq).symm.trans hr
  exact hnil

theorem consumers_of_active (hr : Registered (broker st)) {n : Name} {id : QueueId}
    {q : MessageQueue} (hq : st.queues id = some q)
    (h : st.subcribeQueues.lookup n = some id) : q.subscribeConsumers ≠ [] := by
  obtain ⟨r, hr, _, hne⟩ := hr.active n id h
  cases (broker_queues hq).symm.trans hr
  exact hne

/-- Once the tables hold nothing wrong, only completeness is left to ask for. -/
theorem queuesRegistered_iff (hr : Registered (broker st)) :
    QueuesRegistered st ↔ Complete (broker st) := by
  constructor
  · intro h id r hr
    obtain ⟨q, hq, rfl⟩ := exists_queue hr
    rcases (h.registered id q hq) with ⟨hidle, _⟩ | ⟨hactive, _⟩
    · exact Or.inr hidle
    · exact Or.inl hactive
  · intro hc
    refine ⟨?_, ?_, fun n id h => exists_queue_of_entry hr h, ?_⟩
    · intro n hun hsub
      obtain ⟨id, hid⟩ := Option.isSome_iff_exists.mp (AList.lookup_isSome.mpr hsub)
      exact AList.lookup_eq_none.mp (hr.disjoint n id hid) hun
    · intro id q hq
      rcases hc id _ (broker_queues hq) with ha | hi
      · refine Or.inr ⟨ha, fun hi => ?_⟩
        exact consumers_of_active hr hq ha (consumers_of_idle hr hq hi)
      · refine Or.inl ⟨hi, fun ha => ?_⟩
        exact consumers_of_active hr hq ha (consumers_of_idle hr hq hi)
    · intro id q hq
      refine ⟨fun ha => consumers_of_active hr hq ha, fun hne => ?_⟩
      rcases hc id _ (broker_queues hq) with ha | hi
      · exact ha
      · exact absurd (consumers_of_idle hr hq hi) hne

/-! ## The step that loses a queue -/

theorem dispatch_cancel {p : Package} (hcmd : p.cmdId = cmdCancelSubcribe) :
    st.dispatch p = st.onCancelSubscribe p.body p.clientIndex := by
  unfold dispatch
  rw [hcmd]
  rfl

/-- A cancellation with another subscriber left is the move `lose`. -/
theorem broker_of_loses {a : Step} {id : QueueId} (hcap : st.queueToPersis.cap = none)
    (hr : Registered (broker st)) (hl : Loses st a id) (h : step st a = some st') :
    Move (broker st) (.lose id) (broker st') := by
  obtain ⟨p, n, q, rfl, hlen, hcmd, hn, hsub, hq, hothers⟩ := hl
  obtain ⟨o, hproc, rfl⟩ := Option.map_eq_some_iff.mp h
  rw [processRecvData, if_neg (Nat.not_lt.mpr hlen), dispatch_cancel hcmd] at hproc
  have hun : n ∉ st.unSubcribeQueues := AList.lookup_eq_none.mp (hr.disjoint n id hsub)
  obtain ⟨m, hm, hproc⟩ := onCancelSubscribe_some hproc
  cases hn.symm.trans hm
  rw [LogicServer.cancelSubscribe, if_neg hun] at hproc
  simp only [hsub, hq, Option.bind_some] at hproc
  rw [broker_reply]
  exact (cancelQueue_loses hcap hr hsub hq hothers hproc).1

/-- No step takes the tables out of order or gives the channel a bound. -/
theorem registered_of_step (hcap : st.queueToPersis.cap = none) (hr : Registered (broker st))
    {a : Step} (h : step st a = some st') :
    st'.queueToPersis.cap = none ∧ Registered (broker st') := by
  have hf := step_follows hcap hr h
  exact ⟨hf.cap.trans hcap, hf.registered hr⟩

/-- A step keeps all queues registered exactly when it loses none. -/
theorem complete_of_step (hcap : st.queueToPersis.cap = none) (hr : Registered (broker st))
    (hc : Complete (broker st)) {a : Step} (h : step st a = some st') :
    (∀ id, ¬ Loses st a id) ↔ Complete (broker st') := by
  constructor
  · intro hkeeps
    have hmoves := (step_follows hcap hr h).moves
    have hinv : Registered (broker st') ∧ Complete (broker st') := by
      refine hmoves.invariant (fun b l b' (hb : Registered b ∧ Complete b) hl hm => ?_) ⟨hr, hc⟩
      refine ⟨registered_of_move hb.1 hm, complete_of_move hb.1 hb.2 ?_ hm⟩
      cases l with
      | keep => trivial
      | delete id => trivial
      | lose id => exact hkeeps id hl
    exact hinv.2
  · intro hc' id hl
    exact not_complete_of_lose hr (broker_of_loses hcap hr hl h) hc'

theorem broker_start (capConnect capPersis : Option Nat) :
    broker (start capConnect capPersis) = Broker.start := by
  simp only [broker, Broker.start, start]
  rfl

/-! ## Whole runs -/

/-- In a run where every packet to the persistence server is accepted, all queues are
registered in all states exactly when no step loses one. -/
theorem queuesRegistered_throughout_iff {capConnect : Option Nat} {as : List Step}
    (hrun : run (start capConnect none) as = some st) :
    Runs.AllSteps step (fun st a => ∀ id, ¬ Loses st a id) (start capConnect none) as ↔
      ∀ pre post mid, as = pre ++ post → run (start capConnect none) pre = some mid →
        QueuesRegistered mid := by
  have hinv : ∀ st a st', st.queueToPersis.cap = none ∧ Registered (broker st) →
      step st a = some st' → st'.queueToPersis.cap = none ∧ Registered (broker st') :=
    fun _ _ _ hs h => registered_of_step hs.1 hs.2 h
  have hstart : (start capConnect none).queueToPersis.cap = none ∧
      Registered (broker (start capConnect none)) :=
    ⟨rfl, broker_start capConnect none ▸ registered_start⟩
  have hcomplete : Complete (broker (start capConnect none)) :=
    broker_start capConnect none ▸ complete_start
  rw [Runs.allSteps_iff hinv (fun st a st' hs hc h => complete_of_step hs.1 hs.2 hc h) hstart
    hcomplete hrun]
  refine forall₅_congr fun pre post mid _ hmid => ?_
  exact (queuesRegistered_iff (Runs.invariant_of_step hinv hstart hmid).2).symm

end Invariant

section Runs

attribute [local instance] Platform.plain

/-- Client 1 makes a queue, and clients 1 and 2 subscribe to it. -/
def twoSubscribers : List Step := [.makeQueue 1 false, .subscribe 1, .subscribe 2]

theorem queuesRegistered_throughout_twoSubscribers :
    ∃ st, run (start none none) twoSubscribers = some st ∧
      (Runs.AllSteps step (fun st a => ∀ id, ¬ Loses st a id) (start none none) twoSubscribers ↔
        ∀ pre post mid, twoSubscribers = pre ++ post → run (start none none) pre = some mid →
          QueuesRegistered mid) := by
  have hsome : (run (start none none) twoSubscribers).isSome := by decide +kernel
  obtain ⟨st, hst⟩ := Option.isSome_iff_exists.mp hsome
  exact ⟨st, hst, queuesRegistered_throughout_iff hst⟩

/-- The queue of client 2 is gone from both maps when client 1 cancels. -/
theorem cancel_unregisters :
    ∃ st, run (start none none) (twoSubscribers ++ [.cancel 1]) = some st ∧
      ¬ QueuesRegistered st := by
  have hfacts : ((run (start none none) (twoSubscribers ++ [.cancel 1])).map fun st =>
      ((st.queues 0).map (·.queueName), st.unSubcribeQueues.lookup (ascii "q"),
        st.subcribeQueues.lookup (ascii "q"))) = some (some (ascii "q"), none, none) := by
    decide +kernel
  obtain ⟨st, hst, hst'⟩ := Option.map_eq_some_iff.mp hfacts
  obtain ⟨hq, hun, hsub⟩ : (st.queues 0).map (·.queueName) = some (ascii "q") ∧
      st.unSubcribeQueues.lookup (ascii "q") = none ∧
      st.subcribeQueues.lookup (ascii "q") = none := by simpa using hst'
  obtain ⟨q, hq, hname⟩ := Option.map_eq_some_iff.mp hq
  refine ⟨st, hst, fun hreg => ?_⟩
  rcases hreg.registered 0 q hq with ⟨h, _⟩ | ⟨h, _⟩
  · rw [hname, hun] at h
    cases h
  · rw [hname, hsub] at h
    cases h

end Runs

end Wsmq.LogicServer
