import Wsmq.LogicServer.Registry

/-!
# No message is lost

A message copy stays in one place as long as its queue is neither deleted nor lost
(`Loses`).  A lost queue is not found when a client exits, and the messages sent to
that client are dropped.
-/

namespace Wsmq.LogicServer
open Lib Lib.ByteString Lib.Packing Lib.Brokers

section Places

variable [Platform] {st st' : LogicServer} {id : QueueId} {n : Name}

/-- How often the message copy `m` is in the heap or the list of the queue. -/
def inQueue (st : LogicServer) (id : QueueId) (m : Nat) : Nat :=
  match st.queues id with
  | none => 0
  | some q => (q.messages.map (·.id)).count m

/-- How often `m` is in `m_NeedAckMessageList` under the queue name `n`. -/
def inNeedAck (st : LogicServer) (n : Name) (m : Nat) : Nat :=
  ((st.needAckMessageList.filter fun x => x.queueName = n).map (·.id)).count m

/-- How often `m` was deleted, sent in no-ack mode or acknowledged. -/
def departed (st : LogicServer) (m : Nat) : Nat := (st.history.filterMap goneOf).count m

/-- The message copy `m` of the queue `id`, which is called `n`, is in one place. -/
def Accounted (st : LogicServer) (id : QueueId) (n : Name) (m : Nat) : Prop :=
  inQueue st id m + inNeedAck st n m + departed st m = 1

theorem count_held (st : LogicServer) (id : QueueId) (m : Nat) :
    ((broker st).held id).count m = inQueue st id m := by
  unfold Broker.held inQueue
  cases hq : st.queues id with
  | none => simp [broker, hq]
  | some q => simp [broker, hq, queueOf]

omit [Platform] in
/-- All entries of `m` are under the name `n`, so none is left out. -/
theorem count_awaiting {l : List SeverStoreMessage} {m : Nat}
    (h : ∀ x ∈ awaitingOf l, x.1 = m → x.2 = n) :
    ((awaitingOf l).map Prod.fst).count m =
      ((l.filter fun x => x.queueName = n).map (·.id)).count m := by
  induction l with
  | nil => rfl
  | cons x l ih =>
    have hcons : awaitingOf (x :: l) = (x.id, x.queueName) ::ₘ awaitingOf l := rfl
    rw [hcons] at h
    have hl := ih fun y hy => h y (Multiset.mem_cons_of_mem hy)
    rw [hcons, Multiset.map_cons, Multiset.count_cons, hl]
    by_cases hm : m = x.id
    · have hn : x.queueName = n := h (x.id, x.queueName) (Multiset.mem_cons_self _ _) hm.symm
      simp [hm, hn]
    · rw [if_neg hm, List.filter_cons]
      split
      · rw [List.map_cons, List.count_cons_of_ne (Ne.symm hm)]
        rfl
      · rfl

theorem accounted_of_inOnePlace {m : Nat} (h : InOnePlace (broker st) id n m) :
    Accounted st id n m := by
  have hone := h.one
  have hgone : (broker st).gone.count m = departed st m := Multiset.coe_count _ _
  have hawaiting : ((broker st).awaiting.map Prod.fst).count m = inNeedAck st n m :=
    count_awaiting h.named
  rwa [Broker.places, count_held, hawaiting, hgone] at hone

/-! ## Runs -/

theorem custody_of_step {a : Step} (hcap : st.queueToPersis.cap = none)
    (hc : Custody (broker st) id) (hdelete : ¬ Deletes st a id) (hlose : ¬ Loses st a id)
    (h : step st a = some st') : Custody (broker st') id := by
  refine (step_follows hcap hc.registered h).moves.invariant
    (fun b l b' (hb : Custody b id) hl hm => ?_) hc
  refine custody_of_move hb ?_ hm
  cases l with
  | keep => trivial
  | delete i =>
    rintro rfl
    exact hdelete hl
  | lose i =>
    rintro rfl
    exact hlose hl

theorem custody_of_run {as : List Step} (hrun : run (start none none) as = some st)
    (hdelete : Runs.AllSteps step (fun st a => ¬ Deletes st a id) (start none none) as)
    (hlose : Runs.AllSteps step (fun st a => ¬ Loses st a id) (start none none) as) :
    st.queueToPersis.cap = none ∧ Custody (broker st) id := by
  have hstart : (start none none).queueToPersis.cap = none ∧
      Custody (broker (start none none)) id :=
    ⟨rfl, broker_start none none ▸ custody_start id⟩
  refine Runs.invariant
    (fun s a t (hs : s.queueToPersis.cap = none ∧ Custody (broker s) id) hg h => ?_) hstart
    (Runs.allSteps_and hdelete hlose) hrun
  have hf := step_follows hs.1 hs.2.registered h
  exact ⟨hf.cap.trans hs.1, custody_of_step hs.1 hs.2 hg.1 hg.2 h⟩

theorem mem_created {n : Name} {autoDel : Bool} :
    (id, n, autoDel) ∈ (broker st).created ↔ Event.created id n autoDel ∈ st.history := by
  simp only [broker, Multiset.mem_coe, List.mem_filterMap]
  constructor
  · rintro ⟨e, he, hof⟩
    cases e <;> cases hof
    exact he
  · intro he
    exact ⟨_, he, rfl⟩

theorem mem_stored_of_history {c s : Int} {level m : Nat}
    (h : Event.stored c s level m id ∈ st.history) : (m, id) ∈ (broker st).stored :=
  Multiset.mem_coe.mpr (List.mem_filterMap.mpr ⟨_, h, rfl⟩)

/-! ## The exit of a client -/

theorem sweepExchanges_needAck (mode : SweepMode) (id : QueueId)
    (entries : List (Σ _ : Name, Exchange)) (st : LogicServer) :
    (sweepExchanges mode id entries st).2.needAckMessageList = st.needAckMessageList := by
  induction entries generalizing st with
  | nil => rfl
  | cons e rest ih =>
    have hsend : ∀ (st : LogicServer) (pExchange : Exchange),
        (st.sendDeleteExchange mode pExchange).2.needAckMessageList = st.needAckMessageList := by
      intro st pExchange
      unfold sendDeleteExchange sendPersis
      split <;> rfl
    simp only [sweepExchanges]
    split
    · exact ih st
    · split
      · split
        · exact hsend _ _
        · exact (ih _).trans (hsend _ _)
      · exact ih _

theorem exitQueue_needAck {entry : Σ _ : Name, QueueId} {q : MessageQueue}
    (h : st.exitQueue entry q = some st') :
    st'.needAckMessageList = st.needAckMessageList := by
  obtain ⟨r, hsend, rfl⟩ := Option.map_eq_some_iff.mp h
  have hr : r.2.needAckMessageList = st.needAckMessageList := by
    unfold sendSubscribers at hsend
    split at hsend
    · obtain ⟨packed, _, rfl⟩ := Option.map_eq_some_iff.mp hsend
      rfl
    · cases hsend
      rfl
  split
  · dsimp only
    split
    · unfold exitAutoDelete sendPersis
      split <;> exact (sweepExchanges_needAck _ _ _ _).trans hr
    · exact hr
  · exact hr

theorem exitQueues_needAck {c : Int} (entries : List (Σ _ : Name, QueueId)) {st st' : LogicServer}
    (h : exitQueues c entries st = some st') :
    st'.needAckMessageList = st.needAckMessageList := by
  induction entries generalizing st with
  | nil =>
    cases h
    rfl
  | cons e rest ih =>
    simp only [exitQueues] at h
    split at h
    · cases h
    · split at h
      · obtain ⟨st₁, hone, hloop⟩ := Option.bind_eq_some_iff.mp h
        have hsame := exitQueue_needAck hone
        exact (ih hloop).trans hsame
      · have hsame := ih h
        exact hsame

/-- Giving messages back adds to the queues and leaves the tables alone. -/
theorem requeue_keeps (l : List SeverStoreMessage) {st st' : LogicServer}
    (h : requeue l st = some st') (m : Nat) (id : QueueId) :
    inQueue st id m ≤ inQueue st' id m := by
  induction l generalizing st with
  | nil =>
    cases h
    exact Nat.le_refl _
  | cons x l ih =>
    simp only [requeue] at h
    split at h
    · exact ih h
    · next i hfind =>
      split at h
      · cases h
      · next q hq =>
        refine Nat.le_trans ?_ (ih h)
        have hadd := (MessageQueue.addMessageFront_added q x).perm.count_eq m
        unfold inQueue setQueue
        by_cases hi : id = i
        · subst hi
          simp only [hq, if_pos, hadd, List.count_cons]
          exact Nat.le_add_right _ _
        · simp only [if_neg hi, Nat.le_refl]

theorem requeue_mem (l : List SeverStoreMessage) {st st' : LogicServer} {x : SeverStoreMessage}
    (h : requeue l st = some st') (hx : x ∈ l) (hfind : st.findQueue x.queueName = some id) :
    0 < inQueue st' id x.id := by
  induction l generalizing st with
  | nil => cases hx
  | cons y l ih =>
    simp only [requeue] at h
    rcases List.mem_cons.mp hx with rfl | hx
    · rw [hfind] at h
      dsimp only at h
      split at h
      · cases h
      · next q hq =>
        refine Nat.lt_of_lt_of_le ?_ (requeue_keeps l h x.id id)
        have hadd := (MessageQueue.addMessageFront_added q x).perm.count_eq x.id
        simp only [inQueue, setQueue, if_pos, hadd, List.count_cons_self]
        exact Nat.succ_pos _
    · split at h
      · exact ih h hx hfind
      · split at h
        · cases h
        · exact ih h hx hfind

theorem dispatch_clientExit {p : Package} (hcmd : p.cmdId = cmdClientExit) :
    st.dispatch p = (st.onClientExit p.clientIndex).map fun st => ⟨success, [], st⟩ := by
  unfold dispatch
  rw [hcmd]
  rfl

/-- Whatever was sent to the exiting client comes back into a queue that is kept. -/
theorem onClientExit_gives_back {c : Int} (hcap : st.queueToPersis.cap = none)
    (hc : Custody (broker st) id) (hcreated : Event.created id n false ∈ st.history)
    (h : st.onClientExit c = some st') {x : SeverStoreMessage}
    (hx : x ∈ st.needAckMessageList) (hindex : x.index = c) (hname : x.queueName = n) :
    0 < inQueue st' id x.id := by
  obtain ⟨st₁, hqueues, hneed⟩ := Option.bind_eq_some_iff.mp h
  have hloop : Follows (fun l => l = .keep) st st₁ :=
    clientQueues_follows rfl hcap hc.registered hqueues
  have hkept : Registered (broker st₁) ∧ Kept (broker st₁) id n := by
    refine hloop.moves.invariant
      (fun b l b' (hb : Registered b ∧ Kept b id n) hl hm => ?_) ⟨hc.registered, ?_⟩
    · have hspares : l.Spares id := hl ▸ trivial
      exact ⟨registered_of_move hb.1 hm, kept_of_move hb.1 hb.2 hspares hm⟩
    · exact hc.kept n (mem_created.mpr hcreated)
  have hfind : st₁.findQueue n = some id := (broker_find n).symm.trans hkept.2.found
  obtain ⟨st₂, hrequeue, rfl⟩ := Option.map_eq_some_iff.mp hneed
  have hmem : x ∈ st₁.needAckMessageList.filter fun m => m.index = c := by
    rw [exitQueues_needAck _ hqueues]
    exact List.mem_filter.mpr ⟨hx, by simpa using hindex⟩
  have hback := requeue_mem _ hrequeue hmem (hname ▸ hfind)
  exact hback

/-! ## Runs without certain commands -/

theorem not_deletes_of_cmdId {as : List Step} (h : ∀ a ∈ as, a.cmdId ≠ some cmdDeleteQueue)
    (st : LogicServer) (id : QueueId) :
    Runs.AllSteps step (fun st a => ¬ Deletes st a id) st as := by
  refine Runs.allSteps_of_mem (fun st a ha hd => ?_) st
  obtain ⟨p, n, rfl, _, hcmd, _⟩ := hd
  exact h _ ha (congrArg some hcmd)

theorem not_loses_of_cmdId {as : List Step} (h : ∀ a ∈ as, a.cmdId ≠ some cmdCancelSubcribe)
    (st : LogicServer) (id : QueueId) :
    Runs.AllSteps step (fun st a => ¬ Loses st a id) st as := by
  refine Runs.allSteps_of_mem (fun st a ha hl => ?_) st
  obtain ⟨p, n, q, rfl, _, hcmd, _⟩ := hl
  exact h _ ha (congrArg some hcmd)

/-- In a run in which the queue is neither deleted nor lost, every message copy stored in
it is in one place, and the exit of a client brings its messages back. -/
theorem stored_messages_accounted {as : List Step} (hrun : run (start none none) as = some st)
    (hcreated : Event.created id n false ∈ st.history)
    (hdelete : Runs.AllSteps step (fun st a => ¬ Deletes st a id) (start none none) as)
    (hlose : Runs.AllSteps step (fun st a => ¬ Loses st a id) (start none none) as) :
    (∀ c s level m, Event.stored c s level m id ∈ st.history → Accounted st id n m) ∧
      ∀ p st', step st (.package p) = some st' → p.packLen ≤ p.len → p.cmdId = cmdClientExit →
        ∀ x ∈ st.needAckMessageList, x.index = p.clientIndex → x.queueName = n →
          0 < inQueue st' id x.id := by
  obtain ⟨hcap, hc⟩ := custody_of_run hrun hdelete hlose
  constructor
  · intro c s level m hstored
    exact accounted_of_inOnePlace
      (hc.onePlace n (mem_created.mpr hcreated) m (mem_stored_of_history hstored))
  · intro p st' h hlen hcmd x hx hindex hname
    obtain ⟨o, hproc, rfl⟩ := Option.map_eq_some_iff.mp h
    rw [processRecvData, if_neg (Nat.not_lt.mpr hlen), dispatch_clientExit hcmd] at hproc
    obtain ⟨st₁, hexit, rfl⟩ := Option.map_eq_some_iff.mp hproc
    exact onClientExit_gives_back hcap hc hcreated hexit hx hindex hname

end Places

section Runs

attribute [local instance] Platform.plain

/-- Client 3 publishes a message to the queue of `twoSubscribers`; it is pushed to client 1. -/
def publishToFirst : List Step :=
  [.makeExchange 3, .makeBinding 3, .publish 3 false 0 0, .pushMessage]

theorem stored_messages_accounted_twoSubscribers :
    ∃ st, run (start none none) (twoSubscribers ++ publishToFirst) = some st ∧
      Event.created 0 (ascii "q") false ∈ st.history ∧
      (∀ c s level m, Event.stored c s level m 0 ∈ st.history →
        Accounted st 0 (ascii "q") m) ∧
      ∀ p st', step st (.package p) = some st' → p.packLen ≤ p.len → p.cmdId = cmdClientExit →
        ∀ x ∈ st.needAckMessageList, x.index = p.clientIndex → x.queueName = ascii "q" →
          0 < inQueue st' 0 x.id := by
  have hhistory : (run (start none none) (twoSubscribers ++ publishToFirst)).map (·.history) =
      some [.created 0 (ascii "q") false, .stored 3 0 0 0 0] := by decide +kernel
  obtain ⟨st, hst, hh⟩ := Option.map_eq_some_iff.mp hhistory
  have hcreated : Event.created 0 (ascii "q") false ∈ st.history := by
    rw [hh]
    exact List.mem_cons_self
  exact ⟨st, hst, hcreated, stored_messages_accounted hst hcreated
    (not_deletes_of_cmdId (by decide +kernel) _ 0) (not_loses_of_cmdId (by decide +kernel) _ 0)⟩

/-- Client 2 cancels its subscription, then client 1 exits: its message is nowhere. -/
theorem exit_drops :
    ∃ st, run (start none none)
        (twoSubscribers ++ publishToFirst ++ [.cancel 2, .exit 1]) = some st ∧
      Event.created 0 (ascii "q") false ∈ st.history ∧
      Runs.AllSteps step (fun st a => ¬ Deletes st a 0) (start none none)
        (twoSubscribers ++ publishToFirst ++ [.cancel 2, .exit 1]) ∧
      Event.stored 3 0 0 0 0 ∈ st.history ∧ ¬ Accounted st 0 (ascii "q") 0 := by
  have hfacts : (run (start none none)
      (twoSubscribers ++ publishToFirst ++ [.cancel 2, .exit 1])).map (fun st =>
        (st.history, inQueue st 0 0, inNeedAck st (ascii "q") 0)) =
      some ([.created 0 (ascii "q") false, .stored 3 0 0 0 0], 0, 0) := by decide +kernel
  obtain ⟨st, hst, hst'⟩ := Option.map_eq_some_iff.mp hfacts
  obtain ⟨hh, hqueue, hneed⟩ : st.history = [.created 0 (ascii "q") false, .stored 3 0 0 0 0] ∧
      inQueue st 0 0 = 0 ∧ inNeedAck st (ascii "q") 0 = 0 := by simpa using hst'
  refine ⟨st, hst, ?_, not_deletes_of_cmdId (by decide +kernel) _ 0, ?_, ?_⟩
  · rw [hh]
    exact List.mem_cons_self
  · rw [hh]
    exact List.mem_cons_of_mem _ List.mem_cons_self
  · rw [Accounted, hqueue, hneed, departed, hh]
    decide

end Runs

end Wsmq.LogicServer
