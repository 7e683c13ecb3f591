import Wsmq.LogicServer.Refinement

/-!
# Every step of the logic server is a sequence of broker moves

One lemma for each handler, and `step_follows` for the whole step.
-/

namespace Wsmq.LogicServer
open Lib Lib.ByteString Lib.Brokers

variable [Platform] {allowed : Label → Prop} {st st' : LogicServer}

/-! ## Tables -/

omit [Platform] in
theorem lookup_insert (m : QueueMap) (n : Name) (id : QueueId) :
    (fun x => (m.insert n id).lookup x) = Function.update (fun x => m.lookup x) n (some id) := by
  funext x
  rcases eq_or_ne x n with rfl | h
  · rw [AList.lookup_insert, Function.update_self]
  · rw [AList.lookup_insert_ne h, Function.update_of_ne h]

omit [Platform] in
theorem lookup_erase (m : QueueMap) (n : Name) :
    (fun x => (m.erase n).lookup x) = Function.update (fun x => m.lookup x) n none := by
  funext x
  rcases eq_or_ne x n with rfl | h
  · rw [AList.lookup_erase, Function.update_self]
  · rw [AList.lookup_erase_ne h, Function.update_of_ne h]

@[simp] theorem broker_insertUnSubcribe (n : Name) (id : QueueId) :
    broker (st.insertUnSubcribe n id) =
      { broker st with idle := Function.update (broker st).idle n (some id) } :=
  congrArg (fun f => { broker st with idle := f }) (lookup_insert st.unSubcribeQueues n id)

@[simp] theorem broker_eraseUnSubcribe (n : Name) :
    broker (st.eraseUnSubcribe n) =
      { broker st with idle := Function.update (broker st).idle n none } :=
  congrArg (fun f => { broker st with idle := f }) (lookup_erase st.unSubcribeQueues n)

@[simp] theorem broker_insertSubcribe (n : Name) (id : QueueId) :
    broker (st.insertSubcribe n id) =
      { broker st with active := Function.update (broker st).active n (some id) } :=
  congrArg (fun f => { broker st with active := f }) (lookup_insert st.subcribeQueues n id)

@[simp] theorem broker_eraseSubcribe (n : Name) :
    broker (st.eraseSubcribe n) =
      { broker st with active := Function.update (broker st).active n none } :=
  congrArg (fun f => { broker st with active := f }) (lookup_erase st.subcribeQueues n)

theorem broker_newQueue (q : MessageQueue) :
    broker (st.newQueue q) =
      { (broker st).setQueue st.nextQueue (some (queueOf q)) with
        idle := Function.update (broker st).idle q.queueName (some st.nextQueue)
        created := (st.nextQueue, q.queueName, q.autoDel) ::ₘ (broker st).created
        nextQueue := st.nextQueue + 1 } := by
  have hrecord := broker_record (st.setQueue st.nextQueue q)
    (.created st.nextQueue q.queueName q.autoDel)
  rw [broker_setQueue] at hrecord
  have hinsert := lookup_insert st.unSubcribeQueues q.queueName st.nextQueue
  exact congrArg₂ (fun (b : Broker Name Int) f => { b with idle := f, nextQueue := b.nextQueue + 1 })
    hrecord hinsert

theorem broker_find (n : Name) : (broker st).find n = st.findQueue n := by
  unfold Broker.find findQueue
  rfl

theorem findQueue_of_subcribe {n : Name} {id : QueueId}
    (h : st.subcribeQueues.lookup n = some id) : st.findQueue n = some id := by
  simp only [findQueue, h]

/-- The name in the package is the queue's own. -/
theorem queueName_of_find (hr : Registered (broker st)) {n : Name} {id : QueueId}
    {q : MessageQueue} (h : st.findQueue n = some id) (hq : st.queues id = some q) :
    q.queueName = n := by
  obtain ⟨r, hr, hn⟩ := find_some hr ((broker_find n).trans h)
  simp only [broker, hq, Option.map_some, Option.some.injEq] at hr
  rw [← hn, ← hr]
  rfl

theorem broker_queues {id : QueueId} {q : MessageQueue} (hq : st.queues id = some q) :
    (broker st).queues id = some (queueOf q) := by simp [broker, hq]

theorem consumers_nodup (hr : Registered (broker st)) {id : QueueId} {q : MessageQueue}
    (hq : st.queues id = some q) : q.subscribeConsumers.Nodup :=
  hr.nodup id (queueOf q) (broker_queues hq)

/-! ## Packets that are accepted -/

theorem follows_sendPersis (bDurable : Bool) (bs : Bytes) :
    Follows allowed st (st.sendPersis bDurable bs).2 :=
  .of_eq (cap_sendPersis _ _) (broker_sendPersis _ _)

/-- The packet about the subscribers changes only the channel, and comes through. -/
theorem sendSubscribers_some {q : MessageQueue} {bIsCreate : Bool} {r : Int × LogicServer}
    (h : st.sendSubscribers q bIsCreate = some r) (hcap : st.queueToPersis.cap = none) :
    r.1 = success ∧ r.2 = { st with queueToPersis := r.2.queueToPersis } ∧
      r.2.queueToPersis.cap = st.queueToPersis.cap := by
  unfold sendSubscribers at h
  split at h
  · obtain ⟨packed, _, rfl⟩ := Option.map_eq_some_iff.mp h
    exact ⟨enqueuePersis_ret hcap _, rfl, cap_enqueuePersis _⟩
  · cases h
    exact ⟨rfl, rfl, rfl⟩

/-! ## Exchanges and bindings -/

theorem onCreateExchange_follows {buf : Mem} {iLen : Nat} {o : Outcome}
    (h : st.onCreateExchange buf iLen = some o) : Follows allowed st o.server := by
  obtain ⟨n, _, rfl⟩ := onCreateExchange_some h
  dsimp only [createExchange]
  split
  · exact .refl _
  · split <;> exact .of_eq (cap_sendPersis _ _) (broker_sendPersis _ _)

theorem onCreateBinding_follows {buf : Mem} {o : Outcome}
    (h : st.onCreateBinding buf = some o) : Follows allowed st o.server := by
  obtain ⟨strExchangeName, strQueueName, strBindingKey, _, _, _, h⟩ := onCreateBinding_some h
  dsimp only [createBinding] at h
  split at h
  · cases h
    exact .refl _
  · cases h
    exact .refl _
  · obtain ⟨r, hsend, rfl⟩ := Option.map_eq_some_iff.mp h
    have hr : Follows allowed st r.2 := by
      unfold sendBindings at hsend
      split at hsend
      · obtain ⟨packed, _, rfl⟩ := Option.map_eq_some_iff.mp hsend
        exact .of_eq (cap_enqueuePersis _) rfl
      · cases hsend
        exact .of_eq rfl rfl
    split <;> exact hr

theorem onDeleteExchange_follows {buf : Mem} {iLen : Nat} {o : Outcome}
    (h : st.onDeleteExchange buf iLen = some o) : Follows allowed st o.server := by
  obtain ⟨n, _, rfl⟩ := onDeleteExchange_some h
  dsimp only [deleteExchange]
  split
  · exact .refl _
  · split
    · exact follows_sendPersis _ _
    · exact (follows_sendPersis _ _).trans (.of_eq rfl rfl)

/-! ## Queues -/

theorem onCreateQueue_follows (hkeep : allowed .keep) {buf : Mem} {iLen : Nat} {o : Outcome}
    (h : st.onCreateQueue buf iLen = some o) : Follows allowed st o.server := by
  obtain ⟨n, _, rfl⟩ := onCreateQueue_some h
  dsimp only [createQueue]
  split
  · exact .refl _
  · next hnew =>
    obtain ⟨hun, hsub⟩ := not_or.mp hnew
    have hmove := Move.create (b := broker st) n (readBool buf 35)
      (AList.lookup_eq_none.mpr hun) (AList.lookup_eq_none.mpr hsub)
    have hcreate : ∀ q : MessageQueue, queueOf q = ⟨n, [], readBool buf 35, 0⟩ →
        Follows allowed st (st.newQueue q) := by
      intro q hq
      refine .of_move hkeep rfl ?_
      have hname : q.queueName = n := congrArg Queue.name hq
      have hauto : q.autoDel = readBool buf 35 := congrArg Queue.autoDelete hq
      rw [broker_newQueue, hq, hname, hauto]
      exact hmove
    split <;> exact (hcreate _ (by simp [queueOf, MessageQueue.messages, MsgHeap.items_empty])).trans
      (follows_sendPersis _ _)

theorem onRecvMessage_follows (hkeep : allowed .keep) (hr : Registered (broker st)) {buf : Mem}
    {c : Int} {o : Outcome} (h : st.onRecvMessage buf c = some o) :
    Follows allowed st o.server := by
  obtain ⟨n, _, h⟩ := onRecvMessage_some h
  dsimp only [recvMessage] at h
  split at h
  · cases h
    exact .refl _
  · next id hfind =>
    obtain ⟨q, hq, h⟩ := Option.bind_eq_some_iff.mp h
    have hname := queueName_of_find hr hfind hq
    split at h
    · cases h
      exact .refl _
    · next pMsg q' hpop =>
      have hpop := MessageQueue.popFrontMsg_some hpop
      obtain ⟨st₁, hsend, rfl⟩ := Option.map_eq_some_iff.mp h
      unfold sendPulled at hsend
      dsimp only at hsend
      split at hsend
      · exact follows_await hkeep hq hpop (by rfl) hname.symm hsend
      · have hst := enqueueConnectWait_some hsend
        refine follows_deliver hkeep hq hpop ?_ ?_
        · rw [hst]
          exact cap_sendConsumed _ _ _
        · rw [hst, broker_queueToConnect, broker_record, broker_sendConsumed, broker_record]

theorem subscribeQueue_follows (hkeep : allowed .keep) (hcap : st.queueToPersis.cap = none)
    (hr : Registered (broker st)) {n : Name} {level : Nat} {c : Int} {id : QueueId}
    {q : MessageQueue} {o : Outcome} (hfind : st.findQueue n = some id)
    (hq : st.queues id = some q) (h : st.subscribeQueue n level c id q = some o) :
    Follows allowed st o.server := by
  obtain ⟨r, hsend, rfl⟩ := Option.map_eq_some_iff.mp h
  obtain ⟨hret, hsame, hcap'⟩ := sendSubscribers_some hsend hcap
  obtain rfl := queueName_of_find hr hfind hq
  have hof : queueOf (q.addSubscribe c level) =
      { queueOf q with consumers := (q.addSubscribe c level).subscribeConsumers } := by
    unfold MessageQueue.addSubscribe
    split <;> rfl
  have hb : broker r.2 = (broker st).setQueue id
      (some { queueOf q with consumers := (q.addSubscribe c level).subscribeConsumers }) := by
    rw [hsame, ← hof, ← broker_setQueue]
    rfl
  have hmove := Move.subscribe (b := broker st) id (queueOf q) _
    (broker_queues hq) ((broker_find _).trans hfind) (q.addSubscribe_ne_nil c level)
    (MessageQueue.addSubscribe_nodup (consumers_nodup hr hq) c level)
  rw [if_neg (not_not.mpr hret)]
  split
  · refine .of_move hkeep hcap' ?_
    rw [broker_insertSubcribe, broker_eraseUnSubcribe, hb]
    exact hmove
  · next hun =>
    have hidle : (broker st).idle (queueOf q).name = none := AList.lookup_eq_none.mpr hun
    have hactive : (broker st).active (queueOf q).name = some id := by
      rcases (find_eq_some _ _ _).mp ((broker_find _).trans hfind) with ha | ⟨_, hi⟩
      · exact ha
      · cases hidle.symm.trans hi
    rw [Function.update_eq_self_iff.mpr hidle.symm,
      Function.update_eq_self_iff.mpr hactive.symm] at hmove
    refine .of_move hkeep hcap' ?_
    rw [hb]
    exact hmove

theorem onCreateSubscribe_follows (hkeep : allowed .keep) (hcap : st.queueToPersis.cap = none)
    (hr : Registered (broker st)) {buf : Mem} {c : Int} {o : Outcome}
    (h : st.onCreateSubscribe buf c = some o) : Follows allowed st o.server := by
  obtain ⟨n, _, h⟩ := onCreateSubscribe_some h
  dsimp only [createSubscribe] at h
  split at h
  · cases h
    exact .refl _
  · next id hfind =>
    obtain ⟨q, hq, h⟩ := Option.bind_eq_some_iff.mp h
    exact subscribeQueue_follows hkeep hcap hr hfind hq h

/-! ## Deleting a queue -/

/-- The queue is emptied and taken out of the exchanges. -/
theorem detachQueue_broker (mode : SweepMode) (id : QueueId) (q : MessageQueue)
    (st : LogicServer) :
    broker ((st.detachQueue mode id q).2.freeQueue id) = broker (st.freeQueue id) ∧
      (st.detachQueue mode id q).2.queueToPersis.cap = st.queueToPersis.cap := by
  obtain ⟨hb, hcap⟩ := sweepExchanges_broker mode id st.exchanges.entries
    (st.setQueue id q.clearMessage)
  refine ⟨?_, hcap⟩
  rw [broker_freeQueue, detachQueue, hb, broker_setQueue, broker_freeQueue]
  simp only [Broker.setQueue, Function.update_idem]

theorem onDeleteQueue_follows (hcap : st.queueToPersis.cap = none) (hr : Registered (broker st))
    {buf : Mem} {iLen : Nat} {o : Outcome}
    (hdelete : ∀ n id, readName buf 0 = some n → st.findQueue n = some id → allowed (.delete id))
    (h : st.onDeleteQueue buf iLen = some o) : Follows allowed st o.server := by
  obtain ⟨n, hn, h⟩ := onDeleteQueue_some h
  dsimp only [deleteQueue] at h
  split at h
  · cases h
    exact .refl _
  · next id hfind =>
    obtain ⟨q, hq, rfl⟩ := Option.map_eq_some_iff.mp h
    obtain rfl := queueName_of_find hr hfind hq
    rw [if_neg (not_not.mpr (sendPersis_ret (by exact hcap) _ _))]
    obtain ⟨hb, hcap'⟩ := detachQueue_broker .silent id q
      (((st.eraseUnSubcribe q.queueName).eraseSubcribe q.queueName).sendPersis q.durable
        (persisPacket cmdDeleteQueue (buf.read 0 iLen))).2
    refine .of_move (hdelete _ id hn hfind) (hcap'.trans (cap_sendPersis _ _)) ?_
    rw [hb, broker_freeQueue, broker_sendPersis, broker_eraseSubcribe, broker_eraseUnSubcribe]
    exact Move.delete id (queueOf q) (broker_queues hq) ((broker_find _).trans hfind)

/-! ## Cancelling a subscription -/

theorem cancelAutoDelete_broker (st : LogicServer) (hcap : st.queueToPersis.cap = none)
    (n : Name) (id : QueueId) (q : MessageQueue) :
    broker (st.cancelAutoDelete n id q).server = broker (st.freeQueue id) ∧
      (st.cancelAutoDelete n id q).server.queueToPersis.cap = st.queueToPersis.cap := by
  obtain ⟨hb, hcap'⟩ := detachQueue_broker .checked id q st
  have hnone : (st.detachQueue .checked id q).1 = none :=
    sweepExchanges_none .checked id _ (by exact hcap)
  unfold cancelAutoDelete
  simp only [hnone]
  rw [if_neg (not_not.mpr (sendPersis_ret (hcap'.trans hcap) _ _))]
  refine ⟨?_, (cap_sendPersis _ _).trans hcap'⟩
  rw [← hb, broker_freeQueue, broker_freeQueue, broker_sendPersis]

section Cancel

variable {n : Name} {c : Int} {id : QueueId} {q : MessageQueue} {o : Outcome}

/-- The packet comes through, so the subscription is really cancelled. -/
theorem cancelQueue_some (hcap : st.queueToPersis.cap = none)
    (h : st.cancelQueue n c id q = some o) :
    ∃ st₁, o = st₁.afterCancel n id (q.cancelSubscribe c) ∧
      st₁.queueToPersis.cap = st.queueToPersis.cap ∧
      broker st₁ = (broker st).setQueue id
        (some { queueOf q with consumers := (q.cancelSubscribe c).subscribeConsumers }) := by
  obtain ⟨r, hsend, rfl⟩ := Option.map_eq_some_iff.mp h
  obtain ⟨hret, hsame, hcap'⟩ := sendSubscribers_some hsend hcap
  refine ⟨r.2, if_neg (not_not.mpr hret), hcap', ?_⟩
  rw [hsame]
  exact broker_setQueue st id _

/-- With another client subscribed, the queue ends in neither map. -/
theorem cancelQueue_loses (hcap : st.queueToPersis.cap = none) (hr : Registered (broker st))
    (hsub : st.subcribeQueues.lookup n = some id) (hq : st.queues id = some q)
    (hothers : ∃ d ∈ q.subscribeConsumers, d ≠ c) (h : st.cancelQueue n c id q = some o) :
    Move (broker st) (.lose id) (broker o.server) ∧
      o.server.queueToPersis.cap = st.queueToPersis.cap := by
  obtain ⟨st₁, rfl, hcap₁, hb⟩ := cancelQueue_some hcap h
  obtain rfl := queueName_of_find hr (findQueue_of_subcribe hsub) hq
  have hnd := consumers_nodup hr hq
  have hne := (MessageQueue.cancelSubscribe_ne_nil_iff hnd c).mpr hothers
  have hsubscribed : ¬ ¬ (q.cancelSubscribe c).isSubscribe = true := by
    simpa [MessageQueue.isSubscribe] using hne
  have hname : (q.cancelSubscribe c).queueName = q.queueName := rfl
  unfold afterCancel
  rw [hname, if_neg fun h => hsubscribed h.2, if_neg hsubscribed]
  refine ⟨?_, hcap₁⟩
  rw [broker_eraseSubcribe, hb]
  exact Move.lose id (queueOf q) _ (broker_queues hq) hsub hne
    (hnd.sublist (MessageQueue.eraseConsumer_sublist c _))

/-- Without, it is deleted or goes to the other map. -/
theorem cancelQueue_last (hkeep : allowed .keep) (hcap : st.queueToPersis.cap = none)
    (hr : Registered (broker st)) (hsub : st.subcribeQueues.lookup n = some id)
    (hq : st.queues id = some q) (hlast : ¬ ∃ d ∈ q.subscribeConsumers, d ≠ c)
    (h : st.cancelQueue n c id q = some o) : Follows allowed st o.server := by
  obtain ⟨st₁, rfl, hcap₁, hb⟩ := cancelQueue_some hcap h
  obtain rfl := queueName_of_find hr (findQueue_of_subcribe hsub) hq
  have hnil : (q.cancelSubscribe c).subscribeConsumers = [] := by
    by_contra hne
    exact hlast ((MessageQueue.cancelSubscribe_ne_nil_iff (consumers_nodup hr hq) c).mp hne)
  have hunsubscribed : ¬ (q.cancelSubscribe c).isSubscribe = true := by
    simp [MessageQueue.isSubscribe, hnil]
  have hname : (q.cancelSubscribe c).queueName = q.queueName := rfl
  rw [hnil] at hb
  unfold afterCancel
  rw [hname]
  split
  · next hauto =>
    obtain ⟨hfree, hcap₂⟩ := cancelAutoDelete_broker (st₁.eraseSubcribe q.queueName)
      (hcap₁.trans hcap) q.queueName id (q.cancelSubscribe c)
    refine .of_move hkeep (hcap₂.trans hcap₁) ?_
    rw [hfree, broker_freeQueue, broker_eraseSubcribe, hb]
    simp only [Broker.setQueue, Function.update_idem]
    exact Move.autoDelete id (queueOf q) (broker_queues hq) hauto.1 hsub
  · refine .of_move hkeep hcap₁ ?_
    rw [broker_insertUnSubcribe, broker_eraseSubcribe, hb]
    exact Move.unsubscribe id (queueOf q) (broker_queues hq) hsub

end Cancel

theorem onCancelSubscribe_follows (hkeep : allowed .keep) (hcap : st.queueToPersis.cap = none)
    (hr : Registered (broker st)) {buf : Mem} {c : Int} {o : Outcome}
    (hlose : ∀ n id q, readName buf 0 = some n → st.subcribeQueues.lookup n = some id →
      st.queues id = some q → (∃ d ∈ q.subscribeConsumers, d ≠ c) → allowed (.lose id))
    (h : st.onCancelSubscribe buf c = some o) : Follows allowed st o.server := by
  obtain ⟨n, hn, h⟩ := onCancelSubscribe_some h
  dsimp only [LogicServer.cancelSubscribe] at h
  split at h
  · cases h
    exact .refl _
  · split at h
    · cases h
      exact .refl _
    · next id hsub =>
      obtain ⟨q, hq, h⟩ := Option.bind_eq_some_iff.mp h
      by_cases hothers : ∃ d ∈ q.subscribeConsumers, d ≠ c
      · obtain ⟨hmove, hcap'⟩ := cancelQueue_loses hcap hr hsub hq hothers h
        exact .of_move (hlose n id q hn hsub hq hothers) hcap' hmove
      · exact cancelQueue_last hkeep hcap hr hsub hq hothers h

/-! ## Acknowledgements -/

omit [Platform] in
theorem perm_cons_eraseP {α : Type} {p : α → Bool} {l : List α} {a : α}
    (h : l.find? p = some a) : l.Perm (a :: l.eraseP p) := by
  induction l with
  | nil => cases h
  | cons b l ih =>
    rw [List.find?_cons] at h
    split at h
    · next hb =>
      cases h
      rw [List.eraseP_cons_of_pos hb]
    · next hb =>
      rw [List.eraseP_cons_of_neg (by simp [hb])]
      exact ((ih h).cons b).trans (List.Perm.swap a b _)

theorem broker_setNeedAck (l : List SeverStoreMessage) :
    broker (st.setNeedAck l) = { broker st with awaiting := awaitingOf l } := rfl

theorem onClientAck_follows (hkeep : allowed .keep) (buf : Mem) (c : Int) :
    Follows allowed st (st.onClientAck buf c) := by
  rw [onClientAck_single]
  unfold ackSingle
  split
  · exact .refl _
  · next pMsg hfind =>
    refine .of_move hkeep (cap_sendConsumed _ _ _) ?_
    rw [dropAcked, broker_record, broker_sendConsumed, broker_setNeedAck]
    refine Move.ack pMsg.id pMsg.queueName _ ?_
    exact Multiset.coe_eq_coe.mpr ((perm_cons_eraseP hfind).map _)

/-! ## Client exit -/

section Exit

variable {c : Int}

theorem exitAutoDelete_broker (st : LogicServer) (id : QueueId) (q : MessageQueue) :
    broker (st.exitAutoDelete id q) = broker (st.freeQueue id) ∧
      (st.exitAutoDelete id q).queueToPersis.cap = st.queueToPersis.cap := by
  obtain ⟨hb, hcap⟩ := detachQueue_broker .unchecked id q st
  refine ⟨?_, (cap_sendPersis _ _).trans hcap⟩
  rw [exitAutoDelete, ← hb, broker_freeQueue, broker_freeQueue, broker_sendPersis]

/-- The queue of an entry whose subscriber has left. -/
theorem exitQueue_follows (hkeep : allowed .keep) (hcap : st.queueToPersis.cap = none)
    (hr : Registered (broker st)) {entry : Σ _ : Name, QueueId} {q : MessageQueue}
    (hentry : (broker st).active entry.1 = some entry.2) (hq : st.queues entry.2 = some q)
    (h : (st.setQueue entry.2 (q.cancelSubscribe c)).exitQueue entry (q.cancelSubscribe c) =
      some st') :
    Follows allowed st st' ∧
      ∀ n, n ≠ entry.1 → (broker st').active n = (broker st).active n := by
  obtain ⟨r, hsend, rfl⟩ := Option.map_eq_some_iff.mp h
  obtain ⟨_, hsame, hcap'⟩ := sendSubscribers_some hsend hcap
  obtain ⟨n, id⟩ := entry
  have hfind : (broker st).find n = some id := (find_eq_some _ _ _).mpr (Or.inl hentry)
  obtain rfl := queueName_of_find hr ((broker_find n).symm.trans hfind) hq
  have hb : broker r.2 = (broker st).setQueue id
      (some { queueOf q with consumers := (q.cancelSubscribe c).subscribeConsumers }) := by
    rw [hsame]
    exact broker_setQueue st id _
  have hname : (q.cancelSubscribe c).queueName = q.queueName := rfl
  rw [hname]
  split
  · next hlen =>
    have hnil : (q.cancelSubscribe c).subscribeConsumers = [] := List.length_eq_zero_iff.mp hlen
    rw [hnil] at hb
    dsimp only
    split
    · next hauto =>
      obtain ⟨hfree, hcap''⟩ := exitAutoDelete_broker (r.2.eraseSubcribe q.queueName) id
        (q.cancelSubscribe c)
      have hfree : broker ((r.2.eraseSubcribe q.queueName).exitAutoDelete id
          (q.cancelSubscribe c)) = { (broker st).setQueue id none with
            active := Function.update (broker st).active q.queueName none } := by
        rw [hfree, broker_freeQueue, broker_eraseSubcribe, hb]
        simp only [Broker.setQueue, Function.update_idem]
      refine ⟨.of_move hkeep (hcap''.trans hcap') ?_, fun x hx => ?_⟩
      · rw [hfree]
        exact Move.autoDelete id (queueOf q) (broker_queues hq) hauto hentry
      · rw [hfree]
        exact Function.update_of_ne hx _ _
    · refine ⟨.of_move hkeep hcap' ?_, fun x hx => ?_⟩
      · rw [broker_insertUnSubcribe, broker_eraseSubcribe, hb]
        exact Move.unsubscribe id (queueOf q) (broker_queues hq) hentry
      · rw [broker_insertUnSubcribe, broker_eraseSubcribe, hb]
        exact Function.update_of_ne hx _ _
  · next hlen =>
    have hne : (q.cancelSubscribe c).subscribeConsumers ≠ [] := fun hnil => hlen (by rw [hnil]; rfl)
    refine ⟨.of_move hkeep hcap' (hb ▸ ?_), fun x _ => by rw [hb]; rfl⟩
    exact Move.leave id (queueOf q) _ (broker_queues hq) hentry hne
      ((consumers_nodup hr hq).sublist (MessageQueue.eraseConsumer_sublist c _))

/-- The loop over `m_mSubcribeQueues`: the entries still to come stay in the map. -/
theorem exitQueues_follows (hkeep : allowed .keep) (entries : List (Σ _ : Name, QueueId))
    {st st' : LogicServer} (hcap : st.queueToPersis.cap = none) (hr : Registered (broker st))
    (hkeys : (entries.map Sigma.fst).Nodup)
    (hentries : ∀ e ∈ entries, (broker st).active e.1 = some e.2)
    (h : exitQueues c entries st = some st') : Follows allowed st st' := by
  induction entries generalizing st with
  | nil =>
    cases h
    exact .refl _
  | cons e rest ih =>
    obtain ⟨hnew, hkeys⟩ := List.nodup_cons.mp hkeys
    have hrest : ∀ x ∈ rest, x.1 ≠ e.1 ∧ (broker st).active x.1 = some x.2 := fun x hx =>
      ⟨fun he => hnew (he ▸ List.mem_map_of_mem hx), hentries x (List.mem_cons_of_mem _ hx)⟩
    simp only [exitQueues] at h
    split at h
    · cases h
    · next q hq =>
      split at h
      · obtain ⟨st₁, hone, hloop⟩ := Option.bind_eq_some_iff.mp h
        obtain ⟨hf, hactive⟩ := exitQueue_follows hkeep hcap hr
          (hentries e List.mem_cons_self) hq hone
        refine hf.trans (ih (hf.cap.trans hcap) (hf.registered hr) hkeys (fun x hx => ?_) hloop)
        rw [hactive x.1 (hrest x hx).1]
        exact (hrest x hx).2
      · next hlen =>
        have hsame : queueOf (q.cancelSubscribe c) = queueOf q := by
          have hcons : (q.cancelSubscribe c).subscribeConsumers = q.subscribeConsumers :=
            MessageQueue.eraseConsumer_eq_self hlen
          simp only [queueOf, hcons]
          rfl
        have hb := broker_setQueue_same hq hsame
        have hf : Follows allowed st (st.setQueue e.2 (q.cancelSubscribe c)) := .of_eq rfl hb
        refine hf.trans (ih hcap (hf.registered hr) hkeys (fun x hx => ?_) h)
        rw [hb]
        exact (hrest x hx).2

/-- The messages of the client go back one by one; `kept` are the others. -/
theorem requeue_moves (hkeep : allowed .keep) (kept : Multiset (Nat × Name))
    (l : List SeverStoreMessage) {st st' : LogicServer} (h : requeue l st = some st') :
    Moves allowed { broker st with awaiting := awaitingOf l + kept }
        { broker st' with awaiting := kept } ∧
      st'.queueToPersis = st.queueToPersis ∧
      st'.needAckMessageList = st.needAckMessageList := by
  induction l generalizing st with
  | nil =>
    cases h
    have hnil : awaitingOf [] + kept = kept := Multiset.zero_add kept
    rw [hnil]
    exact ⟨.refl _ _, rfl, rfl⟩
  | cons m l ih =>
    have hcons : awaitingOf (m :: l) + kept = (m.id, m.queueName) ::ₘ (awaitingOf l + kept) :=
      Multiset.cons_add _ (awaitingOf l) kept
    rw [hcons]
    simp only [requeue] at h
    split at h
    · next hfind =>
      obtain ⟨hmoves, hpersis⟩ := ih h
      refine ⟨.trans (.single hkeep ?_) hmoves, hpersis⟩
      exact Move.drop m.id m.queueName _ rfl ((broker_find _).trans hfind)
    · next id hfind =>
      split at h
      · cases h
      · next q hq =>
        obtain ⟨hmoves, hpersis⟩ := ih h
        refine ⟨.trans (.single hkeep ?_) hmoves, hpersis⟩
        rw [broker_setQueue, queueOf_added (MessageQueue.addMessageFront_added q m)]
        exact Move.giveBack m.id m.queueName _ id (queueOf q) rfl ((broker_find _).trans hfind)
          (broker_queues hq)

theorem exitNeedAck_follows (hkeep : allowed .keep) (h : st.exitNeedAck c = some st') :
    Follows allowed st st' := by
  obtain ⟨st₁, hrequeue, rfl⟩ := Option.map_eq_some_iff.mp h
  have hsplit := List.filter_append_perm (fun m : SeverStoreMessage => decide (m.index = c))
    st.needAckMessageList
  obtain ⟨hmoves, hpersis, hlist⟩ := requeue_moves hkeep
    (awaitingOf (st.needAckMessageList.filter fun m => ¬ m.index = c)) _ hrequeue
  refine ⟨congrArg _ hpersis, ?_⟩
  have hawaiting : awaitingOf (st.needAckMessageList.filter fun m => m.index = c) +
      awaitingOf (st.needAckMessageList.filter fun m => ¬ m.index = c) =
      (broker st).awaiting := by
    refine (Multiset.coe_add _ _).trans (Multiset.coe_eq_coe.mpr ?_)
    rw [← List.map_append]
    simpa only [decide_not] using hsplit.map fun m : SeverStoreMessage => (m.id, m.queueName)
  rw [hawaiting] at hmoves
  rw [hlist]
  exact hmoves

/-- `OnClientExit` up to the loop over `m_NeedAckMessageList`. -/
theorem clientQueues_follows (hkeep : allowed .keep) (hcap : st.queueToPersis.cap = none)
    (hr : Registered (broker st))
    (h : exitQueues c st.subcribeQueues.entries (st.pruneMsgSeqs c) = some st') :
    Follows allowed st st' := by
  have hprune : Follows allowed st (st.pruneMsgSeqs c) := .of_eq rfl rfl
  have hloop : Follows allowed (st.pruneMsgSeqs c) st' :=
    exitQueues_follows hkeep _ (by exact hcap) (by exact hr) st.subcribeQueues.keys_nodup
      (fun _ he => lookup_of_mem_entries he) h
  exact hprune.trans hloop

theorem onClientExit_follows (hkeep : allowed .keep) (hcap : st.queueToPersis.cap = none)
    (hr : Registered (broker st)) (h : st.onClientExit c = some st') :
    Follows allowed st st' := by
  obtain ⟨st₁, hqueues, hneed⟩ := Option.bind_eq_some_iff.mp h
  exact (clientQueues_follows hkeep hcap hr hqueues).trans (exitNeedAck_follows hkeep hneed)

end Exit

/-! ## Steps -/

/-- The step asks for the deletion of the queue `id`. -/
def Deletes (st : LogicServer) (a : Step) (id : QueueId) : Prop :=
  ∃ p n, a = .package p ∧ p.packLen ≤ p.len ∧ p.cmdId = cmdDeleteQueue ∧
    readName p.body 0 = some n ∧ st.findQueue n = some id

/-- A subscription to the queue `id` is cancelled while another client is subscribed. -/
def Loses (st : LogicServer) (a : Step) (id : QueueId) : Prop :=
  ∃ p n q, a = .package p ∧ p.packLen ≤ p.len ∧ p.cmdId = cmdCancelSubcribe ∧
    readName p.body 0 = some n ∧ st.subcribeQueues.lookup n = some id ∧
    st.queues id = some q ∧ ∃ d ∈ q.subscribeConsumers, d ≠ p.clientIndex

/-- The labels of the moves that a step may be made of. -/
def StepLabel (st : LogicServer) (a : Step) : Label → Prop
  | .keep => True
  | .delete id => Deletes st a id
  | .lose id => Loses st a id

theorem dispatch_follows (hcap : st.queueToPersis.cap = none) (hr : Registered (broker st))
    {p : Package} {o : Outcome} (hlen : p.packLen ≤ p.len) (h : st.dispatch p = some o) :
    Follows (StepLabel st (.package p)) st o.server := by
  have hkeep : StepLabel st (.package p) .keep := trivial
  unfold dispatch at h
  rcases ite_eq_some h with ⟨_, h⟩ | ⟨_, h⟩
  · exact onCreateExchange_follows h
  rcases ite_eq_some h with ⟨_, h⟩ | ⟨_, h⟩
  · exact onCreateQueue_follows hkeep h
  rcases ite_eq_some h with ⟨_, h⟩ | ⟨_, h⟩
  · exact onCreateBinding_follows h
  rcases ite_eq_some h with ⟨_, h⟩ | ⟨_, h⟩
  · obtain ⟨d, _, h⟩ := Option.bind_eq_some_iff.mp h
    exact publish_follows hkeep h
  rcases ite_eq_some h with ⟨_, h⟩ | ⟨_, h⟩
  · exact onRecvMessage_follows hkeep hr h
  rcases ite_eq_some h with ⟨_, h⟩ | ⟨_, h⟩
  · exact onCreateSubscribe_follows hkeep hcap hr h
  rcases ite_eq_some h with ⟨_, h⟩ | ⟨_, h⟩
  · exact onDeleteExchange_follows h
  rcases ite_eq_some h with ⟨hcmd, h⟩ | ⟨_, h⟩
  · exact onDeleteQueue_follows hcap hr
      (fun n id hn hfind => ⟨p, n, rfl, hlen, hcmd, hn, hfind⟩) h
  rcases ite_eq_some h with ⟨hcmd, h⟩ | ⟨_, h⟩
  · exact onCancelSubscribe_follows hkeep hcap hr
      (fun n id q hn hsub hq hothers => ⟨p, n, q, rfl, hlen, hcmd, hn, hsub, hq, hothers⟩) h
  rcases ite_eq_some h with ⟨_, h⟩ | ⟨_, h⟩
  · cases h
    exact onClientAck_follows hkeep _ _
  rcases ite_eq_some h with ⟨_, h⟩ | ⟨_, h⟩
  · obtain ⟨st₁, hexit, rfl⟩ := Option.map_eq_some_iff.mp h
    exact onClientExit_follows hkeep hcap hr hexit
  · cases h
    exact .refl _

theorem broker_reply (o : Outcome) (c : Int) : broker (reply o c) = broker o.server := by
  unfold reply
  split <;> rfl

theorem reply_follows (o : Outcome) (c : Int) : Follows allowed o.server (reply o c) := by
  refine .of_eq ?_ (broker_reply o c)
  unfold reply
  split <;> rfl

theorem rehash_follows {t : Tables} (h : st.rehash t = some st') : Follows allowed st st' := by
  unfold rehash at h
  split at h
  · next hsame =>
    cases h
    obtain ⟨hun, hsub, _⟩ := hsame
    refine .of_eq rfl ?_
    simp only [broker, AList.perm_lookup hun, AList.perm_lookup hsub]
  · cases h

/-- Each step is a sequence of moves, and only the steps that say so delete or lose a
queue. -/
theorem step_follows {a : Step} (hcap : st.queueToPersis.cap = none)
    (hr : Registered (broker st)) (h : step st a = some st') :
    Follows (StepLabel st a) st st' := by
  have hkeep : StepLabel st a .keep := trivial
  cases a with
  | package p =>
    obtain ⟨o, hproc, rfl⟩ := Option.map_eq_some_iff.mp h
    refine Follows.trans ?_ (reply_follows o _)
    unfold processRecvData at hproc
    split at hproc
    · cases hproc
      exact .refl _
    · next hlen => exact dispatch_follows hcap hr (Nat.le_of_not_lt hlen) hproc
  | pushMessage => exact pushMessage_follows hkeep hr h
  | sendMultiAck =>
    simp only [step, sendMultiAck] at h
    split at h
    · cases h
      exact .of_eq rfl rfl
    · cases h
  | drainConnect =>
    obtain ⟨r, _, rfl⟩ := Option.map_eq_some_iff.mp h
    exact .of_eq rfl rfl
  | drainPersis =>
    obtain ⟨r, hd, rfl⟩ := Option.map_eq_some_iff.mp h
    exact .of_eq (Fifo.BoundedFifo.dequeue_cap hd) rfl
  | rehash t => exact rehash_follows h

end Wsmq.LogicServer
