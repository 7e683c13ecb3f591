import Wsmq.LogicServer.Run

/-!
# Handlers that do not concern producers

`producerView` is what the server remembers about confirmed publishes, and what it
has stored.  All handlers but `OnPublishMessage` and `OnClientExit` leave it as it
is, whatever the channels can hold.
-/

namespace Wsmq.LogicServer
open Lib Lib.ByteString

variable [Platform] {st st' : LogicServer}

/-- Client, number and confirm level of a stored message copy. -/
def publishOf : Event → Option (Int × Int × Nat)
  | .stored iCliIndex iMsgSeq confirmLevel _ _ => some (iCliIndex, iMsgSeq, confirmLevel)
  | _ => none

/-- The message copies that were stored, oldest first. -/
def publishLog (st : LogicServer) : List (Int × Int × Nat) := st.history.filterMap publishOf

def producerView (st : LogicServer) :
    List Bytes × (AList fun _ : Int => Int) × List (Int × Int × Nat) :=
  (st.producerMsgSeqs, st.producerLastMsgSeq, st.publishLog)

/-! ## Channels and tables -/

section Setters

variable (st)

@[simp] theorem view_enqueuePersis (bs : Bytes) :
    (st.enqueuePersis bs).2.producerView = st.producerView := rfl

@[simp] theorem view_enqueueConnect (bs : Bytes) :
    (st.enqueueConnect bs).2.producerView = st.producerView := rfl

@[simp] theorem view_sendPersis (bDurable : Bool) (bs : Bytes) :
    (st.sendPersis bDurable bs).2.producerView = st.producerView := by
  unfold sendPersis
  split <;> rfl

@[simp] theorem view_sendConsumed (iCmdId : Nat) (name : Name) (pMsg : SeverStoreMessage) :
    (st.sendConsumed iCmdId name pMsg).producerView = st.producerView := view_sendPersis st _ _

@[simp] theorem view_setQueue (id : QueueId) (q : MessageQueue) :
    (st.setQueue id q).producerView = st.producerView := rfl

@[simp] theorem view_freeQueue (id : QueueId) :
    (st.freeQueue id).producerView = st.producerView := rfl

@[simp] theorem view_insertUnSubcribe (n : Name) (id : QueueId) :
    (st.insertUnSubcribe n id).producerView = st.producerView := rfl

@[simp] theorem view_eraseUnSubcribe (n : Name) :
    (st.eraseUnSubcribe n).producerView = st.producerView := rfl

@[simp] theorem view_insertSubcribe (n : Name) (id : QueueId) :
    (st.insertSubcribe n id).producerView = st.producerView := rfl

@[simp] theorem view_eraseSubcribe (n : Name) :
    (st.eraseSubcribe n).producerView = st.producerView := rfl

@[simp] theorem view_setExchanges (exchanges : AList fun _ : Name => Exchange) :
    (st.setExchanges exchanges).producerView = st.producerView := rfl

@[simp] theorem view_pushNeedAck (pMsg : SeverStoreMessage) :
    (st.pushNeedAck pMsg).producerView = st.producerView := rfl

@[simp] theorem view_setNeedAck (l : List SeverStoreMessage) :
    (st.setNeedAck l).producerView = st.producerView := rfl

@[simp] theorem view_record {e : Event} (he : publishOf e = none) :
    (st.record e).producerView = st.producerView := by
  have hlog : (st.history ++ [e]).filterMap publishOf = st.history.filterMap publishOf := by
    rw [List.filterMap_append, List.filterMap_cons_none he, List.filterMap_nil, List.append_nil]
  exact congrArg (fun l => (st.producerMsgSeqs, st.producerLastMsgSeq, l)) hlog

@[simp] theorem view_newQueue (q : MessageQueue) :
    (st.newQueue q).producerView = st.producerView :=
  view_record st (e := .created st.nextQueue q.queueName q.autoDel) rfl

end Setters

theorem view_drainConnect (h : st.drainConnect = some st') :
    st'.producerView = st.producerView := by
  obtain ⟨r, _, rfl⟩ := Option.map_eq_some_iff.mp h
  rfl

theorem view_waitConnect {bs : Bytes} {fuel : Nat} {st st' : LogicServer}
    (h : waitConnect bs fuel st = some st') : st'.producerView = st.producerView := by
  induction fuel generalizing st with
  | zero => cases h
  | succ fuel ih =>
    rw [waitConnect] at h
    split at h
    · obtain ⟨st₁, hdrain, hrest⟩ := Option.bind_eq_some_iff.mp h
      rw [ih hrest, view_drainConnect hdrain]
    · cases h
      rfl

theorem view_enqueueConnectWait {bs : Bytes} (h : st.enqueueConnectWait bs = some st') :
    st'.producerView = st.producerView := view_waitConnect h

theorem view_sendAwaited {pMsg : SeverStoreMessage} {iLen : Nat}
    (h : st.sendAwaited pMsg iLen = some st') : st'.producerView = st.producerView := by
  rw [view_enqueueConnectWait h, view_pushNeedAck]

theorem view_sendSubscribers {q : MessageQueue} {bIsCreate : Bool} {r : Int × LogicServer}
    (h : st.sendSubscribers q bIsCreate = some r) : r.2.producerView = st.producerView := by
  unfold sendSubscribers at h
  split at h
  · obtain ⟨packed, _, rfl⟩ := Option.map_eq_some_iff.mp h
    rfl
  · cases h
    rfl

theorem view_sendBindings {pExchange : Exchange} {r : Int × LogicServer}
    (h : st.sendBindings pExchange = some r) : r.2.producerView = st.producerView := by
  unfold sendBindings at h
  split at h
  · obtain ⟨packed, _, rfl⟩ := Option.map_eq_some_iff.mp h
    rfl
  · cases h
    rfl

theorem view_sweepExchanges (mode : SweepMode) (id : QueueId)
    (entries : List (Σ _ : Name, Exchange)) (st : LogicServer) :
    (sweepExchanges mode id entries st).2.producerView = st.producerView := by
  induction entries generalizing st with
  | nil => rfl
  | cons e rest ih =>
    simp only [sweepExchanges]
    split
    · exact ih st
    · split
      · split
        · exact view_sendPersis _ _ _
        · rw [ih, view_setExchanges, sendDeleteExchange, view_sendPersis, view_setExchanges]
      · rw [ih, view_setExchanges]

@[simp] theorem view_detachQueue (st : LogicServer) (mode : SweepMode) (id : QueueId)
    (q : MessageQueue) : (st.detachQueue mode id q).2.producerView = st.producerView := by
  rw [detachQueue, view_sweepExchanges, view_setQueue]

/-! ## PushMessage -/

theorem view_pushOne {q : MessageQueue} {pMsg : SeverStoreMessage}
    (h : st.pushOne q pMsg = some st') : st'.producerView = st.producerView := by
  unfold pushOne at h
  split at h
  · exact view_sendAwaited h
  · obtain ⟨st₁, hsend, rfl⟩ := Option.map_eq_some_iff.mp h
    rw [view_record _ rfl, view_sendConsumed, view_enqueueConnectWait hsend]

theorem view_pushQueue (id : QueueId) (fuel : Nat) {st st' : LogicServer}
    (h : pushQueue id fuel st = some st') : st'.producerView = st.producerView := by
  induction fuel generalizing st with
  | zero =>
    cases h
    rfl
  | succ fuel ih =>
    simp only [pushQueue] at h
    split at h
    · cases h
    · split at h
      · cases h
        rfl
      · obtain ⟨st₁, hone, hrest⟩ := Option.bind_eq_some_iff.mp h
        rw [ih hrest, view_pushOne hone, view_setQueue]

/-- By induction on the number of entries left, since the loop may skip one. -/
theorem view_pushLoop (k : Nat) (entries : List (Σ _ : Name, QueueId)) (hk : entries.length ≤ k)
    {st st' : LogicServer} (h : pushLoop entries st = some st') :
    st'.producerView = st.producerView := by
  induction k generalizing entries st with
  | zero =>
    cases List.length_eq_zero_iff.mp (Nat.le_zero.mp hk)
    cases h
    rfl
  | succ k ih =>
    cases entries with
    | nil =>
      cases h
      rfl
    | cons e rest =>
      have hrest : rest.length ≤ k := Nat.le_of_succ_le_succ hk
      simp only [pushLoop] at h
      split at h
      · cases h
      · split at h
        · obtain ⟨st₁, hqueue, hloop⟩ := Option.bind_eq_some_iff.mp h
          rw [ih rest hrest hloop, view_pushQueue _ _ hqueue]
        · split at h
          · cases h
          · next e' rest' =>
            have hskip : rest'.length ≤ k := Nat.le_of_succ_le hrest
            rw [ih rest' hskip h, view_insertUnSubcribe, view_eraseSubcribe]

theorem view_pushMessage (h : st.pushMessage = some st') :
    st'.producerView = st.producerView := view_pushLoop _ _ (Nat.le_refl _) h

/-! ## Exchanges, queues and bindings -/

theorem view_onCreateExchange {buf : Mem} {iLen : Nat} {o : Outcome}
    (h : st.onCreateExchange buf iLen = some o) : o.server.producerView = st.producerView := by
  obtain ⟨n, _, rfl⟩ := onCreateExchange_some h
  dsimp only [createExchange]
  split
  · rfl
  · split <;> exact view_sendPersis _ _ _

theorem view_onCreateQueue {buf : Mem} {iLen : Nat} {o : Outcome}
    (h : st.onCreateQueue buf iLen = some o) : o.server.producerView = st.producerView := by
  obtain ⟨n, _, rfl⟩ := onCreateQueue_some h
  dsimp only [createQueue]
  split
  · rfl
  · split <;> rw [view_sendPersis, view_newQueue]

theorem view_onCreateBinding {buf : Mem} {o : Outcome} (h : st.onCreateBinding buf = some o) :
    o.server.producerView = st.producerView := by
  obtain ⟨strExchangeName, strQueueName, strBindingKey, _, _, _, h⟩ := onCreateBinding_some h
  dsimp only [createBinding] at h
  split at h
  · cases h
    rfl
  · cases h
    rfl
  · obtain ⟨r, hsend, rfl⟩ := Option.map_eq_some_iff.mp h
    have hr := (view_sendBindings hsend).trans (view_setExchanges _ _)
    split <;> exact hr

theorem view_onDeleteExchange {buf : Mem} {iLen : Nat} {o : Outcome}
    (h : st.onDeleteExchange buf iLen = some o) : o.server.producerView = st.producerView := by
  obtain ⟨n, _, rfl⟩ := onDeleteExchange_some h
  dsimp only [deleteExchange]
  split
  · rfl
  · split
    · exact view_sendPersis _ _ _
    · rw [view_setExchanges, view_sendPersis]

theorem view_onDeleteQueue {buf : Mem} {iLen : Nat} {o : Outcome}
    (h : st.onDeleteQueue buf iLen = some o) : o.server.producerView = st.producerView := by
  obtain ⟨n, _, h⟩ := onDeleteQueue_some h
  dsimp only [deleteQueue] at h
  split at h
  · cases h
    rfl
  · obtain ⟨q, _, rfl⟩ := Option.map_eq_some_iff.mp h
    split <;> simp

/-! ## Subscribers and consumers -/

theorem view_onRecvMessage {buf : Mem} {c : Int} {o : Outcome}
    (h : st.onRecvMessage buf c = some o) : o.server.producerView = st.producerView := by
  obtain ⟨n, _, h⟩ := onRecvMessage_some h
  dsimp only [recvMessage] at h
  split at h
  · cases h
    rfl
  · obtain ⟨q, _, h⟩ := Option.bind_eq_some_iff.mp h
    split at h
    · cases h
      rfl
    · obtain ⟨st₁, hsend, rfl⟩ := Option.map_eq_some_iff.mp h
      unfold sendPulled at hsend
      dsimp only at hsend
      split at hsend
      · rw [view_sendAwaited hsend, view_setQueue]
      · rw [view_enqueueConnectWait hsend, view_record _ rfl, view_sendConsumed, view_setQueue]

theorem view_onCreateSubscribe {buf : Mem} {c : Int} {o : Outcome}
    (h : st.onCreateSubscribe buf c = some o) : o.server.producerView = st.producerView := by
  obtain ⟨n, _, h⟩ := onCreateSubscribe_some h
  dsimp only [createSubscribe] at h
  split at h
  · cases h
    rfl
  · obtain ⟨q, _, h⟩ := Option.bind_eq_some_iff.mp h
    obtain ⟨r, hsend, rfl⟩ := Option.map_eq_some_iff.mp h
    have hr := (view_sendSubscribers hsend).trans (view_setQueue _ _ _)
    split
    · exact hr
    · split <;> exact hr

theorem view_cancelAutoDelete (st : LogicServer) (n : Name) (id : QueueId) (q : MessageQueue) :
    (st.cancelAutoDelete n id q).server.producerView = st.producerView := by
  unfold cancelAutoDelete
  dsimp only
  split
  · exact view_detachQueue _ _ _ _
  · split <;> simp

theorem view_afterCancel (st : LogicServer) (n : Name) (id : QueueId) (q : MessageQueue) :
    (st.afterCancel n id q).server.producerView = st.producerView := by
  unfold afterCancel
  dsimp only
  split
  · exact view_cancelAutoDelete _ _ _ _
  · split <;> rfl

theorem view_onCancelSubscribe {buf : Mem} {c : Int} {o : Outcome}
    (h : st.onCancelSubscribe buf c = some o) : o.server.producerView = st.producerView := by
  obtain ⟨n, _, h⟩ := onCancelSubscribe_some h
  dsimp only [LogicServer.cancelSubscribe] at h
  split at h
  · cases h
    rfl
  · split at h
    · cases h
      rfl
    · obtain ⟨q, _, h⟩ := Option.bind_eq_some_iff.mp h
      obtain ⟨r, hsend, rfl⟩ := Option.map_eq_some_iff.mp h
      have hr := (view_sendSubscribers hsend).trans (view_setQueue _ _ _)
      split
      · exact hr
      · exact (view_afterCancel _ _ _ _).trans hr

theorem view_dropAcked (st : LogicServer) (pMsg : SeverStoreMessage) (iAckSeq : Int) :
    (st.dropAcked pMsg iAckSeq).producerView = st.producerView := by
  rw [dropAcked, view_record _ rfl, view_sendConsumed]

theorem view_ackBatch (c iAckSeq : Int) (l kept : List SeverStoreMessage) (st : LogicServer) :
    (ackBatch c iAckSeq kept l st).producerView = st.producerView := by
  induction l generalizing kept st with
  | nil => rfl
  | cons m l ih =>
    rw [ackBatch]
    split
    · exact ih _ st
    · split
      · rw [ih, view_dropAcked]
      · rfl

theorem view_onClientAck (st : LogicServer) (buf : Mem) (c : Int) :
    (st.onClientAck buf c).producerView = st.producerView := by
  unfold onClientAck clientAck decodeClientAck
  dsimp only
  split
  · unfold ackSingle
    split
    · rfl
    · rw [view_dropAcked, view_setNeedAck]
  · split
    · exact view_ackBatch _ _ _ _ _
    · rfl

/-! ## Client exit -/

theorem view_exitQueue {entry : Σ _ : Name, QueueId} {q : MessageQueue}
    (h : st.exitQueue entry q = some st') : st'.producerView = st.producerView := by
  obtain ⟨r, hsend, rfl⟩ := Option.map_eq_some_iff.mp h
  have hr := view_sendSubscribers hsend
  split
  · dsimp only
    split
    · simpa [exitAutoDelete] using hr
    · exact hr
  · exact hr

theorem view_exitQueues {c : Int} (entries : List (Σ _ : Name, QueueId)) {st st' : LogicServer}
    (h : exitQueues c entries st = some st') : st'.producerView = st.producerView := by
  induction entries generalizing st with
  | nil =>
    cases h
    rfl
  | cons e rest ih =>
    simp only [exitQueues] at h
    split at h
    · cases h
    · split at h
      · obtain ⟨st₁, hone, hloop⟩ := Option.bind_eq_some_iff.mp h
        rw [ih hloop, view_exitQueue hone, view_setQueue]
      · rw [ih h, view_setQueue]

theorem view_requeue (l : List SeverStoreMessage) {st st' : LogicServer}
    (h : requeue l st = some st') : st'.producerView = st.producerView := by
  induction l generalizing st with
  | nil =>
    cases h
    rfl
  | cons m l ih =>
    simp only [requeue] at h
    split at h
    · exact ih h
    · split at h
      · cases h
      · rw [ih h, view_setQueue]

/-- The exit of a client prunes the numbers and does nothing else about producers. -/
theorem view_onClientExit {c : Int} (h : st.onClientExit c = some st') :
    st'.producerView = (st.pruneMsgSeqs c).producerView := by
  obtain ⟨st₁, hqueues, hneed⟩ := Option.bind_eq_some_iff.mp h
  obtain ⟨st₂, hrequeue, rfl⟩ := Option.map_eq_some_iff.mp hneed
  rw [view_setNeedAck, view_requeue _ hrequeue, view_exitQueues _ hqueues]

theorem view_reply (o : Outcome) (c : Int) :
    (reply o c).producerView = o.server.producerView := by
  unfold reply
  split <;> rfl

end Wsmq.LogicServer
