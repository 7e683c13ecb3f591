import Wsmq.LogicServer.Frame
import Wsmq.Processes

/-!
# Whom the handlers concern

While the logic server processes a package, only the index of the package gets subscriptions,
acknowledgements and packages that it did not have.  Indices up to 0 belong to no client.
-/

namespace Wsmq.Processes
open Lib Lib.ByteString Lib.Packing Lib.Fifo LogicServer

section Headers

/-- Who finds his index in the header; shorter packages are dropped. -/
def Addressed (P : Int → Prop) (pack : Bytes) : Prop :=
  sizeofClientPackageHead ≤ pack.length → P (readInt (Mem.ofBytes pack) 2)

/-- What an encoder has written, or the empty buffer when there was no room. -/
theorem addressed_pack {P : Int → Prop} {iopBuffLen iIndex : Int} {iMsgLen iCmdId : Nat}
    {rest : List Field} (hf : ∀ f ∈ packHead iMsgLen iIndex iCmdId ++ rest, f.Fits)
    (hindex : FitsInt 4 iIndex) (hP : P iIndex) (hzero : P 0) :
    Addressed P (pack zeroed iopBuffLen iMsgLen (packHead iMsgLen iIndex iCmdId ++ rest)).sent := by
  intro hlen
  have hread : ∀ (m : Mem) (n : Nat), 6 ≤ n → readInt (Mem.ofBytes (m.read 0 n)) 2 = readInt m 2 := by
    intro m n hn
    rw [readInt, readInt, Mem.read_ofBytes_read m 0 hn]
  have hhead : sizeofClientPackageHead = 8 := rfl
  rw [Packed.sent, Mem.read_length] at hlen
  rw [Packed.sent, hread _ _ (by omega), pack]
  split
  · have hempty : readInt zeroed 2 = 0 := by decide
    exact hempty.symm ▸ hzero
  · have hholds : Holds (place zeroed 0 (packHead iMsgLen iIndex iCmdId ++ rest)) 0
        (image (packHead iMsgLen iIndex iCmdId ++ rest)) := by
      rw [Holds, image_length hf]
      exact read_place hf fun _ _ => rfl
    have hvalue := readInt_field [writeUShort iMsgLen] hholds hf hindex
    exact hvalue.symm ▸ hP

end Headers

variable [Platform] {P : Int → Prop} {st st' : LogicServer}

/-- From `st` to `st'` only indices with `P` get anything. -/
structure Concerns (P : Int → Prop) (st st' : LogicServer) : Prop where
  subscribed : ∀ queue k, Subscribed st' queue k → Subscribed st queue k ∨ P k
  producers : ∀ k ∈ st'.producerLastMsgSeq, k ∈ st.producerLastMsgSeq ∨ P k
  cap : st'.queueToConnect.cap = st.queueToConnect.cap
  sent : ∃ packs, st'.queueToConnect.items = st.queueToConnect.items ++ packs ∧
    ∀ pack ∈ packs, Addressed P pack

theorem Concerns.refl (st : LogicServer) : Concerns P st st where
  subscribed _ _ h := Or.inl h
  producers _ h := Or.inl h
  cap := rfl
  sent := ⟨[], (List.append_nil _).symm, fun _ h => nomatch h⟩

theorem Concerns.trans {st₁ st₂ st₃ : LogicServer} (h : Concerns P st₁ st₂)
    (h' : Concerns P st₂ st₃) : Concerns P st₁ st₃ where
  subscribed queue k hk := (h'.subscribed queue k hk).elim (h.subscribed queue k) Or.inr
  producers k hk := (h'.producers k hk).elim (h.producers k) Or.inr
  cap := h'.cap.trans h.cap
  sent := by
    obtain ⟨packs, hitems, hpacks⟩ := h.sent
    obtain ⟨packs', hitems', hpacks'⟩ := h'.sent
    refine ⟨packs ++ packs', ?_, ?_⟩
    · rw [hitems', hitems, List.append_assoc]
    · intro pack hpack
      exact (List.mem_append.mp hpack).elim (hpacks pack) (hpacks' pack)

/-! ## Channels and tables -/

/-- What clients get depends on these parts alone. -/
def clientView (st : LogicServer) :
    (QueueId → Option MessageQueue) × (AList fun _ : Int => Int) × ShmQueue.Fifo :=
  (st.queues, st.producerLastMsgSeq, st.queueToConnect)

theorem Concerns.of_view (h : clientView st' = clientView st) : Concerns P st st' := by
  have hqueues : st'.queues = st.queues := congrArg (·.1) h
  have hlast : st'.producerLastMsgSeq = st.producerLastMsgSeq := congrArg (·.2.1) h
  have hconnect : st'.queueToConnect = st.queueToConnect := congrArg (·.2.2) h
  refine ⟨fun queue k => ?_, fun k hk => Or.inl (hlast ▸ hk), by rw [hconnect], [], ?_, ?_⟩
  · rw [Subscribed, hqueues]
    exact Or.inl
  · rw [hconnect, List.append_nil]
  · exact fun _ h => nomatch h

section Setters

variable (st)

theorem clientView_sendPersis (bDurable : Bool) (bs : Bytes) :
    clientView (st.sendPersis bDurable bs).2 = clientView st := by
  unfold sendPersis
  split <;> rfl

theorem concerns_sendPersis (bDurable : Bool) (bs : Bytes) :
    Concerns P st (st.sendPersis bDurable bs).2 := .of_view (clientView_sendPersis st bDurable bs)

theorem concerns_sendConsumed (iCmdId : Nat) (name : Name) (pMsg : SeverStoreMessage) :
    Concerns P st (st.sendConsumed iCmdId name pMsg) := concerns_sendPersis st _ _

theorem concerns_setExchanges (exchanges : AList fun _ : Name => Exchange) :
    Concerns P st (st.setExchanges exchanges) := .of_view rfl

theorem concerns_record (e : Event) : Concerns P st (st.record e) := .of_view rfl

theorem concerns_insertMsgSeq (strMsgSeq : Bytes) : Concerns P st (st.insertMsgSeq strMsgSeq) := by
  apply Concerns.of_view
  unfold insertMsgSeq
  split <;> rfl

theorem concerns_setQueue {id : QueueId} {q : MessageQueue}
    (h : ∀ k ∈ q.subscribeConsumers, Subscribed st id k ∨ P k) :
    Concerns P st (st.setQueue id q) := by
  refine ⟨?_, fun _ hk => Or.inl hk, rfl, [], (List.append_nil _).symm, fun _ h => nomatch h⟩
  rintro queue k ⟨r, hr, hk⟩
  by_cases hid : queue = id
  · cases hid
    cases (if_pos rfl).symm.trans hr
    exact h k hk
  · exact Or.inl ⟨r, (if_neg hid).symm.trans hr, hk⟩

/-- The object stays the same as far as subscribers go. -/
theorem concerns_setQueue_of_consumers {id : QueueId} {q q' : MessageQueue}
    (hq : st.queues id = some q) (h : ∀ k ∈ q'.subscribeConsumers, k ∈ q.subscribeConsumers) :
    Concerns P st (st.setQueue id q') :=
  concerns_setQueue st fun k hk => Or.inl ⟨q, hq, h k hk⟩

theorem concerns_freeQueue (id : QueueId) : Concerns P st (st.freeQueue id) := by
  refine ⟨?_, fun _ hk => Or.inl hk, rfl, [], (List.append_nil _).symm, fun _ h => nomatch h⟩
  rintro queue k ⟨r, hr, hk⟩
  by_cases hid : queue = id
  · exact nomatch (if_pos hid).symm.trans hr
  · exact Or.inl ⟨r, (if_neg hid).symm.trans hr, hk⟩

theorem concerns_newQueue {q : MessageQueue} (h : q.subscribeConsumers = []) :
    Concerns P st (st.newQueue q) := by
  refine ⟨?_, fun _ hk => Or.inl hk, rfl, [], (List.append_nil _).symm, fun _ h => nomatch h⟩
  rintro queue k ⟨r, hr, hk⟩
  by_cases hid : queue = st.nextQueue
  · cases (if_pos hid).symm.trans hr
    rw [h] at hk
    cases hk
  · exact Or.inl ⟨r, (if_neg hid).symm.trans hr, hk⟩

theorem concerns_setLastMsgSeq {iCliIndex : Int} (iMsgSeq : Int) (h : P iCliIndex) :
    Concerns P st (st.setLastMsgSeq iCliIndex iMsgSeq) := by
  refine ⟨fun _ _ h => Or.inl h, ?_, rfl, [], (List.append_nil _).symm, fun _ h => nomatch h⟩
  intro k hk
  rcases AList.mem_insert _ |>.mp hk with rfl | hold
  · exact Or.inr h
  · exact Or.inl hold

theorem concerns_enqueueConnect {bs : Bytes} (h : Addressed P bs) :
    Concerns P st (st.enqueueConnect bs).2 := by
  refine ⟨fun _ _ h => Or.inl h, fun _ hk => Or.inl hk, ShmQueue.Fifo.call_enqueue_cap _ _, ?_⟩
  by_cases hfits : Fits st.queueToConnect.cap
      (total ShmQueue.blockCost st.queueToConnect.items + ShmQueue.blockCost bs)
  · refine ⟨[bs], (ShmQueue.Fifo.call_enqueue_of_fits hfits).2.2, ?_⟩
    intro pack hpack
    cases List.mem_singleton.mp hpack
    exact h
  · refine ⟨[], ?_, fun _ h => nomatch h⟩
    rw [List.append_nil]
    exact congrArg BoundedFifo.items (ShmQueue.Fifo.call_enqueue_of_not_fits hfits).2

end Setters

theorem concerns_enqueueConnectWait {bs : Bytes} (hcap : st.queueToConnect.cap = none)
    (h : Addressed P bs) (hst : st.enqueueConnectWait bs = some st') : Concerns P st st' := by
  have hret : (st.enqueueConnect bs).1 = ShmQueue.success := ShmQueue.Fifo.call_enqueue_ret hcap bs
  rw [enqueueConnectWait, waitConnect, if_neg (by rw [hret]; decide)] at hst
  cases hst
  exact concerns_enqueueConnect st h

theorem concerns_sendSubscribers {q : MessageQueue} {bIsCreate : Bool} {r : Int × LogicServer}
    (h : st.sendSubscribers q bIsCreate = some r) : Concerns P st r.2 := by
  apply Concerns.of_view
  unfold sendSubscribers at h
  split at h
  · obtain ⟨packed, _, rfl⟩ := Option.map_eq_some_iff.mp h
    rfl
  · cases h
    rfl

theorem concerns_sendBindings {pExchange : Exchange} {r : Int × LogicServer}
    (h : st.sendBindings pExchange = some r) : Concerns P st r.2 := by
  apply Concerns.of_view
  unfold sendBindings at h
  split at h
  · obtain ⟨packed, _, rfl⟩ := Option.map_eq_some_iff.mp h
    rfl
  · cases h
    rfl

theorem queues_sendSubscribers {q : MessageQueue} {bIsCreate : Bool} {r : Int × LogicServer}
    (h : st.sendSubscribers q bIsCreate = some r) : r.2.queues = st.queues := by
  unfold sendSubscribers at h
  split at h
  · obtain ⟨packed, _, rfl⟩ := Option.map_eq_some_iff.mp h
    rfl
  · cases h
    rfl

theorem concerns_sweepExchanges (mode : SweepMode) (id : QueueId)
    (entries : List (Σ _ : Name, Exchange)) (st : LogicServer) :
    Concerns P st (sweepExchanges mode id entries st).2 := by
  induction entries generalizing st with
  | nil => exact .refl st
  | cons e rest ih =>
    simp only [sweepExchanges]
    split
    · exact ih st
    · split
      · have hsend := (concerns_setExchanges (P := P) st
          (st.exchanges.replace e.1 (e.2.deleteBindingQueue id))).trans (concerns_sendPersis _
            ((e.2.deleteBindingQueue id).durable && mode ≠ .silent)
            (persisPacket cmdDeleteExchange (e.2.deleteBindingQueue id).exchangeName))
        split
        · exact hsend
        · exact (hsend.trans (concerns_setExchanges _ _)).trans (ih _)
      · exact (concerns_setExchanges _ _).trans (ih _)

theorem concerns_detachQueue {mode : SweepMode} {id : QueueId} {q : MessageQueue}
    (h : ∀ k ∈ q.subscribeConsumers, Subscribed st id k ∨ P k) :
    Concerns P st (st.detachQueue mode id q).2 :=
  (concerns_setQueue st (q := q.clearMessage) h).trans (concerns_sweepExchanges _ _ _ _)

/-! ## Exchanges, queues and bindings -/

theorem concerns_onCreateExchange {buf : Mem} {iLen : Nat} {o : Outcome}
    (h : st.onCreateExchange buf iLen = some o) : Concerns P st o.server := by
  obtain ⟨n, _, rfl⟩ := onCreateExchange_some h
  dsimp only [createExchange]
  split
  · exact .refl st
  · split <;> exact (concerns_setExchanges _ _).trans (concerns_sendPersis _ _ _)

theorem concerns_onCreateQueue {buf : Mem} {iLen : Nat} {o : Outcome}
    (h : st.onCreateQueue buf iLen = some o) : Concerns P st o.server := by
  obtain ⟨n, _, rfl⟩ := onCreateQueue_some h
  dsimp only [createQueue]
  split
  · exact .refl st
  · split <;> exact (concerns_newQueue st rfl).trans (concerns_sendPersis _ _ _)

theorem concerns_onCreateBinding {buf : Mem} {o : Outcome} (h : st.onCreateBinding buf = some o) :
    Concerns P st o.server := by
  obtain ⟨strExchangeName, strQueueName, strBindingKey, _, _, _, h⟩ := onCreateBinding_some h
  dsimp only [createBinding] at h
  split at h
  · cases h
    exact .refl st
  · cases h
    exact .refl st
  · obtain ⟨r, hsend, rfl⟩ := Option.map_eq_some_iff.mp h
    have hr := (concerns_setExchanges (P := P) st _).trans (concerns_sendBindings hsend)
    split <;> exact hr

theorem concerns_onDeleteExchange {buf : Mem} {iLen : Nat} {o : Outcome}
    (h : st.onDeleteExchange buf iLen = some o) : Concerns P st o.server := by
  obtain ⟨n, _, rfl⟩ := onDeleteExchange_some h
  dsimp only [deleteExchange]
  split
  · exact .refl st
  · split
    · exact concerns_sendPersis _ _ _
    · exact (concerns_sendPersis _ _ _).trans (concerns_setExchanges _ _)

theorem concerns_onDeleteQueue {buf : Mem} {iLen : Nat} {o : Outcome}
    (h : st.onDeleteQueue buf iLen = some o) : Concerns P st o.server := by
  obtain ⟨n, _, h⟩ := onDeleteQueue_some h
  dsimp only [deleteQueue] at h
  split at h
  · cases h
    exact .refl st
  · next queue _ =>
    obtain ⟨q, hq, rfl⟩ := Option.map_eq_some_iff.mp h
    have hview := clientView_sendPersis ((st.eraseUnSubcribe n).eraseSubcribe n) q.durable
      (persisPacket cmdDeleteQueue (buf.read 0 iLen))
    split
    · exact .of_view hview
    · have hsubs : ∀ k ∈ q.subscribeConsumers, Subscribed _ queue k ∨ P k :=
        fun k hk => Or.inl ⟨q, (congrFun (congrArg (·.1) hview) queue).trans hq, hk⟩
      have hsend : Concerns P st _ := .of_view hview
      exact hsend.trans ((concerns_detachQueue hsubs).trans (concerns_freeQueue _ _))

/-! ## Publishing -/

theorem concerns_sendServerAck {oMsg : ServerAckMessage} (hindex : FitsInt 4 oMsg.index)
    (hP : P oMsg.index) (hzero : P 0) : Concerns P st (st.sendServerAck oMsg) :=
  concerns_enqueueConnect st (addressed_pack oMsg.fits hindex hP hzero)

theorem concerns_addMessage {p : Publish} {c : Int} {id : QueueId} {q q' : MessageQueue}
    {pMsg : SeverStoreMessage} (hq : st.queues id = some q)
    (h : q'.subscribeConsumers = q.subscribeConsumers) :
    Concerns P st (st.addMessage p c id q' pMsg) := by
  have hset : Concerns P st (st.setQueue id (q'.addMessage pMsg)) :=
    concerns_setQueue_of_consumers st hq fun k hk =>
      h ▸ (MessageQueue.addMessage_added q' pMsg).consumers ▸ hk
  exact hset.trans (.of_view rfl)

theorem concerns_storeMessages {p : Publish} {c : Int} (queues : List QueueId)
    {st st' : LogicServer} (h : storeMessages p c queues st = some st') : Concerns P st st' := by
  induction queues generalizing st with
  | nil =>
    cases h
    exact .refl _
  | cons id rest ih =>
    obtain ⟨st₁, hone, hrest⟩ := Option.bind_eq_some_iff.mp h
    obtain ⟨q, hq, rfl⟩ := Option.map_eq_some_iff.mp hone
    refine Concerns.trans ?_ (ih hrest)
    split
    · exact (concerns_sendPersis st true
        (durablePacket (durableMessage (st.newMessage p) q))).trans (concerns_addMessage hq rfl)
    · exact concerns_addMessage hq rfl

theorem concerns_confirmPublish {p : Publish} {c : Int} (hc : FitsInt 4 c) (hP : P c)
    (hzero : P 0) : Concerns P st (st.confirmPublish p c) := by
  unfold confirmPublish
  split
  · exact (concerns_sendServerAck hc hP hzero).trans (concerns_insertMsgSeq _ _)
  · split
    · exact (concerns_setLastMsgSeq st _ hP).trans (concerns_insertMsgSeq _ _)
    · exact .refl st

theorem concerns_onPublishMessage {buf : Mem} {iLen : Nat} {c : Int} {o : Outcome}
    (hc : FitsInt 4 c) (hP : P c) (hzero : P 0) (hnone : P (-1))
    (h : st.onPublishMessage buf iLen c = some o) : Concerns P st o.server := by
  obtain ⟨p, _, h⟩ := Option.bind_eq_some_iff.mp h
  obtain ⟨_, h⟩ | ⟨_, h⟩ := ite_eq_some h
  · cases h
    exact concerns_sendServerAck (show FitsInt 4 (-1) by decide) hnone hzero
  · obtain ⟨_, h⟩ | ⟨_, h⟩ := ite_eq_some h
    · cases h
      exact .refl st
    · obtain ⟨_, h⟩ | ⟨_, h⟩ := ite_eq_some h
      · cases h
        exact .refl st
      · obtain ⟨_, h⟩ | ⟨_, h⟩ := ite_eq_some h
        · cases h
        · obtain ⟨st₁, hstore, rfl⟩ := Option.map_eq_some_iff.mp h
          exact (concerns_storeMessages _ hstore).trans (concerns_confirmPublish hc hP hzero)

/-! ## Pulling and subscribing -/

theorem concerns_sendAwaited {pMsg : SeverStoreMessage} {iLen : Nat}
    (hcap : st.queueToConnect.cap = none) (hindex : FitsInt 4 pMsg.index) (hP : P pMsg.index)
    (hzero : P 0) (h : st.sendAwaited pMsg iLen = some st') : Concerns P st st' := by
  have hpush : Concerns P st (st.pushNeedAck pMsg) := .of_view rfl
  exact hpush.trans
    (concerns_enqueueConnectWait hcap (addressed_pack pMsg.fits hindex hP hzero) h)

theorem mem_cancelSubscribe {q : MessageQueue} {c k : Int}
    (h : k ∈ (q.cancelSubscribe c).subscribeConsumers) : k ∈ q.subscribeConsumers :=
  (MessageQueue.eraseConsumer_sublist c _).subset h

theorem mem_addSubscribe {q : MessageQueue} {c k : Int} {level : Nat}
    (h : k ∈ (q.addSubscribe c level).subscribeConsumers) : k ∈ q.subscribeConsumers ∨ k = c := by
  unfold MessageQueue.addSubscribe at h
  split at h
  · exact Or.inl h
  · exact (List.mem_append.mp h).imp id List.mem_singleton.mp

theorem concerns_onRecvMessage {buf : Mem} {c : Int} {o : Outcome}
    (hcap : st.queueToConnect.cap = none) (hc : FitsInt 4 c) (hP : P c) (hzero : P 0)
    (h : st.onRecvMessage buf c = some o) : Concerns P st o.server := by
  obtain ⟨n, _, h⟩ := onRecvMessage_some h
  dsimp only [recvMessage] at h
  split at h
  · cases h
    exact .refl st
  · next queue _ =>
    obtain ⟨q, hq, h⟩ := Option.bind_eq_some_iff.mp h
    split at h
    · cases h
      exact .refl st
    · next pMsg q' hpop =>
      obtain ⟨st₁, hsend, rfl⟩ := Option.map_eq_some_iff.mp h
      have hset : Concerns P st (st.setQueue queue q') :=
        concerns_setQueue_of_consumers st hq fun k hk =>
          (MessageQueue.popFrontMsg_some hpop).consumers ▸ hk
      refine hset.trans ?_
      unfold sendPulled at hsend
      dsimp only at hsend
      split at hsend
      · exact concerns_sendAwaited hcap hc hP hzero hsend
      · have hconsumed : Concerns P (st.setQueue queue q') _ :=
          (concerns_sendConsumed _ cmdCreateRecv n { pMsg with index := c, msgSeq := -1 }).trans
            (concerns_record _ (.sentNoAck pMsg.id))
        exact hconsumed.trans (concerns_enqueueConnectWait (hconsumed.cap.trans hcap)
          (addressed_pack (SeverStoreMessage.fits _) hc hP hzero) hsend)

theorem concerns_onCreateSubscribe {buf : Mem} {c : Int} {o : Outcome} (hP : P c)
    (h : st.onCreateSubscribe buf c = some o) : Concerns P st o.server := by
  obtain ⟨n, _, h⟩ := onCreateSubscribe_some h
  dsimp only [createSubscribe] at h
  split at h
  · cases h
    exact .refl st
  · next queue _ =>
    obtain ⟨q, hq, h⟩ := Option.bind_eq_some_iff.mp h
    obtain ⟨r, hsend, rfl⟩ := Option.map_eq_some_iff.mp h
    have hadded : ∀ k ∈ (q.addSubscribe c (readByte buf 32)).subscribeConsumers,
        Subscribed st queue k ∨ P k := by
      intro k hk
      rcases mem_addSubscribe hk with hold | rfl
      · exact Or.inl ⟨q, hq, hold⟩
      · exact Or.inr hP
    have hr : Concerns P st r.2 :=
      (concerns_setQueue st hadded).trans (concerns_sendSubscribers hsend)
    have hqueue : r.2.queues queue = some (q.addSubscribe c (readByte buf 32)) := by
      rw [queues_sendSubscribers hsend]
      exact if_pos rfl
    split
    · exact hr.trans (concerns_setQueue_of_consumers _ hqueue fun k hk => mem_cancelSubscribe hk)
    · split
      · exact hr.trans (.of_view rfl)
      · exact hr

/-! ## Cancelling -/

theorem concerns_cancelAutoDelete {n : Name} {id : QueueId} {q : MessageQueue}
    (h : st.queues id = some q) : Concerns P st (st.cancelAutoDelete n id q).server := by
  have hdetach : Concerns P st (st.detachQueue .checked id q).2 :=
    concerns_detachQueue fun k hk => Or.inl ⟨q, h, hk⟩
  unfold cancelAutoDelete
  dsimp only
  split
  · exact hdetach
  · split
    · exact hdetach.trans (concerns_sendPersis _ _ _)
    · exact (hdetach.trans (concerns_sendPersis _ _ _)).trans (concerns_freeQueue _ _)

theorem concerns_afterCancel {n : Name} {id : QueueId} {q : MessageQueue}
    (h : st.queues id = some q) : Concerns P st (st.afterCancel n id q).server := by
  have herase : Concerns P st (st.eraseSubcribe q.queueName) := .of_view rfl
  unfold afterCancel
  dsimp only
  split
  · exact herase.trans (concerns_cancelAutoDelete h)
  · split
    · exact herase.trans (.of_view rfl)
    · exact herase

theorem concerns_onCancelSubscribe {buf : Mem} {c : Int} {o : Outcome} (hP : P c)
    (h : st.onCancelSubscribe buf c = some o) : Concerns P st o.server := by
  obtain ⟨n, _, h⟩ := onCancelSubscribe_some h
  dsimp only [LogicServer.cancelSubscribe] at h
  split at h
  · cases h
    exact .refl st
  · split at h
    · cases h
      exact .refl st
    · next queue _ =>
      obtain ⟨q, hq, h⟩ := Option.bind_eq_some_iff.mp h
      obtain ⟨r, hsend, rfl⟩ := Option.map_eq_some_iff.mp h
      have hr : Concerns P st r.2 :=
        (concerns_setQueue_of_consumers st hq fun k hk => mem_cancelSubscribe hk).trans
          (concerns_sendSubscribers hsend)
      have hqueue : r.2.queues queue = some (q.cancelSubscribe c) := by
        rw [queues_sendSubscribers hsend]
        exact if_pos rfl
      split
      · refine hr.trans (concerns_setQueue _ ?_)
        intro k hk
        rcases mem_addSubscribe hk with hold | rfl
        · exact Or.inl ⟨_, hqueue, hold⟩
        · exact Or.inr hP
      · exact hr.trans (concerns_afterCancel hqueue)

/-! ## Acknowledgements and exits -/

theorem concerns_dropAcked (st : LogicServer) (pMsg : SeverStoreMessage) (iAckSeq : Int) :
    Concerns P st (st.dropAcked pMsg iAckSeq) :=
  (concerns_sendConsumed st _ _ _).trans (concerns_record _ _)

theorem concerns_ackBatch (c iAckSeq : Int) (l kept : List SeverStoreMessage)
    (st : LogicServer) : Concerns P st (ackBatch c iAckSeq kept l st) := by
  induction l generalizing kept st with
  | nil => exact .of_view rfl
  | cons m l ih =>
    rw [ackBatch]
    split
    · exact ih _ st
    · split
      · exact (concerns_dropAcked st m iAckSeq).trans (ih _ _)
      · exact .of_view rfl

theorem concerns_onClientAck (st : LogicServer) (buf : Mem) (c : Int) :
    Concerns P st (st.onClientAck buf c) := by
  unfold onClientAck clientAck decodeClientAck
  dsimp only
  split
  · unfold ackSingle
    split
    · exact .refl st
    · next m _ =>
      have hset : Concerns P st (st.setNeedAck (st.needAckMessageList.eraseP fun m =>
        m.msgSeq = readInt buf 1)) := .of_view rfl
      exact hset.trans (concerns_dropAcked _ _ _)
  · split
    · exact concerns_ackBatch _ _ _ _ _
    · exact .refl st

theorem concerns_exitQueue {entry : Σ _ : Name, QueueId} {q : MessageQueue}
    (hq : st.queues entry.2 = some q) (h : st.exitQueue entry q = some st') :
    Concerns P st st' := by
  obtain ⟨r, hsend, rfl⟩ := Option.map_eq_some_iff.mp h
  have hr : Concerns P st r.2 := concerns_sendSubscribers hsend
  split
  · dsimp only
    split
    · have hqueue : (r.2.eraseSubcribe entry.1).queues entry.2 = some q :=
        (congrFun (queues_sendSubscribers hsend) _).trans hq
      have herase : Concerns P st (r.2.eraseSubcribe entry.1) := hr.trans (.of_view rfl)
      exact ((herase.trans (concerns_detachQueue fun k hk => Or.inl ⟨q, hqueue, hk⟩)).trans
        (concerns_sendPersis _ _ _)).trans (concerns_freeQueue _ _)
    · exact hr.trans (.of_view rfl)
  · exact hr

theorem concerns_exitQueues {c : Int} (entries : List (Σ _ : Name, QueueId))
    {st st' : LogicServer} (h : exitQueues c entries st = some st') : Concerns P st st' := by
  induction entries generalizing st with
  | nil =>
    cases h
    exact .refl _
  | cons e rest ih =>
    simp only [exitQueues] at h
    split at h
    · cases h
    · next q hq =>
      have hset : Concerns P st (st.setQueue e.2 (q.cancelSubscribe c)) :=
        concerns_setQueue_of_consumers st hq fun k hk => mem_cancelSubscribe hk
      split at h
      · obtain ⟨st₁, hone, hloop⟩ := Option.bind_eq_some_iff.mp h
        exact (hset.trans (concerns_exitQueue (if_pos rfl) hone)).trans (ih hloop)
      · exact hset.trans (ih h)

theorem concerns_requeue (l : List SeverStoreMessage) {st st' : LogicServer}
    (h : requeue l st = some st') : Concerns P st st' := by
  induction l generalizing st with
  | nil =>
    cases h
    exact .refl _
  | cons m l ih =>
    simp only [requeue] at h
    split at h
    · exact ih h
    · next queue _ =>
      split at h
      · cases h
      · next q hq =>
        have hset : Concerns P st (st.setQueue queue (q.addMessageFront m)) :=
          concerns_setQueue_of_consumers st hq fun k hk =>
            (MessageQueue.addMessageFront_added q m).consumers ▸ hk
        exact hset.trans (ih h)

theorem concerns_onClientExit {c : Int} (h : st.onClientExit c = some st') :
    Concerns P st st' := by
  obtain ⟨st₁, hqueues, hneed⟩ := Option.bind_eq_some_iff.mp h
  obtain ⟨st₂, hrequeue, rfl⟩ := Option.map_eq_some_iff.mp hneed
  have hprune : Concerns P st (st.pruneMsgSeqs c) := .of_view rfl
  exact ((hprune.trans (concerns_exitQueues _ hqueues)).trans
    (concerns_requeue _ hrequeue)).trans (.of_view rfl)

/-! ## A package -/

theorem concerns_dispatch {p : Package} {o : Outcome} (hcap : st.queueToConnect.cap = none)
    (hP : P p.clientIndex) (hzero : P 0) (hnone : P (-1)) (h : st.dispatch p = some o) :
    Concerns P st o.server := by
  have hc : FitsInt 4 p.clientIndex := fitsInt_readInt _ _
  unfold LogicServer.dispatch at h
  obtain ⟨_, h⟩ | ⟨_, h⟩ := ite_eq_some h
  · exact concerns_onCreateExchange h
  obtain ⟨_, h⟩ | ⟨_, h⟩ := ite_eq_some h
  · exact concerns_onCreateQueue h
  obtain ⟨_, h⟩ | ⟨_, h⟩ := ite_eq_some h
  · exact concerns_onCreateBinding h
  obtain ⟨_, h⟩ | ⟨_, h⟩ := ite_eq_some h
  · exact concerns_onPublishMessage hc hP hzero hnone h
  obtain ⟨_, h⟩ | ⟨_, h⟩ := ite_eq_some h
  · exact concerns_onRecvMessage hcap hc hP hzero h
  obtain ⟨_, h⟩ | ⟨_, h⟩ := ite_eq_some h
  · exact concerns_onCreateSubscribe hP h
  obtain ⟨_, h⟩ | ⟨_, h⟩ := ite_eq_some h
  · exact concerns_onDeleteExchange h
  obtain ⟨_, h⟩ | ⟨_, h⟩ := ite_eq_some h
  · exact concerns_onDeleteQueue h
  obtain ⟨_, h⟩ | ⟨_, h⟩ := ite_eq_some h
  · exact concerns_onCancelSubscribe hP h
  obtain ⟨_, h⟩ | ⟨_, h⟩ := ite_eq_some h
  · cases h
    exact concerns_onClientAck _ _ _
  obtain ⟨_, h⟩ | ⟨_, h⟩ := ite_eq_some h
  · obtain ⟨st₁, hexit, rfl⟩ := Option.map_eq_some_iff.mp h
    exact concerns_onClientExit hexit
  · cases h
    exact .refl st

theorem concerns_reply {o : Outcome} {c : Int} (hc : FitsInt 4 c) (hP : P c) (hzero : P 0) :
    Concerns P o.server (reply o c) := by
  unfold reply
  split
  · exact .refl _
  · exact concerns_enqueueConnect _ (addressed_pack (ActReplyMessage.fits _) hc hP hzero)

theorem concerns_package {p : Package} (hcap : st.queueToConnect.cap = none)
    (hP : P p.clientIndex) (hzero : P 0) (hnone : P (-1)) (h : st.processPackage p = some st') :
    Concerns P st st' := by
  obtain ⟨o, hprocess, rfl⟩ := Option.map_eq_some_iff.mp h
  refine Concerns.trans ?_ (concerns_reply (fitsInt_readInt _ _) hP hzero)
  obtain ⟨_, hprocess⟩ | ⟨_, hprocess⟩ := ite_eq_some hprocess
  · cases hprocess
    exact .refl st
  · exact concerns_dispatch hcap hP hzero hnone hprocess

/-! ## A push round -/

/-- A pushed message goes to a subscriber of its queue. -/
theorem index_of_pop {q q' : MessageQueue} {m : SeverStoreMessage}
    (h : q.popFrontMsg true = some (m, q')) : m.index ∈ q.subscribeConsumers := by
  unfold MessageQueue.popFrontMsg at h
  split at h
  · cases h
  · next hsubs =>
    have hne : q.subscribeConsumers ≠ [] := by simpa using hsubs
    have hpos := List.length_pos_iff.mpr hne
    split at h
    · cases h
    · cases h
      have hlt : q.nextPushIndex.toNat < q.subscribeConsumers.length := by
        unfold MessageQueue.nextPushIndex
        split <;> omega
      rw [List.getD_eq_getElem _ _ hlt]
      exact List.getElem_mem hlt

theorem concerns_pushOne {q : MessageQueue} {m : SeverStoreMessage}
    (hcap : st.queueToConnect.cap = none) (hindex : FitsInt 4 m.index) (hP : P m.index)
    (hzero : P 0) (h : st.pushOne q m = some st') : Concerns P st st' := by
  unfold pushOne at h
  split at h
  · refine concerns_sendAwaited hcap ?_ ?_ hzero h
    · exact hindex
    · exact hP
  · obtain ⟨st₁, hsend, rfl⟩ := Option.map_eq_some_iff.mp h
    have hpack : Concerns P st st₁ := concerns_enqueueConnectWait hcap (addressed_pack
      (SeverStoreMessage.fits { m with cmdId := cmdServerPushMessage, msgSeq := -1 }) hindex hP
        hzero) hsend
    exact (hpack.trans (concerns_sendConsumed st₁ _ _ _)).trans (concerns_record _ _)

section Push

variable (hfits : ∀ k, P k → FitsInt 4 k) (hzero : P 0)
include hfits hzero

theorem concerns_pushQueue (queue : QueueId) (fuel : Nat) {st st' : LogicServer}
    (hcap : st.queueToConnect.cap = none) (hsubs : ∀ queue k, Subscribed st queue k → P k)
    (h : pushQueue queue fuel st = some st') : Concerns P st st' := by
  induction fuel generalizing st with
  | zero =>
    cases h
    exact .refl _
  | succ fuel ih =>
    simp only [pushQueue] at h
    split at h
    · cases h
    · next q hq =>
      split at h
      · cases h
        exact .refl _
      · next m q' hpop =>
        obtain ⟨st₁, hone, hrest⟩ := Option.bind_eq_some_iff.mp h
        have hP : P m.index := hsubs queue _ ⟨q, hq, index_of_pop hpop⟩
        have hset : Concerns P st (st.setQueue queue q') :=
          concerns_setQueue_of_consumers st hq fun k hk =>
            (MessageQueue.popFrontMsg_some hpop).consumers ▸ hk
        have hnow := hset.trans
          (concerns_pushOne (hset.cap.trans hcap) (hfits _ hP) hP hzero hone)
        refine hnow.trans (ih (hnow.cap.trans hcap) (fun queue k hk => ?_) hrest)
        exact (hnow.subscribed queue k hk).elim (hsubs queue k) id

/-- By induction on the number of entries left, since the loop may skip one. -/
theorem concerns_pushLoop (n : Nat) (entries : List (Σ _ : Name, QueueId))
    (hn : entries.length ≤ n) {st st' : LogicServer} (hcap : st.queueToConnect.cap = none)
    (hsubs : ∀ queue k, Subscribed st queue k → P k) (h : pushLoop entries st = some st') :
    Concerns P st st' := by
  induction n generalizing entries st with
  | zero =>
    cases List.length_eq_zero_iff.mp (Nat.le_zero.mp hn)
    cases h
    exact .refl _
  | succ n ih =>
    cases entries with
    | nil =>
      cases h
      exact .refl _
    | cons e rest =>
      have hrest : rest.length ≤ n := Nat.le_of_succ_le_succ hn
      simp only [pushLoop] at h
      split at h
      · cases h
      next q _ =>
        split at h
        · obtain ⟨st₁, hqueue, hloop⟩ := Option.bind_eq_some_iff.mp h
          have hnow := concerns_pushQueue hfits hzero _ _ hcap hsubs hqueue
          refine hnow.trans (ih rest hrest (hnow.cap.trans hcap) (fun queue k hk => ?_) hloop)
          exact (hnow.subscribed queue k hk).elim (hsubs queue k) id
        · split at h
          · cases h
          · next e' rest' =>
            have hloop : Concerns P ((st.eraseSubcribe e'.1).insertUnSubcribe q.queueName e.2)
                st' := ih rest' (Nat.le_of_succ_le hrest) hcap hsubs h
            have herase : Concerns P st ((st.eraseSubcribe e'.1).insertUnSubcribe q.queueName
              e.2) := .of_view rfl
            exact herase.trans hloop

/-- Pushed messages go to subscribers. -/
theorem concerns_pushMessage (hcap : st.queueToConnect.cap = none)
    (hsubs : ∀ queue k, Subscribed st queue k → P k) (h : st.pushMessage = some st') :
    Concerns P st st' := concerns_pushLoop hfits hzero _ _ le_rfl hcap hsubs h

/-- Whatever the server does, only the senders of packages and the subscribers are concerned. -/
theorem concerns_step {a : LogicServer.Step} (hcap : st.queueToConnect.cap = none)
    (hsubs : ∀ queue k, Subscribed st queue k → P k) (hnone : P (-1))
    (hpackage : ∀ p, a = .package p → P p.clientIndex) (hdrain : a ≠ .drainConnect)
    (h : LogicServer.step st a = some st') : Concerns P st st' := by
  cases a with
  | package p => exact concerns_package hcap (hpackage p rfl) hzero hnone h
  | pushMessage => exact concerns_pushMessage hfits hzero hcap hsubs h
  | sendMultiAck =>
    obtain ⟨hentries, h⟩ | ⟨_, h⟩ := ite_eq_some h
    · cases h
      have hempty : st.producerLastMsgSeq = ∅ := AList.ext hentries
      exact .of_view (by rw [clientView, clientView, hempty])
    · cases h
  | drainConnect => exact absurd rfl hdrain
  | drainPersis =>
    obtain ⟨r, _, rfl⟩ := Option.map_eq_some_iff.mp h
    exact .of_view rfl
  | rehash t =>
    obtain ⟨hsame, h⟩ | ⟨_, h⟩ := ite_eq_some h
    · cases h
      refine ⟨fun _ _ hk => Or.inl hk, fun k hk => Or.inl ?_, rfl, [], (List.append_nil _).symm,
        fun _ h => nomatch h⟩
      have hkeys := (hsame.2.2.2.2.2.map Sigma.fst).mem_iff (a := k)
      exact hkeys.mp hk
    · cases h

end Push

end Wsmq.Processes
