import Wsmq.Lib.Brokers
import Wsmq.LogicServer.Run

/-!
# The logic server is a broker of named queues

`broker st` is what the state `st` is for: which queues are in which table, and
where every message is.  `step_follows`: while every packet to the persistence
server is accepted, each step of the server is a sequence of broker moves; the
moves `delete` and `lose` come only from the steps that `Deletes` and `Loses` name.
-/

namespace Wsmq.LogicServer
open Lib Lib.ByteString Lib.Brokers

variable [Platform]

/-! ## Abstraction -/

def queueOf (q : MessageQueue) : Queue Name Int :=
  ⟨q.queueName, q.subscribeConsumers, q.autoDel, q.messages.map (·.id)⟩

def createdOf : Event → Option (QueueId × Name × Bool)
  | .created queue name autoDel => some (queue, name, autoDel)
  | _ => none

def storedOf : Event → Option (Nat × QueueId)
  | .stored _ _ _ msg queue => some (msg, queue)
  | _ => none

def goneOf : Event → Option Nat
  | .sentNoAck msg => some msg
  | .acked msg _ => some msg
  | _ => none

def awaitingOf (l : List SeverStoreMessage) : Multiset (Nat × Name) :=
  l.map fun m => (m.id, m.queueName)

def broker (st : LogicServer) : Broker Name Int where
  idle n := st.unSubcribeQueues.lookup n
  active n := st.subcribeQueues.lookup n
  queues id := (st.queues id).map queueOf
  created := st.history.filterMap createdOf
  awaiting := awaitingOf st.needAckMessageList
  gone := st.history.filterMap goneOf
  stored := st.history.filterMap storedOf
  nextQueue := st.nextQueue
  nextMsg := st.nextMsg

/-- Moves of the broker while the capacity of `LOGIC_TO_PERSIS` stays. -/
structure Follows (allowed : Label → Prop) (st st' : LogicServer) : Prop where
  cap : st'.queueToPersis.cap = st.queueToPersis.cap
  moves : Moves allowed (broker st) (broker st')

namespace Follows

variable {allowed : Label → Prop} {st st' st'' : LogicServer}

theorem refl (st : LogicServer) : Follows allowed st st := ⟨rfl, .refl _ _⟩

theorem trans (h : Follows allowed st st') (h' : Follows allowed st' st'') :
    Follows allowed st st'' := ⟨h'.cap.trans h.cap, h.moves.trans h'.moves⟩

theorem of_eq (hcap : st'.queueToPersis.cap = st.queueToPersis.cap)
    (hb : broker st' = broker st) : Follows allowed st st' := ⟨hcap, hb ▸ .refl _ _⟩

theorem of_move {l : Label} (hl : allowed l)
    (hcap : st'.queueToPersis.cap = st.queueToPersis.cap)
    (h : Move (broker st) l (broker st')) : Follows allowed st st' := ⟨hcap, .single hl h⟩

theorem mono {allowed' : Label → Prop} (hsub : ∀ l, allowed l → allowed' l)
    (h : Follows allowed st st') : Follows allowed' st st' := ⟨h.cap, h.moves.mono hsub⟩

theorem registered (h : Follows allowed st st') (hr : Registered (broker st)) :
    Registered (broker st') :=
  h.moves.invariant (fun _ _ _ hb _ hm => registered_of_move hb hm) hr

end Follows

/-! ## What the broker does not see -/

variable {st st' : LogicServer}

@[simp] theorem broker_enqueuePersis (bs : Bytes) :
    broker (st.enqueuePersis bs).2 = broker st := rfl

@[simp] theorem broker_enqueueConnect (bs : Bytes) :
    broker (st.enqueueConnect bs).2 = broker st := rfl

@[simp] theorem cap_enqueuePersis (bs : Bytes) :
    (st.enqueuePersis bs).2.queueToPersis.cap = st.queueToPersis.cap :=
  ShmQueue.Fifo.call_enqueue_cap _ _

theorem enqueuePersis_ret (h : st.queueToPersis.cap = none) (bs : Bytes) :
    (st.enqueuePersis bs).1 = success :=
  ShmQueue.Fifo.call_enqueue_ret h bs

/-- Waiting changes nothing but the channel that is waited for. -/
theorem waitConnect_some {bs : Bytes} {fuel : Nat} {st st' : LogicServer}
    (h : waitConnect bs fuel st = some st') :
    st' = { st with queueToConnect := st'.queueToConnect } := by
  induction fuel generalizing st with
  | zero => cases h
  | succ fuel ih =>
    rw [waitConnect] at h
    split at h
    · obtain ⟨st₁, hdrain, hrest⟩ := Option.bind_eq_some_iff.mp h
      obtain ⟨r, _, rfl⟩ := Option.map_eq_some_iff.mp hdrain
      have hsame := ih hrest
      exact hsame
    · cases h
      rfl

theorem enqueueConnectWait_some {bs : Bytes} (h : st.enqueueConnectWait bs = some st') :
    st' = { st with queueToConnect := st'.queueToConnect } := waitConnect_some h

@[simp] theorem broker_queueToConnect (f : ShmQueue.Fifo) :
    broker { st with queueToConnect := f } = broker st := rfl

theorem broker_setQueue (st : LogicServer) (id : QueueId) (q : MessageQueue) :
    broker (st.setQueue id q) = (broker st).setQueue id (some (queueOf q)) := by
  simp only [broker, setQueue, Broker.setQueue, Broker.mk.injEq, true_and, and_true]
  funext i
  rw [Function.update_apply]
  split <;> rfl

theorem broker_freeQueue (st : LogicServer) (id : QueueId) :
    broker (st.freeQueue id) = (broker st).setQueue id none := by
  simp only [broker, freeQueue, Broker.setQueue, Broker.mk.injEq, true_and, and_true]
  funext i
  rw [Function.update_apply]
  split <;> rfl

/-- Writing back a queue that looks the same changes nothing. -/
theorem broker_setQueue_same {id : QueueId} {q q' : MessageQueue} (hq : st.queues id = some q)
    (h : queueOf q' = queueOf q) : broker (st.setQueue id q') = broker st := by
  rw [broker_setQueue, h]
  have hself : (broker st).queues id = some (queueOf q) := by simp [broker, hq]
  simp only [Broker.setQueue, ← hself, Function.update_eq_self]

omit [Platform] in
theorem coe_filterMap_snoc {α β : Type} (f : α → Option β) (l : List α) (a : α) :
    (((l ++ [a]).filterMap f : List β) : Multiset β) =
      (f a).elim (l.filterMap f : Multiset β) fun b => b ::ₘ (l.filterMap f : Multiset β) := by
  cases h : f a with
  | none => simp [List.filterMap_append, h]
  | some b =>
    rw [List.filterMap_append, List.filterMap_cons_some h, List.filterMap_nil]
    exact Multiset.coe_eq_coe.mpr (List.perm_append_singleton _ _)

theorem broker_record (st : LogicServer) (e : Event) :
    broker (st.record e) =
      { broker st with
        created := (createdOf e).elim (broker st).created fun x => x ::ₘ (broker st).created
        gone := (goneOf e).elim (broker st).gone fun x => x ::ₘ (broker st).gone
        stored := (storedOf e).elim (broker st).stored fun x => x ::ₘ (broker st).stored } := by
  simp only [broker, record, coe_filterMap_snoc]

theorem broker_pushNeedAck (st : LogicServer) (m : SeverStoreMessage) :
    broker (st.pushNeedAck m) =
      { broker st with awaiting := (m.id, m.queueName) ::ₘ (broker st).awaiting } := by
  have h : awaitingOf (st.needAckMessageList ++ [m]) =
      (m.id, m.queueName) ::ₘ awaitingOf st.needAckMessageList :=
    Multiset.coe_eq_coe.mpr ((List.perm_append_singleton _ _).map _)
  simp only [broker, pushNeedAck, h]

@[simp] theorem broker_sendPersis (bDurable : Bool) (bs : Bytes) :
    broker (st.sendPersis bDurable bs).2 = broker st := by
  unfold sendPersis
  split <;> rfl

@[simp] theorem cap_sendPersis (bDurable : Bool) (bs : Bytes) :
    (st.sendPersis bDurable bs).2.queueToPersis.cap = st.queueToPersis.cap := by
  unfold sendPersis
  split
  · exact cap_enqueuePersis _
  · rfl

theorem sendPersis_ret {st : LogicServer} (h : st.queueToPersis.cap = none) (bDurable : Bool)
    (bs : Bytes) : (st.sendPersis bDurable bs).1 = success := by
  unfold sendPersis
  split
  · exact enqueuePersis_ret h bs
  · rfl

@[simp] theorem broker_sendConsumed (iCmdId : Nat) (name : Name) (m : SeverStoreMessage) :
    broker (st.sendConsumed iCmdId name m) = broker st := broker_sendPersis _ _

@[simp] theorem cap_sendConsumed (iCmdId : Nat) (name : Name) (m : SeverStoreMessage) :
    (st.sendConsumed iCmdId name m).queueToPersis.cap = st.queueToPersis.cap :=
  cap_sendPersis _ _

theorem subcribeQueues_sendConsumed (iCmdId : Nat) (name : Name) (m : SeverStoreMessage) :
    (st.sendConsumed iCmdId name m).subcribeQueues = st.subcribeQueues := by
  unfold sendConsumed sendPersis
  split <;> rfl

/-! ## Messages leave a queue -/

section Leave

variable {allowed : Label → Prop} {id : QueueId} {q q' : MessageQueue} {m : SeverStoreMessage}

theorem queueOf_popped (h : MessageQueue.Popped q m q') :
    (queueOf q).msgs = m.id ::ₘ (queueOf q').msgs ∧
      queueOf q' = { queueOf q with msgs := (queueOf q').msgs } := by
  refine ⟨Multiset.coe_eq_coe.mpr h.perm, ?_⟩
  simp only [queueOf, h.queueName, h.consumers, h.autoDel]

/-- A popped message is sent and waits for its acknowledgement. -/
theorem follows_await (hkeep : allowed .keep) (hq : st.queues id = some q)
    (hpop : MessageQueue.Popped q m q') {m' : SeverStoreMessage} (hid : m'.id = m.id)
    (hname : m'.queueName = q.queueName) {iLen : Nat}
    (h : (st.setQueue id q').sendAwaited m' iLen = some st') : Follows allowed st st' := by
  obtain ⟨hmsgs, hq'⟩ := queueOf_popped hpop
  have hst := enqueueConnectWait_some h
  have hb : broker st' = { (broker st).setQueue id (some { queueOf q with
      msgs := (queueOf q').msgs }) with
      awaiting := (m.id, (queueOf q).name) ::ₘ (broker st).awaiting } := by
    rw [hst, broker_queueToConnect, broker_pushNeedAck, broker_setQueue, hq', hid, hname]
    rfl
  refine .of_move hkeep (by rw [hst]; rfl) (hb ▸ ?_)
  exact Move.await id (queueOf q) m.id _ (by simp [broker, hq]) hmsgs

/-- A popped message is sent and deleted. -/
theorem follows_deliver (hkeep : allowed .keep) (hq : st.queues id = some q)
    (hpop : MessageQueue.Popped q m q') (hcap : st'.queueToPersis.cap = st.queueToPersis.cap)
    (hb : broker st' = broker ((st.setQueue id q').record (.sentNoAck m.id))) :
    Follows allowed st st' := by
  obtain ⟨hmsgs, hq'⟩ := queueOf_popped hpop
  refine .of_move hkeep hcap ?_
  rw [hb, broker_record, broker_setQueue, hq']
  exact Move.deliver id (queueOf q) m.id _ (by simp [broker, hq]) hmsgs

end Leave

/-! ## PushMessage -/

section Push

variable {allowed : Label → Prop} {id : QueueId} {q q' : MessageQueue} {m : SeverStoreMessage}

theorem pushOne_follows (hkeep : allowed .keep) (hq : st.queues id = some q)
    (hpop : MessageQueue.Popped q m q') (h : (st.setQueue id q').pushOne q m = some st') :
    Follows allowed st st' ∧ st'.subcribeQueues = st.subcribeQueues := by
  unfold pushOne at h
  split at h
  · refine ⟨follows_await hkeep hq hpop (by rfl) (by rfl) h, ?_⟩
    rw [enqueueConnectWait_some h]
    rfl
  · obtain ⟨st₁, h₁, rfl⟩ := Option.map_eq_some_iff.mp h
    have h₁ := enqueueConnectWait_some h₁
    refine ⟨follows_deliver hkeep hq hpop ?_ ?_, ?_⟩
    · rw [h₁]
      exact cap_sendConsumed _ _ _
    · rw [broker_record, broker_sendConsumed, h₁, broker_queueToConnect, broker_record]
    · rw [h₁]
      exact subcribeQueues_sendConsumed _ _ _

theorem pushQueue_follows (hkeep : allowed .keep) (id : QueueId) (fuel : Nat)
    {st st' : LogicServer} (h : pushQueue id fuel st = some st') :
    Follows allowed st st' ∧ st'.subcribeQueues = st.subcribeQueues := by
  induction fuel generalizing st with
  | zero =>
    cases h
    exact ⟨.refl _, rfl⟩
  | succ fuel ih =>
    simp only [pushQueue] at h
    split at h
    · cases h
    · next q hq =>
      split at h
      · cases h
        exact ⟨.refl _, rfl⟩
      · next pMsg q' hpop =>
        obtain ⟨st₁, hone, hrest⟩ := Option.bind_eq_some_iff.mp h
        obtain ⟨hf, hs⟩ := pushOne_follows hkeep hq (MessageQueue.popFrontMsg_some hpop) hone
        obtain ⟨hf', hs'⟩ := ih hrest
        exact ⟨hf.trans hf', hs'.trans hs⟩

/-- Every registered queue in `m_mSubcribeQueues` is live and has a subscriber. -/
theorem isSubscribe_of_lookup (hr : Registered (broker st)) {n : Name}
    (h : st.subcribeQueues.lookup n = some id) (hq : st.queues id = some q) :
    q.isSubscribe = true := by
  obtain ⟨r, hr, _, hne⟩ := hr.active n id h
  simp only [broker, hq, Option.map_some, Option.some.injEq] at hr
  subst hr
  cases hc : q.subscribeConsumers with
  | nil => exact absurd hc hne
  | cons => simp [MessageQueue.isSubscribe, hc]

theorem pushLoop_follows (hkeep : allowed .keep) (entries : List (Σ _ : Name, QueueId))
    {st st' : LogicServer} (hr : Registered (broker st))
    (hent : ∀ e ∈ entries, st.subcribeQueues.lookup e.1 = some e.2)
    (h : pushLoop entries st = some st') : Follows allowed st st' := by
  induction entries generalizing st with
  | nil =>
    cases h
    exact .refl _
  | cons e rest ih =>
    simp only [pushLoop] at h
    split at h
    · cases h
    · next q hq =>
      rw [if_pos (isSubscribe_of_lookup hr (hent e (by simp)) hq)] at h
      obtain ⟨st₁, hqueue, hrest⟩ := Option.bind_eq_some_iff.mp h
      obtain ⟨hf, hs⟩ := pushQueue_follows hkeep _ _ hqueue
      refine hf.trans (ih (hf.registered hr) (fun x hx => ?_) hrest)
      rw [hs]
      exact hent x (by simp [hx])

omit [Platform] in
theorem lookup_of_mem_entries {m : QueueMap} {e : Σ _ : Name, QueueId} (h : e ∈ m.entries) :
    m.lookup e.1 = some e.2 := AList.mem_lookup_iff.mpr h

theorem pushMessage_follows (hkeep : allowed .keep) (hr : Registered (broker st))
    (h : st.pushMessage = some st') : Follows allowed st st' :=
  pushLoop_follows hkeep _ hr (fun _ he => lookup_of_mem_entries he) h

end Push

/-! ## Publishing -/

section Store

variable {allowed : Label → Prop}

theorem queueOf_added {q q' : MessageQueue} {m : SeverStoreMessage}
    (h : MessageQueue.Added q m q') :
    queueOf q' = { queueOf q with msgs := m.id ::ₘ (queueOf q).msgs } := by
  have hmsgs : (queueOf q').msgs = m.id ::ₘ (queueOf q).msgs := Multiset.coe_eq_coe.mpr h.perm
  rw [← hmsgs]
  simp only [queueOf, h.queueName, h.consumers, h.autoDel]

theorem broker_addMessage (st : LogicServer) (p : Publish) (c : Int) (id : QueueId)
    (q : MessageQueue) (m : SeverStoreMessage) :
    broker (st.addMessage p c id q m) =
      { (broker st).setQueue id (some { queueOf q with msgs := m.id ::ₘ (queueOf q).msgs }) with
        stored := (m.id, id) ::ₘ (broker st).stored
        nextMsg := (broker st).nextMsg + 1 } := by
  have h := broker_record (st.setQueue id (q.addMessage m))
    (.stored c p.iMsgSeq p.confirmLevel m.id id)
  rw [broker_setQueue, queueOf_added (MessageQueue.addMessage_added q m)] at h
  exact congrArg (fun b : Broker Name Int => { b with nextMsg := b.nextMsg + 1 }) h

theorem storeMessage_follows (hkeep : allowed .keep) {p : Publish} {c : Int} {id : QueueId}
    (h : st.storeMessage p c id = some st') : Follows allowed st st' := by
  obtain ⟨q, hq, rfl⟩ := Option.map_eq_some_iff.mp h
  have hmove := Move.store (b := broker st) id (queueOf q) (by simp [broker, hq])
  split
  · refine .of_move hkeep (cap_enqueuePersis _) ?_
    rw [broker_addMessage, broker_enqueuePersis]
    exact hmove
  · refine .of_move hkeep rfl ?_
    rw [broker_addMessage]
    exact hmove

theorem storeMessages_follows (hkeep : allowed .keep) {p : Publish} {c : Int}
    (queues : List QueueId) {st st' : LogicServer} (h : storeMessages p c queues st = some st') :
    Follows allowed st st' := by
  induction queues generalizing st with
  | nil =>
    cases h
    exact .refl _
  | cons id rest ih =>
    obtain ⟨st₁, hone, hrest⟩ := Option.bind_eq_some_iff.mp h
    exact (storeMessage_follows hkeep hone).trans (ih hrest)

theorem broker_insertMsgSeq (key : Bytes) : broker (st.insertMsgSeq key) = broker st := by
  unfold insertMsgSeq
  split <;> rfl

theorem cap_insertMsgSeq (key : Bytes) :
    (st.insertMsgSeq key).queueToPersis.cap = st.queueToPersis.cap := by
  unfold insertMsgSeq
  split <;> rfl

theorem confirmPublish_follows (p : Publish) (c : Int) :
    Follows allowed st (st.confirmPublish p c) := by
  unfold confirmPublish
  split
  · exact .of_eq (cap_insertMsgSeq _) (broker_insertMsgSeq _)
  · split
    · exact .of_eq (cap_insertMsgSeq _) (broker_insertMsgSeq _)
    · exact .refl _

theorem publish_follows (hkeep : allowed .keep) {p : Publish} {c : Int} {o : Outcome}
    (h : st.publish p c = some o) : Follows allowed st o.server := by
  unfold publish at h
  split at h
  · cases h
    exact .of_eq rfl rfl
  · split at h
    · cases h
      exact .refl _
    · split at h
      · cases h
        exact .refl _
      · split at h
        · cases h
        · obtain ⟨st₁, hstore, rfl⟩ := Option.map_eq_some_iff.mp h
          exact (storeMessages_follows hkeep _ hstore).trans (confirmPublish_follows p c)

end Store

/-! ## Sweeping the exchanges -/

theorem sweepExchanges_broker (mode : SweepMode) (id : QueueId)
    (entries : List (Σ _ : Name, Exchange)) (st : LogicServer) :
    broker (sweepExchanges mode id entries st).2 = broker st ∧
      (sweepExchanges mode id entries st).2.queueToPersis.cap = st.queueToPersis.cap := by
  induction entries generalizing st with
  | nil => exact ⟨rfl, rfl⟩
  | cons e rest ih =>
    simp only [sweepExchanges]
    split
    · exact ih st
    · split
      · split
        · exact ⟨broker_sendPersis _ _, cap_sendPersis _ _⟩
        · exact ⟨(ih _).1.trans (broker_sendPersis _ _), (ih _).2.trans (cap_sendPersis _ _)⟩
      · exact ih _

/-- The sweep does not stop as long as every packet is accepted. -/
theorem sweepExchanges_none (mode : SweepMode) (id : QueueId)
    (entries : List (Σ _ : Name, Exchange)) {st : LogicServer}
    (hcap : st.queueToPersis.cap = none) : (sweepExchanges mode id entries st).1 = none := by
  induction entries generalizing st with
  | nil => rfl
  | cons e rest ih =>
    simp only [sweepExchanges]
    split
    · exact ih hcap
    · split
      · rw [if_neg fun h => h.2 (sendPersis_ret (by exact hcap) _ _)]
        exact ih ((cap_sendPersis _ _).trans hcap)
      · exact ih hcap

end Wsmq.LogicServer
