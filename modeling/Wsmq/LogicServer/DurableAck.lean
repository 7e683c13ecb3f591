import Wsmq.LogicServer.PublishAck

/-!
# Acknowledged durable publishes

`OnPublishMessage` does not look at what `Enqueue` returns for the durable records.
So an acknowledged message is safe only when all its records fit into
`LOGIC_TO_PERSIS` beforehand.
-/

namespace Wsmq.LogicServer
open Lib Lib.ByteString Lib.Packing Lib.Fifo

section Records

variable [Platform] {st st' : LogicServer}

/-- What `Enqueue` returns for the durable records, in the order of the loop. -/
def durableEnqueues (p : Publish) (iCliIndex : Int) : List QueueId → LogicServer → List Int
  | [], _ => []
  | queue :: rest, st =>
    match st.queues queue, st.storeMessage p iCliIndex queue with
    | some q, some st' =>
      if p.bDurable ∧ q.durable then
        (st.enqueuePersis (durablePacket (durableMessage (st.newMessage p) q))).1 ::
          durableEnqueues p iCliIndex rest st'
      else durableEnqueues p iCliIndex rest st'
    | _, _ => []

def isDurable (st : LogicServer) (queue : QueueId) : Bool := (st.queues queue).any (·.durable)

/-- The durable queues among those the message goes to. -/
def durableQueues (st : LogicServer) (queues : List QueueId) : List QueueId :=
  queues.filter st.isDurable

/-- The cost of a record in `LOGIC_TO_PERSIS`. -/
def recordCost (p : Publish) : Nat := 14 + (2 + 2 + maxNameLength + 4 + 2 + p.body.length)

omit [Platform] in
theorem blockCost_record {pMsg : SeverStoreMessage} {p : Publish} (hbody : pMsg.msgBody = p.body)
    (hlen : p.body.length + publishBodyOffset ≤ maxClintPackageLength) :
    ShmQueue.blockCost (durablePacket pMsg) = recordCost p := by
  have hoff : publishBodyOffset = 72 := rfl
  have hmax : maxClintPackageLength = 11264 := rfl
  have hname : maxNameLength = 32 := rfl
  have hdur : pMsg.durableLen = 2 + 2 + maxNameLength + 4 + 2 + p.body.length := by
    rw [SeverStoreMessage.durableLen, hbody]
    exact Nat.mod_eq_of_lt (by omega)
  have hfits : ¬ ((pMsg.durableLen : Int) > maxClintPackageLength) := by omega
  have hlength : (durablePacket pMsg).length = pMsg.durableLen := by
    rw [durablePacket, SeverStoreMessage.serializeDurableToString, if_neg hfits, Packed.sent,
      Mem.read_length, Int.toNat_natCast]
  rw [ShmQueue.blockCost_eq, hlength, hdur, recordCost]

theorem addMessage_durable (q : MessageQueue) (pMsg : SeverStoreMessage) :
    (q.addMessage pMsg).durable = q.durable := by
  unfold MessageQueue.addMessage
  split <;> rfl

theorem isDurable_addMessage {id : QueueId} {q : MessageQueue} (hq : st.queues id = some q)
    (q' : MessageQueue) (hdur : q'.durable = q.durable) (p : Publish) (c : Int)
    (pMsg : SeverStoreMessage) (id' : QueueId) :
    (st.addMessage p c id q' pMsg).isDurable id' = st.isDurable id' := by
  have hqueues : (st.addMessage p c id q' pMsg).queues id' =
      if id' = id then some (q'.addMessage pMsg) else st.queues id' := rfl
  rw [isDurable, isDurable, hqueues]
  split
  · next h =>
    rw [h, hq, Option.any_some, Option.any_some, addMessage_durable, hdur]
  · rfl

/-- What one round of the loop does to `LOGIC_TO_PERSIS`. -/
inductive Round (st : LogicServer) (p : Publish) (q : MessageQueue) (st' : LogicServer) : Prop
  | sent (hdurable : p.bDurable ∧ q.durable)
      (hpersis : st'.queueToPersis = (st.queueToPersis.call (.enqueue
        (durablePacket (durableMessage (st.newMessage p) q)))).2)
  | kept (hdurable : ¬ (p.bDurable ∧ q.durable)) (hpersis : st'.queueToPersis = st.queueToPersis)

theorem storeMessage_round {p : Publish} {c : Int} {id : QueueId}
    (h : st.storeMessage p c id = some st') :
    ∃ q, st.queues id = some q ∧ st'.isDurable = st.isDurable ∧ Round st p q st' := by
  obtain ⟨q, hq, rfl⟩ := Option.map_eq_some_iff.mp h
  refine ⟨q, hq, ?_⟩
  by_cases hdurable : p.bDurable ∧ q.durable
  · rw [if_pos hdurable]
    refine ⟨funext fun id' => ?_, .sent hdurable rfl⟩
    have hsent : (st.enqueuePersis (durablePacket (durableMessage (st.newMessage p) q))).2.queues
        id = some q := hq
    exact isDurable_addMessage hsent { q with durableIndex := q.durableIndex + 1 } rfl p c _ id'
  · rw [if_neg hdurable]
    exact ⟨funext fun id' => isDurable_addMessage hq q rfl p c _ id', .kept hdurable rfl⟩

theorem durableQueues_cons {id : QueueId} {q : MessageQueue} (hq : st.queues id = some q)
    (rest : List QueueId) : st.durableQueues (id :: rest) =
      if q.durable then id :: st.durableQueues rest else st.durableQueues rest := by
  have hid : st.isDurable id = q.durable := by rw [isDurable, hq, Option.any_some]
  rw [durableQueues, List.filter_cons, hid]
  rfl

/-- All records are accepted exactly when there is room for all of them beforehand. -/
theorem durableEnqueues_success_iff {p : Publish} {c : Int} (hdurable : p.bDurable = true)
    (hlen : p.body.length + publishBodyOffset ≤ maxClintPackageLength) (queues : List QueueId)
    {st st' : LogicServer} (h : storeMessages p c queues st = some st') :
    (∀ r ∈ durableEnqueues p c queues st, r = ShmQueue.success) ↔
      Fits st.queueToPersis.cap (total ShmQueue.blockCost st.queueToPersis.items +
        (st.durableQueues queues).length * recordCost p) := by
  induction queues generalizing st with
  | nil =>
    refine iff_of_true (fun r hr => nomatch hr) ?_
    exact st.queueToPersis.fits.mono (by simp [durableQueues])
  | cons id rest ih =>
    obtain ⟨st₁, hone, hrest⟩ := Option.bind_eq_some_iff.mp h
    have hnext := ih hrest
    obtain ⟨q, hq, hsame, hround⟩ := storeMessage_round hone
    have hcost : ShmQueue.blockCost (durablePacket (durableMessage (st.newMessage p) q)) =
        recordCost p := blockCost_record rfl hlen
    have hkeep : st₁.durableQueues rest = st.durableQueues rest := by
      rw [durableQueues, durableQueues, hsame]
    rw [durableQueues_cons hq]
    cases hround with
    | kept hno hpersis =>
      have hq' : ¬ q.durable = true := fun hd => hno ⟨hdurable, hd⟩
      rw [hpersis, hkeep] at hnext
      simpa only [durableEnqueues, hq, hone, if_neg hno, if_neg hq'] using hnext
    | sent hyes hpersis =>
      simp only [durableEnqueues, hq, hone, if_pos hyes, if_pos hyes.2, List.length_cons,
        List.forall_mem_cons]
      by_cases hfits : Fits st.queueToPersis.cap
          (total ShmQueue.blockCost st.queueToPersis.items + recordCost p)
      · have hroom := hfits
        rw [← hcost] at hroom
        obtain ⟨hret, hcap, hitems⟩ := ShmQueue.Fifo.call_enqueue_of_fits hroom
        rw [hpersis, hcap, hitems, total_append, total_cons, total_nil, hcost, hkeep] at hnext
        have hsum : total ShmQueue.blockCost st.queueToPersis.items +
            ((st.durableQueues rest).length + 1) * recordCost p =
            total ShmQueue.blockCost st.queueToPersis.items + (recordCost p + 0) +
              (st.durableQueues rest).length * recordCost p := by ring
        rw [hsum, ← hnext]
        exact and_iff_right hret
      · have hroom := hfits
        rw [← hcost] at hroom
        obtain ⟨hret, _⟩ := ShmQueue.Fifo.call_enqueue_of_not_fits hroom
        refine iff_of_false (fun hall => ?_) (fun hall => hfits (hall.mono ?_))
        · have hfull : ShmQueue.errShmQueueFull = ShmQueue.success := hret.symm.trans hall.1
          revert hfull
          decide
        · have hmul : recordCost p ≤ ((st.durableQueues rest).length + 1) * recordCost p :=
            Nat.le_mul_of_pos_left _ (Nat.succ_pos _)
          omega

/-! ## The acknowledgement -/

/-- The sender is acknowledged at once, or by the next batch. -/
def Acknowledges (st st' : LogicServer) (p : Publish) (iCliIndex : Int) : Prop :=
  (∃ pack, st'.queueToConnect.items = st.queueToConnect.items ++ [pack] ∧
    IsServerAck pack iCliIndex p.iMsgSeq) ∨
  p.confirmLevel = producerMutilAck ∧ st'.producerLastMsgSeq.lookup iCliIndex = some p.iMsgSeq

/-- Known before the publish: its level asks for an acknowledgement that can be made. -/
def WillAck (st : LogicServer) (p : Publish) : Prop :=
  p.confirmLevel = producerSingleAck ∧ st.AckFits ∨ p.confirmLevel = producerMutilAck

instance (st : LogicServer) (p : Publish) : Decidable (st.WillAck p) :=
  inferInstanceAs (Decidable (_ ∨ _))

theorem lastMsgSeq_confirmPublish {p : Publish} (c : Int)
    (hlevel : p.confirmLevel = producerMutilAck) :
    (st.confirmPublish p c).producerLastMsgSeq.lookup c = some p.iMsgSeq := by
  have hsingle : p.confirmLevel ≠ producerSingleAck := by
    rw [hlevel]
    decide
  rw [confirmPublish, if_neg hsingle, if_pos hlevel, insertMsgSeq]
  split <;> exact AList.lookup_insert _

theorem acknowledges_iff {p : Publish} {c : Int} {o : Outcome} (h : st.publish p c = some o)
    (hfresh : ¬ st.IsRepeat p c) (hdone : o.ret = success) (hc : FitsInt 4 c)
    (hseq : FitsInt 4 p.iMsgSeq) : Acknowledges st o.server p c ↔ WillAck st p := by
  constructor
  · rintro (⟨pack, hitems, hack⟩ | ⟨hlevel, _⟩)
    · cases publish_result h with
      | recognised hrepeat => exact (hfresh hrepeat).elim
      | refused => cases hdone
      | stored st₁ _ _ _ hstore =>
        have hnone : (st₁.confirmPublish p c).queueToConnect ≠ st.queueToConnect := by
          intro hsame
          have hitems : st.queueToConnect.items = st.queueToConnect.items ++ [pack] := by
            rw [← hitems, hsame]
          exact absurd (List.append_right_eq_self.mp hitems.symm) (List.cons_ne_nil _ _)
        have hconnect := storeMessages_connect _ hstore
        by_cases hlevel : p.confirmLevel = producerSingleAck
        · refine Or.inl ⟨hlevel, ?_⟩
          by_contra hfull
          have hfull₁ : ¬ st₁.AckFits := by
            rw [AckFits, hconnect]
            exact hfull
          refine hnone ?_
          rw [connect_confirmPublish_single hlevel, sendServerAck_of_full _ hfull₁, hconnect]
        · exact (hnone ((connect_confirmPublish_other hlevel).trans hconnect)).elim
    · exact Or.inr hlevel
  · rintro (⟨hlevel, hroom⟩ | hlevel)
    · obtain ⟨pack, hitems, hack, _⟩ :=
        ackDelivered_of_stored h hfresh hdone hlevel hc hseq hroom
      exact Or.inl ⟨pack, hitems, hack⟩
    · refine Or.inr ⟨hlevel, ?_⟩
      cases publish_result h with
      | recognised hrepeat => exact (hfresh hrepeat).elim
      | refused => cases hdone
      | stored st₁ => exact lastMsgSeq_confirmPublish c hlevel

omit [Platform] in
theorem decodePublish_body {pkg : Package} {p : Publish}
    (h : decodePublish pkg.body pkg.bodyLen = some p) (hbody : 0 ≤ p.iBodyLen) :
    p.body.length + publishBodyOffset ≤ maxClintPackageLength := by
  obtain ⟨_, _, hrest⟩ := Option.bind_eq_some_iff.mp h
  obtain ⟨_, _, rfl⟩ := Option.map_eq_some_iff.mp hrest
  have hlen : pkg.bodyLen + sizeofClientPackageHead = pkg.len := Nat.sub_add_cancel pkg.len_ge
  have hle := pkg.len_le
  have hhead : sizeofClientPackageHead = 8 := rfl
  dsimp only at hbody ⊢
  rw [Mem.read_length]
  omega

/-- A durable publish that is stored: if it is acknowledged, all its records were accepted.
This holds exactly when it will not be acknowledged or all records fit beforehand. -/
theorem acknowledged_records_accepted_iff {pkg : Package} {p : Publish} {o : Outcome}
    (hp : decodePublish pkg.body pkg.bodyLen = some p)
    (h : st.onPublishMessage pkg.body pkg.bodyLen pkg.clientIndex = some o)
    (hdurable : p.bDurable = true) (hfresh : ¬ st.IsRepeat p pkg.clientIndex)
    (hdone : o.ret = success) :
    (Acknowledges st o.server p pkg.clientIndex →
      ∀ r ∈ durableEnqueues p pkg.clientIndex (st.routedQueues p) st, r = ShmQueue.success) ↔
    (¬ WillAck st p ∨ Fits st.queueToPersis.cap
      (total ShmQueue.blockCost st.queueToPersis.items +
        (st.durableQueues (st.routedQueues p)).length * recordCost p)) := by
  have hpub := publish_of_onPublishMessage hp h
  have hack := acknowledges_iff hpub hfresh hdone (fitsInt_readInt _ _) (decodePublish_fits hp)
  cases publish_result hpub with
  | recognised hrepeat => exact (hfresh hrepeat).elim
  | refused => cases hdone
  | stored st₁ _ _ hbody hstore =>
    rw [hack, durableEnqueues_success_iff hdurable (decodePublish_body hp hbody) _ hstore]
    exact imp_iff_not_or

end Records

section Runs

attribute [local instance] Platform.plain

/-- Client 3 makes a durable queue with an exchange that leads to it. -/
def setUpDurable : List Step := [.makeQueue 3 true, .makeExchange 3, .makeBinding 3]

/-- Behind the packet about the new queue there is room for the record. -/
theorem acknowledged_records_accepted_of_room :
    ∃ st p o, publishAfter (some 400) setUpDurable true = some (st, p, o) ∧
      st.queueToPersis.items.length = 1 ∧ Acknowledges st o.server p 12 ∧
      ∀ r ∈ durableEnqueues p 12 (st.routedQueues p) st, r = ShmQueue.success := by
  have hcheck : (publishAfter (some 400) setUpDurable true).map (fun r =>
      decide (r.2.1.bDurable = true ∧ ¬ r.1.IsRepeat r.2.1 12 ∧ r.2.2.ret = success ∧
        r.1.queueToPersis.items.length = 1 ∧ r.1.WillAck r.2.1 ∧
        Fits r.1.queueToPersis.cap (total ShmQueue.blockCost r.1.queueToPersis.items +
          (r.1.durableQueues (r.1.routedQueues r.2.1)).length * recordCost r.2.1))) =
      some true := by decide +kernel
  obtain ⟨⟨st, p, o⟩, hafter, hprops⟩ := Option.map_eq_some_iff.mp hcheck
  obtain ⟨hdurable, hfresh, hdone, hitems, hwill, hroom⟩ := of_decide_eq_true hprops
  obtain ⟨hp, ho⟩ := publishAfter_some hafter
  have hclient : (Step.publishPackage 12 true 0 1).clientIndex = 12 := by decide +kernel
  have hpub := publish_of_onPublishMessage hp ho
  rw [hclient] at hpub
  have hack := (acknowledges_iff hpub hfresh hdone (by decide) (decodePublish_fits hp)).mpr hwill
  rw [← hclient] at hfresh
  have hiff := acknowledged_records_accepted_iff hp ho hdurable hfresh hdone
  rw [hclient] at hiff
  exact ⟨st, p, o, hafter, hitems, hack, hiff.mpr (Or.inr hroom) hack⟩

/-- The packet about the new queue leaves too little room for the record. -/
theorem acknowledged_record_refused :
    ∃ st p o, publishAfter (some 100) setUpDurable true = some (st, p, o) ∧ p.bDurable = true ∧
      0 < p.confirmLevel ∧ Acknowledges st o.server p 12 ∧
      ShmQueue.errShmQueueFull ∈ durableEnqueues p 12 (st.routedQueues p) st := by
  have hcheck : (publishAfter (some 100) setUpDurable true).map (fun r => decide (r.2.1.bDurable = true ∧
      0 < r.2.1.confirmLevel ∧ ¬ r.1.IsRepeat r.2.1 12 ∧ r.2.2.ret = success ∧
      r.1.WillAck r.2.1 ∧
      ShmQueue.errShmQueueFull ∈ durableEnqueues r.2.1 12 (r.1.routedQueues r.2.1) r.1)) =
      some true := by decide +kernel
  obtain ⟨⟨st, p, o⟩, hafter, hprops⟩ := Option.map_eq_some_iff.mp hcheck
  obtain ⟨hdurable, hlevel, hfresh, hdone, hwill, hfull⟩ := of_decide_eq_true hprops
  obtain ⟨hp, ho⟩ := publishAfter_some hafter
  have hclient : (Step.publishPackage 12 true 0 1).clientIndex = 12 := by decide +kernel
  have hpub := publish_of_onPublishMessage hp ho
  rw [hclient] at hpub
  have hack := acknowledges_iff hpub hfresh hdone (by decide) (decodePublish_fits hp)
  exact ⟨st, p, o, hafter, hdurable, hlevel, hack.mpr hwill, hfull⟩

end Runs

end Wsmq.LogicServer
