import Wsmq.ConnectServer
import Wsmq.LogicServer.Dedup

/-!
# Acknowledgements of publishes

A stored publish is acknowledged to its sender, whatever became of its durable
records; a recognised repeat is acknowledged to client index -1, which is nobody.
-/

namespace Wsmq.LogicServer
open Lib Lib.ByteString Lib.Packing Lib.Fifo

section Acks

variable [Platform] {st st' : LogicServer}

/-! ## Channels -/

/-- Room for a server acknowledgement in `LOGIC_TO_CONNECT`. -/
def AckFits (st : LogicServer) : Prop :=
  Fits st.queueToConnect.cap
    (total ShmQueue.blockCost st.queueToConnect.items + (14 + sizeofClientPackageHead + 4))

instance (st : LogicServer) : Decidable st.AckFits := inferInstanceAs (Decidable (Fits _ _))

omit [Platform] in
theorem blockCost_ack (oMsg : ServerAckMessage) :
    ShmQueue.blockCost (oMsg.getMessagePack zeroed maxServerPackageLength).sent =
      14 + sizeofClientPackageHead + 4 := by
  rw [ShmQueue.blockCost_eq, oMsg.sent_eq, image_length oMsg.fits]
  rfl

theorem sendServerAck_items (oMsg : ServerAckMessage) (h : st.AckFits) :
    (st.sendServerAck oMsg).queueToConnect.items =
      st.queueToConnect.items ++ [image oMsg.fields] := by
  have hfits : Fits st.queueToConnect.cap (total ShmQueue.blockCost st.queueToConnect.items +
      ShmQueue.blockCost (oMsg.getMessagePack zeroed maxServerPackageLength).sent) := by
    rw [blockCost_ack]
    exact h
  have hitems := (ShmQueue.Fifo.call_enqueue_of_fits hfits).2.2
  rw [oMsg.sent_eq] at hitems
  exact hitems

theorem sendServerAck_of_full (oMsg : ServerAckMessage) (h : ¬ st.AckFits) :
    (st.sendServerAck oMsg).queueToConnect = st.queueToConnect := by
  refine (ShmQueue.Fifo.call_enqueue_of_not_fits ?_).2
  rw [blockCost_ack]
  exact h

/-! ## Delivery to the sender -/

/-- `LOGIC_TO_CONNECT` gets an acknowledgement of number `iMsgSeq` that the connect server
delivers to client `iClientIndex` and to no other. -/
def AckDelivered (st st' : LogicServer) (iClientIndex iMsgSeq : Int) : Prop :=
  ∃ pack, st'.queueToConnect.items = st.queueToConnect.items ++ [pack] ∧
    IsServerAck pack iClientIndex iMsgSeq ∧
    ∀ (s : ConnectServer) (cl : ClientConnect), s.findClient iClientIndex = some cl →
      ConnectServer.DeliversTo s (s.dispatch pack true) pack iClientIndex

theorem storeMessage_connect {p : Publish} {c : Int} {id : QueueId}
    (h : st.storeMessage p c id = some st') : st'.queueToConnect = st.queueToConnect := by
  obtain ⟨q, _, rfl⟩ := Option.map_eq_some_iff.mp h
  split <;> rfl

theorem storeMessages_connect {p : Publish} {c : Int} (queues : List QueueId)
    {st st' : LogicServer} (h : storeMessages p c queues st = some st') :
    st'.queueToConnect = st.queueToConnect := by
  induction queues generalizing st with
  | nil =>
    cases h
    rfl
  | cons id rest ih =>
    obtain ⟨st₁, hone, hrest⟩ := Option.bind_eq_some_iff.mp h
    have hconnect := ih hrest
    exact hconnect.trans (storeMessage_connect hone)

theorem connect_insertMsgSeq (key : Bytes) :
    (st.insertMsgSeq key).queueToConnect = st.queueToConnect := by
  unfold insertMsgSeq
  split <;> rfl

theorem connect_confirmPublish_single {p : Publish} {c : Int}
    (hlevel : p.confirmLevel = producerSingleAck) :
    (st.confirmPublish p c).queueToConnect =
      (st.sendServerAck { index := c, ackSeq := p.iMsgSeq }).queueToConnect := by
  rw [confirmPublish, if_pos hlevel]
  exact connect_insertMsgSeq _

theorem connect_confirmPublish_other {p : Publish} {c : Int}
    (hlevel : p.confirmLevel ≠ producerSingleAck) :
    (st.confirmPublish p c).queueToConnect = st.queueToConnect := by
  rw [confirmPublish, if_neg hlevel]
  split
  · exact connect_insertMsgSeq _
  · rfl

omit [Platform] in
theorem decodePublish_fits {buf : Mem} {iLen : Int} {p : Publish}
    (h : decodePublish buf iLen = some p) : FitsInt 4 p.iMsgSeq := by
  obtain ⟨_, _, hrest⟩ := Option.bind_eq_some_iff.mp h
  obtain ⟨_, _, rfl⟩ := Option.map_eq_some_iff.mp hrest
  exact fitsInt_readInt _ _

omit [Platform] in
/-- The connect server passes an acknowledgement on to the client it names. -/
theorem dispatch_serverAck {pack : Bytes} {c iMsgSeq : Int} (h : IsServerAck pack c iMsgSeq)
    {s : ConnectServer} {cl : ClientConnect} (hc : s.findClient c = some cl) :
    ConnectServer.DeliversTo s (s.dispatch pack true) pack c := by
  refine ConnectServer.dispatch_delivers ?_ h.clientIndex ?_ hc
  · rw [h.length]
    decide
  · rw [h.cmdId]
    decide

theorem ackDelivered_of_items {c iMsgSeq : Int} (hc : FitsInt 4 c) (hseq : FitsInt 4 iMsgSeq)
    (h : st'.queueToConnect.items = st.queueToConnect.items ++
      [image ({ index := c, ackSeq := iMsgSeq } : ServerAckMessage).fields]) :
    AckDelivered st st' c iMsgSeq := by
  have hack : IsServerAck (image ({ index := c, ackSeq := iMsgSeq } : ServerAckMessage).fields)
      c iMsgSeq := isServerAck_image hc hseq
  exact ⟨_, h, hack, fun _ _ hcl => dispatch_serverAck hack hcl⟩

/-- The acknowledgement of a repeat names client -1. -/
theorem not_ackDelivered_of_repeat {p : Publish} {c : Int} {o : Outcome}
    (h : st.publish p c = some o) (hrepeat : st.IsRepeat p c) (hc : 0 ≤ c)
    (hseq : FitsInt 4 p.iMsgSeq) (hroom : st.AckFits) :
    ¬ AckDelivered st o.server c p.iMsgSeq := by
  rintro ⟨pack, hitems, hack, _⟩
  cases publish_result h with
  | recognised =>
    rw [sendServerAck_items _ hroom] at hitems
    have hpack := List.cons.inj (List.append_cancel_left hitems)
    have hminus : FitsInt 4 (-1) := by decide
    have hindex : readInt (Mem.ofBytes pack) 2 = -1 := by
      rw [← hpack.1]
      exact (isServerAck_image (m := { ackSeq := p.iMsgSeq }) hminus hseq).clientIndex
    rw [hack.clientIndex] at hindex
    omega
  | refused _ hfresh => exact hfresh hrepeat
  | stored _ hfresh => exact hfresh hrepeat

theorem ackDelivered_of_stored {p : Publish} {c : Int} {o : Outcome}
    (h : st.publish p c = some o) (hfresh : ¬ st.IsRepeat p c) (hdone : o.ret = success)
    (hlevel : p.confirmLevel = producerSingleAck) (hc : FitsInt 4 c)
    (hseq : FitsInt 4 p.iMsgSeq) (hroom : st.AckFits) :
    AckDelivered st o.server c p.iMsgSeq := by
  cases publish_result h with
  | recognised hrepeat => exact (hfresh hrepeat).elim
  | refused => cases hdone
  | stored st₁ _ _ _ hstore =>
    have hconnect := storeMessages_connect _ hstore
    have hroom₁ : st₁.AckFits := by
      rw [AckFits, hconnect]
      exact hroom
    refine ackDelivered_of_items hc hseq ?_
    rw [connect_confirmPublish_single hlevel, sendServerAck_items _ hroom₁, hconnect]

theorem publish_of_onPublishMessage {pkg : Package} {p : Publish} {o : Outcome}
    (hp : decodePublish pkg.body pkg.bodyLen = some p)
    (h : st.onPublishMessage pkg.body pkg.bodyLen pkg.clientIndex = some o) :
    st.publish p pkg.clientIndex = some o := by
  rw [onPublishMessage, hp] at h
  exact h

/-- With room in the channel, a publish that is stored or recognised is acknowledged to
its own sender exactly when it is not a repeat. -/
theorem publish_ack_delivered_iff {pkg : Package} {p : Publish} {o : Outcome}
    (hp : decodePublish pkg.body pkg.bodyLen = some p)
    (h : st.onPublishMessage pkg.body pkg.bodyLen pkg.clientIndex = some o)
    (hclient : 0 ≤ pkg.clientIndex) (hlevel : p.confirmLevel = producerSingleAck)
    (hdone : o.ret = success) (hroom : st.AckFits) :
    AckDelivered st o.server pkg.clientIndex p.iMsgSeq ↔ ¬ st.IsRepeat p pkg.clientIndex := by
  have hpub := publish_of_onPublishMessage hp h
  have hseq := decodePublish_fits hp
  constructor
  · intro hdelivered hrepeat
    exact not_ackDelivered_of_repeat hpub hrepeat hclient hseq hroom hdelivered
  · intro hfresh
    exact ackDelivered_of_stored hpub hfresh hdone hlevel (fitsInt_readInt _ _) hseq hroom

end Acks

section Runs

attribute [local instance] Platform.plain

/-- The publish package of client 12 after some steps, and how the handler takes it. -/
def publishAfter (capPersis : Option Nat) (as : List Step) (bDurable : Bool) :
    Option (LogicServer × Publish × Outcome) :=
  let pkg := Step.publishPackage 12 bDurable 0 1
  (run (start none capPersis) as).bind fun st =>
    (decodePublish pkg.body pkg.bodyLen).bind fun p =>
      (st.onPublishMessage pkg.body pkg.bodyLen pkg.clientIndex).map fun o => (st, p, o)

theorem publishAfter_some {capPersis : Option Nat} {as : List Step} {bDurable : Bool}
    {st : LogicServer} {p : Publish} {o : Outcome}
    (h : publishAfter capPersis as bDurable = some (st, p, o)) :
    decodePublish (Step.publishPackage 12 bDurable 0 1).body
        (Step.publishPackage 12 bDurable 0 1).bodyLen = some p ∧
      st.onPublishMessage (Step.publishPackage 12 bDurable 0 1).body
        (Step.publishPackage 12 bDurable 0 1).bodyLen
        (Step.publishPackage 12 bDurable 0 1).clientIndex = some o := by
  obtain ⟨st', _, h⟩ := Option.bind_eq_some_iff.mp h
  obtain ⟨p', hp, h⟩ := Option.bind_eq_some_iff.mp h
  obtain ⟨o', ho, h⟩ := Option.map_eq_some_iff.mp h
  cases h
  exact ⟨hp, ho⟩

theorem publish_ack_delivered_first :
    ∃ st p o, publishAfter none setUp false = some (st, p, o) ∧ AckDelivered st o.server 12 0 := by
  have hcheck : (publishAfter none setUp false).map (fun r => decide (r.2.1.confirmLevel = 1 ∧
      r.2.1.iMsgSeq = 0 ∧ r.2.2.ret = success ∧ r.1.AckFits ∧ ¬ r.1.IsRepeat r.2.1 12)) =
      some true := by decide +kernel
  obtain ⟨⟨st, p, o⟩, hafter, hprops⟩ := Option.map_eq_some_iff.mp hcheck
  obtain ⟨hlevel, hseq, hdone, hroom, hfresh⟩ := of_decide_eq_true hprops
  obtain ⟨hp, ho⟩ := publishAfter_some hafter
  have hclient : (Step.publishPackage 12 false 0 1).clientIndex = 12 := by decide +kernel
  refine ⟨st, p, o, hafter, ?_⟩
  have hiff := publish_ack_delivered_iff hp ho (by rw [hclient]; decide) hlevel hdone hroom
  rw [hclient, hseq] at hiff
  exact hiff.mpr hfresh

/-- Client 12 publishes once more what is already stored. -/
theorem resend_not_acked :
    ∃ st p o, publishAfter none (setUp ++ [.publish 12 false 0 1]) false = some (st, p, o) ∧
      p.confirmLevel = producerSingleAck ∧ o.ret = success ∧ st.IsRepeat p 12 ∧ st.AckFits ∧
      ¬ AckDelivered st o.server 12 p.iMsgSeq := by
  have hcheck : (publishAfter none (setUp ++ [.publish 12 false 0 1]) false).map (fun r =>
      decide (r.2.1.confirmLevel = 1 ∧ r.2.2.ret = success ∧ r.1.AckFits ∧
        r.1.IsRepeat r.2.1 12)) = some true := by decide +kernel
  obtain ⟨⟨st, p, o⟩, hafter, hprops⟩ := Option.map_eq_some_iff.mp hcheck
  obtain ⟨hlevel, hdone, hroom, hrepeat⟩ := of_decide_eq_true hprops
  obtain ⟨hp, ho⟩ := publishAfter_some hafter
  have hclient : (Step.publishPackage 12 false 0 1).clientIndex = 12 := by decide +kernel
  have hpub := publish_of_onPublishMessage hp ho
  rw [hclient] at hpub
  exact ⟨st, p, o, hafter, hlevel, hdone, hrepeat, hroom,
    not_ackDelivered_of_repeat hpub hrepeat (by decide) (decodePublish_fits hp) hroom⟩

end Runs

end Wsmq.LogicServer
