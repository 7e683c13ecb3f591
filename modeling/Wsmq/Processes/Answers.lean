import Wsmq.Client.Calls
import Wsmq.Client.Confirms
import Wsmq.ConnectServer.Batching
import Wsmq.LogicServer.PublishAck
import Wsmq.Processes.Addressing

/-!
# Answers to a publish

What a producer is sent when the logic server processes one of its publish packages.  The producer
takes the first bytes of a refusal for a number.
-/

namespace Wsmq
open Lib Lib.ByteString Lib.Packing Lib.Fifo
open ConnectServer (Forwards)

/-! ## Packages on both sides -/

theorem setIndex_read {pack : Bytes} (iIndex : Int)
    (hlong : sizeofClientPackageHead ≤ pack.length) :
    (RecvBuff.setIndex iIndex pack).length = pack.length ∧
      (Mem.ofBytes (RecvBuff.setIndex iIndex pack)).read 2 4 = beInt 4 iIndex ∧
      ∀ a n, (Mem.ofBytes (RecvBuff.setIndex iIndex pack)).read (6 + a) n =
        (Mem.ofBytes pack).read (6 + a) n := by
  have hhead : sizeofClientPackageHead = 8 := rfl
  have hint : (beInt 4 iIndex).length = 4 := beInt_length _ _
  have htwo : (pack.take 2).length = 2 := List.length_take_of_le (by omega)
  have hsix : (pack.take 6).length = 6 := List.length_take_of_le (by omega)
  refine ⟨?_, ?_, fun a n => ?_⟩
  · rw [RecvBuff.setIndex, List.length_append, List.length_append, List.length_drop]
    omega
  · have hread := Mem.read_ofBytes_append (pack.take 2) (beInt 4 iIndex) (pack.drop 6)
    rw [htwo, hint, List.append_assoc] at hread
    exact hread
  · have hfirst : (pack.take 2 ++ beInt 4 iIndex).length = 6 := by
      rw [List.length_append, htwo, hint]
    have hnew := Mem.read_ofBytes_right (pack.take 2 ++ beInt 4 iIndex) (pack.drop 6) a n
    have hold := Mem.read_ofBytes_right (pack.take 6) (pack.drop 6) a n
    rw [hfirst, List.append_assoc] at hnew
    rw [hsix, List.take_append_drop] at hold
    exact hnew.trans hold.symm

namespace LogicServer

/-- A package that the logic server takes for a publish of this client with this number. -/
structure ReadsPublish (p : Package) (c iMsgSeq : Int) : Prop where
  clientIndex : p.clientIndex = c
  cmdId : p.cmdId = cmdCreatePublish
  msgSeq : readInt p.body 67 = iMsgSeq
  confirmLevel : readByte p.body 71 = producerSingleAck

theorem readsPublish_of_isPublish {p : Package} {pack : Bytes} {c iMsgSeq : Int}
    (h : IsPublish pack iMsgSeq) (hc : FitsInt 4 c)
    (hp : Received p (RecvBuff.setIndex c pack)) : ReadsPublish p c iMsgSeq := by
  have hlong := h.long
  have hhead : sizeofClientPackageHead = 8 := rfl
  obtain ⟨hlen, hindex, hrest⟩ := @setIndex_read pack c (by omega)
  have hsize : p.len = pack.length := by
    rw [← hlen, ← hp, Mem.read_length]
  have hread : ∀ a n, 6 + a + n ≤ pack.length →
      p.buf.read (6 + a) n = (Mem.ofBytes pack).read (6 + a) n := by
    intro a n hle
    rw [← hrest, ← hp, Mem.read_ofBytes_read _ _ (by omega), Nat.zero_add]
  have hbody : ∀ a n, p.body.read a n = p.buf.read (8 + a) n := by
    intro a n
    simp [Package.body, Mem.read, shift, hhead, Nat.add_assoc]
  refine ⟨?_, ?_, ?_, ?_⟩
  · rw [Package.clientIndex, readInt, ← Nat.zero_add 2,
      ← Mem.read_ofBytes_read p.buf 0 (show 2 + 4 ≤ p.len by omega)]
    have hp' : p.buf.read 0 p.len = RecvBuff.setIndex c pack := hp
    rw [hp', hindex, ofBeInt_beInt hc]
  · have hcmd := h.cmdId
    rw [readUShort, ← hread 0 2 (by omega)] at hcmd
    exact hcmd
  · have hseq : ofBeInt ((Mem.ofBytes pack).read (6 + 69) 4) = iMsgSeq := h.msgSeq
    rw [readInt, hbody, ← hseq, ← hread 69 4 (by omega)]
  · have hlevel := h.confirmLevel
    have hsame : (Mem.ofBytes pack).read (sizeofClientPackageHead + 71) 1 =
        p.buf.read (8 + 71) 1 := (hread 73 1 (by omega)).symm
    rw [readByte_eq, hsame] at hlevel
    rw [readByte_eq, hbody, hlevel]

theorem decodePublish_spec {buf : Mem} {iLen : Int} {d : Publish}
    (h : decodePublish buf iLen = some d) :
    d.iMsgSeq = readInt buf 67 ∧ d.confirmLevel = readByte buf 71 ∧
      d.strExchangeName.length < maxNameLength ∧ d.strRoutingKey.length < maxNameLength := by
  obtain ⟨e, he, h⟩ := Option.bind_eq_some_iff.mp h
  obtain ⟨k, hk, rfl⟩ := Option.map_eq_some_iff.mp h
  exact ⟨rfl, rfl, readName_length he, readName_length hk⟩

end LogicServer

/-- What a refusal is taken for: `m_bSucceed`, and the first letters of the text. -/
def refusedNumbers : List Int :=
  [readInt (Mem.ofBytes (0 :: LogicServer.reExchangeNotExist)) 0,
    readInt (Mem.ofBytes (0 :: LogicServer.reFitQueueNotExist)) 0]

theorem refusedNumbers_eq : refusedNumbers = [4552803, 4614516] := by decide

theorem refused_number {text name : Bytes} {c : Int} (htext : 3 ≤ text.length)
    (hshort : text.length + name.length ≤ 100) :
    HasNumber ((⟨c, false, text ++ name⟩ : ActReplyMessage).getMessagePack zeroed
      ((text ++ name).length + sizeofClientPackageHead + 1 + 1 : Nat)).sent ∧
    ackNumber ((⟨c, false, text ++ name⟩ : ActReplyMessage).getMessagePack zeroed
      ((text ++ name).length + sizeofClientPackageHead + 1 + 1 : Nat)).sent =
        readInt (Mem.ofBytes (0 :: text)) 0 := by
  have hhead : sizeofClientPackageHead = 8 := rfl
  have hmax : maxClintPackageLength = 11264 := rfl
  have hpack := ActReplyMessage.sent_is (m := ⟨c, false, text ++ name⟩)
    (by rw [List.length_append]; omega)
  generalize ((⟨c, false, text ++ name⟩ : ActReplyMessage).getMessagePack zeroed _).sent = pack
    at hpack ⊢
  have hdata : pack.drop sizeofClientPackageHead = (0 :: text) ++ (name ++ [0]) := by
    rw [hpack.data, replyData]
    simp [writeBool, pad]
  have hlen : pack.length - sizeofClientPackageHead = text.length + name.length + 2 := by
    rw [← List.length_drop, hdata]
    simp only [List.length_append, List.length_cons, List.length_nil]
    omega
  have hfirst : (pack.take sizeofClientPackageHead).length = sizeofClientPackageHead :=
    List.length_take_of_le (by omega)
  refine ⟨⟨hpack.packLen, by omega⟩, ?_⟩
  have hread := Mem.read_ofBytes_right (pack.take sizeofClientPackageHead)
    (pack.drop sizeofClientPackageHead) 0 4
  rw [List.take_append_drop, hfirst, Nat.add_zero, hdata,
    Mem.read_ofBytes_left (by rw [List.length_cons]; omega)] at hread
  rw [ackNumber, readInt, readInt, hread]

/-! ## A publish on the logic server -/

namespace LogicServer

open Processes (Subscribed concerns_storeMessages)

variable [Platform] {st st' : LogicServer} {c : Int}

/-- The connect server gives the package to the client. -/
def GoesTo (c : Int) (pack : Bytes) : Prop :=
  sizeofClientPackageHead ≤ pack.length ∧ Forwards c pack

instance (c : Int) : DecidablePred (GoesTo c) := fun _ => inferInstanceAs (Decidable (_ ∧ _))

/-- Its number belongs to a message that was stored since `st`, or is read out of a refusal. -/
structure IsAnswer (st st' : LogicServer) (c : Int) (pack : Bytes) : Prop where
  hasNumber : HasNumber pack
  number : Routes st st' c (ackNumber pack) producerSingleAck ∨ ackNumber pack ∈ refusedNumbers

/-- From `st` to `st'` a publish of client `c` with this number is processed. -/
structure Answered (st : LogicServer) (c iMsgSeq : Int) (st' : LogicServer) : Prop where
  subscribed : ∀ queue k, Subscribed st' queue k → Subscribed st queue k
  cap : st'.queueToConnect.cap = none
  log : ∃ k, st'.publishLog = st.publishLog ++ List.replicate k (c, iMsgSeq, producerSingleAck)
  sent : ∃ packs, st'.queueToConnect.items = st.queueToConnect.items ++ packs ∧
    (∀ pack ∈ packs, GoesTo c pack → IsAnswer st st' c pack) ∧
    (Routes st st' c iMsgSeq producerSingleAck →
      ∃ pack ∈ packs, GoesTo c pack ∧ ackNumber pack = iMsgSeq)

theorem not_routes_self {n : Int} {level : Nat} (h : st'.publishLog = st.publishLog) :
    ¬ Routes st st' c n level := by
  rintro ⟨new, hlog, hmem⟩
  rw [h] at hlog
  rw [List.append_right_eq_self.mp hlog.symm] at hmem
  cases hmem

theorem Answered.nothing {n : Int} (hcap : st.queueToConnect.cap = none) :
    Answered st c n st :=
  ⟨fun _ _ h => h, hcap, ⟨0, (List.append_nil _).symm⟩, [], (List.append_nil _).symm,
    fun _ h => (nomatch h), fun h => absurd h (not_routes_self rfl)⟩

omit [Platform] in
theorem goesTo_ack {oMsg : ServerAckMessage} (hindex : FitsInt 4 oMsg.index)
    (hseq : FitsInt 4 oMsg.ackSeq) :
    GoesTo oMsg.index (image oMsg.fields) ∧ HasNumber (image oMsg.fields) ∧
      ackNumber (image oMsg.fields) = oMsg.ackSeq := by
  obtain ⟨hlen, hpackLen, hclient, hcmd, hack⟩ := isServerAck_image hindex hseq
  refine ⟨⟨?_, hclient, ?_⟩, ⟨hpackLen.trans hlen.symm, ?_⟩, hack⟩
  · rw [hlen]
    decide
  · rw [hcmd]
    decide
  · rw [hlen]
    decide

theorem ackFits_of_none (h : st.queueToConnect.cap = none) : st.AckFits := by
  rw [AckFits, h]
  exact fits_none _

theorem publish_answered {d : Publish} {o : Outcome} (hcap : st.queueToConnect.cap = none)
    (hc : FitsInt 4 c) (hpos : 0 < c) (hseq : FitsInt 4 d.iMsgSeq)
    (hlevel : d.confirmLevel = producerSingleAck)
    (hexchange : d.strExchangeName.length < maxNameLength)
    (hkey : d.strRoutingKey.length < maxNameLength) (h : st.publish d c = some o) :
    Answered st c d.iMsgSeq (reply o c) := by
  have hname : maxNameLength = 32 := rfl
  cases publish_result h with
  | recognised hrepeat =>
    have hitems := sendServerAck_items { ackSeq := d.iMsgSeq } (ackFits_of_none hcap)
    refine ⟨fun _ _ h => h, ?_, ⟨0, (List.append_nil _).symm⟩, _, hitems, ?_,
      fun h => absurd h (not_routes_self rfl)⟩
    · exact (ShmQueue.Fifo.call_enqueue_cap _ _).trans hcap
    · -- it is sent to nobody
      intro pack hpack hreach
      cases List.mem_singleton.mp hpack
      have hminus : FitsInt 4 (-1) := by decide
      have hnone : readInt (Mem.ofBytes (image ({ ackSeq := d.iMsgSeq } :
          ServerAckMessage).fields)) 2 = -1 :=
        (isServerAck_image (m := { ackSeq := d.iMsgSeq }) hminus hseq).clientIndex
      have hsame := hreach.2.1
      omega
  | refused text hfresh htext =>
    have hnumber : text ≠ [] ∧ ∀ pack, pack = ((⟨c, false, text⟩ : ActReplyMessage).getMessagePack
        zeroed (text.length + sizeofClientPackageHead + 1 + 1 : Nat)).sent →
        HasNumber pack ∧ ackNumber pack ∈ refusedNumbers := by
      rcases htext with rfl | rfl
      · refine ⟨List.append_ne_nil_of_left_ne_nil (by decide) _, fun pack hpack => ?_⟩
        obtain ⟨hhas, hack⟩ := @refused_number reExchangeNotExist d.strExchangeName c
          (by decide) (Nat.le_trans (Nat.add_le_add_left (Nat.le_of_lt hexchange) _) (by decide))
        rw [hpack]
        exact ⟨hhas, hack ▸ List.mem_cons_self⟩
      · refine ⟨List.append_ne_nil_of_left_ne_nil (by decide) _, fun pack hpack => ?_⟩
        obtain ⟨hhas, hack⟩ := @refused_number reFitQueueNotExist d.strRoutingKey c
          (by decide) (Nat.le_trans (Nat.add_le_add_left (Nat.le_of_lt hkey) _) (by decide))
        rw [hpack]
        exact ⟨hhas, hack ▸ List.mem_cons_of_mem _ List.mem_cons_self⟩
    have hreply : reply ⟨errLogicServerPublishMessage, text, st⟩ c =
        (st.enqueueConnect ((⟨c, false, text⟩ : ActReplyMessage).getMessagePack zeroed
          (text.length + sizeofClientPackageHead + 1 + 1 : Nat)).sent).2 := if_neg hnumber.1
    have hfits : Lib.Fifo.Fits st.queueToConnect.cap
        (total ShmQueue.blockCost st.queueToConnect.items +
          ShmQueue.blockCost ((⟨c, false, text⟩ : ActReplyMessage).getMessagePack zeroed
            (text.length + sizeofClientPackageHead + 1 + 1 : Nat)).sent) := by
      rw [hcap]
      exact fits_none _
    obtain ⟨-, hcap', hitems⟩ := ShmQueue.Fifo.call_enqueue_of_fits hfits
    rw [hreply]
    refine ⟨fun _ _ h => h, hcap'.trans hcap, ⟨0, (List.append_nil _).symm⟩, _, hitems, ?_,
      fun h => absurd h (not_routes_self rfl)⟩
    intro pack hpack _
    obtain ⟨hhas, hack⟩ := hnumber.2 pack (List.mem_singleton.mp hpack)
    exact ⟨hhas, Or.inr hack⟩
  | stored st₁ hfresh hrouted hbody hstore =>
    have hstored := concerns_storeMessages (P := fun _ => False) _ hstore
    have hlog : (st₁.confirmPublish d c).publishLog = st.publishLog ++
        List.replicate (st.routedQueues d).length (c, d.iMsgSeq, producerSingleAck) := by
      rw [publishLog_confirmPublish, (storeMessages_view _ hstore).2.2, hlevel]
    have hconnect := @connect_confirmPublish_single _ st₁ d c hlevel
    have hitems := sendServerAck_items { index := c, ackSeq := d.iMsgSeq }
      (ackFits_of_none (hstored.cap.trans hcap))
    rw [← hconnect, storeMessages_connect _ hstore] at hitems
    obtain ⟨hreach, hhas, hack⟩ := @goesTo_ack { index := c, ackSeq := d.iMsgSeq } hc hseq
    have hroutes : Routes st (st₁.confirmPublish d c) c d.iMsgSeq producerSingleAck := by
      refine ⟨_, hlog, List.mem_replicate.mpr ⟨?_, rfl⟩⟩
      exact fun hzero => hrouted (List.length_eq_zero_iff.mp hzero)
    refine ⟨fun queue k hk => ?_, ?_, ⟨_, hlog⟩, _, hitems, ?_,
      fun _ => ⟨_, List.mem_singleton_self _, hreach, hack⟩⟩
    · obtain ⟨q, hq, hmem⟩ := hk
      have hqueues : (st₁.confirmPublish d c).queues queue = some q := hq
      rw [queues_confirmPublish] at hqueues
      exact (hstored.subscribed queue k ⟨q, hqueues, hmem⟩).resolve_right id
    · show (st₁.confirmPublish d c).queueToConnect.cap = none
      rw [hconnect]
      exact (ShmQueue.Fifo.call_enqueue_cap _ _).trans (hstored.cap.trans hcap)
    · intro pack hpack _
      cases List.mem_singleton.mp hpack
      exact ⟨hhas, Or.inl (hack ▸ hroutes)⟩

/-- The logic server processes a publish package of the producer. -/
theorem package_answered {p : Package} {iMsgSeq : Int} (hp : ReadsPublish p c iMsgSeq)
    (hcap : st.queueToConnect.cap = none) (hpos : 0 < c) (h : st.processPackage p = some st') :
    Answered st c iMsgSeq st' := by
  obtain ⟨o, hprocess, rfl⟩ := Option.map_eq_some_iff.mp h
  obtain ⟨hc, hcmd, hseq, hlevel⟩ := hp
  have hfits : FitsInt 4 c := hc ▸ fitsInt_readInt _ _
  obtain ⟨_, hprocess⟩ | ⟨_, hprocess⟩ := ite_eq_some hprocess
  · cases hprocess
    exact .nothing hcap
  have hpublish : st.onPublishMessage p.body p.bodyLen p.clientIndex = some o := by
    unfold dispatch at hprocess
    rw [hcmd] at hprocess
    exact hprocess
  obtain ⟨d, hd, hpublish⟩ := Option.bind_eq_some_iff.mp hpublish
  obtain ⟨hdseq, hdlevel, hexchange, hkey⟩ := decodePublish_spec hd
  rw [hc] at hpublish ⊢
  rw [← hseq, ← hdseq]
  exact publish_answered hcap hfits hpos (decodePublish_fits hd) (hdlevel.trans hlevel) hexchange
    hkey hpublish

end LogicServer

end Wsmq
