import Wsmq.ConnectServer.Receive
import Wsmq.LogicServer.Request

/-!
# Requests from the client library to the handlers

The encoders accept names of up to 32 bytes; the handlers read a name into an array
of 32 bytes and need a zero byte in it.
-/

namespace Wsmq
open Lib Lib.ByteString Lib.Packing

namespace Request

def names : Request → List Name
  | createExchange m => [m.exchangeName]
  | createQueue m => [m.queueName]
  | createBinding m => [m.exchangeName, m.queueName, m.bindingKey]
  | createPublish m => [m.exchangeName, m.routingKey]
  | createRecv m => [m.queueName]
  | createSubscribe m => [m.queueName]
  | deleteExchange m => [m.exchangeName]
  | deleteQueue m => [m.queueName]
  | cancelSubscribe m => [m.queueName]
  | clientAck _ => []

/-- The numbers fit their C++ types, and a message with its body fits a client package. -/
def InRange : Request → Prop
  | createExchange m => m.exchangeType < 2 ^ 16
  | createQueue m => FitsInt 2 m.priority
  | createPublish m => FitsInt 2 m.priority ∧ FitsInt 4 m.msgSeq ∧ m.confirmLevel < 2 ^ 8 ∧
      sizeofClientPackageHead + LogicServer.publishBodyOffset + m.msgBody.length ≤
        maxClintPackageLength
  | createRecv m => m.confirmLevel < 2 ^ 8
  | createSubscribe m => m.confirmLevel < 2 ^ 8
  | clientAck m => m.confirmLevel < 2 ^ 8 ∧ FitsInt 4 m.ackSeq
  | _ => True

def index : Request → Int
  | createExchange m => m.index
  | createQueue m => m.index
  | createBinding m => m.index
  | createPublish m => m.index
  | createRecv m => m.index
  | createSubscribe m => m.index
  | deleteExchange m => m.index
  | deleteQueue m => m.index
  | cancelSubscribe m => m.index
  | clientAck m => m.index

def cmdId : Request → Nat
  | createExchange _ => cmdCreateExcnange
  | createQueue _ => cmdCreateQueue
  | createBinding _ => cmdCreateBinding
  | createPublish _ => cmdCreatePublish
  | createRecv _ => cmdCreateRecv
  | createSubscribe _ => cmdCreateSubcribe
  | deleteExchange _ => cmdDeleteExchange
  | deleteQueue _ => cmdDeleteQueue
  | cancelSubscribe _ => cmdCancelSubcribe
  | clientAck _ => cmdClientAckMessage

/-- The fields behind the package head. -/
def body : Request → List Field
  | createExchange m =>
    [writeName m.exchangeName, writeUShort m.exchangeType, writeBool m.durable,
      writeBool m.autoDel]
  | createQueue m =>
    [writeName m.queueName, writeShort m.priority, writeBool m.durable, writeBool m.autoDel]
  | createBinding m => [writeName m.exchangeName, writeName m.queueName, writeName m.bindingKey]
  | createPublish m =>
    [writeName m.exchangeName, writeName m.routingKey, writeShort m.priority,
      writeBool m.durable, writeInt m.msgSeq, writeByte m.confirmLevel, writeBody m.msgBody]
  | createRecv m => [writeName m.queueName, writeByte m.confirmLevel]
  | createSubscribe m => [writeName m.queueName, writeByte m.confirmLevel]
  | deleteExchange m => [writeName m.exchangeName]
  | deleteQueue m => [writeName m.queueName]
  | cancelSubscribe m => [writeName m.queueName]
  | clientAck m => [writeByte m.confirmLevel, writeInt m.ackSeq]

def packLen (r : Request) : Nat := sizeofClientPackageHead + size r.body

/-- The package that the framer cuts off what the client library has packed. -/
def package (r : Request) : Bytes :=
  let packed := r.getMessagePack zeroed maxClintPackageLength
  packed.buf.read 0 (readUShort packed.buf 0)

/-! ## Encoding -/

variable {r : Request} {iIndex : Int}

theorem packLen_le (h : r.InRange) : r.packLen ≤ maxClintPackageLength := by
  cases r with
  | createPublish m =>
    obtain ⟨_, _, _, hlen⟩ := h
    refine Nat.le_trans (Nat.le_of_eq ?_) hlen
    simp only [packLen, body, size_cons, size_nil, writeName, writeShort, writeBool, writeInt,
      writeByte, writeBody, maxNameLength, LogicServer.publishBodyOffset]
    omega
  | _ => exact Nat.le_of_ble_eq_true rfl

theorem publish_iMsgLen {m : CreatePublishMessage} (h : (createPublish m).InRange) :
    m.iMsgLen = (createPublish m).packLen := by
  have hlt := packLen_le h
  have hlen : sizeofClientPackageHead + maxNameLength + maxNameLength + 2 + 1 + 4 + 1 +
      m.msgBody.length = (createPublish m).packLen := by
    simp only [packLen, body, size_cons, size_nil, writeName, writeShort, writeBool, writeInt,
      writeByte, writeBody]
    omega
  rw [CreatePublishMessage.iMsgLen, hlen, ushort, Nat.mod_eq_of_lt]
  exact Nat.lt_of_le_of_lt hlt (by decide)

/-- What `GetMessagePack` leaves in the zeroed buffer. -/
theorem getMessagePack_success (hrange : r.InRange)
    (h : (r.getMessagePack zeroed maxClintPackageLength).ret = Message.success) :
    (r.getMessagePack zeroed maxClintPackageLength).buf =
        place zeroed 0 (packHead r.packLen r.index r.cmdId ++ r.body) ∧
      ∀ n ∈ r.names, n.length ≤ maxNameLength := by
  cases r with
  | createPublish m =>
    simp only [getMessagePack, CreatePublishMessage.getMessagePack] at h ⊢
    split at h
    · cases h
    · next hexchange =>
      split at h
      · cases h
      · next hkey =>
        rw [if_neg hexchange, if_neg hkey, pack_success h, ← publish_iMsgLen hrange]
        refine ⟨rfl, fun n hn => ?_⟩
        rcases List.mem_cons.mp hn with rfl | hn
        · exact Nat.le_of_not_lt hexchange
        · rw [List.mem_singleton.mp hn]
          exact Nat.le_of_not_lt hkey
  | clientAck m => exact ⟨pack_success h, fun _ hn => nomatch hn⟩
  | _ => exact packNames_success h

theorem fits (h : ∀ n ∈ r.names, n.length ≤ maxNameLength) : ∀ f ∈ r.body, f.Fits := by
  cases r <;>
    simp_all [names, body, Field.Fits, writeName, writeShort, writeUShort, writeBool, writeInt,
      writeByte, writeBody]

theorem fits_fields (h : ∀ n ∈ r.names, n.length ≤ maxNameLength) (iIndex : Int) :
    ∀ f ∈ packHead r.packLen iIndex r.cmdId ++ r.body, f.Fits := by
  intro f hf
  rcases List.mem_append.mp hf with hf | hf
  · exact fits_packHead _ _ _ f hf
  · exact fits h f hf

theorem setIndex_image (iMsgLen : Nat) (i iIndex : Int) (iCmdId : Nat) (fs : List Field) :
    RecvBuff.setIndex iIndex (image (packHead iMsgLen i iCmdId ++ fs)) =
      image (packHead iMsgLen iIndex iCmdId ++ fs) := by
  have hhead : ∀ v, image (packHead iMsgLen v iCmdId ++ fs) =
      be 2 iMsgLen ++ (beInt 4 v ++ (be 2 iCmdId ++ image fs)) := by
    intro v
    simp [packHead, writeUShort, writeInt, pad]
  have htake : (be 2 iMsgLen ++ (beInt 4 i ++ (be 2 iCmdId ++ image fs))).take 2 =
      be 2 iMsgLen := List.take_left' (be_length 2 iMsgLen)
  have hdrop : (be 2 iMsgLen ++ (beInt 4 i ++ (be 2 iCmdId ++ image fs))).drop 6 =
      be 2 iCmdId ++ image fs := by
    rw [← List.append_assoc]
    exact List.drop_left' (by rw [List.length_append, be_length, beInt_length])
  rw [hhead, hhead, RecvBuff.setIndex, htake, hdrop]

/-- The package is packed field by field, with the index of the connection in its head. -/
theorem setIndex_package (hrange : r.InRange)
    (h : (r.getMessagePack zeroed maxClintPackageLength).ret = Message.success) :
    RecvBuff.setIndex iIndex r.package =
      image (packHead r.packLen iIndex r.cmdId ++ r.body) := by
  obtain ⟨hbuf, hnames⟩ := getMessagePack_success hrange h
  have hfit := fits_fields hnames r.index
  have hsize : size (packHead r.packLen r.index r.cmdId ++ r.body) = r.packLen := by
    rw [size_append]
    rfl
  have himage : (place zeroed 0 (packHead r.packLen r.index r.cmdId ++ r.body)).read 0
      (size (packHead r.packLen r.index r.cmdId ++ r.body)) = _ :=
    read_place hfit fun _ _ => rfl
  rw [hsize] at himage
  have hholds : Holds (place zeroed 0 (packHead r.packLen r.index r.cmdId ++ r.body)) 0
      (image (packHead r.packLen r.index r.cmdId ++ r.body)) := by
    unfold Holds
    rw [image_length hfit, hsize]
    exact himage
  have hlen : readUShort (place zeroed 0 (packHead r.packLen r.index r.cmdId ++ r.body)) 0 =
      r.packLen :=
    readUShort_field (a := 0) [] hholds hfit
      (Nat.lt_of_le_of_lt (packLen_le hrange) (by decide))
  simp only [package]
  rw [hbuf, hlen, himage, setIndex_image]

end Request

namespace LogicServer

/-! ## Decoding -/

theorem holds_shift {m : Mem} {k : Nat} {bs : Bytes} (h : Holds m k bs) :
    Holds (shift m k) 0 bs := by
  have hsame : (shift m k).read 0 bs.length = m.read k bs.length := by
    simp [Mem.read, shift]
  exact hsame.trans h

/-- The buffer of the drain loop after the package `bs` has been dequeued. -/
def Received (p : Package) (bs : Bytes) : Prop := p.buf.read 0 p.len = bs

variable {r : Request} {iIndex : Int} {p : Package}

structure HeadRead (p : Package) (iMsgLen : Nat) (iIndex : Int) (iCmdId : Nat)
    (fields : List Field) : Prop where
  packLen : p.packLen = iMsgLen
  clientIndex : p.clientIndex = iIndex
  cmdId : p.cmdId = iCmdId
  body : Holds p.body 0 (image fields)
  bodyLen : p.bodyLen = size fields

theorem headRead {iMsgLen iCmdId : Nat} {fields : List Field}
    (h : Received p (image (packHead iMsgLen iIndex iCmdId ++ fields)))
    (hfits : ∀ f ∈ packHead iMsgLen iIndex iCmdId ++ fields, f.Fits) (hlen : iMsgLen < 2 ^ 16)
    (hindex : FitsInt 4 iIndex) (hcmd : iCmdId < 2 ^ 16) :
    HeadRead p iMsgLen iIndex iCmdId fields := by
  have hsize : p.len = size (packHead iMsgLen iIndex iCmdId ++ fields) := by
    rw [← image_length hfits, ← h, Mem.read_length]
  have hholds : Holds p.buf 0 (image (packHead iMsgLen iIndex iCmdId ++ fields)) := by
    unfold Holds
    rw [image_length hfits, ← hsize]
    exact h
  have hhead : (image (packHead iMsgLen iIndex iCmdId)).length = sizeofClientPackageHead :=
    image_length (fits_packHead _ _ _)
  refine ⟨?_, ?_, ?_, ?_, ?_⟩
  · exact readUShort_field (a := 0) [] hholds hfits hlen
  · exact readInt_field (a := 0) [writeUShort iMsgLen] hholds hfits hindex
  · exact readUShort_field (a := 0) [writeUShort iMsgLen, writeInt iIndex] hholds hfits hcmd
  · rw [image_append] at hholds
    have hbody := hholds.append.2
    rw [hhead, Nat.zero_add] at hbody
    exact holds_shift hbody
  · rw [Package.bodyLen, hsize, size_append]
    exact Nat.add_sub_cancel_left _ _

theorem headRead_package (hindex : FitsInt 4 iIndex) (hrange : r.InRange)
    (hpack : (r.getMessagePack zeroed maxClintPackageLength).ret = Message.success)
    (hp : Received p (RecvBuff.setIndex iIndex r.package)) :
    HeadRead p r.packLen iIndex r.cmdId r.body := by
  rw [Request.setIndex_package hrange hpack] at hp
  have hnames := (Request.getMessagePack_success hrange hpack).2
  refine headRead hp (Request.fits_fields hnames iIndex) ?_ hindex ?_
  · exact Nat.lt_of_le_of_lt (Request.packLen_le hrange) (by decide)
  · cases r <;> exact Nat.le_of_ble_eq_true rfl

/-- The numbers and the body of a publish package come back, whatever its names are. -/
theorem decodePublish_image {buf : Mem} {iLen : Nat} {m : CreatePublishMessage}
    (hbody : Holds buf 0 (image (Request.createPublish m).body))
    (hlen : iLen = size (Request.createPublish m).body)
    (hfits : ∀ f ∈ (Request.createPublish m).body, f.Fits)
    (hrange : (Request.createPublish m).InRange) :
    decodePublish buf iLen = (readName buf 0).bind fun e => (readName buf 32).map fun k =>
      ⟨e, k, m.priority, m.durable, m.msgSeq, m.confirmLevel, m.msgBody.length, m.msgBody⟩ := by
  obtain ⟨hpriority, hseq, hlevel, _⟩ := hrange
  have hpri : readShort buf 64 = m.priority :=
    readShort_field (a := 0) [writeName m.exchangeName, writeName m.routingKey] hbody hfits
      hpriority
  have hdurable : readBool buf 66 = m.durable :=
    readBool_field (a := 0) [writeName m.exchangeName, writeName m.routingKey,
      writeShort m.priority] hbody hfits
  have hnum : readInt buf 67 = m.msgSeq :=
    readInt_field (a := 0) [writeName m.exchangeName, writeName m.routingKey,
      writeShort m.priority, writeBool m.durable] hbody hfits hseq
  have hlev : readByte buf 71 = m.confirmLevel :=
    readByte_field (a := 0) [writeName m.exchangeName, writeName m.routingKey,
      writeShort m.priority, writeBool m.durable, writeInt m.msgSeq] hbody hfits hlevel
  have hbytes : buf.read publishBodyOffset m.msgBody.length = m.msgBody :=
    read_body_field (a := 0) [writeName m.exchangeName, writeName m.routingKey,
      writeShort m.priority, writeBool m.durable, writeInt m.msgSeq,
      writeByte m.confirmLevel] hbody hfits
  have hsize : size (Request.createPublish m).body = publishBodyOffset + m.msgBody.length := by
    simp only [Request.body, size_cons, size_nil, writeName, writeShort, writeBool, writeInt,
      writeByte, writeBody, maxNameLength, publishBodyOffset]
    omega
  have hrest : (iLen : Int) - publishBodyOffset = m.msgBody.length := by
    rw [hlen, hsize]
    omega
  simp only [decodePublish, hpri, hdurable, hnum, hlev, hrest, Int.toNat_natCast, hbytes]

theorem decodePublish_fields {m : CreatePublishMessage}
    (hbody : Holds p.body 0 (image (Request.createPublish m).body))
    (hlen : p.bodyLen = size (Request.createPublish m).body)
    (hfits : ∀ f ∈ (Request.createPublish m).body, f.Fits)
    (hrange : (Request.createPublish m).InRange)
    (hzero : ∀ n ∈ (Request.createPublish m).names, 0 ∉ n)
    (hshort : ∀ n ∈ (Request.createPublish m).names, n.length < maxNameLength) :
    decodePublish p.body p.bodyLen = some ⟨m.exchangeName, m.routingKey, m.priority, m.durable,
      m.msgSeq, m.confirmLevel, m.msgBody.length, m.msgBody⟩ := by
  have hmem : m.routingKey ∈ (Request.createPublish m).names :=
    List.mem_cons_of_mem _ List.mem_cons_self
  have hexchange : readName p.body 0 = some m.exchangeName :=
    readName_field (a := 0) [] hbody hfits (hzero _ List.mem_cons_self)
      (hshort _ List.mem_cons_self)
  have hkey : readName p.body 32 = some m.routingKey :=
    readName_field (a := 0) [writeName m.exchangeName] hbody hfits (hzero _ hmem) (hshort _ hmem)
  rw [decodePublish_image hbody hlen hfits hrange, hexchange, hkey, Option.bind_some,
    Option.map_some]

/-- A publish package has all fixed fields. -/
theorem publishBodyOffset_le (h : HeadRead p r.packLen iIndex r.cmdId r.body) :
    p.cmdId = cmdCreatePublish → publishBodyOffset ≤ p.bodyLen := by
  intro hcmd
  rw [h.cmdId] at hcmd
  cases r with
  | createPublish m =>
    rw [h.bodyLen]
    simp only [Request.body, size_cons, size_nil, writeName, writeShort, writeBool, writeInt,
      writeByte, writeBody, maxNameLength, publishBodyOffset]
    omega
  | _ => exact absurd hcmd (Nat.ne_of_beq_eq_false rfl)

/-- Short names come back with all other fields. -/
theorem decode_package (h : HeadRead p r.packLen iIndex r.cmdId r.body) (hrange : r.InRange)
    (hzero : ∀ n ∈ r.names, 0 ∉ n) (hshort : ∀ n ∈ r.names, n.length < maxNameLength) :
    decode p = some (r.setClientIndex iIndex) := by
  have hfits := Request.fits fun n hn => Nat.le_of_lt (hshort n hn)
  obtain ⟨_, hindex, hcmd, hbody, hlen⟩ := h
  cases r with
  | createExchange m =>
    have hname : readName p.body 0 = some m.exchangeName :=
      readName_field (a := 0) [] hbody hfits (hzero _ List.mem_cons_self)
        (hshort _ List.mem_cons_self)
    have htype : readUShort p.body 32 = m.exchangeType :=
      readUShort_field (a := 0) [writeName m.exchangeName] hbody hfits hrange
    have hdurable : readBool p.body 34 = m.durable :=
      readBool_field (a := 0) [writeName m.exchangeName, writeUShort m.exchangeType] hbody hfits
    have hauto : readBool p.body 35 = m.autoDel :=
      readBool_field (a := 0) [writeName m.exchangeName, writeUShort m.exchangeType,
        writeBool m.durable] hbody hfits
    have hread : decodeBody p = (decodeCreateExchange p.body).map .createExchange := by
      rw [decodeBody, hcmd]
      rfl
    rw [decode, hread, decodeCreateExchange, hname, htype, hdurable, hauto, hindex]
    rfl
  | createQueue m =>
    have hname : readName p.body 0 = some m.queueName :=
      readName_field (a := 0) [] hbody hfits (hzero _ List.mem_cons_self)
        (hshort _ List.mem_cons_self)
    have hpriority : readShort p.body 32 = m.priority :=
      readShort_field (a := 0) [writeName m.queueName] hbody hfits hrange
    have hdurable : readBool p.body 34 = m.durable :=
      readBool_field (a := 0) [writeName m.queueName, writeShort m.priority] hbody hfits
    have hauto : readBool p.body 35 = m.autoDel :=
      readBool_field (a := 0) [writeName m.queueName, writeShort m.priority,
        writeBool m.durable] hbody hfits
    have hread : decodeBody p = (decodeCreateQueue p.body).map .createQueue := by
      rw [decodeBody, hcmd]
      rfl
    rw [decode, hread, decodeCreateQueue, hname, hpriority, hdurable, hauto, hindex]
    rfl
  | createBinding m =>
    have hexchange : readName p.body 0 = some m.exchangeName :=
      readName_field (a := 0) [] hbody hfits (hzero _ (by simp [Request.names]))
        (hshort _ (by simp [Request.names]))
    have hqueue : readName p.body 32 = some m.queueName :=
      readName_field (a := 0) [writeName m.exchangeName] hbody hfits
        (hzero _ (by simp [Request.names])) (hshort _ (by simp [Request.names]))
    have hkey : readName p.body 64 = some m.bindingKey :=
      readName_field (a := 0) [writeName m.exchangeName, writeName m.queueName] hbody hfits
        (hzero _ (by simp [Request.names])) (hshort _ (by simp [Request.names]))
    have hread : decodeBody p = (decodeCreateBinding p.body).map .createBinding := by
      rw [decodeBody, hcmd]
      rfl
    rw [decode, hread, decodeCreateBinding, hexchange, hqueue, hkey, hindex]
    rfl
  | createPublish m =>
    have hread : decodeBody p = (decodePublish p.body p.bodyLen).map fun d =>
        .createPublish (ofPublish d) := by
      rw [decodeBody, hcmd]
      rfl
    rw [decode, hread, decodePublish_fields hbody hlen hfits hrange hzero hshort, hindex]
    rfl
  | createRecv m =>
    have hname : readName p.body 0 = some m.queueName :=
      readName_field (a := 0) [] hbody hfits (hzero _ List.mem_cons_self)
        (hshort _ List.mem_cons_self)
    have hlevel : readByte p.body 32 = m.confirmLevel :=
      readByte_field (a := 0) [writeName m.queueName] hbody hfits hrange
    have hread : decodeBody p = (decodeCreateRecv p.body).map .createRecv := by
      rw [decodeBody, hcmd]
      rfl
    rw [decode, hread, decodeCreateRecv, hname, hlevel, hindex]
    rfl
  | createSubscribe m =>
    have hname : readName p.body 0 = some m.queueName :=
      readName_field (a := 0) [] hbody hfits (hzero _ List.mem_cons_self)
        (hshort _ List.mem_cons_self)
    have hlevel : readByte p.body 32 = m.confirmLevel :=
      readByte_field (a := 0) [writeName m.queueName] hbody hfits hrange
    have hread : decodeBody p = (decodeCreateSubscribe p.body).map .createSubscribe := by
      rw [decodeBody, hcmd]
      rfl
    rw [decode, hread, decodeCreateSubscribe, hname, hlevel, hindex]
    rfl
  | deleteExchange m =>
    have hname : readName p.body 0 = some m.exchangeName :=
      readName_field (a := 0) [] hbody hfits (hzero _ List.mem_cons_self)
        (hshort _ List.mem_cons_self)
    have hread : decodeBody p = (decodeDeleteExchange p.body).map .deleteExchange := by
      rw [decodeBody, hcmd]
      rfl
    rw [decode, hread, decodeDeleteExchange, hname, hindex]
    rfl
  | deleteQueue m =>
    have hname : readName p.body 0 = some m.queueName :=
      readName_field (a := 0) [] hbody hfits (hzero _ List.mem_cons_self)
        (hshort _ List.mem_cons_self)
    have hread : decodeBody p = (decodeDeleteQueue p.body).map .deleteQueue := by
      rw [decodeBody, hcmd]
      rfl
    rw [decode, hread, decodeDeleteQueue, hname, hindex]
    rfl
  | cancelSubscribe m =>
    have hname : readName p.body 0 = some m.queueName :=
      readName_field (a := 0) [] hbody hfits (hzero _ List.mem_cons_self)
        (hshort _ List.mem_cons_self)
    have hread : decodeBody p = (decodeCancelSubscribe p.body).map .cancelSubscribe := by
      rw [decodeBody, hcmd]
      rfl
    rw [decode, hread, decodeCancelSubscribe, hname, hindex]
    rfl
  | clientAck m =>
    have hlevel : readByte p.body 0 = m.confirmLevel :=
      readByte_field (a := 0) [] hbody hfits hrange.1
    have hseq : readInt p.body 1 = m.ackSeq :=
      readInt_field (a := 0) [writeByte m.confirmLevel] hbody hfits hrange.2
    have hread : decodeBody p = some (.clientAck (decodeClientAck p.body)) := by
      rw [decodeBody, hcmd]
      rfl
    rw [decode, hread, decodeClientAck, hlevel, hseq, hindex]
    rfl

/-- A name that was read is shorter than its array. -/
theorem readName_length {m : Mem} {a : Nat} {n : Name} (h : readName m a = some n) :
    n.length < maxNameLength := by
  have hlt := cstr_length h
  rwa [Mem.read_length] at hlt

theorem names_of_map {α : Type} {o : Option α} {f : α → Request}
    (ho : ∀ a, o = some a → ∀ n ∈ (f a).names, n.length < maxNameLength) (h : o.map f = some r) :
    ∀ n ∈ r.names, n.length < maxNameLength := by
  obtain ⟨a, ha, rfl⟩ := Option.map_eq_some_iff.mp h
  exact ho a ha

theorem oneName_of_map {α : Type} {m : Mem} {o : Option α} {g : Name → α} {f : α → Request}
    (ho : o = (readName m 0).map g) (hf : ∀ n, (f (g n)).names = [n]) (h : o.map f = some r) :
    ∀ n ∈ r.names, n.length < maxNameLength := by
  refine names_of_map (fun a ha => ?_) h
  obtain ⟨n, hn, rfl⟩ := Option.map_eq_some_iff.mp (ho.symm.trans ha)
  intro n' hn'
  rw [hf, List.mem_singleton] at hn'
  rw [hn']
  exact readName_length hn

theorem decodeCreateBinding_names {m : Mem} {d : CreateBindingMessage}
    (h : decodeCreateBinding m = some d) :
    ∀ n ∈ (Request.createBinding d).names, n.length < maxNameLength := by
  obtain ⟨e, he, hrest⟩ := Option.bind_eq_some_iff.mp h
  obtain ⟨q, hq, hrest⟩ := Option.bind_eq_some_iff.mp hrest
  obtain ⟨k, hk, rfl⟩ := Option.map_eq_some_iff.mp hrest
  intro n hn
  simp only [Request.names, List.mem_cons, List.not_mem_nil, or_false] at hn
  rcases hn with rfl | rfl | rfl
  · exact readName_length he
  · exact readName_length hq
  · exact readName_length hk

theorem decodePublish_names {m : Mem} {iLen : Nat} {d : Publish}
    (h : decodePublish m iLen = some d) :
    ∀ n ∈ (Request.createPublish (ofPublish d)).names, n.length < maxNameLength := by
  obtain ⟨e, he, hrest⟩ := Option.bind_eq_some_iff.mp h
  obtain ⟨k, hk, rfl⟩ := Option.map_eq_some_iff.mp hrest
  intro n hn
  simp only [Request.names, ofPublish, List.mem_cons, List.not_mem_nil, or_false] at hn
  rcases hn with rfl | rfl
  · exact readName_length he
  · exact readName_length hk

theorem decodeBody_names (h : decodeBody p = some r) :
    ∀ n ∈ r.names, n.length < maxNameLength := by
  unfold decodeBody at h
  rcases ite_eq_some h with ⟨_, h⟩ | ⟨_, h⟩
  · exact oneName_of_map rfl (fun _ => rfl) h
  rcases ite_eq_some h with ⟨_, h⟩ | ⟨_, h⟩
  · exact oneName_of_map rfl (fun _ => rfl) h
  rcases ite_eq_some h with ⟨_, h⟩ | ⟨_, h⟩
  · exact names_of_map (fun _ => decodeCreateBinding_names) h
  rcases ite_eq_some h with ⟨_, h⟩ | ⟨_, h⟩
  · exact names_of_map (fun _ => decodePublish_names) h
  rcases ite_eq_some h with ⟨_, h⟩ | ⟨_, h⟩
  · exact oneName_of_map rfl (fun _ => rfl) h
  rcases ite_eq_some h with ⟨_, h⟩ | ⟨_, h⟩
  · exact oneName_of_map rfl (fun _ => rfl) h
  rcases ite_eq_some h with ⟨_, h⟩ | ⟨_, h⟩
  · exact oneName_of_map rfl (fun _ => rfl) h
  rcases ite_eq_some h with ⟨_, h⟩ | ⟨_, h⟩
  · exact oneName_of_map rfl (fun _ => rfl) h
  rcases ite_eq_some h with ⟨_, h⟩ | ⟨_, h⟩
  · exact oneName_of_map rfl (fun _ => rfl) h
  rcases ite_eq_some h with ⟨_, h⟩ | ⟨_, h⟩
  · cases h
    exact fun _ hn => nomatch hn
  · cases h

theorem names_setClientIndex (r : Request) (iIndex : Int) :
    (r.setClientIndex iIndex).names = r.names := by
  cases r <;> rfl

/-- Whatever is decoded has short names. -/
theorem decode_names (h : decode p = some r) : ∀ n ∈ r.names, n.length < maxNameLength := by
  obtain ⟨r', hread, rfl⟩ := Option.map_eq_some_iff.mp h
  rw [names_setClientIndex]
  exact decodeBody_names hread

theorem cmdId_mem_requestCmds (r : Request) : r.cmdId ∈ requestCmds := by
  cases r <;> simp [Request.cmdId, requestCmds]

/-- What the client library has packed, with the index of its connection in the head, passes
the length check and reaches its handler with all its fields, so that the server serves that
very request, exactly when all names are shorter than their arrays. -/
theorem decode_package_iff (hindex : FitsInt 4 iIndex) (hrange : r.InRange)
    (hzero : ∀ n ∈ r.names, 0 ∉ n)
    (hpack : (r.getMessagePack zeroed maxClintPackageLength).ret = Message.success)
    (hp : Received p (RecvBuff.setIndex iIndex r.package)) :
    ((∀ [Platform], ∀ st : LogicServer, st.processRecvData p =
          st.serve (p.body.read 0 p.bodyLen) (r.setClientIndex iIndex)) ∧
        p.cmdId = r.cmdId ∧ decode p = some (r.setClientIndex iIndex)) ↔
      ∀ n ∈ r.names, n.length < maxNameLength := by
  have hhead := headRead_package hindex hrange hpack hp
  constructor
  · rintro ⟨_, _, hdecode⟩
    have hshort := decode_names hdecode
    rwa [names_setClientIndex] at hshort
  · intro hshort
    have hdecode := decode_package hhead hrange hzero hshort
    refine ⟨?_, hhead.cmdId, hdecode⟩
    intro _ st
    have hbody : p.len - sizeofClientPackageHead = size r.body := hhead.bodyLen
    have hle := p.len_ge
    have hlen : ¬ p.packLen > p.len := by
      rw [hhead.packLen, Request.packLen]
      omega
    have hcmd : p.cmdId ∈ requestCmds := hhead.cmdId ▸ cmdId_mem_requestCmds r
    have hpublish := publishBodyOffset_le hhead
    rw [processRecvData, if_neg hlen, dispatch_eq_serve hcmd hpublish, hdecode, Option.bind_some]

/-- A package in an otherwise empty buffer. -/
def receivedPackage (bs : Bytes) (h : sizeofClientPackageHead ≤ bs.length)
    (h' : bs.length ≤ maxClintPackageLength) : Package where
  buf := Mem.ofBytes bs
  len := bs.length
  len_ge := h
  len_le := h'

theorem received_receivedPackage (bs : Bytes) (h : sizeofClientPackageHead ≤ bs.length)
    (h' : bs.length ≤ maxClintPackageLength) : Received (receivedPackage bs h h') bs :=
  holds_ofBytes bs

/-- A publish with a zero byte in its body. -/
def smallPublish : Request :=
  .createPublish ⟨-1, ascii "e", ascii "k", -1, true, 7, 1, [104, 0, 105]⟩

theorem decode_package_small :
    ∃ p : Package, Received p (RecvBuff.setIndex 3 smallPublish.package) ∧
      (∀ [Platform], ∀ st : LogicServer, st.processRecvData p =
          st.serve (p.body.read 0 p.bodyLen) (smallPublish.setClientIndex 3)) ∧
        p.cmdId = cmdCreatePublish ∧ decode p = some (smallPublish.setClientIndex 3) := by
  have hp := received_receivedPackage (RecvBuff.setIndex 3 smallPublish.package)
    (by decide +kernel) (by decide +kernel)
  have hrange : smallPublish.InRange :=
    ⟨by unfold FitsInt; decide, by unfold FitsInt; decide, by decide, by decide⟩
  have hiff := decode_package_iff (by unfold FitsInt; decide) hrange (by decide)
    (by decide +kernel) hp
  exact ⟨_, hp, hiff.mpr (by decide)⟩

/-- A queue whose name has exactly 32 bytes. -/
def longNameQueue : Request := .createQueue ⟨-1, List.replicate 32 97, -1, false, false⟩

/-- The name is packed and cannot be read. -/
theorem long_name_not_decoded :
    longNameQueue.InRange ∧ (∀ n ∈ longNameQueue.names, 0 ∉ n) ∧
      (longNameQueue.getMessagePack zeroed maxClintPackageLength).ret = Message.success ∧
      ∃ p : Package, Received p (RecvBuff.setIndex 3 longNameQueue.package) ∧
        p.cmdId = cmdCreateQueue ∧ decode p = none := by
  have hnone : ∀ p : Package, p.cmdId = cmdCreateQueue → readName p.body 0 = none →
      decode p = none := by
    intro p hcmd hname
    have hread : decodeBody p = (decodeCreateQueue p.body).map .createQueue := by
      rw [decodeBody, hcmd]
      rfl
    rw [decode, hread, decodeCreateQueue, hname]
    rfl
  refine ⟨show FitsInt 2 (-1) by unfold FitsInt; decide, by decide, by decide +kernel, _,
    received_receivedPackage _ (by decide +kernel) (by decide +kernel), ?_, hnone _ ?_ ?_⟩
  · decide +kernel
  · decide +kernel
  · decide +kernel

end LogicServer

end Wsmq
