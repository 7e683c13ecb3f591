import Wsmq.FuncTool

/-!
# Package classes (`message/message.cpp`)

`GetMessagePack` writes into the caller's buffer and leaves the package length in
`*iopBuffLen`; `Packed` is what it returns.  The save time of a publish message is added
where a producer keeps it.
-/

namespace Wsmq
open Lib.ByteString Lib.Packing

namespace Message

def success : Int := 0
def error : Int := -1
def errMsgNameTooLong : Int := -500
def errMsgBufTooSmall : Int := -501

end Message

/-- A value stored in an `unsigned short`. -/
def ushort (n : Nat) : Nat := n % 2 ^ 16

structure Packed where
  ret : Int
  buf : Mem
  iopBuffLen : Int

/-- The length and capacity check that every encoder makes before it writes. -/
def pack (buf : Mem) (iopBuffLen : Int) (iMsgLen : Nat) (fields : List Field) : Packed :=
  if iopBuffLen < iMsgLen then ⟨Message.errMsgBufTooSmall, buf, iopBuffLen⟩
  else ⟨Message.success, place buf 0 fields, iMsgLen⟩

theorem pack_success {buf : Mem} {iopBuffLen : Int} {iMsgLen : Nat} {fields : List Field}
    (h : (pack buf iopBuffLen iMsgLen fields).ret = Message.success) :
    (pack buf iopBuffLen iMsgLen fields).buf = place buf 0 fields := by
  unfold pack at h ⊢
  split at h
  · cases h
  · next hroom => rw [if_neg hroom]

/-- The `ClientPackageHead` that starts every package. -/
def packHead (iMsgLen : Nat) (iIndex : Int) (iCmdId : Nat) : List Field :=
  [writeUShort iMsgLen, writeInt iIndex, writeUShort iCmdId]

theorem fits_packHead (iMsgLen : Nat) (iIndex : Int) (iCmdId : Nat) :
    ∀ f ∈ packHead iMsgLen iIndex iCmdId, f.Fits := by
  simp [packHead, Field.Fits, writeUShort, writeInt]

/-- A zeroed buffer, as `memset` leaves it. -/
def zeroed : Mem := fun _ => 0

/-- The bytes that are passed on after packing into a zeroed buffer. -/
def Packed.sent (p : Packed) : Bytes := p.buf.read 0 p.iopBuffLen.toNat

/-- A package that fits the zeroed buffer is passed on field by field. -/
theorem pack_sent {iopBuffLen : Int} {iMsgLen : Nat} {fields : List Field}
    (hroom : ¬ iopBuffLen < iMsgLen) (hsize : size fields = iMsgLen)
    (hf : ∀ f ∈ fields, f.Fits) : (pack zeroed iopBuffLen iMsgLen fields).sent = image fields := by
  rw [pack, if_neg hroom, Packed.sent, Int.toNat_natCast, ← hsize]
  exact read_place hf fun _ _ => rfl

/-! ## Requests about exchanges, queues and bindings -/

/-- The checks of the name lengths, which come first. -/
def packNames (names : List Name) (buf : Mem) (iopBuffLen : Int) (packed : Packed) : Packed :=
  if ∃ n ∈ names, n.length > maxNameLength then ⟨Message.errMsgNameTooLong, buf, iopBuffLen⟩
  else packed

theorem packNames_success {names : List Name} {buf : Mem} {iopBuffLen : Int} {iMsgLen : Nat}
    {fields : List Field}
    (h : (packNames names buf iopBuffLen (pack buf iopBuffLen iMsgLen fields)).ret =
      Message.success) :
    (packNames names buf iopBuffLen (pack buf iopBuffLen iMsgLen fields)).buf =
        place buf 0 fields ∧ ∀ n ∈ names, n.length ≤ maxNameLength := by
  unfold packNames at h ⊢
  split at h
  · cases h
  · next hshort =>
    rw [if_neg hshort]
    exact ⟨pack_success h, fun n hn => Nat.le_of_not_lt fun hlong => hshort ⟨n, hn, hlong⟩⟩

structure CreateExchangeMessage where
  index : Int := -1
  exchangeName : Name
  exchangeType : Nat
  durable : Bool
  autoDel : Bool

namespace CreateExchangeMessage

def iMsgLen : Nat := ushort (sizeofClientPackageHead + maxNameLength + 2 + 1 + 1)

def fields (m : CreateExchangeMessage) : List Field :=
  packHead iMsgLen m.index cmdCreateExcnange ++
    [writeName m.exchangeName, writeUShort m.exchangeType, writeBool m.durable,
      writeBool m.autoDel]

def getMessagePack (m : CreateExchangeMessage) (buf : Mem) (iopBuffLen : Int) : Packed :=
  packNames [m.exchangeName] buf iopBuffLen (pack buf iopBuffLen iMsgLen m.fields)

end CreateExchangeMessage

structure CreateQueueMessage where
  index : Int := -1
  queueName : Name
  priority : Int
  durable : Bool
  autoDel : Bool

namespace CreateQueueMessage

def iMsgLen : Nat := ushort (sizeofClientPackageHead + maxNameLength + 2 + 1 + 1)

def fields (m : CreateQueueMessage) : List Field :=
  packHead iMsgLen m.index cmdCreateQueue ++
    [writeName m.queueName, writeShort m.priority, writeBool m.durable, writeBool m.autoDel]

def getMessagePack (m : CreateQueueMessage) (buf : Mem) (iopBuffLen : Int) : Packed :=
  packNames [m.queueName] buf iopBuffLen (pack buf iopBuffLen iMsgLen m.fields)

end CreateQueueMessage

structure CreateBindingMessage where
  index : Int := -1
  exchangeName : Name
  queueName : Name
  bindingKey : Name

namespace CreateBindingMessage

def iMsgLen : Nat :=
  ushort (sizeofClientPackageHead + maxNameLength + maxNameLength + maxNameLength)

def fields (m : CreateBindingMessage) : List Field :=
  packHead iMsgLen m.index cmdCreateBinding ++
    [writeName m.exchangeName, writeName m.queueName, writeName m.bindingKey]

def getMessagePack (m : CreateBindingMessage) (buf : Mem) (iopBuffLen : Int) : Packed :=
  packNames [m.exchangeName, m.queueName, m.bindingKey] buf iopBuffLen
    (pack buf iopBuffLen iMsgLen m.fields)

end CreateBindingMessage

structure CreateRecvMessage where
  index : Int := -1
  queueName : Name
  confirmLevel : Nat

namespace CreateRecvMessage

def iMsgLen : Nat := ushort (sizeofClientPackageHead + maxNameLength + 1)

def fields (m : CreateRecvMessage) : List Field :=
  packHead iMsgLen m.index cmdCreateRecv ++ [writeName m.queueName, writeByte m.confirmLevel]

def getMessagePack (m : CreateRecvMessage) (buf : Mem) (iopBuffLen : Int) : Packed :=
  packNames [m.queueName] buf iopBuffLen (pack buf iopBuffLen iMsgLen m.fields)

end CreateRecvMessage

structure CreateSubscribeMessage where
  index : Int := -1
  queueName : Name
  confirmLevel : Nat

namespace CreateSubscribeMessage

def iMsgLen : Nat := ushort (sizeofClientPackageHead + maxNameLength + 1)

def fields (m : CreateSubscribeMessage) : List Field :=
  packHead iMsgLen m.index cmdCreateSubcribe ++ [writeName m.queueName, writeByte m.confirmLevel]

def getMessagePack (m : CreateSubscribeMessage) (buf : Mem) (iopBuffLen : Int) : Packed :=
  packNames [m.queueName] buf iopBuffLen (pack buf iopBuffLen iMsgLen m.fields)

end CreateSubscribeMessage

structure DeleteExchangeMessage where
  index : Int := -1
  exchangeName : Name

namespace DeleteExchangeMessage

def iMsgLen : Nat := ushort (sizeofClientPackageHead + maxNameLength)

def fields (m : DeleteExchangeMessage) : List Field :=
  packHead iMsgLen m.index cmdDeleteExchange ++ [writeName m.exchangeName]

def getMessagePack (m : DeleteExchangeMessage) (buf : Mem) (iopBuffLen : Int) : Packed :=
  packNames [m.exchangeName] buf iopBuffLen (pack buf iopBuffLen iMsgLen m.fields)

end DeleteExchangeMessage

structure DeleteQueueMessage where
  index : Int := -1
  queueName : Name

namespace DeleteQueueMessage

def iMsgLen : Nat := ushort (sizeofClientPackageHead + maxNameLength)

def fields (m : DeleteQueueMessage) : List Field :=
  packHead iMsgLen m.index cmdDeleteQueue ++ [writeName m.queueName]

def getMessagePack (m : DeleteQueueMessage) (buf : Mem) (iopBuffLen : Int) : Packed :=
  packNames [m.queueName] buf iopBuffLen (pack buf iopBuffLen iMsgLen m.fields)

end DeleteQueueMessage

structure CancelSubscribeMessage where
  index : Int := -1
  queueName : Name

namespace CancelSubscribeMessage

def iMsgLen : Nat := ushort (sizeofClientPackageHead + maxNameLength)

def fields (m : CancelSubscribeMessage) : List Field :=
  packHead iMsgLen m.index cmdCancelSubcribe ++ [writeName m.queueName]

/-- `*iopBuffLen` stays as it was. -/
def getMessagePack (m : CancelSubscribeMessage) (buf : Mem) (iopBuffLen : Int) : Packed :=
  { packNames [m.queueName] buf iopBuffLen (pack buf iopBuffLen iMsgLen m.fields) with
    iopBuffLen := iopBuffLen }

end CancelSubscribeMessage

/-! ## ClientAckMessage -/

structure ClientAckMessage where
  index : Int := -1
  confirmLevel : Nat
  ackSeq : Int

namespace ClientAckMessage

def iMsgLen : Nat := ushort (sizeofClientPackageHead + 1 + 4)

def fields (m : ClientAckMessage) : List Field :=
  packHead iMsgLen m.index cmdClientAckMessage ++ [writeByte m.confirmLevel, writeInt m.ackSeq]

def getMessagePack (m : ClientAckMessage) (buf : Mem) (iopBuffLen : Int) : Packed :=
  pack buf iopBuffLen iMsgLen m.fields

end ClientAckMessage

/-! ## CreatePublishMessage -/

structure CreatePublishMessage where
  index : Int
  exchangeName : Name
  routingKey : Name
  priority : Int
  durable : Bool
  msgSeq : Int
  confirmLevel : Nat
  msgBody : Bytes

namespace CreatePublishMessage

def iMsgLen (m : CreatePublishMessage) : Nat :=
  ushort (sizeofClientPackageHead + maxNameLength + maxNameLength + 2 + 1 + 4 + 1 +
    m.msgBody.length)

def fields (m : CreatePublishMessage) : List Field :=
  packHead m.iMsgLen m.index cmdCreatePublish ++
    [writeName m.exchangeName, writeName m.routingKey, writeShort m.priority,
      writeBool m.durable, writeInt m.msgSeq, writeByte m.confirmLevel, writeBody m.msgBody]

def getMessagePack (m : CreatePublishMessage) (buf : Mem) (iopBuffLen : Int) : Packed :=
  if m.exchangeName.length > maxNameLength then ⟨Message.errMsgNameTooLong, buf, iopBuffLen⟩
  else if m.routingKey.length > maxNameLength then ⟨Message.errMsgNameTooLong, buf, iopBuffLen⟩
  else pack buf iopBuffLen m.iMsgLen m.fields

end CreatePublishMessage

/-! ## SeverStoreMessage -/

/-- A message held by the server; `id` stands for the address of the object. -/
structure SeverStoreMessage where
  id : Nat
  index : Int := -1
  cmdId : Nat := cmdClientPullMessage
  priority : Int
  durable : Bool
  confirmLevel : Nat := consumerNoAck
  msgSeq : Int := -1
  durableIndex : Int := -1
  msgBody : Bytes
  queueName : Name := []

namespace SeverStoreMessage

def iMsgLen (m : SeverStoreMessage) : Nat :=
  ushort (sizeofClientPackageHead + 1 + 4 + m.msgBody.length)

def fields (m : SeverStoreMessage) : List Field :=
  packHead m.iMsgLen m.index m.cmdId ++
    [writeByte m.confirmLevel, writeInt m.msgSeq, writeBody m.msgBody]

theorem fits (m : SeverStoreMessage) : ∀ f ∈ m.fields, f.Fits := by
  simp [fields, packHead, Field.Fits, writeUShort, writeInt, writeByte, writeBody]

def getMessagePack (m : SeverStoreMessage) (buf : Mem) (iopBuffLen : Int) : Packed :=
  pack buf iopBuffLen m.iMsgLen m.fields

/-- `iLen` of `SerializeDurableToString`. -/
def durableLen (m : SeverStoreMessage) : Nat :=
  ushort (2 + 2 + maxNameLength + 4 + 2 + m.msgBody.length)

def durableFields (m : SeverStoreMessage) : List Field :=
  [writeUShort m.durableLen, writeUShort cmdCreatePublish, writeName m.queueName,
    writeInt m.durableIndex, writeShort m.priority, writeBody m.msgBody]

def serializeDurableToString (m : SeverStoreMessage) (buf : Mem) (iBuffLen : Int) : Packed :=
  if m.durableLen > iBuffLen then ⟨Message.error, buf, iBuffLen⟩
  else ⟨Message.success, place buf 0 m.durableFields, m.durableLen⟩

end SeverStoreMessage

/-! ## ActReplyMessage -/

structure ActReplyMessage where
  index : Int
  bSucceed : Bool
  msgBody : Bytes

namespace ActReplyMessage

def iMsgLen (m : ActReplyMessage) : Nat :=
  ushort (sizeofClientPackageHead + 1 + m.msgBody.length + 1)

def fields (m : ActReplyMessage) : List Field :=
  packHead m.iMsgLen m.index cmdServerReplyMessage ++ [writeBool m.bSucceed, writeBody m.msgBody]

theorem fits (m : ActReplyMessage) : ∀ f ∈ m.fields, f.Fits := by
  simp [fields, packHead, Field.Fits, writeUShort, writeInt, writeBool, writeBody]

def getMessagePack (m : ActReplyMessage) (buf : Mem) (iopBuffLen : Int) : Packed :=
  pack buf iopBuffLen m.iMsgLen m.fields

end ActReplyMessage

/-! ## ServerAckMessage -/

structure ServerAckMessage where
  index : Int := -1
  ackSeq : Int

namespace ServerAckMessage

def iMsgLen : Nat := ushort (sizeofClientPackageHead + 4)

def fields (m : ServerAckMessage) : List Field :=
  packHead iMsgLen m.index cmdServerAckMessage ++ [writeInt m.ackSeq]

def getMessagePack (m : ServerAckMessage) (buf : Mem) (iopBuffLen : Int) : Packed :=
  pack buf iopBuffLen iMsgLen m.fields

theorem fits (m : ServerAckMessage) : ∀ f ∈ m.fields, f.Fits := by
  simp [fields, packHead, Field.Fits, writeUShort, writeInt]

theorem sent_eq (m : ServerAckMessage) :
    (m.getMessagePack zeroed maxServerPackageLength).sent = image m.fields :=
  pack_sent (by decide) rfl m.fits

end ServerAckMessage

/-! ## ClientExitMessage -/

structure ClientExitMessage where
  index : Int

namespace ClientExitMessage

def iMsgLen : Nat := ushort sizeofClientPackageHead

def fields (m : ClientExitMessage) : List Field := packHead iMsgLen m.index cmdClientExit

/-- `*iopBuffLen` stays as it was. -/
def getMessagePack (m : ClientExitMessage) (buf : Mem) (iopBuffLen : Int) : Packed :=
  { pack buf iopBuffLen iMsgLen m.fields with iopBuffLen := iopBuffLen }

end ClientExitMessage

/-- The package is a server acknowledgement with this client index and number. -/
structure IsServerAck (pack : Bytes) (iClientIndex iAckSeq : Int) : Prop where
  length : pack.length = 12
  packLen : readUShort (Mem.ofBytes pack) 0 = 12
  clientIndex : readInt (Mem.ofBytes pack) 2 = iClientIndex
  cmdId : readUShort (Mem.ofBytes pack) 6 = cmdServerAckMessage
  ackSeq : readInt (Mem.ofBytes pack) 8 = iAckSeq

theorem isServerAck_image {m : ServerAckMessage} (hindex : FitsInt 4 m.index)
    (hseq : FitsInt 4 m.ackSeq) : IsServerAck (image m.fields) m.index m.ackSeq := by
  have hh := holds_ofBytes (image m.fields)
  refine ⟨image_length m.fits, ?_, ?_, ?_, ?_⟩
  · exact readUShort_field (a := 0) [] hh m.fits (by decide)
  · exact readInt_field (a := 0) [writeUShort ServerAckMessage.iMsgLen] hh m.fits hindex
  · exact readUShort_field (a := 0) [writeUShort ServerAckMessage.iMsgLen, writeInt m.index] hh
      m.fits (by decide)
  · exact readInt_field (a := 0) (packHead ServerAckMessage.iMsgLen m.index cmdServerAckMessage) hh
      m.fits hseq

end Wsmq
