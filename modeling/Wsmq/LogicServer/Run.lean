import Wsmq.Lib.Runs
import Wsmq.LogicServer.Handlers

/-!
# The main loop of the logic server

`ProcessRecvData`, the reply that `Run` sends, and runs: packages in any order,
rounds of `PushMessage` and `SendMultiAck`, the readers of the two channels, and
any change in the iteration order of the hash tables.
-/

namespace Wsmq.LogicServer
open Lib Lib.ByteString Lib.Packing

variable [Platform]

/-- What `Run` accepts from `CONNECT_TO_LOGIC`: the receive buffer, whose bytes from
`len` on are left over from earlier packages, and the length of the block. -/
structure Package where
  buf : Mem
  len : Nat
  len_ge : sizeofClientPackageHead ≤ len
  len_le : len ≤ maxClintPackageLength

namespace Package

def packLen (p : Package) : Nat := readUShort p.buf 0
def clientIndex (p : Package) : Int := readInt p.buf 2
def cmdId (p : Package) : Nat := readUShort p.buf 6

/-- `ipBuffer` of the handlers. -/
def body (p : Package) : Mem := shift p.buf sizeofClientPackageHead

/-- `iLen` of the handlers. -/
def bodyLen (p : Package) : Nat := p.len - sizeofClientPackageHead

/-- The package of a client with the given command and body; the rest of the buffer is
zero. -/
def ofBody (iCmdId : Nat) (iClientIndex : Int) (body : Bytes)
    (h : sizeofClientPackageHead + body.length ≤ maxClintPackageLength) : Package where
  buf := Mem.ofBytes (image [writeUShort (sizeofClientPackageHead + body.length),
    writeInt iClientIndex, writeUShort iCmdId] ++ body)
  len := sizeofClientPackageHead + body.length
  len_ge := Nat.le_add_right _ _
  len_le := h

end Package

omit [Platform] in
/-- The branch that was taken. -/
theorem ite_eq_some {α : Type} {P : Prop} [Decidable P] {x y : Option α} {a : α}
    (h : (if P then x else y) = some a) : (P ∧ x = some a) ∨ (¬ P ∧ y = some a) := by
  by_cases hP : P
  · exact Or.inl ⟨hP, (if_pos hP).symm.trans h⟩
  · exact Or.inr ⟨hP, (if_neg hP).symm.trans h⟩

/-- The switch over the command. -/
def dispatch (st : LogicServer) (p : Package) : Option Outcome :=
  if p.cmdId = cmdCreateExcnange then st.onCreateExchange p.body p.bodyLen
  else if p.cmdId = cmdCreateQueue then st.onCreateQueue p.body p.bodyLen
  else if p.cmdId = cmdCreateBinding then st.onCreateBinding p.body
  else if p.cmdId = cmdCreatePublish then st.onPublishMessage p.body p.bodyLen p.clientIndex
  else if p.cmdId = cmdCreateRecv then st.onRecvMessage p.body p.clientIndex
  else if p.cmdId = cmdCreateSubcribe then st.onCreateSubscribe p.body p.clientIndex
  else if p.cmdId = cmdDeleteExchange then st.onDeleteExchange p.body p.bodyLen
  else if p.cmdId = cmdDeleteQueue then st.onDeleteQueue p.body p.bodyLen
  else if p.cmdId = cmdCancelSubcribe then st.onCancelSubscribe p.body p.clientIndex
  else if p.cmdId = cmdClientAckMessage then
    some ⟨success, [], st.onClientAck p.body p.clientIndex⟩
  else if p.cmdId = cmdClientExit then
    (st.onClientExit p.clientIndex).map fun st => ⟨success, [], st⟩
  else some ⟨errLogicServerProcess, [], st⟩

def processRecvData (st : LogicServer) (p : Package) : Option Outcome :=
  if p.packLen > p.len then some ⟨errLogicServerProcess, [], st⟩ else st.dispatch p

/-- The reply to the client, if there is one to send. -/
def reply (o : Outcome) (iClientIndex : Int) : LogicServer :=
  if o.strMsgBody = [] then o.server
  else
    let oMsg : ActReplyMessage := ⟨iClientIndex, o.ret = success, o.strMsgBody⟩
    let iLen := o.strMsgBody.length + sizeofClientPackageHead + 1 + 1
    (o.server.enqueueConnect (oMsg.getMessagePack zeroed iLen).sent).2

theorem queues_reply (o : Outcome) (c : Int) : (reply o c).queues = o.server.queues := by
  unfold reply
  split <;> rfl

/-- At every level the first message with the number goes, whoever it was sent to. -/
theorem onClientAck_single (st : LogicServer) (buf : Mem) (c : Int) :
    st.onClientAck buf c = st.ackSingle (readInt buf 1) :=
  if_pos (Or.inr (by decide))

/-- The body of the receive loop of `Run`. -/
def processPackage (st : LogicServer) (p : Package) : Option LogicServer :=
  (st.processRecvData p).map fun o => reply o p.clientIndex

/-! ## Hash tables -/

/-- The hash tables, in iteration order. -/
structure Tables where
  unSubcribeQueues : QueueMap
  subcribeQueues : QueueMap
  exchanges : AList fun _ : Name => Exchange
  producerMsgSeqs : List Bytes
  producerLastMsgSeq : AList fun _ : Int => Int

/-- The same exchange up to the order of its keys. -/
def SameExchange (a b : Exchange) : Prop :=
  a.exchangeName = b.exchangeName ∧ a.exchangeType = b.exchangeType ∧ a.durable = b.durable ∧
    a.autoDel = b.autoDel ∧ a.bindingQueues.entries.Perm b.bindingQueues.entries

instance (a b : Exchange) : Decidable (SameExchange a b) :=
  inferInstanceAs (Decidable (_ ∧ _ ∧ _ ∧ _ ∧ _))

/-- The tables hold what those of `st` hold. -/
def SameTables (t : Tables) (st : LogicServer) : Prop :=
  t.unSubcribeQueues.entries.Perm st.unSubcribeQueues.entries ∧
  t.subcribeQueues.entries.Perm st.subcribeQueues.entries ∧
  t.exchanges.keys.Perm st.exchanges.keys ∧
  (∀ e ∈ t.exchanges.entries, ∃ f ∈ st.exchanges.entries, f.1 = e.1 ∧ SameExchange e.2 f.2) ∧
  t.producerMsgSeqs.Perm st.producerMsgSeqs ∧
  t.producerLastMsgSeq.entries.Perm st.producerLastMsgSeq.entries

instance (t : Tables) (st : LogicServer) : Decidable (SameTables t st) :=
  inferInstanceAs (Decidable (_ ∧ _ ∧ _ ∧ _ ∧ _ ∧ _))

/-- The tables get another order, as after a rehash. -/
def rehash (st : LogicServer) (t : Tables) : Option LogicServer :=
  if SameTables t st then
    some { st with
      unSubcribeQueues := t.unSubcribeQueues
      subcribeQueues := t.subcribeQueues
      exchanges := t.exchanges
      producerMsgSeqs := t.producerMsgSeqs
      producerLastMsgSeq := t.producerLastMsgSeq }
  else none

/-! ## Steps -/

inductive Step
  | package (p : Package)
  | pushMessage
  | sendMultiAck
  | drainConnect
  | drainPersis
  | rehash (t : Tables)

def Step.cmdId : Step → Option Nat
  | .package p => some p.cmdId
  | _ => none

def step (st : LogicServer) : Step → Option LogicServer
  | .package p => st.processPackage p
  | .pushMessage => st.pushMessage
  | .sendMultiAck => st.sendMultiAck
  | .drainConnect => st.drainConnect
  | .drainPersis => st.drainPersis
  | .rehash t => st.rehash t

/-- The server after a list of steps. -/
abbrev run : LogicServer → List Step → Option LogicServer := Runs.run step

/-! ## Packages of clients

The queue "q" and the fanout exchange "e" that leads to it, neither deleted by itself. -/

namespace Step

variable (iClientIndex : Int)

def makeQueue (bDurable : Bool) : Step :=
  .package (.ofBody cmdCreateQueue iClientIndex
    (image [writeName (ascii "q"), writeShort (-1), writeBool bDurable, writeBool false])
    (by revert bDurable; decide))

def makeExchange : Step :=
  .package (.ofBody cmdCreateExcnange iClientIndex
    (image [writeName (ascii "e"), writeUShort exchangeTypeFanout, writeBool false,
      writeBool false]) (by decide))

def makeBinding : Step :=
  .package (.ofBody cmdCreateBinding iClientIndex
    (image [writeName (ascii "e"), writeName (ascii "q"), writeName (ascii "k")]) (by decide))

omit [Platform] in
theorem length_subscribe : sizeofClientPackageHead +
    (image [writeName (ascii "q"), writeByte 1]).length ≤ maxClintPackageLength := by decide

def subscribe : Step :=
  .package (.ofBody cmdCreateSubcribe iClientIndex (image [writeName (ascii "q"), writeByte 1])
    length_subscribe)

omit [Platform] in
theorem length_queueName : sizeofClientPackageHead + (image [writeName (ascii "q")]).length ≤
    maxClintPackageLength := by decide

def cancel : Step :=
  .package (.ofBody cmdCancelSubcribe iClientIndex (image [writeName (ascii "q")])
    length_queueName)

def exit : Step := .package (.ofBody cmdClientExit iClientIndex [] (by decide))

/-- The message "hello" is published to "e". -/
def publishPackage (bDurable : Bool) (iMsgSeq : Int) (confirmLevel : Nat) : Package :=
  .ofBody cmdCreatePublish iClientIndex
    (image [writeName (ascii "e"), writeName (ascii "k"), writeShort (-1), writeBool bDurable,
      writeInt iMsgSeq, writeByte confirmLevel, writeBody (ascii "hello")])
    (by
      rw [image_length (by simp [Field.Fits, writeName, writeShort, writeBool, writeInt, writeByte,
        writeBody, ascii, maxNameLength])]
      exact Nat.le_of_ble_eq_true rfl)

def publish (bDurable : Bool) (iMsgSeq : Int) (confirmLevel : Nat) : Step :=
  .package (publishPackage iClientIndex bDurable iMsgSeq confirmLevel)

end Step

end Wsmq.LogicServer
