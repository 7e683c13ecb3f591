import Wsmq.LogicServer.Run

/-!
# Requests

What `ProcessRecvData` and the handler of the command read out of a package, as the
message that the client library has built.
-/

namespace Wsmq
open Lib Lib.ByteString Lib.Packing

/-- The packages that the client library builds. -/
inductive Request
  | createExchange (m : CreateExchangeMessage)
  | createQueue (m : CreateQueueMessage)
  | createBinding (m : CreateBindingMessage)
  | createPublish (m : CreatePublishMessage)
  | createRecv (m : CreateRecvMessage)
  | createSubscribe (m : CreateSubscribeMessage)
  | deleteExchange (m : DeleteExchangeMessage)
  | deleteQueue (m : DeleteQueueMessage)
  | cancelSubscribe (m : CancelSubscribeMessage)
  | clientAck (m : ClientAckMessage)

namespace Request

def getMessagePack : Request → Mem → Int → Packed
  | createExchange m => m.getMessagePack
  | createQueue m => m.getMessagePack
  | createBinding m => m.getMessagePack
  | createPublish m => m.getMessagePack
  | createRecv m => m.getMessagePack
  | createSubscribe m => m.getMessagePack
  | deleteExchange m => m.getMessagePack
  | deleteQueue m => m.getMessagePack
  | cancelSubscribe m => m.getMessagePack
  | clientAck m => m.getMessagePack

/-- `SetClientIndex`. -/
def setClientIndex (iIndex : Int) : Request → Request
  | createExchange m => createExchange { m with index := iIndex }
  | createQueue m => createQueue { m with index := iIndex }
  | createBinding m => createBinding { m with index := iIndex }
  | createPublish m => createPublish { m with index := iIndex }
  | createRecv m => createRecv { m with index := iIndex }
  | createSubscribe m => createSubscribe { m with index := iIndex }
  | deleteExchange m => deleteExchange { m with index := iIndex }
  | deleteQueue m => deleteQueue { m with index := iIndex }
  | cancelSubscribe m => cancelSubscribe { m with index := iIndex }
  | clientAck m => clientAck { m with index := iIndex }

end Request

namespace LogicServer

/-- The message of a publish package. -/
def ofPublish (p : Publish) : CreatePublishMessage :=
  ⟨-1, p.strExchangeName, p.strRoutingKey, p.iPriority, p.bDurable, p.iMsgSeq, p.confirmLevel,
    p.body⟩

def toPublish (m : CreatePublishMessage) : Publish :=
  ⟨m.exchangeName, m.routingKey, m.priority, m.durable, m.msgSeq, m.confirmLevel,
    m.msgBody.length, m.msgBody⟩

/-- The reading of the handler of the command; nothing where it is undefined. -/
def decodeBody (p : Package) : Option Request :=
  if p.cmdId = cmdCreateExcnange then (decodeCreateExchange p.body).map .createExchange
  else if p.cmdId = cmdCreateQueue then (decodeCreateQueue p.body).map .createQueue
  else if p.cmdId = cmdCreateBinding then (decodeCreateBinding p.body).map .createBinding
  else if p.cmdId = cmdCreatePublish then
    (decodePublish p.body p.bodyLen).map fun d => .createPublish (ofPublish d)
  else if p.cmdId = cmdCreateRecv then (decodeCreateRecv p.body).map .createRecv
  else if p.cmdId = cmdCreateSubcribe then (decodeCreateSubscribe p.body).map .createSubscribe
  else if p.cmdId = cmdDeleteExchange then (decodeDeleteExchange p.body).map .deleteExchange
  else if p.cmdId = cmdDeleteQueue then (decodeDeleteQueue p.body).map .deleteQueue
  else if p.cmdId = cmdCancelSubcribe then (decodeCancelSubscribe p.body).map .cancelSubscribe
  else if p.cmdId = cmdClientAckMessage then some (.clientAck (decodeClientAck p.body))
  else none

/-- The request of a package, with the client that `ProcessRecvData` finds in its head. -/
def decode (p : Package) : Option Request :=
  (decodeBody p).map (Request.setClientIndex p.clientIndex)

/-- What the handler of a request does after its reading; `packet` are the bytes behind the
head, which go on to the persistence server. -/
def serve [Platform] (st : LogicServer) (packet : Bytes) : Request → Option Outcome
  | .createExchange m => some (st.createExchange m packet)
  | .createQueue m => some (st.createQueue m packet)
  | .createBinding m => st.createBinding m
  | .createPublish m => st.publish (toPublish m) m.index
  | .createRecv m => st.recvMessage m m.index
  | .createSubscribe m => st.createSubscribe m m.index
  | .deleteExchange m => some (st.deleteExchange m packet)
  | .deleteQueue m => st.deleteQueue m packet
  | .cancelSubscribe m => st.cancelSubscribe m m.index
  | .clientAck m => some ⟨success, [], st.clientAck m m.index⟩

/-! ## Handlers serve what they have read -/

theorem toPublish_ofPublish {buf : Mem} {iLen : Nat} {d : Publish}
    (h : decodePublish buf iLen = some d) (hlen : publishBodyOffset ≤ iLen) (iIndex : Int) :
    toPublish { ofPublish d with index := iIndex } = d := by
  obtain ⟨e, _, hmap⟩ := Option.bind_eq_some_iff.mp h
  obtain ⟨k, _, rfl⟩ := Option.map_eq_some_iff.mp hmap
  have hrest : ((((iLen : Int) - publishBodyOffset).toNat : Nat) : Int) =
      (iLen : Int) - publishBodyOffset := by omega
  simp only [toPublish, ofPublish, Mem.read_length, hrest]

/-- The commands of the client library. -/
def requestCmds : List Nat :=
  [cmdCreateExcnange, cmdCreateQueue, cmdCreateBinding, cmdCreatePublish, cmdCreateRecv,
    cmdCreateSubcribe, cmdDeleteExchange, cmdDeleteQueue, cmdCancelSubcribe, cmdClientAckMessage]

variable [Platform] {st : LogicServer} {p : Package}

/-- A handler whose reading is `read` serves what it has read. -/
theorem dispatch_of_read {α : Type} {read : Option α} {f : α → Request} {g : α → Option Outcome}
    (hdispatch : st.dispatch p = read.bind g) (hread : decodeBody p = read.map f)
    (hserve : ∀ a, read = some a →
      g a = st.serve (p.body.read 0 p.bodyLen) ((f a).setClientIndex p.clientIndex)) :
    st.dispatch p = (decode p).bind (st.serve (p.body.read 0 p.bodyLen)) := by
  rw [hdispatch, decode, hread]
  cases read with
  | none => rfl
  | some a => exact hserve a rfl

/-- The handler of a command acts on what it has read and on nothing else of the package. -/
theorem dispatch_eq_serve (hcmd : p.cmdId ∈ requestCmds)
    (hbody : p.cmdId = cmdCreatePublish → publishBodyOffset ≤ p.bodyLen) :
    st.dispatch p = (decode p).bind (st.serve (p.body.read 0 p.bodyLen)) := by
  simp only [requestCmds, List.mem_cons, List.not_mem_nil, or_false] at hcmd
  rcases hcmd with h | h | h | h | h | h | h | h | h | h
  · have hdispatch : st.dispatch p = (decodeCreateExchange p.body).bind fun m =>
        some (st.createExchange m (p.body.read 0 p.bodyLen)) := by
      rw [dispatch, h]
      exact Option.map_eq_bind
    have hread : decodeBody p = (decodeCreateExchange p.body).map .createExchange := by
      rw [decodeBody, h]
      rfl
    exact dispatch_of_read hdispatch hread fun m _ => by
      simp only [Request.setClientIndex, serve, createExchange]
  · have hdispatch : st.dispatch p = (decodeCreateQueue p.body).bind fun m =>
        some (st.createQueue m (p.body.read 0 p.bodyLen)) := by
      rw [dispatch, h]
      exact Option.map_eq_bind
    have hread : decodeBody p = (decodeCreateQueue p.body).map .createQueue := by
      rw [decodeBody, h]
      rfl
    exact dispatch_of_read hdispatch hread fun m _ => by
      simp only [Request.setClientIndex, serve, createQueue]
  · have hdispatch : st.dispatch p = (decodeCreateBinding p.body).bind fun m =>
        st.createBinding m := by
      rw [dispatch, h]
      rfl
    have hread : decodeBody p = (decodeCreateBinding p.body).map .createBinding := by
      rw [decodeBody, h]
      rfl
    exact dispatch_of_read hdispatch hread fun m _ => by
      simp only [Request.setClientIndex, serve, createBinding]
  · have hdispatch : st.dispatch p = (decodePublish p.body p.bodyLen).bind fun d =>
        st.publish d p.clientIndex := by
      rw [dispatch, h]
      rfl
    have hread : decodeBody p = (decodePublish p.body p.bodyLen).map fun d =>
        .createPublish (ofPublish d) := by
      rw [decodeBody, h]
      rfl
    exact dispatch_of_read hdispatch hread fun d hd => by
      simp only [Request.setClientIndex, serve, toPublish_ofPublish hd (hbody h)]
  · have hdispatch : st.dispatch p = (decodeCreateRecv p.body).bind fun m =>
        st.recvMessage m p.clientIndex := by
      rw [dispatch, h]
      rfl
    have hread : decodeBody p = (decodeCreateRecv p.body).map .createRecv := by
      rw [decodeBody, h]
      rfl
    exact dispatch_of_read hdispatch hread fun m _ => by
      simp only [Request.setClientIndex, serve, recvMessage]
  · have hdispatch : st.dispatch p = (decodeCreateSubscribe p.body).bind fun m =>
        st.createSubscribe m p.clientIndex := by
      rw [dispatch, h]
      rfl
    have hread : decodeBody p = (decodeCreateSubscribe p.body).map .createSubscribe := by
      rw [decodeBody, h]
      rfl
    exact dispatch_of_read hdispatch hread fun m _ => by
      simp only [Request.setClientIndex, serve, createSubscribe]
  · have hdispatch : st.dispatch p = (decodeDeleteExchange p.body).bind fun m =>
        some (st.deleteExchange m (p.body.read 0 p.bodyLen)) := by
      rw [dispatch, h]
      exact Option.map_eq_bind
    have hread : decodeBody p = (decodeDeleteExchange p.body).map .deleteExchange := by
      rw [decodeBody, h]
      rfl
    exact dispatch_of_read hdispatch hread fun m _ => by
      simp only [Request.setClientIndex, serve, deleteExchange]
  · have hdispatch : st.dispatch p = (decodeDeleteQueue p.body).bind fun m =>
        st.deleteQueue m (p.body.read 0 p.bodyLen) := by
      rw [dispatch, h]
      rfl
    have hread : decodeBody p = (decodeDeleteQueue p.body).map .deleteQueue := by
      rw [decodeBody, h]
      rfl
    exact dispatch_of_read hdispatch hread fun m _ => by
      simp only [Request.setClientIndex, serve, deleteQueue]
  · have hdispatch : st.dispatch p = (decodeCancelSubscribe p.body).bind fun m =>
        st.cancelSubscribe m p.clientIndex := by
      rw [dispatch, h]
      rfl
    have hread : decodeBody p = (decodeCancelSubscribe p.body).map .cancelSubscribe := by
      rw [decodeBody, h]
      rfl
    exact dispatch_of_read hdispatch hread fun m _ => by
      simp only [Request.setClientIndex, serve, cancelSubscribe]
  · have hdispatch : st.dispatch p =
        some ⟨success, [], st.onClientAck p.body p.clientIndex⟩ := by
      rw [dispatch, h]
      rfl
    have hread : decodeBody p = some (.clientAck (decodeClientAck p.body)) := by
      rw [decodeBody, h]
      rfl
    simp only [hdispatch, decode, hread, Option.map_some, Option.bind_some,
      Request.setClientIndex, serve, onClientAck, clientAck]

end LogicServer

end Wsmq
