import Wsmq.Exchange
import Wsmq.ShmQueueFifo

/-!
# State of the logic server (`logicServer/logicServer.h`)

Objects made with `new` have an identity that is never given again; `queues`
holds the live `MessageQueue` objects, so a use of a deleted queue has no result.
Log output and the two counters are left out.
-/

namespace Wsmq
open Lib Lib.ByteString Lib.Packing Lib.Fifo

variable [Platform]

abbrev QueueMap := AList fun _ : Name => QueueId

/-- A history variable: what was made and what became of it.  No handler reads it. -/
inductive Event
  /-- `new MessageQueue` in `OnCreateQueue`. -/
  | created (queue : QueueId) (queueName : Name) (autoDel : Bool)
  /-- A message copy was added to a queue by `OnPublishMessage`. -/
  | stored (iCliIndex iMsgSeq : Int) (confirmLevel : Nat) (msg : Nat) (queue : QueueId)
  /-- Deleted after it was sent in no-ack mode. -/
  | sentNoAck (msg : Nat)
  /-- Deleted by `OnClientAck`. -/
  | acked (msg : Nat) (iAckSeq : Int)
  deriving DecidableEq

structure LogicServer where
  queueToConnect : ShmQueue.Fifo
  queueToPersis : ShmQueue.Fifo
  unSubcribeQueues : QueueMap := ∅
  subcribeQueues : QueueMap := ∅
  exchanges : AList fun _ : Name => Exchange := ∅
  needAckMessageList : List SeverStoreMessage := []
  ackSeq : Nat := 0
  producerMsgSeqs : List Bytes := []
  producerLastMsgSeq : AList fun _ : Int => Int := ∅
  queues : QueueId → Option MessageQueue := fun _ => none
  nextQueue : QueueId := 0
  nextMsg : Nat := 0
  history : List Event := []

namespace LogicServer

def success : Int := 0
def errLogicServerProcess : Int := -701
def errLogicServerCreateExchange : Int := -703
def errLogicServerCreateBinding : Int := -705
def errLogicServerPublishMessage : Int := -706
def errLogicServerRecvMessage : Int := -707
def errLogicServerCreateSubscribe : Int := -708
def errLogicServerDeleteExchange : Int := -709
def errLogicServerDeleteQueue : Int := -710
def errLogicServerCancelSubscribe : Int := -711

/-! Reply texts. -/

def reCreateExchangeSuccess := ascii "Create exchange success!"
def reExchangeExist := ascii "Exchange already exist! name is "
def reCreateQueueSuccess := ascii "Create queue success!"
def reQueueExist := ascii "Queue already exist! name is "
def reExchangeNotExist := ascii "Exchange not exist! name is "
def reQueueNotExist := ascii "Queue not exist! name is "
def reQueueNotSubscribe := ascii "Queue isn't subscribed! name is "
def reQueueIsEmpty := ascii "Queue is empty! name is "
def reFitQueueNotExist := ascii "Fit queue not exist! routing key is "
def reBindingSucceed := ascii "Binding succeed! binding key is "
def reBindingFailed := ascii "Binding failed! binding key is "
def reSubscribeSucceed := ascii "Subscribe succeed! queue name is "
def reSubscribeFailed := ascii "Subscribe failed! queue name is "
def reDeleteExchangeSucceed := ascii "Delete exchange succeed! exchange name is "
def reDeleteExchangeFailed := ascii "Delete exchange failed! exchange name is "
def reDeleteQueueSucceed := ascii "Delete queue succeed! queue name is "
def reDeleteQueueFailed := ascii "Delete queue failed! queue name is "
def reCancelSubscribeSucceed := ascii "Cancel subscribe succeed! queue name is "
def reCancelSubscribeFailed := ascii "Cancel subscribe failed! queue name is "
def reDurableFailed := ascii "Durable failed!"

/-- The server after its constructor, with channels of the given capacities.  No
capacity means that whoever reads the channel always makes room in time. -/
def start (capConnect capPersis : Option Nat) : LogicServer where
  queueToConnect := .empty capConnect
  queueToPersis := .empty capPersis

/-- Return code, `ostrMsgBody` and server after a handler. -/
structure Outcome where
  ret : Int
  strMsgBody : Bytes
  server : LogicServer

/-! ## Channels -/

def enqueuePersis (st : LogicServer) (bs : Bytes) : Int × LogicServer :=
  let r := st.queueToPersis.call (.enqueue bs)
  (r.1.ret, { st with queueToPersis := r.2 })

def enqueueConnect (st : LogicServer) (bs : Bytes) : Int × LogicServer :=
  let r := st.queueToConnect.call (.enqueue bs)
  (r.1.ret, { st with queueToConnect := r.2 })

/-- The connect server takes a package out of `LOGIC_TO_CONNECT`. -/
def drainConnect (st : LogicServer) : Option LogicServer :=
  st.queueToConnect.dequeue.map fun r => { st with queueToConnect := r.2 }

/-- The persistence server takes a packet out of `LOGIC_TO_PERSIS`. -/
def drainPersis (st : LogicServer) : Option LogicServer :=
  st.queueToPersis.dequeue.map fun r => { st with queueToPersis := r.2 }

/-- `while(Enqueue(..)==ERR_SHM_QUEUE_FULL)`: the connect server makes room meanwhile,
`fuel` packages at most. -/
def waitConnect (bs : Bytes) : Nat → LogicServer → Option LogicServer
  | 0, _ => none
  | fuel + 1, st =>
    let r := st.enqueueConnect bs
    if r.1 = ShmQueue.errShmQueueFull then st.drainConnect.bind (waitConnect bs fuel)
    else some r.2

/-- No result when the package does not even fit into the empty channel. -/
def enqueueConnectWait (st : LogicServer) (bs : Bytes) : Option LogicServer :=
  waitConnect bs (st.queueToConnect.items.length + 1) st

/-- A packet that is sent only for durable objects. -/
def sendPersis (st : LogicServer) (bDurable : Bool) (bs : Bytes) : Int × LogicServer :=
  if bDurable then st.enqueuePersis bs else (success, st)

/-! ## Objects and tables -/

/-- The object `queue` has changed. -/
def setQueue (st : LogicServer) (queue : QueueId) (q : MessageQueue) : LogicServer :=
  { st with queues := fun i => if i = queue then some q else st.queues i }

/-- `delete pMsgQueue`. -/
def freeQueue (st : LogicServer) (queue : QueueId) : LogicServer :=
  { st with queues := fun i => if i = queue then none else st.queues i }

def record (st : LogicServer) (e : Event) : LogicServer := { st with history := st.history ++ [e] }

/-- `new MessageQueue`, entered in `m_mUnSubcribeQueues`. -/
def newQueue (st : LogicServer) (q : MessageQueue) : LogicServer :=
  { st with
    queues := fun i => if i = st.nextQueue then some q else st.queues i
    unSubcribeQueues := st.unSubcribeQueues.insert q.queueName st.nextQueue
    nextQueue := st.nextQueue + 1
    history := st.history ++ [.created st.nextQueue q.queueName q.autoDel] }

def insertUnSubcribe (st : LogicServer) (name : Name) (queue : QueueId) : LogicServer :=
  { st with unSubcribeQueues := st.unSubcribeQueues.insert name queue }

def eraseUnSubcribe (st : LogicServer) (name : Name) : LogicServer :=
  { st with unSubcribeQueues := st.unSubcribeQueues.erase name }

def insertSubcribe (st : LogicServer) (name : Name) (queue : QueueId) : LogicServer :=
  { st with subcribeQueues := st.subcribeQueues.insert name queue }

def eraseSubcribe (st : LogicServer) (name : Name) : LogicServer :=
  { st with subcribeQueues := st.subcribeQueues.erase name }

def setExchanges (st : LogicServer) (exchanges : AList fun _ : Name => Exchange) : LogicServer :=
  { st with exchanges := exchanges }

/-- The queue of a name; `m_mSubcribeQueues` is looked at last, so it decides. -/
def findQueue (st : LogicServer) (strQueueName : Name) : Option QueueId :=
  match st.subcribeQueues.lookup strQueueName with
  | some queue => some queue
  | none => st.unSubcribeQueues.lookup strQueueName

/-- The value `m_iAckSeq++` stored in an `int`. -/
def ackSeqInt (st : LogicServer) : Int := (st.ackSeq : Int).bmod (2 ^ 32)

/-- The message is appended to `m_NeedAckMessageList` with a new number. -/
def pushNeedAck (st : LogicServer) (pMsg : SeverStoreMessage) : LogicServer :=
  { st with
    needAckMessageList := st.needAckMessageList ++ [pMsg]
    ackSeq := (st.ackSeq + 1) % 2 ^ 32 }

def setNeedAck (st : LogicServer) (l : List SeverStoreMessage) : LogicServer :=
  { st with needAckMessageList := l }

/-- `m_producerMsgSeqs.insert`. -/
def insertMsgSeq (st : LogicServer) (strMsgSeq : Bytes) : LogicServer :=
  if strMsgSeq ∈ st.producerMsgSeqs then st
  else { st with producerMsgSeqs := strMsgSeq :: st.producerMsgSeqs }

def setLastMsgSeq (st : LogicServer) (iCliIndex iMsgSeq : Int) : LogicServer :=
  { st with producerLastMsgSeq := st.producerLastMsgSeq.insert iCliIndex iMsgSeq }

/-! ## Packets to the persistence server -/

/-- Length, command and the body as it is. -/
def persisPacket (iCmdId : Nat) (body : Bytes) : Bytes :=
  let iPackLen := ushort (2 + 2 + body.length)
  (place zeroed 0 [writeUShort iPackLen, writeUShort iCmdId, writeBody body]).read 0 iPackLen

/-- The record of a message that has been delivered. -/
def consumePacket (iCmdId : Nat) (strQueueName : Name) (iDurableIndex : Int) : Bytes :=
  let iPackLen := ushort (2 + 2 + maxNameLength + 4)
  (place zeroed 0 [writeUShort iPackLen, writeUShort iCmdId, writeName strQueueName,
    writeInt iDurableIndex]).read 0 iPackLen

/-- What is sent when a durable message is done with. -/
def sendConsumed (st : LogicServer) (iCmdId : Nat) (strQueueName : Name)
    (pMsg : SeverStoreMessage) : LogicServer :=
  (st.sendPersis pMsg.durable (consumePacket iCmdId strQueueName pMsg.durableIndex)).2

end LogicServer

end Wsmq
