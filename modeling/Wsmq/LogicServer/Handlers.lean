import Wsmq.LogicServer.State

/-!
# Handlers of the logic server (`logicServer/logicServer.cpp`)

`buf` is the memory behind `ipBuffer`.  A handler has no result when the source
reads or frees what it must not, aborts, or never returns.
-/

namespace Wsmq.LogicServer
open Lib Lib.ByteString Lib.Packing

variable [Platform]

/-! ## PushMessage -/

/-- A message goes to the connect server and waits for its acknowledgement. -/
def sendAwaited (st : LogicServer) (pMsg : SeverStoreMessage) (iLen : Nat) :
    Option LogicServer :=
  (st.pushNeedAck pMsg).enqueueConnectWait (pMsg.getMessagePack zeroed iLen).sent

/-- One message of `pMsgQueue` goes out; `q` is the queue before it was popped. -/
def pushOne (st : LogicServer) (q : MessageQueue) (pMsg : SeverStoreMessage) :
    Option LogicServer :=
  if q.confirmLevel > 0 then
    st.sendAwaited
      { pMsg with
        cmdId := cmdServerPushMessage
        confirmLevel := q.confirmLevel
        msgSeq := st.ackSeqInt
        queueName := q.queueName } maxServerPackageLength
  else
    let pMsg := { pMsg with cmdId := cmdServerPushMessage, msgSeq := -1 }
    (st.enqueueConnectWait (pMsg.getMessagePack zeroed maxServerPackageLength).sent).map fun st =>
      (st.sendConsumed cmdServerPushMessage q.queueName pMsg).record (.sentNoAck pMsg.id)

/-- The loop over the messages of one queue; `fuel` is their number. -/
def pushQueue (queue : QueueId) : Nat → LogicServer → Option LogicServer
  | 0, st => some st
  | fuel + 1, st =>
    match st.queues queue with
    | none => none
    | some q =>
      match q.popFrontMsg true with
      | none => some st
      | some (pMsg, q') => ((st.setQueue queue q').pushOne q pMsg).bind (pushQueue queue fuel)

/-- The loop over `m_mSubcribeQueues`.  The iterator has moved on when
`erase(itr++)` is called, so the entry after the unsubscribed queue is erased; at
the end of the map that is undefined. -/
def pushLoop : List (Σ _ : Name, QueueId) → LogicServer → Option LogicServer
  | [], st => some st
  | entry :: rest, st =>
    match st.queues entry.2 with
    | none => none
    | some q =>
      if q.isSubscribe then
        (pushQueue entry.2 q.messages.length st).bind (pushLoop rest)
      else
        match rest with
        | [] => none
        | next :: rest' =>
          pushLoop rest' ((st.eraseSubcribe next.1).insertUnSubcribe q.queueName entry.2)

def pushMessage (st : LogicServer) : Option LogicServer :=
  pushLoop st.subcribeQueues.entries st

/-! ## Exchanges, queues and bindings

A handler reads its fields, as the message that a client has built, and goes on with them.
`packet` is what it passes on to the persistence server, the bytes as they came. -/

def decodeCreateExchange (buf : Mem) : Option CreateExchangeMessage :=
  (readName buf 0).map fun strExchangeName =>
    { exchangeName := strExchangeName
      exchangeType := readUShort buf 32
      durable := readBool buf 34
      autoDel := readBool buf 35 }

def createExchange (st : LogicServer) (m : CreateExchangeMessage) (packet : Bytes) : Outcome :=
  if m.exchangeName ∈ st.exchanges then ⟨success, reExchangeExist ++ m.exchangeName, st⟩
  else
    let pExchange : Exchange := ⟨m.exchangeName, m.exchangeType, m.durable, m.autoDel, ∅⟩
    let r := (st.setExchanges (st.exchanges.insert m.exchangeName pExchange)).sendPersis m.durable
      (persisPacket cmdCreateExcnange packet)
    if r.1 ≠ success then ⟨errLogicServerCreateExchange, reDurableFailed, r.2⟩
    else ⟨success, reCreateExchangeSuccess, r.2⟩

def onCreateExchange (st : LogicServer) (buf : Mem) (iLen : Nat) : Option Outcome :=
  (decodeCreateExchange buf).map fun m => st.createExchange m (buf.read 0 iLen)

theorem onCreateExchange_some {st : LogicServer} {buf : Mem} {iLen : Nat} {o : Outcome}
    (h : st.onCreateExchange buf iLen = some o) : ∃ n, readName buf 0 = some n ∧
      st.createExchange
        { exchangeName := n
          exchangeType := readUShort buf 32
          durable := readBool buf 34
          autoDel := readBool buf 35 } (buf.read 0 iLen) = o := by
  obtain ⟨m, hm, rfl⟩ := Option.map_eq_some_iff.mp h
  obtain ⟨n, hn, rfl⟩ := Option.map_eq_some_iff.mp hm
  exact ⟨n, hn, rfl⟩

def decodeCreateQueue (buf : Mem) : Option CreateQueueMessage :=
  (readName buf 0).map fun strQueueName =>
    { queueName := strQueueName
      priority := readShort buf 32
      durable := readBool buf 34
      autoDel := readBool buf 35 }

def createQueue (st : LogicServer) (m : CreateQueueMessage) (packet : Bytes) : Outcome :=
  if m.queueName ∈ st.unSubcribeQueues ∨ m.queueName ∈ st.subcribeQueues then
    ⟨success, reQueueExist ++ m.queueName, st⟩
  else
    let pMessageQueue : MessageQueue :=
      { queueName := m.queueName, priority := m.priority, durable := m.durable,
        autoDel := m.autoDel }
    let r := (st.newQueue pMessageQueue).sendPersis m.durable (persisPacket cmdCreateQueue packet)
    -- the source returns the code of `OnCreateExchange` here
    if r.1 ≠ success then ⟨errLogicServerCreateExchange, reDurableFailed, r.2⟩
    else ⟨success, reCreateQueueSuccess, r.2⟩

def onCreateQueue (st : LogicServer) (buf : Mem) (iLen : Nat) : Option Outcome :=
  (decodeCreateQueue buf).map fun m => st.createQueue m (buf.read 0 iLen)

theorem onCreateQueue_some {st : LogicServer} {buf : Mem} {iLen : Nat} {o : Outcome}
    (h : st.onCreateQueue buf iLen = some o) : ∃ n, readName buf 0 = some n ∧
      st.createQueue
        { queueName := n
          priority := readShort buf 32
          durable := readBool buf 34
          autoDel := readBool buf 35 } (buf.read 0 iLen) = o := by
  obtain ⟨m, hm, rfl⟩ := Option.map_eq_some_iff.mp h
  obtain ⟨n, hn, rfl⟩ := Option.map_eq_some_iff.mp hm
  exact ⟨n, hn, rfl⟩

/-- The bindings of a durable exchange are sent to the persistence server. -/
def sendBindings (st : LogicServer) (pExchange : Exchange) : Option (Int × LogicServer) :=
  if pExchange.durable then
    (pExchange.serializeBindingToString st.queues zeroed maxClintPackageLength).map fun packed =>
      st.enqueuePersis packed.sent
  else some (success, st)

/-- `OnCreateBinding` once exchange and queue are found. -/
def bindQueue (st : LogicServer) (strExchangeName strBindingKey : Name) (pExchange : Exchange)
    (queue : QueueId) : Option Outcome :=
  let pExchange := pExchange.createBinding strBindingKey queue
  ((st.setExchanges (st.exchanges.replace strExchangeName pExchange)).sendBindings pExchange).map
    fun r =>
      if r.1 ≠ success then
        ⟨errLogicServerCreateBinding, reBindingFailed ++ strBindingKey, r.2⟩
      else ⟨success, reBindingSucceed ++ strBindingKey, r.2⟩

def decodeCreateBinding (buf : Mem) : Option CreateBindingMessage :=
  (readName buf 0).bind fun strExchangeName =>
  (readName buf 32).bind fun strQueueName =>
  (readName buf 64).map fun strBindingKey =>
    { exchangeName := strExchangeName, queueName := strQueueName, bindingKey := strBindingKey }

def createBinding (st : LogicServer) (m : CreateBindingMessage) : Option Outcome :=
  let pMessageQueue := match st.unSubcribeQueues.lookup m.queueName with
    | some queue => some queue
    | none => st.subcribeQueues.lookup m.queueName
  match st.exchanges.lookup m.exchangeName, pMessageQueue with
  | none, _ => some ⟨errLogicServerCreateBinding, reExchangeNotExist ++ m.exchangeName, st⟩
  | some _, none => some ⟨errLogicServerCreateBinding, reQueueNotExist ++ m.queueName, st⟩
  | some pExchange, some queue => st.bindQueue m.exchangeName m.bindingKey pExchange queue

def onCreateBinding (st : LogicServer) (buf : Mem) : Option Outcome :=
  (decodeCreateBinding buf).bind st.createBinding

theorem onCreateBinding_some {st : LogicServer} {buf : Mem} {o : Outcome}
    (h : st.onCreateBinding buf = some o) : ∃ e q k, readName buf 0 = some e ∧
      readName buf 32 = some q ∧ readName buf 64 = some k ∧
      st.createBinding { exchangeName := e, queueName := q, bindingKey := k } = some o := by
  obtain ⟨m, hm, ho⟩ := Option.bind_eq_some_iff.mp h
  obtain ⟨e, he, hm⟩ := Option.bind_eq_some_iff.mp hm
  obtain ⟨q, hq, hm⟩ := Option.bind_eq_some_iff.mp hm
  obtain ⟨k, hk, rfl⟩ := Option.map_eq_some_iff.mp hm
  exact ⟨e, q, k, he, hq, hk, ho⟩

/-! ## Publishing -/

/-- The fields of a publish package; `iBodyLen` is what is left of `iLen`. -/
structure Publish where
  strExchangeName : Name
  strRoutingKey : Name
  iPriority : Int
  bDurable : Bool
  iMsgSeq : Int
  confirmLevel : Nat
  iBodyLen : Int
  body : Bytes

/-- The offset of the body behind the package head. -/
def publishBodyOffset : Nat := 32 + 32 + 2 + 1 + 4 + 1

def decodePublish (buf : Mem) (iLen : Int) : Option Publish :=
  (readName buf 0).bind fun strExchangeName =>
  (readName buf 32).map fun strRoutingKey =>
    let iBodyLen := iLen - publishBodyOffset
    { strExchangeName := strExchangeName
      strRoutingKey := strRoutingKey
      -- read as `unsigned short`, but every use converts it to `short`
      iPriority := readShort buf 64
      bDurable := readBool buf 66
      iMsgSeq := readInt buf 67
      confirmLevel := readByte buf 71
      iBodyLen := iBodyLen
      body := buf.read publishBodyOffset iBodyLen.toNat }

/-- `strMsgSeq`. -/
def msgSeqKey (iCliIndex iMsgSeq : Int) : Bytes :=
  toString iCliIndex ++ ascii "#" ++ toString iMsgSeq

/-- An unconfirmed message of the same producer and number has been stored before. -/
def IsRepeat (st : LogicServer) (p : Publish) (iCliIndex : Int) : Prop :=
  p.confirmLevel > 0 ∧ msgSeqKey iCliIndex p.iMsgSeq ∈ st.producerMsgSeqs

instance (st : LogicServer) (p : Publish) (c : Int) : Decidable (st.IsRepeat p c) :=
  inferInstanceAs (Decidable (_ ∧ _))

/-- `msgQueueList`; empty also when there is no such exchange. -/
def routedQueues (st : LogicServer) (p : Publish) : List QueueId :=
  match st.exchanges.lookup p.strExchangeName with
  | none => []
  | some pExchange => (pExchange.findBindingQueue p.strRoutingKey).2

/-- `new SeverStoreMessage`. -/
def newMessage (st : LogicServer) (p : Publish) : SeverStoreMessage :=
  { id := st.nextMsg, priority := p.iPriority, durable := p.bDurable, msgBody := p.body }

/-- The new message is added to the queue. -/
def addMessage (st : LogicServer) (p : Publish) (iCliIndex : Int) (queue : QueueId)
    (q : MessageQueue) (pMsg : SeverStoreMessage) : LogicServer :=
  { (st.setQueue queue (q.addMessage pMsg)).record
      (.stored iCliIndex p.iMsgSeq p.confirmLevel pMsg.id queue) with
    nextMsg := st.nextMsg + 1 }

/-- The message with its durable index and queue name. -/
def durableMessage (pMsg : SeverStoreMessage) (q : MessageQueue) : SeverStoreMessage :=
  { pMsg with durableIndex := q.durableIndex, queueName := q.queueName }

/-- The packet of `SerializeDurableToString`. -/
def durablePacket (pMsg : SeverStoreMessage) : Bytes :=
  (pMsg.serializeDurableToString zeroed maxClintPackageLength).sent

/-- One round of the loop over `msgQueueList`. -/
def storeMessage (st : LogicServer) (p : Publish) (iCliIndex : Int) (queue : QueueId) :
    Option LogicServer :=
  (st.queues queue).map fun q =>
    if p.bDurable ∧ q.durable then
      let pMsg := durableMessage (st.newMessage p) q
      -- the result of this `Enqueue` is not looked at
      (st.enqueuePersis (durablePacket pMsg)).2.addMessage p iCliIndex queue
        { q with durableIndex := q.durableIndex + 1 } pMsg
    else st.addMessage p iCliIndex queue q (st.newMessage p)

def storeMessages (p : Publish) (iCliIndex : Int) : List QueueId → LogicServer →
    Option LogicServer
  | [], st => some st
  | queue :: rest, st =>
    (st.storeMessage p iCliIndex queue).bind (storeMessages p iCliIndex rest)

def sendServerAck (st : LogicServer) (oMsg : ServerAckMessage) : LogicServer :=
  (st.enqueueConnect (oMsg.getMessagePack zeroed maxServerPackageLength).sent).2

/-- What happens after the message is in its queues. -/
def confirmPublish (st : LogicServer) (p : Publish) (iCliIndex : Int) : LogicServer :=
  if p.confirmLevel = producerSingleAck then
    (st.sendServerAck { index := iCliIndex, ackSeq := p.iMsgSeq }).insertMsgSeq
      (msgSeqKey iCliIndex p.iMsgSeq)
  else if p.confirmLevel = producerMutilAck then
    (st.setLastMsgSeq iCliIndex p.iMsgSeq).insertMsgSeq (msgSeqKey iCliIndex p.iMsgSeq)
  else st

/-- `OnPublishMessage` on a decoded package. -/
def publish (st : LogicServer) (p : Publish) (iCliIndex : Int) : Option Outcome :=
  if st.IsRepeat p iCliIndex then
    -- unlike below, the client index of this acknowledgement is not set
    some ⟨success, [], st.sendServerAck { ackSeq := p.iMsgSeq }⟩
  else if p.strExchangeName ∉ st.exchanges then
    some ⟨errLogicServerPublishMessage, reExchangeNotExist ++ p.strExchangeName, st⟩
  else if st.routedQueues p = [] then
    some ⟨errLogicServerPublishMessage, reFitQueueNotExist ++ p.strRoutingKey, st⟩
  else if p.iBodyLen < 0 then none
  else
    (storeMessages p iCliIndex (st.routedQueues p) st).map fun st =>
      ⟨success, [], st.confirmPublish p iCliIndex⟩

def onPublishMessage (st : LogicServer) (buf : Mem) (iLen : Nat) (iCliIndex : Int) :
    Option Outcome :=
  (decodePublish buf iLen).bind fun p => st.publish p iCliIndex

/-- One turn of the loop in `SendMultiAck`. -/
def sendMultiAckTurn (st : LogicServer) (entry : Σ _ : Int, Int) : LogicServer :=
  st.sendServerAck { index := entry.1, ackSeq := entry.2 }

/-- The iterator is never moved, so the loop ends only when there is no entry. -/
def sendMultiAck (st : LogicServer) : Option LogicServer :=
  if st.producerLastMsgSeq.entries = [] then some { st with producerLastMsgSeq := ∅ } else none

/-! ## Pulling and subscribing -/

/-- `OnRecvMessage` once a message is popped. -/
def sendPulled (st : LogicServer) (strQueueName : Name) (confirmLevel : Nat) (iCliIndex : Int)
    (pMsg : SeverStoreMessage) : Option LogicServer :=
  let pMsg := { pMsg with index := iCliIndex }
  if confirmLevel > 0 then
    st.sendAwaited
      { pMsg with
        confirmLevel := confirmLevel
        msgSeq := st.ackSeqInt
        queueName := strQueueName } maxClintPackageLength
  else
    let pMsg := { pMsg with msgSeq := -1 }
    ((st.sendConsumed cmdCreateRecv strQueueName pMsg).record
      (.sentNoAck pMsg.id)).enqueueConnectWait
        (pMsg.getMessagePack zeroed maxClintPackageLength).sent

def decodeCreateRecv (buf : Mem) : Option CreateRecvMessage :=
  (readName buf 0).map fun strQueueName =>
    { queueName := strQueueName, confirmLevel := readByte buf 32 }

def recvMessage (st : LogicServer) (m : CreateRecvMessage) (iCliIndex : Int) : Option Outcome :=
  match st.findQueue m.queueName with
  | none => some ⟨errLogicServerRecvMessage, reQueueNotExist ++ m.queueName, st⟩
  | some queue =>
    (st.queues queue).bind fun q =>
      match q.popFrontMsg false with
      | none => some ⟨errLogicServerRecvMessage, reQueueIsEmpty ++ m.queueName, st⟩
      | some (pMsg, q') =>
        ((st.setQueue queue q').sendPulled m.queueName m.confirmLevel iCliIndex pMsg).map fun st =>
          ⟨success, [], st⟩

def onRecvMessage (st : LogicServer) (buf : Mem) (iCliIndex : Int) : Option Outcome :=
  (decodeCreateRecv buf).bind fun m => st.recvMessage m iCliIndex

theorem onRecvMessage_some {st : LogicServer} {buf : Mem} {iCliIndex : Int} {o : Outcome}
    (h : st.onRecvMessage buf iCliIndex = some o) : ∃ n, readName buf 0 = some n ∧
      st.recvMessage { queueName := n, confirmLevel := readByte buf 32 } iCliIndex = some o := by
  obtain ⟨m, hm, ho⟩ := Option.bind_eq_some_iff.mp h
  obtain ⟨n, hn, rfl⟩ := Option.map_eq_some_iff.mp hm
  exact ⟨n, hn, ho⟩

/-- The subscribers of a durable queue are sent to the persistence server. -/
def sendSubscribers (st : LogicServer) (q : MessageQueue) (bIsCreate : Bool) :
    Option (Int × LogicServer) :=
  if q.durable then
    (q.serializeSubcribeToString zeroed maxClintPackageLength bIsCreate).map fun packed =>
      st.enqueuePersis packed.sent
  else some (success, st)

/-- `OnCreateSubscribe` once the queue is found. -/
def subscribeQueue (st : LogicServer) (strQueueName : Name) (confirmLevel : Nat)
    (iCliIndex : Int) (queue : QueueId) (q : MessageQueue) : Option Outcome :=
  let q := q.addSubscribe iCliIndex confirmLevel
  ((st.setQueue queue q).sendSubscribers q true).map fun r =>
    if r.1 ≠ success then
      ⟨errLogicServerCreateSubscribe, reSubscribeFailed ++ strQueueName,
        r.2.setQueue queue (q.cancelSubscribe iCliIndex)⟩
    else if strQueueName ∈ st.unSubcribeQueues then
      ⟨success, reSubscribeSucceed ++ strQueueName,
        (r.2.eraseUnSubcribe strQueueName).insertSubcribe strQueueName queue⟩
    else ⟨success, reSubscribeSucceed ++ strQueueName, r.2⟩

def decodeCreateSubscribe (buf : Mem) : Option CreateSubscribeMessage :=
  (readName buf 0).map fun strQueueName =>
    { queueName := strQueueName, confirmLevel := readByte buf 32 }

def createSubscribe (st : LogicServer) (m : CreateSubscribeMessage) (iCliIndex : Int) :
    Option Outcome :=
  match st.findQueue m.queueName with
  | none => some ⟨errLogicServerCreateSubscribe, reQueueNotExist ++ m.queueName, st⟩
  | some queue =>
    (st.queues queue).bind fun q => st.subscribeQueue m.queueName m.confirmLevel iCliIndex queue q

def onCreateSubscribe (st : LogicServer) (buf : Mem) (iCliIndex : Int) : Option Outcome :=
  (decodeCreateSubscribe buf).bind fun m => st.createSubscribe m iCliIndex

theorem onCreateSubscribe_some {st : LogicServer} {buf : Mem} {iCliIndex : Int} {o : Outcome}
    (h : st.onCreateSubscribe buf iCliIndex = some o) : ∃ n, readName buf 0 = some n ∧
      st.createSubscribe { queueName := n, confirmLevel := readByte buf 32 } iCliIndex =
        some o := by
  obtain ⟨m, hm, ho⟩ := Option.bind_eq_some_iff.mp h
  obtain ⟨n, hn, rfl⟩ := Option.map_eq_some_iff.mp hm
  exact ⟨n, hn, ho⟩

/-! ## Deleting -/

def decodeDeleteExchange (buf : Mem) : Option DeleteExchangeMessage :=
  (readName buf 0).map fun strExchangeName => { exchangeName := strExchangeName }

def deleteExchange (st : LogicServer) (m : DeleteExchangeMessage) (packet : Bytes) : Outcome :=
  match st.exchanges.lookup m.exchangeName with
  | none => ⟨errLogicServerDeleteExchange, reExchangeNotExist ++ m.exchangeName, st⟩
  | some pExchange =>
    let r := st.sendPersis pExchange.durable (persisPacket cmdDeleteExchange packet)
    if r.1 ≠ success then
      ⟨errLogicServerDeleteExchange, reDeleteExchangeFailed ++ m.exchangeName, r.2⟩
    else
      ⟨success, reDeleteExchangeSucceed ++ m.exchangeName,
        r.2.setExchanges (r.2.exchanges.erase m.exchangeName)⟩

def onDeleteExchange (st : LogicServer) (buf : Mem) (iLen : Nat) : Option Outcome :=
  (decodeDeleteExchange buf).map fun m => st.deleteExchange m (buf.read 0 iLen)

theorem onDeleteExchange_some {st : LogicServer} {buf : Mem} {iLen : Nat} {o : Outcome}
    (h : st.onDeleteExchange buf iLen = some o) : ∃ n, readName buf 0 = some n ∧
      st.deleteExchange { exchangeName := n } (buf.read 0 iLen) = o := by
  obtain ⟨m, hm, rfl⟩ := Option.map_eq_some_iff.mp h
  obtain ⟨n, hn, rfl⟩ := Option.map_eq_some_iff.mp hm
  exact ⟨n, hn, rfl⟩

/-- What the sweep over `m_mExchanges` does about the deletion of a durable
exchange: nothing (`OnDeleteQueue`), tell the persistence server and stop when
that fails (`OnCancelSubscribe`), or tell it whatever comes back (`OnClientExit`). -/
inductive SweepMode
  | silent
  | checked
  | unchecked
  deriving DecidableEq

/-- The packet about the deletion of an exchange, in the modes that send one. -/
def sendDeleteExchange (st : LogicServer) (mode : SweepMode) (pExchange : Exchange) :
    Int × LogicServer :=
  st.sendPersis (pExchange.durable && mode ≠ .silent)
    (persisPacket cmdDeleteExchange pExchange.exchangeName)

/-- The loop over all exchanges that deletes the bindings of a queue, and the name of
the exchange it stopped at, if it stopped. -/
def sweepExchanges (mode : SweepMode) (queue : QueueId) :
    List (Σ _ : Name, Exchange) → LogicServer → Option Name × LogicServer
  | [], st => (none, st)
  | entry :: rest, st =>
    if entry.2.getBindingSize = 0 then sweepExchanges mode queue rest st
    else
      let pExchange := entry.2.deleteBindingQueue queue
      let st := st.setExchanges (st.exchanges.replace entry.1 pExchange)
      if pExchange.getBindingSize = 0 ∧ pExchange.autoDel then
        let r := st.sendDeleteExchange mode pExchange
        if mode = .checked ∧ r.1 ≠ success then (some pExchange.exchangeName, r.2)
        else
          sweepExchanges mode queue rest (r.2.setExchanges (r.2.exchanges.erase entry.1))
      else sweepExchanges mode queue rest st

/-- `ClearMessage` and the sweep, before a queue is deleted. -/
def detachQueue (st : LogicServer) (mode : SweepMode) (queue : QueueId) (q : MessageQueue) :
    Option Name × LogicServer :=
  sweepExchanges mode queue st.exchanges.entries (st.setQueue queue q.clearMessage)

def decodeDeleteQueue (buf : Mem) : Option DeleteQueueMessage :=
  (readName buf 0).map fun strQueueName => { queueName := strQueueName }

def deleteQueue (st : LogicServer) (m : DeleteQueueMessage) (packet : Bytes) : Option Outcome :=
  match st.findQueue m.queueName with
  | none => some ⟨errLogicServerDeleteQueue, reQueueNotExist ++ m.queueName, st⟩
  | some queue =>
    (st.queues queue).map fun q =>
      let r := ((st.eraseUnSubcribe m.queueName).eraseSubcribe m.queueName).sendPersis q.durable
        (persisPacket cmdDeleteQueue packet)
      if r.1 ≠ success then
        ⟨errLogicServerDeleteQueue, reDeleteQueueFailed ++ m.queueName, r.2⟩
      else
        ⟨success, reDeleteQueueSucceed ++ m.queueName,
          (r.2.detachQueue .silent queue q).2.freeQueue queue⟩

def onDeleteQueue (st : LogicServer) (buf : Mem) (iLen : Nat) : Option Outcome :=
  (decodeDeleteQueue buf).bind fun m => st.deleteQueue m (buf.read 0 iLen)

theorem onDeleteQueue_some {st : LogicServer} {buf : Mem} {iLen : Nat} {o : Outcome}
    (h : st.onDeleteQueue buf iLen = some o) : ∃ n, readName buf 0 = some n ∧
      st.deleteQueue { queueName := n } (buf.read 0 iLen) = some o := by
  obtain ⟨m, hm, ho⟩ := Option.bind_eq_some_iff.mp h
  obtain ⟨n, hn, rfl⟩ := Option.map_eq_some_iff.mp hm
  exact ⟨n, hn, ho⟩

/-- The auto-delete branch of `OnCancelSubscribe`. -/
def cancelAutoDelete (st : LogicServer) (strQueueName : Name) (queue : QueueId)
    (q : MessageQueue) : Outcome :=
  let swept := st.detachQueue .checked queue q
  match swept.1 with
  | some strExchangeName =>
    ⟨errLogicServerDeleteExchange, reDeleteExchangeFailed ++ strExchangeName, swept.2⟩
  | none =>
    let r := swept.2.sendPersis q.durable (persisPacket cmdDeleteQueue strQueueName)
    if r.1 ≠ success then
      ⟨errLogicServerDeleteQueue, reDeleteQueueFailed ++ strQueueName, r.2⟩
    else ⟨success, reCancelSubscribeSucceed ++ strQueueName, r.2.freeQueue queue⟩

/-- `OnCancelSubscribe` once the subscription is cancelled; `q` is the queue now. -/
def afterCancel (st : LogicServer) (strQueueName : Name) (queue : QueueId) (q : MessageQueue) :
    Outcome :=
  let st := st.eraseSubcribe q.queueName
  if q.autoDel ∧ ¬ q.isSubscribe then st.cancelAutoDelete strQueueName queue q
  else if ¬ q.isSubscribe then
    ⟨success, reCancelSubscribeSucceed ++ strQueueName, st.insertUnSubcribe q.queueName queue⟩
  else
    -- with other subscribers left, the queue is in neither map from here on
    ⟨success, reCancelSubscribeSucceed ++ strQueueName, st⟩

/-- `OnCancelSubscribe` once the queue is found. -/
def cancelQueue (st : LogicServer) (strQueueName : Name) (iCliIndex : Int) (queue : QueueId)
    (q : MessageQueue) : Option Outcome :=
  let q' := q.cancelSubscribe iCliIndex
  ((st.setQueue queue q').sendSubscribers q' false).map fun r =>
    if r.1 ≠ success then
      ⟨errLogicServerCancelSubscribe, reCancelSubscribeFailed ++ strQueueName,
        r.2.setQueue queue (q'.addSubscribe iCliIndex q.confirmLevel)⟩
    else r.2.afterCancel strQueueName queue q'

def decodeCancelSubscribe (buf : Mem) : Option CancelSubscribeMessage :=
  (readName buf 0).map fun strQueueName => { queueName := strQueueName }

def cancelSubscribe (st : LogicServer) (m : CancelSubscribeMessage) (iCliIndex : Int) :
    Option Outcome :=
  if m.queueName ∈ st.unSubcribeQueues then
    some ⟨errLogicServerCancelSubscribe, reQueueNotSubscribe ++ m.queueName, st⟩
  else
    match st.subcribeQueues.lookup m.queueName with
    | none => some ⟨errLogicServerCancelSubscribe, reQueueNotExist ++ m.queueName, st⟩
    | some queue => (st.queues queue).bind fun q => st.cancelQueue m.queueName iCliIndex queue q

def onCancelSubscribe (st : LogicServer) (buf : Mem) (iCliIndex : Int) : Option Outcome :=
  (decodeCancelSubscribe buf).bind fun m => st.cancelSubscribe m iCliIndex

theorem onCancelSubscribe_some {st : LogicServer} {buf : Mem} {iCliIndex : Int} {o : Outcome}
    (h : st.onCancelSubscribe buf iCliIndex = some o) : ∃ n, readName buf 0 = some n ∧
      st.cancelSubscribe { queueName := n } iCliIndex = some o := by
  obtain ⟨m, hm, ho⟩ := Option.bind_eq_some_iff.mp h
  obtain ⟨n, hn, rfl⟩ := Option.map_eq_some_iff.mp hm
  exact ⟨n, hn, ho⟩

/-! ## Acknowledgements of consumers -/

/-- A message leaves the list of unacknowledged messages for good. -/
def dropAcked (st : LogicServer) (pMsg : SeverStoreMessage) (iAckSeq : Int) : LogicServer :=
  (st.sendConsumed cmdClientAckMessage pMsg.queueName pMsg).record (.acked pMsg.id iAckSeq)

/-- The loop for batches; `kept` are the messages already passed, in order. -/
def ackBatch (iCliIndex iAckSeq : Int) (kept : List SeverStoreMessage) :
    List SeverStoreMessage → LogicServer → LogicServer
  | [], st => st.setNeedAck kept
  | pMsg :: rest, st =>
    if pMsg.index ≠ iCliIndex then ackBatch iCliIndex iAckSeq (kept ++ [pMsg]) rest st
    else if pMsg.msgSeq ≤ iAckSeq then
      ackBatch iCliIndex iAckSeq kept rest (st.dropAcked pMsg iAckSeq)
    else st.setNeedAck (kept ++ pMsg :: rest)

/-- The loop for a single acknowledgement. -/
def ackSingle (st : LogicServer) (iAckSeq : Int) : LogicServer :=
  match st.needAckMessageList.find? fun m => m.msgSeq = iAckSeq with
  | none => st
  | some pMsg =>
    (st.setNeedAck (st.needAckMessageList.eraseP fun m => m.msgSeq = iAckSeq)).dropAcked pMsg
      iAckSeq

def decodeClientAck (buf : Mem) : ClientAckMessage :=
  { confirmLevel := readByte buf 0, ackSeq := readInt buf 1 }

def clientAck (st : LogicServer) (m : ClientAckMessage) (iCliIndex : Int) : LogicServer :=
  -- `confirmLevel==CONSUMER_AUTO_ACK||CONSUMER_SINGLE_ACK`
  if m.confirmLevel = consumerAutoAck ∨ consumerSingleAck ≠ 0 then st.ackSingle m.ackSeq
  else if m.confirmLevel = consumerMutilAck then
    ackBatch iCliIndex m.ackSeq [] st.needAckMessageList st
  else st

def onClientAck (st : LogicServer) (buf : Mem) (iCliIndex : Int) : LogicServer :=
  st.clientAck (decodeClientAck buf) iCliIndex

/-! ## Client exit -/

/-- The entries of the exiting producer are picked by comparing texts. -/
def pruneMsgSeqs (st : LogicServer) (iClientIndex : Int) : LogicServer :=
  { st with
    producerMsgSeqs := st.producerMsgSeqs.filter fun strMsgSeq =>
      ¬ (toString iClientIndex).isPrefixOf strMsgSeq }

/-- An auto-delete queue without subscribers is deleted. -/
def exitAutoDelete (st : LogicServer) (queue : QueueId) (q : MessageQueue) : LogicServer :=
  ((st.detachQueue .unchecked queue q).2.sendPersis q.durable
    (persisPacket cmdDeleteQueue q.queueName)).2.freeQueue queue

/-- One queue that the client had subscribed to; `q` is the queue now. -/
def exitQueue (st : LogicServer) (entry : Σ _ : Name, QueueId) (q : MessageQueue) :
    Option LogicServer :=
  (st.sendSubscribers q false).map fun r =>
    if q.subscribeConsumers.length = 0 then
      let st := r.2.eraseSubcribe entry.1
      if q.autoDel then st.exitAutoDelete entry.2 q
      else st.insertUnSubcribe q.queueName entry.2
    else r.2

/-- The loop over `m_mSubcribeQueues`. -/
def exitQueues (iClientIndex : Int) : List (Σ _ : Name, QueueId) → LogicServer →
    Option LogicServer
  | [], st => some st
  | entry :: rest, st =>
    match st.queues entry.2 with
    | none => none
    | some q =>
      let q' := q.cancelSubscribe iClientIndex
      if q.subscribeConsumers.length > q'.subscribeConsumers.length then
        ((st.setQueue entry.2 q').exitQueue entry q').bind (exitQueues iClientIndex rest)
      else exitQueues iClientIndex rest (st.setQueue entry.2 q')

/-- The messages sent to the exiting client go back, in the order of the list. -/
def requeue : List SeverStoreMessage → LogicServer → Option LogicServer
  | [], st => some st
  | pMsg :: rest, st =>
    match st.findQueue pMsg.queueName with
    | none => requeue rest st
    | some queue =>
      match st.queues queue with
      | none => none
      | some q => requeue rest (st.setQueue queue (q.addMessageFront pMsg))

/-- The loop over `m_NeedAckMessageList`. -/
def exitNeedAck (st : LogicServer) (iClientIndex : Int) : Option LogicServer :=
  (requeue (st.needAckMessageList.filter fun m => m.index = iClientIndex) st).map fun st =>
    st.setNeedAck (st.needAckMessageList.filter fun m => ¬ m.index = iClientIndex)

def onClientExit (st : LogicServer) (iClientIndex : Int) : Option LogicServer :=
  (exitQueues iClientIndex st.subcribeQueues.entries (st.pruneMsgSeqs iClientIndex)).bind fun st =>
    st.exitNeedAck iClientIndex

end Wsmq.LogicServer
