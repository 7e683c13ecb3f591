import Wsmq.ConnectServer
import Wsmq.Lib.CircularWait
import Wsmq.LogicServer.Run

/-!
# Connect server and logic server side by side

The two processes share `CONNECT_TO_LOGIC` and `LOGIC_TO_CONNECT`.  No handler of the logic
server depends on what it finds in `LOGIC_TO_CONNECT`, so a handler is one step that says which
packages it sends, and each `Enqueue` of one is a step of its own.  As history every block
carries the connections it comes from or answers.
-/

namespace Wsmq
open Lib Lib.ByteString Lib.Packing Lib.Fifo Lib.CircularWait

/-- Connections are numbered in the order of `accept`. -/
abbrev Connection : Type := Nat

structure Block where
  bytes : Bytes
  /-- The connection on which the package came, or those whose request, subscription or
  publish it answers.  No process reads it. -/
  conns : List Connection := []

namespace Block

def cost (b : Block) : Nat := ShmQueue.blockCost b.bytes

def clientIndex (b : Block) : Int := readInt (Mem.ofBytes b.bytes) 2

def cmdId (b : Block) : Nat := readUShort (Mem.ofBytes b.bytes) 6

/-- Those who get an answer; `CMD_CLIENT_EXIT` asks for nothing. -/
def asks (b : Block) : List Connection := if b.cmdId = cmdClientExit then [] else b.conns

/-- `PushMessage` and `OnRecvMessage` repeat `Enqueue` while the ring is full; replies and
acknowledgements are given up. -/
def again (b : Block) : Bool :=
  decide (b.cmdId = cmdServerPushMessage ∨ b.cmdId = cmdClientPullMessage)

end Block

abbrev BlockQueue : Type := BoundedFifo Block Block.cost

/-- One of `m_pAllClientConnect`. -/
structure ClientSlot where
  used : Bool := false
  /-- `m_iSockfd`, which stays when the slot is freed. -/
  sockfd : Connection := 0
  /-- From `m_pSendHead` to `m_pSendTail`. -/
  sendBuff : List Block := []

def ClientSlot.freeSpace (c : ClientSlot) : Int :=
  serverBufferSize - (c.sendBuff.map fun b => b.bytes.length).sum

variable [Platform]

structure Processes where
  freeList : List Int
  slots : Int → ClientSlot := fun _ => {}
  toLogic : BlockQueue
  /-- Packages of clients that are not enqueued yet, and whether `Enqueue` is repeated. -/
  connectPending : List (Block × Bool) := []
  logic : LogicServer
  toConnect : BlockQueue
  /-- Packages of a handler that are not enqueued yet, and whether `Enqueue` is repeated. -/
  logicPending : List (Block × Bool) := []
  /-- The logic server is in the loop of `SendMultiAck`. -/
  inMultiAck : Bool := false
  nextConnection : Connection := 0
  /-- History: the connections that made the subscription of an index to a queue. -/
  subscriber : QueueId → Int → List Connection := fun _ _ => []
  /-- History: the connections that published what is to be acknowledged to an index. -/
  publisher : Int → List Connection := fun _ => []
  /-- History: what the sockets took. -/
  written : List (Connection × Block) := []

namespace Processes

/-- A pool of `n` slots, of which the first belongs to the listening socket. -/
def start (n : Nat) (capToLogic capToConnect capPersis : Option Nat) : Processes where
  freeList := (List.range (n - 1)).map fun (i : Nat) => (i : Int) + 1
  toLogic := .empty capToLogic
  logic := .start none capPersis
  toConnect := .empty capToConnect

/-! ## The connect server -/

variable (s : Processes)

def setSlot (iIndex : Int) (c : ClientSlot) : Processes :=
  { s with slots := fun i => if i = iIndex then c else s.slots i }

/-- `Enqueue` of a package that is given up when there is no room. -/
def enqueueOnce (b : Block) : Processes := { s with toLogic := (put s.toLogic [(b, false)]).1 }

/-- `ClientExitMessage`, which no client has sent. -/
def tellClientExit (iIndex : Int) : Processes :=
  s.enqueueOnce { bytes := ConnectServer.exitPack iIndex }

/-- `ClientExit`.  The send buffer is zeroed, but its pointers stay. -/
def clientExit (iIndex : Int) : Processes :=
  let c := s.slots iIndex
  if ¬ c.used then s
  else
    { s.setSlot iIndex
        { c with
          used := false
          sendBuff := c.sendBuff.map fun b => { bytes := List.replicate b.bytes.length 0 } } with
      freeList := s.freeList ++ [iIndex] }

/-- What happens when a connection is found closed. -/
def closed (iIndex : Int) : Processes := (s.tellClientExit iIndex).clientExit iIndex

/-- A new connection gets the first free slot; without one it is closed. -/
def accept : Processes :=
  match s.freeList with
  | [] => s
  | iIndex :: rest =>
    { s.setSlot iIndex { s.slots iIndex with used := true, sockfd := s.nextConnection } with
      freeList := rest
      nextConnection := s.nextConnection + 1 }

/-- Packages of a client have the index of its slot written into the header. -/
def Framed (iIndex : Int) (packs : List Bytes) : Prop :=
  ∀ pack ∈ packs, sizeofClientPackageHead ≤ pack.length ∧ readInt (Mem.ofBytes pack) 2 = iIndex

instance (iIndex : Int) (packs : List Bytes) : Decidable (Framed iIndex packs) :=
  inferInstanceAs (Decidable (∀ _ ∈ _, _))

/-- The packages that the bytes of the client complete. -/
def received (iIndex : Int) (packs : List Bytes) : List (Block × Bool) :=
  packs.map fun pack => ({ bytes := pack, conns := [(s.slots iIndex).sockfd] }, true)

def receive (iIndex : Int) (packs : List Bytes) : Option Processes :=
  if ¬ (s.slots iIndex).used ∨ ¬ Framed iIndex packs then none
  else some { s with connectPending := s.received iIndex packs }

/-- The socket takes the send buffer. -/
def flushed (iIndex : Int) : Processes :=
  let c := s.slots iIndex
  { s.setSlot iIndex { c with sendBuff := [] } with
    written := s.written ++ c.sendBuff.map fun b => (c.sockfd, b) }

def append (iIndex : Int) (b : Block) : Processes :=
  s.setSlot iIndex { s.slots iIndex with sendBuff := (s.slots iIndex).sendBuff ++ [b] }

/-- The body of the loop of `Run` once a package is dequeued; `sendOk` says whether
`SendDataToClient` in it succeeds. -/
def dispatch (b : Block) (sendOk : Bool) : Processes :=
  if b.bytes.length < sizeofClientPackageHead then s
  else if ¬ (s.slots b.clientIndex).used then s.tellClientExit b.clientIndex
  else if ¬ ConnectServer.ToClient b.cmdId then s
  else if (s.slots b.clientIndex).freeSpace ≥ b.bytes.length then s.append b.clientIndex b
  else if sendOk then (s.flushed b.clientIndex).append b.clientIndex b
  else s.closed b.clientIndex

/-- A block that is longer than the buffer stays where it is. -/
def dequeueToConnect (sendOk : Bool) : Option Processes :=
  s.toConnect.dequeue.bind fun r =>
    if r.1.bytes.length > maxServerPackageLength then none
    else some ({ s with toConnect := r.2 }.dispatch r.1 sendOk)

/-- One turn of the loop over `vSendClients`. -/
def sendBuffered (iIndex : Int) (sendOk : Bool) : Processes :=
  if sendOk ∧ (s.slots iIndex).used then s.flushed iIndex else s.closed iIndex

/-! ## The logic server -/

/-- The handler has come to `st`; its packages answer `conns` of their index. -/
def handled (conns : Int → List Connection) (st : LogicServer) : Processes :=
  { s with
    logic := { st with queueToConnect := .empty none }
    logicPending := st.queueToConnect.items.map fun bytes =>
      let b : Block := ⟨bytes, conns (readInt (Mem.ofBytes bytes) 2)⟩
      (b, b.again) }

def Subscribed (st : LogicServer) (queue : QueueId) (iIndex : Int) : Prop :=
  ∃ q, st.queues queue = some q ∧ iIndex ∈ q.subscribeConsumers

instance (st : LogicServer) (queue : QueueId) (iIndex : Int) :
    Decidable (Subscribed st queue iIndex) :=
  decidable_of_iff ((st.queues queue).any (fun q => iIndex ∈ q.subscribeConsumers) = true) (by
    simp only [Subscribed, Option.any_eq_true, decide_eq_true_eq])

/-- Those who asked for what is sent to an index without a package being processed. -/
def askers (iIndex : Int) : List Connection :=
  (s.logic.subcribeQueues.entries.flatMap fun entry =>
    if Subscribed s.logic entry.2 iIndex then s.subscriber entry.2 iIndex else []) ++
      if iIndex ∈ s.logic.producerLastMsgSeq then s.publisher iIndex else []

/-- What is owed to an index after a package of `conns` with the index `iCliIndex`: what was
owed before stays, what is new is owed to the package. -/
def owed (before after : Bool) (mine : Bool) (old conns : List Connection) : List Connection :=
  if after then if before then if mine then old ++ conns else old else conns else []

/-- A package of `b` has been processed. -/
def answered (b : Block) (iCliIndex : Int) (st : LogicServer) : Processes :=
  { s.handled (fun _ => b.asks) st with
    subscriber := fun queue k =>
      owed (Subscribed s.logic queue k) (Subscribed st queue k) (k = iCliIndex)
        (s.subscriber queue k) b.asks
    publisher := fun k =>
      owed (k ∈ s.logic.producerLastMsgSeq) (k ∈ st.producerLastMsgSeq) (k = iCliIndex)
        (s.publisher k) b.asks }

/-- What the logic server does between two of its `Enqueue`s.  A package is what
`Dequeue` has put into the buffer. -/
def turn : LogicServer.Step → Option Processes
  | .package p =>
    s.toLogic.dequeue.bind fun r =>
      if p.len ≠ r.1.bytes.length ∨ p.buf.read 0 p.len ≠ r.1.bytes then none
      else
        (s.logic.step (.package p)).map ({ s with toLogic := r.2 }.answered r.1 p.clientIndex)
  | .drainConnect => none
  | a => (s.logic.step a).map (s.handled s.askers)

/-- One turn of the loop in `SendMultiAck`, which never ends. -/
def multiAckTurn : Option Processes :=
  match s.logic.producerLastMsgSeq.entries with
  | [] => none
  | entry :: _ =>
    some { s.handled s.askers (s.logic.sendMultiAckTurn entry) with inMultiAck := true }

/-! ## Steps -/

inductive Step
  | accept
  | receive (iIndex : Int) (packs : List Bytes)
  /-- `recv` returns nothing or fails, or another event comes. -/
  | close (iIndex : Int)
  /-- The connect server tries to enqueue its next package. -/
  | putToLogic
  | dispatch (sendOk : Bool)
  | sendBuffered (iIndex : Int) (sendOk : Bool)
  | turn (a : LogicServer.Step)
  | multiAckTurn
  /-- The logic server tries to enqueue its next package. -/
  | putToConnect

/-- A process does nothing else while it has packages to enqueue.  The order of the phases is
left open. -/
def step : Step → Option Processes
  | .accept => if s.connectPending ≠ [] then none else some s.accept
  | .receive iIndex packs => if s.connectPending ≠ [] then none else s.receive iIndex packs
  | .close iIndex =>
    if s.connectPending ≠ [] ∨ ¬ (s.slots iIndex).used then none else some (s.closed iIndex)
  | .putToLogic =>
    let r := put s.toLogic s.connectPending
    some { s with toLogic := r.1, connectPending := r.2 }
  | .dispatch sendOk => if s.connectPending ≠ [] then none else s.dequeueToConnect sendOk
  | .sendBuffered iIndex sendOk =>
    if s.connectPending ≠ [] then none else some (s.sendBuffered iIndex sendOk)
  | .turn a => if s.logicPending ≠ [] ∨ s.inMultiAck then none else s.turn a
  | .multiAckTurn => if s.logicPending ≠ [] then none else s.multiAckTurn
  | .putToConnect =>
    let r := put s.toConnect s.logicPending
    some { s with toConnect := r.1, logicPending := r.2 }

abbrev run : Processes → List Step → Option Processes := Runs.run step

/-! ## Packages on their way -/

def requestBytes : LogicServer.Step → Bytes
  | .package p => p.buf.read 0 p.len
  | _ => []

/-- A package of a client goes through both queues up to its reply. -/
def ask (iIndex : Int) (a : LogicServer.Step) : List Step :=
  [.receive iIndex [requestBytes a], .putToLogic, .turn a, .putToConnect]

end Processes

end Wsmq
