import Mathlib.Data.List.AList
import Wsmq.MessageQueue

/-!
# `Exchange` (`logicServer/logicServer.cpp`)

Queues are referred to by the identity of their object.  Where the source works
on a copy of a list, only what it leaves in the map counts.
-/

namespace Wsmq
open Lib.ByteString Lib.Packing

/-- The identity of a `MessageQueue` object. -/
abbrev QueueId := Nat

variable [Platform]

structure Exchange where
  exchangeName : Name
  exchangeType : Nat
  durable : Bool := false
  autoDel : Bool := true
  bindingQueues : AList fun _ : Name => List QueueId := ∅

namespace Exchange

def success : Int := 0
def error : Int := -1
def errBindingNotExist : Int := -800

def getBindingSize (e : Exchange) : Nat := e.bindingQueues.keys.length

def createBinding (e : Exchange) (strBindingKey : Name) (msgQueue : QueueId) : Exchange :=
  match e.bindingQueues.lookup strBindingKey with
  | some _ =>
    -- `queueList` is a copy: the queue pushed to it is not in the map
    e
  | none => { e with bindingQueues := e.bindingQueues.insert strBindingKey [msgQueue] }

/-! ## Topic keys -/

/-- The parts of a key between dots; `current` has been read of the first one. -/
def splitKey (current : Bytes) : Bytes → List Bytes
  | [] => if current = [] then [] else [current]
  | c :: cs =>
    if c = '.'.toNat.toUInt8 ∨ c = 0 then
      if current = [] then splitKey [] cs else current :: splitKey [] cs
    else splitKey (current ++ [c]) cs

/-- One row of the table from the row above it: `up` starts with `dp[i-1][j-1]`,
`left` is `dp[i][j-1]`. -/
def dpRow (bindingWord : Bytes) : List Bytes → List Bool → Bool → List Bool
  | word :: words, diag :: above :: up, left =>
    let v := if word = ascii "#" then above || left
      else if word = ascii "*" ∨ bindingWord = word then diag
      else false
    v :: dpRow bindingWord words (above :: up) v
  | _, _, _ => []

def isFit (strRoutingKey strBindingKey : Name) : Bool :=
  let routing := splitKey [] strRoutingKey
  let binding := splitKey [] strBindingKey
  let row0 := true :: List.replicate routing.length false
  let last := binding.foldl (fun row word => false :: dpRow word routing row false) row0
  last.getD routing.length false

/-- Return code and `oMsgQueueList`. -/
def findBindingQueue (e : Exchange) (strRoutingKey : Name) : Int × List QueueId :=
  if e.exchangeType = exchangeTypeDirect then
    match e.bindingQueues.lookup strRoutingKey with
    | none => (errBindingNotExist, [])
    | some queueList => (success, queueList)
  else if e.exchangeType = exchangeTypeFanout then
    if e.getBindingSize = 0 then (errBindingNotExist, [])
    else (success, e.bindingQueues.entries.flatMap fun b => b.2)
  else if e.exchangeType = exchangeTypeTopic then
    if e.getBindingSize = 0 then (errBindingNotExist, [])
    else (success, (e.bindingQueues.entries.filter fun b => isFit strRoutingKey b.1).flatMap
      fun b => b.2)
  else (success, [])

/-- The queue is taken out of copies; a key goes when its copy became empty. -/
def deleteBindingQueue (e : Exchange) (msgQueue : QueueId) : Exchange :=
  { e with
    bindingQueues := e.bindingQueues.entries.foldl
      (fun m b => if b.2.filter (· ≠ msgQueue) = [] then m.erase b.1 else m) e.bindingQueues }

/-! ## Serialisation -/

/-- The fields of one key; no result when a queue has been deleted. -/
def bindingFields (heap : QueueId → Option MessageQueue) (key : Name) (queues : List QueueId) :
    Option (List Field) := do
  let names ← queues.mapM fun id => (heap id).map MessageQueue.queueName
  return [writeString key, writeUShort queues.length] ++ names.map writeString

/-- No result when a bound queue has been deleted or the 16-bit length lets the
writes run past the buffer. -/
def serializeBindingToString (e : Exchange) (heap : QueueId → Option MessageQueue) (buf : Mem)
    (iBuffLen : Int) : Option Packed :=
  let queueCount := (e.bindingQueues.entries.map fun b => b.2.length).sum
  let iLen := ushort (2 + 2 + maxNameLength + 2 + e.getBindingSize * (maxNameLength + 2) +
    queueCount * maxNameLength)
  if iLen > iBuffLen then some ⟨error, buf, iBuffLen⟩
  else do
    let bindings ← e.bindingQueues.entries.mapM fun b => bindingFields heap b.1 b.2
    let fields := [writeUShort iLen, writeUShort cmdCreateBinding, writeName e.exchangeName,
      writeUShort e.getBindingSize] ++ bindings.flatten
    if size fields > iBuffLen then none else some ⟨success, place buf 0 fields, iLen⟩

end Exchange

end Wsmq
