import Wsmq.LogicServer.Recovery
import Wsmq.LogicServer.Run

/-!
# The start of the logic server (`OnInit`)

Queues and exchanges are made of what the persistence server has left on disk.  A file is
read item by item into a buffer of 1024 bytes; each item gets the place there that it has in
the file.
-/

namespace Wsmq.LogicServer
open Lib Lib.ByteString Lib.Packing Lib.Files

def maxRdwrFileBuffSize : Nat := 1024

/-- `fread` of one item of `n` bytes at `pos`, and whether it was complete.  No result when
what there is of it does not fit into the buffer. -/
def fread (file : Bytes) (pos n : Nat) : Option Bool :=
  if min (pos + n) file.length > maxRdwrFileBuffSize then none
  else some (0 < n ∧ pos + n ≤ file.length)

variable [Platform]

/-! ## Queues -/

/-- The queue in `info.bin`: name, priority, durable and auto-delete flag. -/
def readQueue (info : Bytes) : Option MessageQueue :=
  let pTemp := Mem.ofBytes info
  (readName pTemp 0).map fun strQueueName =>
    { queueName := strQueueName
      priority := readShort pTemp 32
      durable := readBool pTemp 34
      autoDel := readBool pTemp 35 }

/-- The loop over the subscribers; `pTemp` is not moved, so it is always the first one. -/
def addSubscribers (iIndex : Int) (iConfirmLevel : Nat) : Nat → MessageQueue → MessageQueue
  | 0, q => q
  | n + 1, q => addSubscribers iIndex iConfirmLevel n (q.addSubscribe iIndex iConfirmLevel)

/-- What `subscribe.bin` adds to the queue, and the key it gets in `m_mUnSubcribeQueues`; without
a key it goes into `m_mSubcribeQueues`. -/
def readSubscribers (subscribe : Option Bytes) (q : MessageQueue) :
    Option (Option Name × MessageQueue) :=
  match subscribe with
  | none => some (some q.queueName, q)
  | some file =>
    (fread file 0 (maxNameLength + 1 + 2)).bind fun bRead =>
      if ¬ bRead then some (some q.queueName, q)
      else
        let pTemp := Mem.ofBytes file
        let iConfirmLevel := readByte pTemp 32
        let iSubscribeNum := readUShort pTemp 33
        let q := { q with confirmLevel := iConfirmLevel }
        let unSubcribed := (readName pTemp 0).map fun pQueueName => (some pQueueName, q)
        if iSubscribeNum = 0 then unSubcribed
        else
          (fread file 35 (iSubscribeNum * 4)).bind fun bRead =>
            if ¬ bRead then unSubcribed
            else
              some (none, addSubscribers (readInt pTemp 35) iConfirmLevel iSubscribeNum q)

/-- A recovered queue gets its place in one of the maps. -/
def registerQueue (st : LogicServer) (key : Option Name) (q : MessageQueue) : LogicServer :=
  let st' := { st with
    queues := fun i => if i = st.nextQueue then some q else st.queues i
    nextQueue := st.nextQueue + 1 }
  match key with
  | some pQueueName => st'.insertUnSubcribe pQueueName st.nextQueue
  | none => st'.insertSubcribe q.queueName st.nextQueue

/-- A file in the directory `d_name`. -/
def queueFile (files : FileSystem) (d_name f : Name) : Option Bytes :=
  readFile files (subPath d_name ++ slash :: f)

/-- One directory of the loop in `OnInitQueue`. -/
def initQueueDir (files : FileSystem) (st : LogicServer) (d_name : Name) : Option LogicServer :=
  match queueFile files d_name PersistenceServer.infoFile with
  | none => some st
  | some info =>
    if info.length < maxNameLength + 2 + 1 + 1 then some st
    else
      (readQueue info).bind fun q =>
        -- without a published message there is no offset, and the queue is dropped
        match queueFile files d_name PersistenceServer.offsetFile with
        | none => some st
        | some offset =>
          if offset.length < 4 then some st
          else
            (readSubscribers (queueFile files d_name PersistenceServer.subscribeFile)
              { q with durableIndex := readInt (Mem.ofBytes offset) 0 + 1 }).map fun r =>
                st.registerQueue r.1 r.2

def initQueueDirs (files : FileSystem) : List Name → LogicServer → Option LogicServer
  | [], st => some st
  | d_name :: rest, st => (st.initQueueDir files d_name).bind (initQueueDirs files rest)

def onInitQueue (st : LogicServer) (files : FileSystem) : Option LogicServer :=
  initQueueDirs files (queueDirs files) st

/-! ## Exchanges -/

/-- The exchange in `info.bin`: name, type, durable and auto-delete flag. -/
def readExchange (info : Bytes) : Option Exchange :=
  let pTemp := Mem.ofBytes info
  (readName pTemp 0).map fun strExchangeName =>
    { exchangeName := strExchangeName
      exchangeType := readUShort pTemp 32
      durable := readBool pTemp 34
      autoDel := readBool pTemp 35 }

/-- The queues under one key, of which those are bound that exist. -/
def bindQueues (st : LogicServer) (pTemp : Mem) (strBindingKey : Name) :
    Nat → Nat → Exchange → Option Exchange
  | _, 0, pExchange => some pExchange
  | pos, n + 1, pExchange =>
    (readName pTemp pos).bind fun strQueueName =>
      bindQueues st pTemp strBindingKey (pos + maxNameLength) n <|
        match st.findQueue strQueueName with
        | none => pExchange
        | some queue => pExchange.createBinding strBindingKey queue

/-- The loop over the keys in `binding.bin`. -/
def readBindings (st : LogicServer) (file : Bytes) : Nat → Nat → Exchange → Option Exchange
  | _, 0, pExchange => some pExchange
  | pos, n + 1, pExchange =>
    (fread file pos (maxNameLength + 2)).bind fun bRead =>
      if ¬ bRead then some pExchange
      else
        (readName (Mem.ofBytes file) pos).bind fun strBindingKey =>
          let iSubBindingNum := readUShort (Mem.ofBytes file) (pos + maxNameLength)
          let pos := pos + (maxNameLength + 2)
          (fread file pos (maxNameLength * iSubBindingNum)).bind fun bRead =>
            if ¬ bRead then some pExchange
            else
              (st.bindQueues (Mem.ofBytes file) strBindingKey pos iSubBindingNum pExchange).bind
                (readBindings st file (pos + maxNameLength * iSubBindingNum) n)

/-- The directories below `DEFAULT_EXCHANGE_PATH`. -/
def exchangeDirs (files : FileSystem) : List Name :=
  ((readDir files defaultExchangePath).getD []).filterMap fun entry =>
    match entry.2 with
    | .dir => some entry.1
    | .file _ => none

def exchangeFile (files : FileSystem) (d_name f : Name) : Option Bytes :=
  readFile files (defaultExchangePath ++ slash :: d_name ++ slash :: f)

/-- The bindings in `binding.bin`, if it is long enough to tell their number. -/
def restoreBindings (st : LogicServer) (binding : Option Bytes) (pExchange : Exchange) :
    Option Exchange :=
  match binding with
  | none => some pExchange
  | some file =>
    if file.length < maxNameLength + 2 then some pExchange
    else readBindings st file 34 (readUShort (Mem.ofBytes file) 32) pExchange

/-- One directory of the loop in `OnInitExchange`. -/
def initExchangeDir (files : FileSystem) (st : LogicServer) (d_name : Name) :
    Option LogicServer :=
  match exchangeFile files d_name PersistenceServer.infoFile with
  | none => some st
  | some info =>
    if info.length < maxNameLength + 2 + 1 + 1 then some st
    else
      (readExchange info).bind fun pExchange =>
        (st.restoreBindings (exchangeFile files d_name PersistenceServer.bindingFile)
          pExchange).map fun e => st.setExchanges (st.exchanges.insert pExchange.exchangeName e)

def initExchangeDirs (files : FileSystem) : List Name → LogicServer → Option LogicServer
  | [], st => some st
  | d_name :: rest, st => (st.initExchangeDir files d_name).bind (initExchangeDirs files rest)

def onInitExchange (st : LogicServer) (files : FileSystem) : Option LogicServer :=
  initExchangeDirs files (exchangeDirs files) st

/-! ## Start -/

def onInit (st : LogicServer) (files : FileSystem) : Option LogicServer :=
  (st.onInitQueue files).bind fun st => (st.onInitExchange files).bind fun st => st.onInitMsg files

/-- The process starts anew.  The rings stay as they are in shared memory; no identity is
given again. -/
def restart (st : LogicServer) (files : FileSystem) : Option LogicServer :=
  onInit
    { queueToConnect := st.queueToConnect
      queueToPersis := st.queueToPersis
      nextQueue := st.nextQueue
      nextMsg := st.nextMsg
      history := st.history } files

end Wsmq.LogicServer
