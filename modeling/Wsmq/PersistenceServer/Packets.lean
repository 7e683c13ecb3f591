import Wsmq.Lib.Directories
import Wsmq.Lib.Runs
import Wsmq.PersistenceServer.Handlers

/-!
# The packets of the logic server (`PersistenceServer/PersistenceServer.cpp`)

What the persistence server does about exchanges, queues, subscribers and bindings, and
the switch of `Run` over all packets.
-/

namespace Wsmq
open Lib Lib.ByteString Lib.Packing Lib.Files

def defaultExchangePath : Bytes := ascii "./exchange/"

namespace PersistenceServer

/-- `strExchangeDir`. -/
def exchangeDir (strExchangeName : Name) : Bytes := defaultExchangePath ++ strExchangeName

def infoFile : Name := ascii "info.bin"
def subscribeFile : Name := ascii "subscribe.bin"
def bindingFile : Name := ascii "binding.bin"

/-- The file `dir/file` gets new contents. -/
def writeFile (s : PersistenceServer) (dir : Bytes) (file : Name) (bytes : Bytes) :
    Int × PersistenceServer :=
  match openFile s.files (dir ++ slash :: file) true with
  | none => (error, s)
  | some files => (success, { s with files := appendFile files (dir ++ slash :: file) bytes })

/-- The directory is made when it is not there, and `info.bin` written in it. -/
def createInfo (s : PersistenceServer) (dir : Bytes) (bytes : Bytes) : Int × PersistenceServer :=
  let s := if fileExists s.files dir then s else { s with files := makeDir s.files dir }
  s.writeFile dir infoFile bytes

/-- A file in a directory that has to be there. -/
def rewrite (s : PersistenceServer) (dir : Bytes) (file : Name) (bytes : Bytes) :
    Int × PersistenceServer :=
  if ¬ fileExists s.files dir then (error, s) else s.writeFile dir file bytes

/-- The directory is removed when it is there. -/
def removeInfo (s : PersistenceServer) (dir : Bytes) : PersistenceServer :=
  if fileExists s.files dir then { s with files := (removeDir s.files dir).2 } else s

def onCreateExchange (s : PersistenceServer) (ipBuffer : Mem) (iLen : Nat) :
    Option (Int × PersistenceServer) :=
  (readName ipBuffer 0).map fun strExchangeName =>
    s.createInfo (exchangeDir strExchangeName) (ipBuffer.read 0 iLen)

def onCreateQueue (s : PersistenceServer) (ipBuffer : Mem) (iLen : Nat) :
    Option (Int × PersistenceServer) :=
  (readName ipBuffer 0).map fun strQueueName =>
    s.createInfo (queueDir strQueueName) (ipBuffer.read 0 iLen)

def onDeleteExchange (s : PersistenceServer) (ipBuffer : Mem) : Option (Int × PersistenceServer) :=
  (readName ipBuffer 0).map fun strExchangeName =>
    (success, s.removeInfo (exchangeDir strExchangeName))

def onDeleteQueue (s : PersistenceServer) (ipBuffer : Mem) : Option (Int × PersistenceServer) :=
  (readName ipBuffer 0).map fun strQueueName =>
    let s := s.removeInfo (queueDir strQueueName)
    (success, { s with msgQueueTailFile := s.msgQueueTailFile.erase strQueueName })

def onSubcribe (s : PersistenceServer) (ipBuffer : Mem) (iLen : Nat) :
    Option (Int × PersistenceServer) :=
  (readName ipBuffer 0).map fun strQueueName =>
    s.rewrite (queueDir strQueueName) subscribeFile (ipBuffer.read 0 iLen)

def onBinding (s : PersistenceServer) (ipBuffer : Mem) (iLen : Nat) :
    Option (Int × PersistenceServer) :=
  (readName ipBuffer 0).map fun strExchangeName =>
    s.rewrite (exchangeDir strExchangeName) bindingFile (ipBuffer.read 0 iLen)

/-! ## The switch -/

/-- The bytes behind length and command. -/
def packetBody (pBuff : Bytes) : Mem := shift (Mem.ofBytes pBuff) 4

def packetCmd (pBuff : Bytes) : Nat := readUShort (Mem.ofBytes pBuff) 2

def dispatch (s : PersistenceServer) (pBuff : Bytes) : Option (Int × PersistenceServer) :=
  let pTemp := packetBody pBuff
  let iLen := pBuff.length - 4
  let iCmdId := packetCmd pBuff
  if iCmdId = cmdCreateExcnange then s.onCreateExchange pTemp iLen
  else if iCmdId = cmdCreateQueue then s.onCreateQueue pTemp iLen
  else if iCmdId = cmdDeleteExchange then s.onDeleteExchange pTemp
  else if iCmdId = cmdDeleteQueue then s.onDeleteQueue pTemp
  else if iCmdId = cmdCreateSubcribe ∨ iCmdId = cmdCancelSubcribe then s.onSubcribe pTemp iLen
  else if iCmdId = cmdCreateBinding then s.onBinding pTemp iLen
  else if iCmdId = cmdCreatePublish then s.processPublish pBuff
  else if iCmdId = cmdCreateRecv ∨ iCmdId = cmdServerPushMessage ∨ iCmdId = cmdClientAckMessage then
    s.onConsumeMessage pTemp
  else some (success, s)

/-- A block of `LOGIC_TO_PERSIS`; `pBuff` is zero behind it. -/
def processPacket (s : PersistenceServer) (pBuff : Bytes) : Option PersistenceServer :=
  if pBuff.length < 2 then some s
  else if readUShort (Mem.ofBytes pBuff) 0 ≠ pBuff.length then some s
  else (s.dispatch pBuff).map Prod.snd

/-- What the process does: it handles a block or starts anew. -/
inductive Act
  | packet (pBuff : Bytes)
  | restart

def act (s : PersistenceServer) : Act → Option PersistenceServer
  | .packet pBuff => s.processPacket pBuff
  | .restart => some s.restart

abbrev acts : PersistenceServer → List Act → Option PersistenceServer := Runs.run act

end PersistenceServer

end Wsmq
