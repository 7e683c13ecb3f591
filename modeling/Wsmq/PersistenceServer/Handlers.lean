import Wsmq.DurableFiles
import Wsmq.Message

/-!
# The persistence server (`PersistenceServer/PersistenceServer.cpp`)

What it does about durable messages.  A handler has no result when the source reads
what it must not.
-/

namespace Wsmq
open Lib.ByteString Lib.Packing Lib.Files

/-- A history variable: what was written.  No handler reads it. -/
inductive PersisEvent
  /-- A record was added to a group. -/
  | published (queue : Name) (iDurableIndex : Int) (record : Bytes) (file : Name)
  /-- An index was added to a `.consume` file. -/
  | consumed (queue : Name) (iIndex : Int)
  deriving DecidableEq

structure PersistenceServer where
  files : FileSystem
  msgQueueTailFile : AList fun _ : Name => Name := ∅
  msgQueueIndexFile : AList fun _ : Name => AList fun _ : Int => Name := ∅
  msgQueueList : AList fun _ : Name => List Name := ∅
  history : List PersisEvent := []

namespace PersistenceServer

def success : Int := 0
def error : Int := -1

/-- `strQueueDir`. -/
def queueDir (strQueueName : Name) : Bytes := defaultQueuePath ++ strQueueName

/-- The path of a file of a group. -/
def groupPath (strQueueName strFileName : Name) (ext : Bytes) : Bytes :=
  queueDir strQueueName ++ slash :: (strFileName ++ ext)

/-- `write_offset.bin` of the queue. -/
def offsetPath (strQueueName : Name) : Bytes :=
  queueDir strQueueName ++ slash :: ascii "write_offset.bin"

/-- Ten digits, with zeros in front. -/
def convertIndexToString (iIndex : Int) : Name :=
  let strIndex := toString iIndex
  List.replicate (10 - strIndex.length) 48 ++ strIndex

/-- `unordered_map::insert` keeps an entry that is there. -/
def insertNew {α β : Type} [DecidableEq α] (m : AList fun _ : α => β) (k : α) (v : β) :
    AList fun _ : α => β :=
  if k ∈ m then m else m.insert k v

/-- `m_mMsgQueueIndexFile[istrQueueName].insert({iIndex, strFileName})`. -/
def insertIndex (s : PersistenceServer) (istrQueueName : Name) (iIndex : Int)
    (strFileName : Name) : PersistenceServer :=
  { s with
    msgQueueIndexFile := s.msgQueueIndexFile.insert istrQueueName
      (insertNew ((s.msgQueueIndexFile.lookup istrQueueName).getD ∅) iIndex strFileName) }

/-- `m_mMsgQueueList[istrQueueName].push_back(strFileName)`. -/
def pushFile (s : PersistenceServer) (istrQueueName strFileName : Name) : PersistenceServer :=
  { s with
    msgQueueList := s.msgQueueList.insert istrQueueName
      ((s.msgQueueList.lookup istrQueueName).getD [] ++ [strFileName]) }

/-! ## Publishing -/

/-- `fopen`, and whether it worked. -/
def tryOpen (files : FileSystem) (path : Bytes) (truncate : Bool) : Bool × FileSystem :=
  match openFile files path truncate with
  | none => (false, files)
  | some files => (true, files)

/-- Record, index entry and offset are written to the open files. -/
def writeFiles (files : FileSystem) (istrQueueName strFileName : Name) (ipBuffer : Bytes)
    (iDurableIndex iWritePos : Int) : FileSystem :=
  appendFile
    (appendFile (appendFile files (groupPath istrQueueName strFileName extData) ipBuffer)
      (groupPath istrQueueName strFileName extIndex) (indexEntry iDurableIndex iWritePos))
    (offsetPath istrQueueName) (beInt 4 iDurableIndex)

/-- `OnPublishMessage` once the group is chosen. -/
def appendRecord (s : PersistenceServer) (ipBuffer : Bytes) (istrQueueName : Name)
    (iDurableIndex : Int) (strFileName : Name) (iWritePos : Int) : Int × PersistenceServer :=
  let data := tryOpen s.files (groupPath istrQueueName strFileName extData) false
  let index := tryOpen data.2 (groupPath istrQueueName strFileName extIndex) false
  let offset := tryOpen index.2 (offsetPath istrQueueName) true
  if ¬ (data.1 ∧ index.1 ∧ offset.1) then (error, { s with files := offset.2 })
  else
    (success,
      { s with
        files := writeFiles offset.2 istrQueueName strFileName ipBuffer iDurableIndex iWritePos
        history := s.history ++ [.published istrQueueName iDurableIndex ipBuffer strFileName] })

/-- A new group named after its first message. -/
def createGroup (s : PersistenceServer) (istrQueueName : Name) (iDurableIndex : Int) :
    PersistenceServer :=
  let strFileName := convertIndexToString iDurableIndex
  let s := { s with msgQueueTailFile := s.msgQueueTailFile.insert istrQueueName strFileName }
  (s.insertIndex istrQueueName iDurableIndex strFileName).pushFile istrQueueName strFileName

def onPublishMessage (s : PersistenceServer) (ipBuffer : Bytes) (istrQueueName : Name)
    (iDurableIndex : Int) : Option (Int × PersistenceServer) :=
  if ¬ fileExists s.files (queueDir istrQueueName) then some (error, s)
  else
    let inNewGroup := (s.createGroup istrQueueName iDurableIndex).appendRecord ipBuffer
      istrQueueName iDurableIndex (convertIndexToString iDurableIndex) 0
    match s.msgQueueTailFile.lookup istrQueueName with
    | none => some inNewGroup
    | some strWriteFileName =>
      -- without the file, `buffer.st_size` is not initialised
      (readFile s.files (groupPath istrQueueName strWriteFileName extData)).map fun data =>
        if data.length + ipBuffer.length > durableMessageFileSize then inNewGroup
        else
          (s.insertIndex istrQueueName iDurableIndex strWriteFileName).appendRecord ipBuffer
            istrQueueName iDurableIndex strWriteFileName data.length

/-- The case `CMD_CREATE_PUBLISH` of `Run`; `pBuff` is the block that was dequeued. -/
def processPublish (s : PersistenceServer) (pBuff : Bytes) : Option (Int × PersistenceServer) :=
  (readName (Mem.ofBytes pBuff) 4).bind fun strQueueName =>
    s.onPublishMessage pBuff strQueueName (readInt (Mem.ofBytes pBuff) (4 + maxNameLength))

/-! ## Consuming -/

/-- The files of a consumed group are removed, and all mention of it. -/
def dropGroup (s : PersistenceServer) (strQueueName strFileName : Name) : PersistenceServer :=
  { s with
    files := removeFile
      (removeFile (removeFile s.files (groupPath strQueueName strFileName extData))
        (groupPath strQueueName strFileName extIndex))
      (groupPath strQueueName strFileName extConsume)
    msgQueueTailFile :=
      if s.msgQueueTailFile.lookup strQueueName = some strFileName then
        s.msgQueueTailFile.erase strQueueName
      else s.msgQueueTailFile
    msgQueueList :=
      match s.msgQueueList.lookup strQueueName with
      | none => s.msgQueueList
      | some fileList =>
        s.msgQueueList.insert strQueueName (fileList.filter fun f => f ≠ strFileName) }

/-- `OnConsumeMessage` once the group is found; `pTemp` are the bytes of the index. -/
def consumeIn (s : PersistenceServer) (strQueueName strFileName : Name) (iIndex : Int)
    (pTemp : Bytes) : Int × PersistenceServer :=
  let strFilePath := groupPath strQueueName strFileName extConsume
  match openFile s.files strFilePath false with
  | none => (error, s)
  | some files =>
    let s := { s with
      files := appendFile files strFilePath pTemp
      history := s.history ++ [.consumed strQueueName iIndex] }
    match readFile s.files strFilePath,
      readFile s.files (groupPath strQueueName strFileName extIndex) with
    | some consume, some index =>
      if consume.length / 4 = index.length / 8 then (success, s.dropGroup strQueueName strFileName)
      else (success, s)
    | _, _ => (error, s)

/-- `ipBuffer` holds the queue name and the consumed index. -/
def onConsumeMessage (s : PersistenceServer) (ipBuffer : Mem) :
    Option (Int × PersistenceServer) :=
  (readName ipBuffer 0).map fun strQueueName =>
    let iIndex := readInt ipBuffer maxNameLength
    if ¬ fileExists s.files (queueDir strQueueName) then (error, s)
    else
      match s.msgQueueIndexFile.lookup strQueueName with
      | none => (error, s)
      | some indexFiles =>
        match indexFiles.lookup iIndex with
        | none => (error, s)
        | some strFileName =>
          s.consumeIn strQueueName strFileName iIndex (ipBuffer.read maxNameLength 4)

/-! ## Start -/

/-- The entries of an index file are entered in `m_mMsgQueueIndexFile`. -/
def processIndexFile (s : PersistenceServer) (istrQueueName ipFile : Name) : PersistenceServer :=
  match readFile s.files (groupPath istrQueueName ipFile extIndex) with
  | none => s
  | some index =>
    (indexEntries index).foldl (fun s e => s.insertIndex istrQueueName e.1 ipFile) s

/-- The loop over the sorted index files of one directory. -/
def initQueueDir (s : PersistenceServer) (istrQueueName : Name) : PersistenceServer :=
  (sortFiles (findIndexFiles s.files (subPath istrQueueName))).foldl
    (fun s f => (s.processIndexFile istrQueueName f).pushFile istrQueueName f) s

def initFileInfo (s : PersistenceServer) : PersistenceServer :=
  (queueDirs s.files).foldl initQueueDir s

/-- The process starts anew; the files stay. -/
def restart (s : PersistenceServer) : PersistenceServer :=
  initFileInfo { files := s.files, history := s.history }

/-! ## Runs -/

/-- What happens to the durable messages. -/
inductive Step
  | publish (ipBuffer : Bytes) (istrQueueName : Name) (iDurableIndex : Int)
  | consume (ipBuffer : Mem)
  | restart

/-- The server after a step; what the handlers return is not looked at. -/
def step (s : PersistenceServer) : Step → Option PersistenceServer
  | .publish ipBuffer istrQueueName iDurableIndex =>
    (s.onPublishMessage ipBuffer istrQueueName iDurableIndex).map Prod.snd
  | .consume ipBuffer => (s.onConsumeMessage ipBuffer).map Prod.snd
  | .restart => some s.restart

end PersistenceServer

end Wsmq
