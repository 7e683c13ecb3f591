import Wsmq.LogicServer.DurableAck
import Wsmq.PersistenceServer.DurableRuns
import Wsmq.PersistenceServer.Packets

/-!
# Reading durable messages back (`OnInitMsg`)

A record is decoded into a message of its queue.  The body goes through a C string.
-/

namespace Wsmq.LogicServer
open Lib Lib.ByteString Lib.Packing Lib.Files

section Recover

variable [Platform]

def errorRet : Int := -1
def errLogicServerQueueNotExist : Int := -712

/-- The message of the record at `iDataPos`, behind the queue name.  The length is an
`unsigned short` from which the sizes of the other fields are taken off; the body is read
into a zeroed array. -/
def readDurableMessage (id : Nat) (pData : Bytes) (iDataPos : Nat) : Option SeverStoreMessage :=
  let pDataStart := Mem.ofBytes pData
  let iLen := (readUShort pDataStart iDataPos + (2 ^ 16 - 42)) % 2 ^ 16
  if iDataPos + 42 + iLen > pData.length ∨ iLen > maxClintPackageLength then none
  else
    (cstr (pDataStart.read (iDataPos + 42) iLen ++
        List.replicate (maxClintPackageLength - iLen) 0)).map fun strMsgBody =>
      { id := id
        priority := readShort pDataStart (iDataPos + 40)
        durable := true
        durableIndex := readInt pDataStart (iDataPos + 36)
        msgBody := strMsgBody }

/-- `pMsgQueue->AddMessage(pMsg)` with a new message. -/
def addRecovered (st : LogicServer) (queue : QueueId) (q : MessageQueue)
    (pMsg : SeverStoreMessage) : LogicServer :=
  { st.setQueue queue (q.addMessage pMsg) with nextMsg := st.nextMsg + 1 }

/-- One turn of the loop over the index; no result when it reads outside the mapping. -/
def processEntry (st : LogicServer) (pData : Bytes) (iDataPos : Int) :
    Option (Int × LogicServer) :=
  if iDataPos < 0 ∨ iDataPos + 36 > pData.length then none
  else
    (readName (Mem.ofBytes pData) (iDataPos.toNat + 4)).bind fun strQueueName =>
      match st.findQueue strQueueName with
      | none => some (errLogicServerQueueNotExist, st)
      | some queue =>
        (st.queues queue).bind fun q =>
          (readDurableMessage st.nextMsg pData iDataPos.toNat).map fun pMsg =>
            (success, st.addRecovered queue q pMsg)

def processEntries (pData : Bytes) (consumeIndexSet : List Int) :
    List (Int × Int) → LogicServer → Option (Int × LogicServer)
  | [], st => some (success, st)
  | (iIndex, iDataPos) :: rest, st =>
    if iIndex ∈ consumeIndexSet then processEntries pData consumeIndexSet rest st
    else
      (st.processEntry pData iDataPos).bind fun r =>
        if r.1 = errLogicServerQueueNotExist then some r
        else processEntries pData consumeIndexSet rest r.2

def processDurableMsgFile (st : LogicServer) (files : FileSystem) (ipFile : Bytes) :
    Option (Int × LogicServer) :=
  match readFile files (ipFile ++ extIndex), readFile files (ipFile ++ extData) with
  | some index, some data =>
    if index = [] ∨ data = [] then some (errorRet, st)
    else
      processEntries data (((readFile files (ipFile ++ extConsume)).map consumeIndexSet).getD [])
        (indexEntries index) st
  | _, _ => some (errorRet, st)

/-- The loop over the sorted names of one directory. -/
def processMsgFiles (files : FileSystem) (sub_path : Bytes) :
    List Name → LogicServer → Option LogicServer
  | [], st => some st
  | strFile :: rest, st =>
    (st.processDurableMsgFile files (sub_path ++ slash :: strFile)).bind fun r =>
      if r.1 = errLogicServerQueueNotExist then some r.2
      else processMsgFiles files sub_path rest r.2

def initMsgDirs (files : FileSystem) : List Name → LogicServer → Option LogicServer
  | [], st => some st
  | d_name :: rest, st =>
    (processMsgFiles files (subPath d_name)
      (sortFiles (findIndexFiles files (subPath d_name))) st).bind (initMsgDirs files rest)

def onInitMsg (st : LogicServer) (files : FileSystem) : Option LogicServer :=
  initMsgDirs files (queueDirs files) st

/-- Ten digits, with zeros in front.  The persistence server has a copy of this. -/
def convertIndexToString (iIndex : Int) : Name :=
  let strIndex := toString iIndex
  List.replicate (10 - strIndex.length) 48 ++ strIndex

omit [Platform] in
/-- The groups that are found in a directory are visited in the order of the indices they are
named after, by either server. -/
theorem groups_sorted_by_index {i j : Int} (hi : 0 ≤ i ∧ i ≤ 2147483647)
    (hj : 0 ≤ j ∧ j ≤ 2147483647) {files : FileSystem} {ipDir : Bytes} {is : List Int}
    (his : ∀ k ∈ is, 0 ≤ k ∧ k ≤ 2147483647)
    (hfound : (findIndexFiles files ipDir).Perm (is.map PersistenceServer.convertIndexToString)) :
    (PersistenceServer.convertIndexToString i < PersistenceServer.convertIndexToString j ↔
        i < j) ∧
      (convertIndexToString i < convertIndexToString j ↔ i < j) ∧
      sortFiles (findIndexFiles files ipDir) =
        (is.insertionSort fun k l => k ≤ l).map PersistenceServer.convertIndexToString := by
  have hindex : ∀ {k : Int}, 0 ≤ k ∧ k ≤ 2147483647 → PersistenceServer.IsIndex k :=
    fun h => ⟨h.1, by omega⟩
  have hiff := PersistenceServer.convert_lt_iff (hindex hi) (hindex hj)
  exact ⟨hiff, hiff, PersistenceServer.sortFiles_convert (fun k hk => hindex (his k hk)) hfound⟩

/-- Groups of the indices 10, 9 and 2147483647. -/
def threeGroups : FileSystem :=
  [2147483647, 9, 10].foldl (fun fs (k : Int) => fs.insert (PersistenceServer.fileNode [113]
      (PersistenceServer.convertIndexToString k ++ extIndex)) (.file [1]))
    (PersistenceServer.oneQueue [113])

omit [Platform] in
theorem groups_sorted_three :
    (PersistenceServer.convertIndexToString 9 < PersistenceServer.convertIndexToString 10 ↔
        (9 : Int) < 10) ∧
      (convertIndexToString 9 < convertIndexToString 10 ↔ (9 : Int) < 10) ∧
      sortFiles (findIndexFiles threeGroups (subPath [113])) =
        ([10, 9, 2147483647].insertionSort fun k l : Int => k ≤ l).map
          PersistenceServer.convertIndexToString :=
  groups_sorted_by_index (by decide) (by decide) (by decide) (by decide +kernel)

/-! ## Records -/

variable {st srv : LogicServer} {pkg : Package} {p : Publish} {mq : MessageQueue}

/-- What `OnPublishMessage` gives a durable message. -/
structure DurableMessage (m : SeverStoreMessage) : Prop where
  zero : 0 ∉ m.queueName
  short : m.queueName.length < maxNameLength
  index : PersistenceServer.IsIndex m.durableIndex
  priority : FitsInt 2 m.priority
  body : m.msgBody.length + publishBodyOffset ≤ maxClintPackageLength

variable {m : SeverStoreMessage}

omit [Platform] in
theorem durableLen_eq (h : DurableMessage m) : m.durableLen = 42 + m.msgBody.length := by
  have hbody := h.body
  have hoff : publishBodyOffset = 72 := rfl
  have hmax : maxClintPackageLength = 11264 := rfl
  have hname : maxNameLength = 32 := rfl
  rw [SeverStoreMessage.durableLen, ushort, Nat.mod_eq_of_lt (by omega)]
  omega

omit [Platform] in
theorem durableFields_fit (h : DurableMessage m) : ∀ f ∈ m.durableFields, f.Fits := by
  intro f hf
  simp only [SeverStoreMessage.durableFields, List.mem_cons, List.not_mem_nil, or_false] at hf
  rcases hf with rfl | rfl | rfl | rfl | rfl | rfl
  · exact (be_length _ _).le
  · exact (be_length _ _).le
  · exact h.short.le
  · exact (beInt_length _ _).le
  · exact (beInt_length _ _).le
  · exact le_rfl

omit [Platform] in
theorem durablePacket_eq (h : DurableMessage m) : durablePacket m = image m.durableFields := by
  have hlen := durableLen_eq h
  have hbody := h.body
  have hmax : maxClintPackageLength = 11264 := rfl
  have hoff : publishBodyOffset = 72 := rfl
  have hsize : size m.durableFields = m.durableLen := by
    rw [hlen]
    simp only [SeverStoreMessage.durableFields, size_cons, size_nil, writeUShort, writeName,
      writeInt, writeShort, writeBody, maxNameLength]
    omega
  rw [durablePacket, SeverStoreMessage.serializeDurableToString, if_neg (by omega), Packed.sent,
    Int.toNat_natCast, ← hsize]
  exact read_place (durableFields_fit h) fun _ _ => rfl

omit [Platform] in
/-- A body in a zeroed array ends at its first zero byte. -/
theorem cstr_zeros (s : Bytes) {n : Nat} (hn : 0 < n) :
    cstr (s ++ List.replicate n 0) = some (s.takeWhile (· ≠ 0)) := by
  obtain ⟨n, rfl⟩ := Nat.exists_eq_succ_of_ne_zero (Nat.ne_zero_of_lt hn)
  have htake : (s ++ 0 :: List.replicate n 0).takeWhile (· ≠ 0) = s.takeWhile (· ≠ 0) := by
    induction s with
    | nil => rfl
    | cons b s ih =>
      rw [List.cons_append, List.takeWhile_cons, List.takeWhile_cons]
      split
      · rw [ih]
      · rfl
  rw [List.replicate_succ, cstr, if_pos (List.mem_append_right _ List.mem_cons_self), htake]

omit [Platform] in
theorem takeWhile_eq_self_iff (s : Bytes) : s.takeWhile (· ≠ 0) = s ↔ 0 ∉ s := by
  rw [List.takeWhile_eq_self_iff]
  constructor
  · intro h hzero
    exact absurd (h 0 hzero) (by decide)
  · intro h b hb
    refine decide_eq_true ?_
    rintro rfl
    exact h hb

/-- The message that is made of the record. -/
def recovered (id : Nat) (m : SeverStoreMessage) : SeverStoreMessage :=
  { id := id
    priority := m.priority
    durable := true
    durableIndex := m.durableIndex
    msgBody := m.msgBody.takeWhile (· ≠ 0) }

section Decode

variable {data : Bytes} {iDataPos : Int}

omit [Platform] in
theorem holds_record (h : DurableMessage m)
    (hat : recordAt data iDataPos = some (durablePacket m)) :
    0 ≤ iDataPos ∧ iDataPos.toNat + 42 + m.msgBody.length ≤ data.length ∧
      Holds (Mem.ofBytes data) iDataPos.toNat (image m.durableFields) := by
  obtain ⟨hpos, _, _, hin, hread⟩ := recordAt_some hat
  rw [durablePacket_eq h] at hin hread
  have hsize : (image m.durableFields).length = 42 + m.msgBody.length := by
    rw [image_length (durableFields_fit h)]
    simp only [SeverStoreMessage.durableFields, size_cons, size_nil, writeUShort, writeName,
      writeInt, writeShort, writeBody, maxNameLength]
    omega
  refine ⟨hpos, ?_, hread⟩
  omega

omit [Platform] in
theorem readDurableMessage_record (h : DurableMessage m) (id : Nat)
    (hat : recordAt data iDataPos = some (durablePacket m)) :
    readDurableMessage id data iDataPos.toNat = some (recovered id m) := by
  obtain ⟨hpos, hin, hholds⟩ := holds_record h hat
  have hfits := durableFields_fit h
  have hlen := durableLen_eq h
  have hbody := h.body
  have hmax : maxClintPackageLength = 11264 := rfl
  have hoff : publishBodyOffset = 72 := rfl
  have hindex : readInt (Mem.ofBytes data) (iDataPos.toNat + 36) = m.durableIndex :=
    readInt_field [writeUShort m.durableLen, writeUShort cmdCreatePublish, writeName m.queueName]
      hholds hfits h.index.fits
  have hpriority : readShort (Mem.ofBytes data) (iDataPos.toNat + 40) = m.priority :=
    readShort_field [writeUShort m.durableLen, writeUShort cmdCreatePublish, writeName m.queueName,
      writeInt m.durableIndex] hholds hfits h.priority
  have hread : (Mem.ofBytes data).read (iDataPos.toNat + 42) m.msgBody.length = m.msgBody :=
    read_body_field [writeUShort m.durableLen, writeUShort cmdCreatePublish, writeName m.queueName,
      writeInt m.durableIndex, writeShort m.priority] hholds hfits
  have hlength : readUShort (Mem.ofBytes data) iDataPos.toNat = m.durableLen :=
    readUShort_field [] hholds hfits (by omega)
  have hrest : (m.durableLen + (2 ^ 16 - 42)) % 2 ^ 16 = m.msgBody.length := by omega
  rw [readDurableMessage, hlength, hrest, hread, hindex, hpriority, if_neg (by omega),
    cstr_zeros _ (by omega)]
  rfl

theorem processEntry_record (h : DurableMessage m) {queue : QueueId}
    (hat : recordAt data iDataPos = some (durablePacket m))
    (hfind : srv.findQueue m.queueName = some queue) (hq : srv.queues queue = some mq) :
    srv.processEntry data iDataPos =
      some (success, srv.addRecovered queue mq (recovered srv.nextMsg m)) := by
  obtain ⟨hpos, hin, hholds⟩ := holds_record h hat
  have hname : readName (Mem.ofBytes data) (iDataPos.toNat + 4) = some m.queueName :=
    readName_field [writeUShort m.durableLen, writeUShort cmdCreatePublish] hholds
      (durableFields_fit h) h.zero h.short
  rw [processEntry, if_neg (by omega), hname, Option.bind_some, hfind]
  dsimp only
  rw [hq, Option.bind_some, readDurableMessage_record h _ hat]
  rfl

end Decode

omit [Platform] in
/-- The persistence server files the packet under its queue and index. -/
theorem processPublish_durablePacket (h : DurableMessage m) (s : PersistenceServer) :
    s.processPublish (durablePacket m) =
      s.onPublishMessage (durablePacket m) m.queueName m.durableIndex := by
  have hholds : Holds (Mem.ofBytes (durablePacket m)) 0 (image m.durableFields) := by
    rw [durablePacket_eq h]
    exact holds_ofBytes _
  have hname : readName (Mem.ofBytes (durablePacket m)) 4 = some m.queueName :=
    readName_field [writeUShort m.durableLen, writeUShort cmdCreatePublish] hholds
      (durableFields_fit h) h.zero h.short
  have hindex : readInt (Mem.ofBytes (durablePacket m)) (4 + maxNameLength) = m.durableIndex :=
    readInt_field [writeUShort m.durableLen, writeUShort cmdCreatePublish, writeName m.queueName]
      hholds (durableFields_fit h) h.index.fits
  rw [PersistenceServer.processPublish, hname, Option.bind_some, hindex]

/-! ## Recovery -/

/-- Wherever the record stands in a data file, and whatever a server with the queue holds, the
entry for the record adds a message with the same contents to the queue. -/
def ReadBack (m : SeverStoreMessage) : Prop :=
  ∀ data iDataPos (srv : LogicServer) queue mq, recordAt data iDataPos = some (durablePacket m) →
    srv.findQueue m.queueName = some queue → srv.queues queue = some mq →
      ∃ pMsg, readDurableMessage srv.nextMsg data iDataPos.toNat = some pMsg ∧
        srv.processEntry data iDataPos = some (success, srv.addRecovered queue mq pMsg) ∧
          pMsg.msgBody = m.msgBody ∧ pMsg.priority = m.priority ∧
            pMsg.durableIndex = m.durableIndex

omit [Platform] in
theorem ownLength_packet (h : DurableMessage m) : OwnLength (durablePacket m) := by
  have hlen := durableLen_eq h
  have hbody := h.body
  have hmax : maxClintPackageLength = 11264 := rfl
  have hoff : publishBodyOffset = 72 := rfl
  have hsize : (durablePacket m).length = 42 + m.msgBody.length := by
    rw [durablePacket_eq h, image_length (durableFields_fit h)]
    simp only [SeverStoreMessage.durableFields, size_cons, size_nil, writeUShort, writeName,
      writeInt, writeShort, writeBody, maxNameLength]
    omega
  have hhead : readUShort (Mem.ofBytes (durablePacket m)) 0 = m.durableLen := by
    rw [durablePacket_eq h]
    exact readUShort_field [] (holds_ofBytes _) (durableFields_fit h) (by omega)
  exact ⟨by omega, by omega⟩

omit [Platform] in
theorem recordAt_packet (h : DurableMessage m) :
    recordAt (durablePacket m) 0 = some (durablePacket m) := by
  have hat : recordAt ([] ++ (durablePacket m ++ [])) ([] : Bytes).length = _ :=
    recordAt_append (ownLength_packet h)
  rwa [List.append_nil, List.nil_append] at hat

/-- A server whose only queue has the given name. -/
def withQueue (strQueueName : Name) : LogicServer :=
  (start none none).newQueue { queueName := strQueueName, durable := true }

theorem findQueue_withQueue (strQueueName : Name) :
    (withQueue strQueueName).findQueue strQueueName = some 0 :=
  AList.lookup_insert _

theorem readBack_iff (h : DurableMessage m) : ReadBack m ↔ 0 ∉ m.msgBody := by
  rw [← takeWhile_eq_self_iff]
  constructor
  · intro hback
    obtain ⟨pMsg, hread, _, hbody, _⟩ := hback _ 0 (withQueue m.queueName) 0 _ (recordAt_packet h)
      (findQueue_withQueue _) rfl
    rw [readDurableMessage_record h _ (recordAt_packet h)] at hread
    obtain rfl := Option.some.inj hread
    exact hbody
  · intro hbody data iDataPos srv queue mq hat hfind hq
    exact ⟨_, readDurableMessage_record h _ hat, processEntry_record h hat hfind hq, hbody, rfl,
      rfl⟩

omit [Platform] in
theorem success_ne_notExist : success ≠ errLogicServerQueueNotExist := by decide

/-- The messages of the records are added one after the other. -/
def recoverRecords : List (Int × Bytes) → LogicServer → Option LogicServer
  | [], st => some st
  | e :: rest, st => (st.processEntry e.2 0).bind fun r => recoverRecords rest r.2

theorem recoverRecords_append (rs₁ rs₂ : List (Int × Bytes)) (st : LogicServer) :
    recoverRecords (rs₁ ++ rs₂) st = (recoverRecords rs₁ st).bind (recoverRecords rs₂) := by
  induction rs₁ generalizing st with
  | nil => rfl
  | cons e rs₁ ih =>
    rw [List.cons_append, recoverRecords, recoverRecords, Option.bind_assoc]
    exact congrArg _ (funext fun r => ih r.2)

/-- The server has the queue. -/
def Has (srv : LogicServer) (strQueueName : Name) (queue : QueueId) : Prop :=
  srv.findQueue strQueueName = some queue ∧ (srv.queues queue).isSome

/-- The record is that of a durable message of the queue, under its index. -/
def IsRecord (strQueueName : Name) (e : Int × Bytes) : Prop :=
  ∃ m, DurableMessage m ∧ m.queueName = strQueueName ∧ e = (m.durableIndex, durablePacket m)

section Files

variable {strQueueName : Name} {queue : QueueId} {rs : List (Int × Bytes)}

/-- A record is treated alike wherever it stands. -/
theorem processEntry_at {e : Int × Bytes} {data : Bytes} {iDataPos : Int}
    (he : IsRecord strQueueName e) (hsrv : srv.Has strQueueName queue)
    (hat : recordAt data iDataPos = some e.2) :
    ∃ srv', srv.processEntry data iDataPos = some (success, srv') ∧
      srv.processEntry e.2 0 = some (success, srv') ∧ srv'.Has strQueueName queue := by
  obtain ⟨m, hm, rfl, rfl⟩ := he
  obtain ⟨mq, hq⟩ := Option.isSome_iff_exists.mp hsrv.2
  refine ⟨_, processEntry_record hm hat hsrv.1 hq,
    processEntry_record hm (recordAt_packet hm) hsrv.1 hq, hsrv.1, ?_⟩
  show (if queue = queue then some _ else srv.queues queue).isSome
  rw [if_pos rfl]
  rfl

theorem processEntries_eq {data : Bytes} {consumed : List Int} {es : List (Int × Int)}
    (h : readEntries data consumed es = some rs) (hrs : ∀ e ∈ rs, IsRecord strQueueName e)
    (hsrv : srv.Has strQueueName queue) :
    ∃ srv', processEntries data consumed es srv = some (success, srv') ∧
      recoverRecords rs srv = some srv' ∧ srv'.Has strQueueName queue := by
  induction es generalizing rs srv with
  | nil =>
    cases h
    exact ⟨srv, rfl, rfl, hsrv⟩
  | cons e es ih =>
    rw [readEntries] at h
    rw [processEntries]
    split at h
    · next hin =>
      rw [if_pos hin]
      exact ih h hrs hsrv
    · next hnot =>
      obtain ⟨r, hr, hrest⟩ := Option.bind_eq_some_iff.mp h
      obtain ⟨rs', hrs', rfl⟩ := Option.map_eq_some_iff.mp hrest
      obtain ⟨srv₁, hone, hown, hsrv₁⟩ := processEntry_at (hrs _ List.mem_cons_self) hsrv hr
      obtain ⟨srv', hrun, hrecover, hsrv'⟩ :=
        ih hrs' (fun e he => hrs e (List.mem_cons_of_mem _ he)) hsrv₁
      refine ⟨srv', ?_, ?_, hsrv'⟩
      · rw [if_neg hnot, hone, Option.bind_some, if_neg success_ne_notExist, hrun]
      · rw [recoverRecords, hown, Option.bind_some, hrecover]

theorem processDurableMsgFile_eq {files : FileSystem} {ipFile : Bytes}
    (h : groupRecords files ipFile = some rs) (hrs : ∀ e ∈ rs, IsRecord strQueueName e)
    (hsrv : srv.Has strQueueName queue) :
    ∃ ret srv', srv.processDurableMsgFile files ipFile = some (ret, srv') ∧
      ret ≠ errLogicServerQueueNotExist ∧ recoverRecords rs srv = some srv' ∧
        srv'.Has strQueueName queue := by
  unfold groupRecords at h
  unfold processDurableMsgFile
  cases hindex : readFile files (ipFile ++ extIndex) with
  | none =>
    rw [hindex] at h
    cases h
    exact ⟨errorRet, srv, rfl, by decide, rfl, hsrv⟩
  | some index =>
    cases hdata : readFile files (ipFile ++ extData) with
    | none =>
      rw [hindex, hdata] at h
      cases h
      exact ⟨errorRet, srv, rfl, by decide, rfl, hsrv⟩
    | some data =>
      rw [hindex, hdata] at h
      dsimp only at h ⊢
      by_cases hempty : index = [] ∨ data = []
      · rw [if_pos hempty] at h
        cases h
        exact ⟨errorRet, srv, if_pos hempty, by decide, rfl, hsrv⟩
      · rw [if_neg hempty] at h
        obtain ⟨srv', hrun, hrest⟩ := processEntries_eq h hrs hsrv
        exact ⟨success, srv', (if_neg hempty).trans hrun, by decide, hrest⟩

/-- What is recovered of one queue are its unconsumed records, group after group. -/
theorem processMsgFiles_eq {files : FileSystem} {fs : List Name}
    (h : readGroups files strQueueName fs = some rs) (hrs : ∀ e ∈ rs, IsRecord strQueueName e)
    (hsrv : srv.Has strQueueName queue) :
    ∃ srv', processMsgFiles files (subPath strQueueName) fs srv = some srv' ∧
      recoverRecords rs srv = some srv' := by
  induction fs generalizing rs srv with
  | nil =>
    cases h
    exact ⟨srv, rfl, rfl⟩
  | cons f fs ih =>
    rw [readGroups] at h
    obtain ⟨rs₁, hfirst, hrest⟩ := Option.bind_eq_some_iff.mp h
    obtain ⟨rs₂, hothers, rfl⟩ := Option.map_eq_some_iff.mp hrest
    obtain ⟨ret, srv₁, hone, hret, hrecover, hsrv₁⟩ :=
      processDurableMsgFile_eq hfirst (fun e he => hrs e (List.mem_append_left _ he)) hsrv
    obtain ⟨srv', hrun, hrecover'⟩ :=
      ih hothers (fun e he => hrs e (List.mem_append_right _ he)) hsrv₁
    refine ⟨srv', ?_, ?_⟩
    · rw [processMsgFiles, hone, Option.bind_some, if_neg hret, hrun]
    · rw [recoverRecords_append, hrecover, Option.bind_some, hrecover']

end Files

/-! ## Published messages -/

/-- What `OnPublishMessage` makes of a package it accepts for the queue. -/
theorem durableMessage_publish (hp : decodePublish pkg.body pkg.bodyLen = some p)
    (hlen : 0 ≤ p.iBodyLen) (hzero : 0 ∉ mq.queueName) (hname : mq.queueName.length < maxNameLength)
    (hindex : PersistenceServer.IsIndex mq.durableIndex) :
    DurableMessage (durableMessage (st.newMessage p) mq) := by
  refine ⟨hzero, hname, hindex, ?_, decodePublish_body hp hlen⟩
  obtain ⟨_, _, hrest⟩ := Option.bind_eq_some_iff.mp hp
  obtain ⟨_, _, rfl⟩ := Option.map_eq_some_iff.mp hrest
  exact fitsInt_readShort _ _

open PersistenceServer in
/-- A durable message that is published, persisted and not consumed is among the records that
are recovered, and it is read back as it was exactly when its body has no zero byte. -/
theorem durable_message_recovered_iff {files : FileSystem} {as : List PersistenceServer.Step}
    (hp : decodePublish pkg.body pkg.bodyLen = some p) (hlen : 0 ≤ p.iBodyLen)
    (hzero : 0 ∉ mq.queueName) (hname : mq.queueName.length < maxNameLength)
    (hindex : IsIndex mq.durableIndex) (has : Admissible files (fun _ => {}) as)
    (hpub : .publish (durablePacket (durableMessage (st.newMessage p) mq)) mq.queueName
      mq.durableIndex ∈ as)
    (hrecords : ∀ r k, .publish r mq.queueName k ∈ as → IsRecord mq.queueName (k, r))
    (hnot : mq.durableIndex ∉ (ledger mq.queueName as).consumed) :
    let m := durableMessage (st.newMessage p) mq
    (∀ s : PersistenceServer, s.processPublish (durablePacket m) =
      s.onPublishMessage (durablePacket m) mq.queueName mq.durableIndex) ∧
    (∃ s, Runs.run PersistenceServer.step { files := files } as = some s ∧
      (mq.durableIndex, durablePacket m) ∈ (ledger mq.queueName as).unconsumed ∧
      ∀ srv queue, srv.Has mq.queueName queue →
        processMsgFiles s.files (subPath mq.queueName)
            (sortFiles (findIndexFiles s.files (subPath mq.queueName))) srv =
          recoverRecords (ledger mq.queueName as).unconsumed srv) ∧
    (ReadBack m ↔ 0 ∉ p.body) := by
  intro m
  have hm : DurableMessage m := durableMessage_publish hp hlen hzero hname hindex
  refine ⟨processPublish_durablePacket hm, ?_, readBack_iff hm⟩
  obtain ⟨s, hrun, hlogs⟩ := run_logs (fun q hq => ⟨{}, stores_start hq, rfl, rfl⟩) has
  obtain ⟨l, hl, hentries, hconsumed⟩ := hlogs _ (has.fresh hpub)
  have hstored := (hl.refines hentries hconsumed).stored
  have hpublished := mem_published hpub {}
  refine ⟨s, hrun, List.mem_filter.mpr ⟨hpublished, decide_eq_true hnot⟩, fun srv queue hsrv => ?_⟩
  have hrs : ∀ e ∈ (ledger mq.queueName as).unconsumed, IsRecord mq.queueName e := by
    intro e he
    exact hrecords e.2 e.1 (of_mem_published (List.mem_filter.mp he).1)
  obtain ⟨srv', hfiles, hrecover⟩ := processMsgFiles_eq hstored hrs hsrv
  exact hfiles.trans hrecover.symm

end Recover

section Runs

attribute [local instance] Platform.plain

def durableQueue : MessageQueue := { queueName := ascii "q", durable := true }

theorem durable_message_recovered_hello :
    ∃ p, decodePublish (Step.publishPackage 12 true 0 1).body
        (Step.publishPackage 12 true 0 1).bodyLen = some p ∧ p.body = ascii "hello" ∧
      ReadBack (durableMessage ((start none none).newMessage p) durableQueue) := by
  have hcheck : (decodePublish (Step.publishPackage 12 true 0 1).body
      (Step.publishPackage 12 true 0 1).bodyLen).map (fun p => decide (p.body = ascii "hello" ∧
        0 ≤ p.iBodyLen)) = some true := by decide +kernel
  obtain ⟨p, hp, hprops⟩ := Option.map_eq_some_iff.mp hcheck
  obtain ⟨hbody, hlen⟩ := of_decide_eq_true hprops
  have hindex : PersistenceServer.IsIndex durableQueue.durableIndex := ⟨by decide, by decide⟩
  have hm : DurableMessage (durableMessage ((start none none).newMessage p) durableQueue) :=
    durableMessage_publish hp hlen (by decide) (by decide) hindex
  have has : PersistenceServer.Admissible (PersistenceServer.oneQueue durableQueue.queueName)
      (fun _ => {}) [.publish (durablePacket (durableMessage ((start none none).newMessage p)
        durableQueue)) durableQueue.queueName durableQueue.durableIndex] :=
    ⟨⟨PersistenceServer.fresh_oneQueue (by decide), hindex, ownLength_packet hm,
      fun _ hj => nomatch hj⟩, trivial⟩
  refine ⟨p, hp, hbody, ?_⟩
  refine (durable_message_recovered_iff hp hlen (by decide) (by decide) hindex has
    List.mem_cons_self ?_ ?_).2.2.mpr ?_
  · intro r k hin
    cases List.mem_singleton.mp hin
    exact ⟨_, hm, rfl, rfl⟩
  · intro hin
    cases hin
  · rw [hbody]
    decide

/-- Client 12 publishes a body to "e". -/
def publishBody (body : Bytes) (h : body.length ≤ 1000) : Package :=
  .ofBody cmdCreatePublish 12
    (image [writeName (ascii "e"), writeName (ascii "k"), writeShort 0, writeBool true,
      writeInt 0, writeByte 1] ++ body)
    (by
      have hhead : (image [writeName (ascii "e"), writeName (ascii "k"), writeShort 0,
        writeBool true, writeInt 0, writeByte 1]).length = 72 := by decide
      have hsize : sizeofClientPackageHead = 8 := rfl
      have hmax : maxClintPackageLength = 11264 := rfl
      rw [List.length_append, hhead]
      omega)

/-- The bodies that come back when a body is published to the durable queue "q", the persistence
server has handled all packets, and a new server with the queue reads the files. -/
def bodiesBack (body : Bytes) (h : body.length ≤ 1000) : Option (List Bytes) :=
  (run (start none none) [.makeQueue 1 true, .makeExchange 1, .makeBinding 1,
    .package (publishBody body h)]).bind fun st =>
  (PersistenceServer.acts { files := AList.insert PersistenceServer.baseNode .dir ∅ }
    (st.queueToPersis.items.map .packet)).bind fun s =>
  (onInitMsg (withQueue (ascii "q")) s.files).bind fun srv =>
    (srv.queues 0).map fun q => q.messages.map (·.msgBody)

/-- "A", a zero byte and "B" come back as "A". -/
theorem zero_byte_ends_body : bodiesBack [65, 0, 66] (by decide) = some [[65]] := by
  decide +kernel

end Runs

end Wsmq.LogicServer
