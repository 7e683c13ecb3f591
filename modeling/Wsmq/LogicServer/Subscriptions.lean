import Wsmq.Lib.Loading
import Wsmq.LogicServer.Storing
import Wsmq.PersistenceServer.DurableRuns

/-!
# Subscribers across a restart

The subscribers of a queue go into `subscribe.bin`, from which `OnInitQueue` reads them.  The loop
over them reads the first one each time.
-/

namespace Wsmq.LogicServer
open Lib Lib.ByteString Lib.Packing Lib.Files
open PersistenceServer (fileNode infoFile offsetFile subscribeFile)

section Model

variable [Platform]

/-! ## One directory -/

/-- What is read in one directory: no queue, or a queue and its key. -/
def readQueueDir (files : FileSystem) (d_name : Name) :
    Option (Option (Option Name × MessageQueue)) :=
  match queueFile files d_name infoFile with
  | none => some none
  | some info =>
    if info.length < maxNameLength + 2 + 1 + 1 then some none
    else
      (readQueue info).bind fun q =>
        match queueFile files d_name offsetFile with
        | none => some none
        | some offset =>
          if offset.length < 4 then some none
          else
            (readSubscribers (queueFile files d_name subscribeFile)
              { q with durableIndex := readInt (Mem.ofBytes offset) 0 + 1 }).map some

/-- The queue that was read gets its place. -/
def register (st : LogicServer) : Option (Option Name × MessageQueue) → LogicServer
  | none => st
  | some r => st.registerQueue r.1 r.2

theorem initQueueDir_eq (files : FileSystem) (st : LogicServer) (d_name : Name) :
    st.initQueueDir files d_name = (readQueueDir files d_name).map st.register := by
  unfold initQueueDir readQueueDir
  cases queueFile files d_name infoFile with
  | none => rfl
  | some info =>
    dsimp only
    split
    · rfl
    · cases readQueue info with
      | none => rfl
      | some q =>
        rw [Option.bind_some, Option.bind_some]
        cases queueFile files d_name offsetFile with
        | none => rfl
        | some offset =>
          dsimp only
          split
          · rfl
          · rw [Option.map_map]
            rfl

/-- The directory is read without a fault, and what it gives has its name. -/
def Named (files : FileSystem) (d_name : Name) : Prop :=
  ∃ o, readQueueDir files d_name = some o ∧ ∀ r ∈ o, r.2.queueName = d_name ∧
    (r.1 = none ∨ r.1 = some d_name)

/-! ## All directories -/

section Directories

variable {files : FileSystem} {st : LogicServer} {d e : Name}

/-- What the two maps have under a name. -/
def Lists (st : LogicServer) (d : Name) : Option (Option Name × MessageQueue) → Prop
  | none => st.subcribeQueues.lookup d = none ∧ st.unSubcribeQueues.lookup d = none
  | some r => ∃ id < st.nextQueue, st.queues id = some r.2 ∧
      st.subcribeQueues.lookup d = (if r.1 = none then some id else none) ∧
      st.unSubcribeQueues.lookup d = if r.1 = none then none else some id

theorem register_lists {o : Option (Option Name × MessageQueue)} (hvacant : Lists st d none)
    (hname : ∀ r ∈ o, r.2.queueName = d ∧ (r.1 = none ∨ r.1 = some d)) :
    Lists (st.register o) d o := by
  cases o with
  | none => exact hvacant
  | some r =>
    obtain ⟨key, q⟩ := r
    have hq : q.queueName = d := (hname _ rfl).1
    have hkey : key = none ∨ key = some d := (hname _ rfl).2
    subst hq
    refine ⟨st.nextQueue, ?_, ?_, ?_⟩
    · rcases hkey with rfl | rfl
      · exact Nat.lt_succ_self _
      · exact Nat.lt_succ_self _
    · rcases hkey with rfl | rfl
      · exact if_pos rfl
      · exact if_pos rfl
    · rcases hkey with rfl | rfl
      · exact ⟨AList.lookup_insert _, hvacant.2⟩
      · exact ⟨hvacant.1, AList.lookup_insert _⟩

theorem register_lists_ne {o o' : Option (Option Name × MessageQueue)} (hne : e ≠ d)
    (hname : ∀ r ∈ o, r.2.queueName = d ∧ (r.1 = none ∨ r.1 = some d)) (h : Lists st e o') :
    Lists (st.register o) e o' := by
  cases o with
  | none => exact h
  | some r =>
    obtain ⟨key, q⟩ := r
    have hq : q.queueName = d := (hname _ rfl).1
    have hkey : key = none ∨ key = some d := (hname _ rfl).2
    subst hq
    have hsub : (st.register (some (key, q))).subcribeQueues.lookup e =
        st.subcribeQueues.lookup e := by
      rcases hkey with rfl | rfl
      · exact AList.lookup_insert_ne hne
      · rfl
    have hunsub : (st.register (some (key, q))).unSubcribeQueues.lookup e =
        st.unSubcribeQueues.lookup e := by
      rcases hkey with rfl | rfl
      · rfl
      · exact AList.lookup_insert_ne hne
    have hnext : (st.register (some (key, q))).nextQueue = st.nextQueue + 1 := by
      rcases hkey with rfl | rfl <;> rfl
    have hqueues : ∀ id < st.nextQueue, (st.register (some (key, q))).queues id =
        st.queues id := by
      intro id hid
      rcases hkey with rfl | rfl <;> exact if_neg (Nat.ne_of_lt hid)
    cases o' with
    | none => exact ⟨hsub.trans h.1, hunsub.trans h.2⟩
    | some r' =>
      obtain ⟨id, hid, hq, hs, hu⟩ := h
      have hlt : id < (st.register (some (key, q))).nextQueue := by
        rw [hnext]
        exact Nat.lt_succ_of_lt hid
      exact ⟨id, hlt, (hqueues id hid).trans hq, hsub.trans hs, hunsub.trans hu⟩

theorem register_registers : Loading.Registers register
    (fun d o => ∀ r ∈ o, r.2.queueName = d ∧ (r.1 = none ∨ r.1 = some d)) Lists none :=
  ⟨fun hname hvacant => register_lists hvacant hname,
    fun hne hname h => register_lists_ne hne hname h⟩

theorem initQueueDirs_eq (files : FileSystem) (dirs : List Name) (st : LogicServer) :
    initQueueDirs files dirs st = Loading.load (readQueueDir files) register dirs st := by
  induction dirs generalizing st with
  | nil => rfl
  | cons d dirs ih =>
    rw [initQueueDirs, initQueueDir_eq, Loading.load, Option.bind_map]
    exact congrArg (Option.bind _) (funext fun o => ih (st.register o))

end Directories

/-! ## The file of a queue -/

section Subscribers

variable {q pMsgQueue : MessageQueue} {iIndex : Int} {iConfirmLevel : Nat}

theorem addSubscribers_of_mem (hin : iIndex ∈ q.subscribeConsumers)
    (hlevel : q.confirmLevel = iConfirmLevel) (n : Nat) :
    addSubscribers iIndex iConfirmLevel n q = q := by
  induction n with
  | zero => rfl
  | succ n ih =>
    have hsame : q.addSubscribe iIndex iConfirmLevel = q := by
      rw [MessageQueue.addSubscribe, if_pos hin, ← hlevel]
    rw [addSubscribers, hsame, ih]

/-- However often, one subscriber is added. -/
theorem addSubscribers_nil (hempty : q.subscribeConsumers = []) {n : Nat} (hn : n ≠ 0) :
    addSubscribers iIndex iConfirmLevel n q =
      { q with subscribeConsumers := [iIndex], confirmLevel := iConfirmLevel } := by
  obtain ⟨n, rfl⟩ := Nat.exists_eq_succ_of_ne_zero hn
  have hfirst : q.addSubscribe iIndex iConfirmLevel =
      { q with subscribeConsumers := [iIndex], confirmLevel := iConfirmLevel } := by
    rw [MessageQueue.addSubscribe, if_neg (by rw [hempty]; exact List.not_mem_nil), hempty]
    rfl
  rw [addSubscribers, hfirst]
  exact addSubscribers_of_mem
    (q := { q with subscribeConsumers := [iIndex], confirmLevel := iConfirmLevel })
    (List.mem_singleton_self iIndex) rfl n

/-- The values that the types of the source admit. -/
structure Storable (q : MessageQueue) : Prop where
  few : q.subscribeConsumers.length < 2 ^ 16
  ids : ∀ c ∈ q.subscribeConsumers, FitsInt 4 c
  level : q.confirmLevel < 2 ^ 8

theorem readConfirmLevel_body (h : Storable q) :
    readByte (Mem.ofBytes (subscribeBody q)) 32 = q.confirmLevel :=
  readByte_field [writeString q.queueName] (holds_ofBytes _) (fits_subscribe q) h.level

theorem readSubscribeNum_body (h : Storable q) :
    readUShort (Mem.ofBytes (subscribeBody q)) 33 = q.subscribeConsumers.length :=
  readUShort_field [writeString q.queueName, writeByte q.confirmLevel] (holds_ofBytes _)
    (fits_subscribe q) h.few

theorem readFirst_body (h : Storable q) {c : Int} {cs : List Int}
    (hcons : q.subscribeConsumers = c :: cs) :
    readInt (Mem.ofBytes (subscribeBody q)) 35 = c := by
  have hfits := fits_subscribe q
  have hholds := holds_ofBytes (subscribeBody q)
  rw [subscribeBody, hcons] at hholds
  rw [hcons] at hfits
  refine readInt_field [writeString q.queueName, writeByte q.confirmLevel,
    writeUShort (c :: cs).length] ?_ hfits (h.ids c (hcons ▸ List.mem_cons_self))
  rw [subscribeBody, hcons]
  exact hholds

/-- Of the subscribers in the file the first one comes back, if they fit into the buffer. -/
theorem readSubscribers_body (hn : IsName q.queueName) (h : Storable q)
    (hnew : pMsgQueue.subscribeConsumers = []) :
    readSubscribers (some (subscribeBody q)) pMsgQueue =
      if 247 < q.subscribeConsumers.length then none
      else some (if q.subscribeConsumers = [] then some q.queueName else none,
        { pMsgQueue with
          confirmLevel := q.confirmLevel
          subscribeConsumers := q.subscribeConsumers.take 1 }) := by
  have hlen := length_subscribeBody q
  have hbuffer : maxRdwrFileBuffSize = 1024 := rfl
  have hfield : maxNameLength = 32 := rfl
  have hname : readName (Mem.ofBytes (subscribeBody q)) 0 = some q.queueName :=
    readName_writeString hn fun f hf => fits_subscribe q f (List.mem_cons_of_mem _ hf)
  have hhead : fread (subscribeBody q) 0 (maxNameLength + 1 + 2) = some true := by
    rw [fread, if_neg (by omega)]
    congr 1
    exact decide_eq_true (by omega)
  have hlist : fread (subscribeBody q) 35 (q.subscribeConsumers.length * 4) =
      if 247 < q.subscribeConsumers.length then none
      else some (decide (q.subscribeConsumers ≠ [])) := by
    rw [fread, hlen]
    by_cases hmany : 247 < q.subscribeConsumers.length
    · rw [if_pos hmany, if_pos (by omega)]
    · rw [if_neg hmany, if_neg (by omega)]
      congr 1
      refine decide_eq_decide.mpr ?_
      rw [← List.length_pos_iff]
      omega
  rw [readSubscribers]
  dsimp only
  rw [hhead, Option.bind_some, if_neg (by decide)]
  rw [readConfirmLevel_body h, readSubscribeNum_body h, hname, Option.map_some]
  by_cases hempty : q.subscribeConsumers = []
  · rw [hempty, List.length_nil, if_pos rfl, if_pos rfl, if_neg (by decide), List.take_nil, ← hnew]
  · obtain ⟨c, cs, hcs⟩ := List.exists_cons_of_ne_nil hempty
    have hnum : q.subscribeConsumers.length ≠ 0 := fun h0 =>
      hempty (List.length_eq_zero_iff.mp h0)
    have hadded : addSubscribers c q.confirmLevel q.subscribeConsumers.length
        { pMsgQueue with confirmLevel := q.confirmLevel } =
          { pMsgQueue with
            confirmLevel := q.confirmLevel
            subscribeConsumers := q.subscribeConsumers.take 1 } := by
      have htake : q.subscribeConsumers.take 1 = [c] := by
        rw [hcs]
        rfl
      rw [htake]
      exact addSubscribers_nil (q := { pMsgQueue with confirmLevel := q.confirmLevel }) hnew hnum
    rw [if_neg hnum, if_neg hempty, hlist]
    by_cases hmany : 247 < q.subscribeConsumers.length
    · rw [if_pos hmany, if_pos hmany]
      rfl
    · rw [if_neg hmany, if_neg hmany, Option.bind_some, readFirst_body h hcs,
        if_neg (not_not.mpr (decide_eq_true hempty))]
      exact congrArg some (congrArg (Prod.mk none) hadded)

end Subscribers

section Directory

variable {files files' : FileSystem} {q : MessageQueue} {d : Name}

/-- What a directory gives depends on its files. -/
theorem readQueueDir_congr (h : PersistenceServer.Stands files .queue d)
    (hdirs : SameDirs files files')
    (hsame : ∀ f, bytesAt files' (fileNode d f) = bytesAt files (fileNode d f)) :
    readQueueDir files' d = readQueueDir files d := by
  have hfile : ∀ f, Plain f → queueFile files' d f = queueFile files d f :=
    fun f hf => dirFile_congr h hdirs hf (hsame f)
  rw [readQueueDir, readQueueDir, hfile infoFile (by decide), hfile offsetFile (by decide),
    hfile subscribeFile (by decide)]

/-- `OnInitQueue` drops a queue to which nothing was published. -/
def HasOffset (files : FileSystem) (d : Name) : Prop :=
  ∃ offset, queueFile files d offsetFile = some offset ∧ 4 ≤ offset.length

theorem readQueueDir_of_no_offset (h : Created files .queue d) (hno : ¬ HasOffset files d) :
    readQueueDir files d = some none := by
  obtain ⟨info, hinfo, hlong, hname⟩ := h.info
  rw [readQueueDir, queueFile_eq, hinfo]
  dsimp only
  rw [if_neg (Nat.not_lt.mpr hlong), readQueue, hname, Option.map_some, Option.bind_some]
  cases hoffset : queueFile files d offsetFile with
  | none => rfl
  | some offset =>
    dsimp only
    rw [if_pos (Nat.lt_of_not_le fun hle => hno ⟨offset, hoffset, hle⟩)]

/-- The queue in the directory has the first subscriber of the file. -/
theorem readQueueDir_subscribed (h : Created files .queue q.queueName) (hq : Storable q)
    (hoffset : HasOffset files q.queueName)
    (hfile : queueFile files q.queueName subscribeFile = some (subscribeBody q)) :
    ∃ q', q'.queueName = q.queueName ∧ q'.confirmLevel = q.confirmLevel ∧
      q'.subscribeConsumers = q.subscribeConsumers.take 1 ∧
      readQueueDir files q.queueName = if 247 < q.subscribeConsumers.length then none
        else some (some (if q.subscribeConsumers = [] then some q.queueName else none, q')) := by
  obtain ⟨info, hinfo, hlong, hname⟩ := h.info
  obtain ⟨offset, hoffset, hwhole⟩ := hoffset
  let pMsgQueue : MessageQueue :=
    { queueName := q.queueName
      priority := readShort (Mem.ofBytes info) 32
      durable := readBool (Mem.ofBytes info) 34
      autoDel := readBool (Mem.ofBytes info) 35
      durableIndex := readInt (Mem.ofBytes offset) 0 + 1 }
  have hread := @readSubscribers_body _ q pMsgQueue h.isName hq rfl
  refine ⟨{ pMsgQueue with
    confirmLevel := q.confirmLevel
    subscribeConsumers := q.subscribeConsumers.take 1 }, rfl, rfl, rfl, ?_⟩
  rw [readQueueDir, hoffset, hfile, queueFile_eq, hinfo]
  dsimp only
  rw [if_neg (Nat.not_lt.mpr hlong), readQueue, hname, Option.map_some, Option.bind_some,
    if_neg (Nat.not_lt.mpr hwhole)]
  refine (congrArg (Option.map some) hread).trans ?_
  rw [apply_ite (Option.map some)]
  rfl

end Directory

/-! ## The restart -/

section Restart

/-- A durable queue with any subscribers that are no duplicates, up to the client limit. -/
structure DurableQueue (files : FileSystem) (q : MessageQueue) : Prop where
  created : Created files .queue q.queueName
  nodup : q.subscribeConsumers.Nodup
  few : q.subscribeConsumers.length ≤ 1000
  ids : ∀ c ∈ q.subscribeConsumers, FitsInt 4 c
  level : q.confirmLevel < 2 ^ 8

/-- Subscribers and confirm level are back, and the queue is in the map where it belongs. -/
def Resubscribed (st : LogicServer) (q : MessageQueue) : Prop :=
  ∃ id q', st.queues id = some q' ∧ q'.subscribeConsumers = q.subscribeConsumers ∧
    q'.confirmLevel = q.confirmLevel ∧
    st.subcribeQueues.lookup q.queueName = (if q.subscribeConsumers = [] then none else some id) ∧
    st.unSubcribeQueues.lookup q.queueName = if q.subscribeConsumers = [] then some id else none

/-- `SerializeSubcribeToString` as the handlers call it.  The flag tells whether a subscriber has
come or gone. -/
def serializeSubscribers (r : MessageQueue × Bool) : Option Packed :=
  r.1.serializeSubcribeToString zeroed maxClintPackageLength r.2

variable {s : PersistenceServer} {st : LogicServer} {qs : List (MessageQueue × Bool)}
  {q : MessageQueue}

/-- Up to the client limit the packet is not too long. -/
theorem serializeSubscribers_carries (bIsCreate : Bool) (hn : IsName q.queueName)
    (hplain : Plain q.queueName) (hfew : q.subscribeConsumers.length ≤ 1000) :
    ∃ packed, serializeSubscribers (q, bIsCreate) = some packed ∧
      PersistenceServer.Carries packed.sent (.subscribe q.queueName (subscribeBody q)) := by
  have hlen := length_subscribeBody q
  have hmax : maxClintPackageLength = 11264 := rfl
  have horder : subscribeOrder q = .subscribe q.queueName (subscribeBody q) :=
    if_pos (by omega)
  have hsome : (q.serializeSubcribeToString zeroed maxClintPackageLength bIsCreate).isSome := by
    have hsize : ∀ iLen, size (q.subcribeFields iLen bIsCreate) =
        39 + 4 * q.subscribeConsumers.length := by
      intro iLen
      rw [MessageQueue.subcribeFields, size_append, size_map_writeInt]
      simp only [size_cons, size_nil, writeUShort, writeString, writeByte, maxNameLength]
    unfold MessageQueue.serializeSubcribeToString
    dsimp only
    split
    · rfl
    · rw [if_neg (by rw [hsize]; omega)]
      rfl
  obtain ⟨packed, hpacked⟩ := Option.isSome_iff_exists.mp hsome
  have hcarries := carries_subscribers hn hplain hpacked
  rw [horder] at hcarries
  exact ⟨packed, hpacked, hcarries⟩

/-- Every directory of a queue belongs to `qs`, or is read without a fault. -/
structure Prepared (s : PersistenceServer) (qs : List (MessageQueue × Bool)) : Prop where
  durable : ∀ r ∈ qs, DurableQueue s.files r.1
  names : (qs.map fun r => r.1.queueName).Nodup
  others : ∀ d ∈ queueDirs s.files, (∀ r ∈ qs, r.1.queueName ≠ d) →
    PersistenceServer.Stands s.files .queue d ∧ Named s.files d

/-- What `OnInitQueue` finds. -/
abbrev SubscribersStored (qs : List (MessageQueue × Bool)) (files files' : FileSystem) : Prop :=
  Stored .queue subscribeFile (fun r => r.1.queueName) (fun r => subscribeBody r.1) qs files files'

theorem Prepared.stored (h : Prepared s qs) :
    ∃ s', storeAll serializeSubscribers qs s = some s' ∧ SubscribersStored qs s.files s'.files := by
  refine storeAll_stored (by decide) h.names (fun r hr => (h.durable r hr).created.stands) ?_
  intro r hr
  have hq := h.durable r hr
  obtain ⟨packed, hpacked, hcarries⟩ :=
    serializeSubscribers_carries r.2 hq.created.isName hq.created.stands.plain hq.few
  exact ⟨packed, hpacked, fun s => acceptPacket_subscribe hcarries⟩

section Reading

variable {files : FileSystem} (h : Prepared s qs) (hstored : SubscribersStored qs s.files files)

include h hstored

theorem Prepared.created {r : MessageQueue × Bool} (hr : r ∈ qs) :
    Created files .queue r.1.queueName :=
  hstored.created (h.durable r hr).created (by decide)

theorem Prepared.hasOffset_iff {r : MessageQueue × Bool} (hr : r ∈ qs) :
    HasOffset files r.1.queueName ↔ HasOffset s.files r.1.queueName := by
  have hsame := hstored.dirFile_eq (h.durable r hr).created.stands
    (show Plain offsetFile by decide) (by decide)
  rw [HasOffset, HasOffset, queueFile_eq, queueFile_eq, hsame]

theorem Prepared.readQueueDir_none {r : MessageQueue × Bool} (hr : r ∈ qs)
    (hno : ¬ HasOffset s.files r.1.queueName) : readQueueDir files r.1.queueName = some none :=
  readQueueDir_of_no_offset (h.created hstored hr) (mt (h.hasOffset_iff hstored hr).mp hno)

/-- What is read in the directory of a queue. -/
theorem Prepared.reads {r : MessageQueue × Bool} (hr : r ∈ qs)
    (hoffset : HasOffset s.files r.1.queueName) :
    ∃ q', q'.queueName = r.1.queueName ∧ q'.confirmLevel = r.1.confirmLevel ∧
      q'.subscribeConsumers = r.1.subscribeConsumers.take 1 ∧
      readQueueDir files r.1.queueName = if 247 < r.1.subscribeConsumers.length then none
        else some (some
          (if r.1.subscribeConsumers = [] then some r.1.queueName else none, q')) := by
  have hcreated := h.created hstored hr
  have hq := h.durable r hr
  have hfew := hq.few
  refine readQueueDir_subscribed hcreated ⟨by omega, hq.ids, hq.level⟩
    ((h.hasOffset_iff hstored hr).mpr hoffset) ?_
  rw [queueFile_eq, dirFile_stands hcreated.stands (by decide)]
  exact hstored.stored r hr

/-- If the lists are not too long for the buffer, no directory is read with a fault. -/
theorem Prepared.named {d : Name} (hd : d ∈ queueDirs files)
    (hread : ∀ r ∈ qs, r.1.queueName = d → (readQueueDir files d).isSome) : Named files d := by
  by_cases hown : ∃ r ∈ qs, r.1.queueName = d
  · obtain ⟨r, hr, rfl⟩ := hown
    by_cases hoffset : HasOffset s.files r.1.queueName
    · obtain ⟨q', hname, -, -, heq⟩ := h.reads hstored hr hoffset
      have hsome := hread r hr rfl
      rw [heq] at hsome
      by_cases hmany : 247 < r.1.subscribeConsumers.length
      · rw [if_pos hmany] at hsome
        cases hsome
      · rw [if_neg hmany] at heq
        refine ⟨_, heq, ?_⟩
        intro r' hr'
        cases hr'
        refine ⟨hname, ?_⟩
        by_cases hempty : r.1.subscribeConsumers = []
        · exact Or.inr (if_pos hempty)
        · exact Or.inl (if_neg hempty)
    · refine ⟨none, h.readQueueDir_none hstored hr hoffset, ?_⟩
      intro r' hr'
      cases hr'
  · have hforeign : ∀ r ∈ qs, r.1.queueName ≠ d := fun r hr hsame => hown ⟨r, hr, hsame⟩
    obtain ⟨hstands, o, ho, hname⟩ := h.others d (hstored.listed.mp hd) hforeign
    refine ⟨o, ?_, hname⟩
    rw [readQueueDir_congr hstands hstored.dirs (hstored.foreign hforeign), ho]

end Reading

/-- The packets are stored, and the server that starts has every queue with its subscribers. -/
def Survive (qs : List (MessageQueue × Bool)) (s : PersistenceServer) (st : LogicServer) : Prop :=
  ∃ s' st', storeAll serializeSubscribers qs s = some s' ∧ st.onInitQueue s'.files = some st' ∧
    ∀ r ∈ qs, Resubscribed st' r.1

theorem lists_vacant (hempty : st.subcribeQueues = ∅ ∧ st.unSubcribeQueues = ∅) (d : Name) :
    Lists st d none := ⟨by rw [hempty.1]; rfl, by rw [hempty.2]; rfl⟩

/-- With a second subscriber, or without a message, the old queue does not come back. -/
theorem Survive.few (h : Prepared s qs)
    (hempty : st.subcribeQueues = ∅ ∧ st.unSubcribeQueues = ∅) (hsurvive : Survive qs s st) :
    ∀ r ∈ qs, HasOffset s.files r.1.queueName ∧ r.1.subscribeConsumers.length ≤ 1 := by
  obtain ⟨s', hstore, hstored⟩ := h.stored
  have hlisted : ∀ r ∈ qs, r.1.queueName ∈ queueDirs s'.files := fun r hr =>
    (h.created hstored hr).listed
  obtain ⟨s'', st', hstore', hinit, hall⟩ := hsurvive
  intro r hr
  cases hstore.symm.trans hstore'
  rw [onInitQueue, initQueueDirs_eq] at hinit
  have hreads := Loading.load_reads hinit
  obtain ⟨st'', hinit', hlists, -⟩ := Loading.load_lists register_registers
    (PersistenceServer.nodup_subDirs s'.files .queue)
    (fun d hd => h.named hstored hd fun _ _ _ => hreads d hd) fun d _ => lists_vacant hempty d
  cases hinit.symm.trans hinit'
  obtain ⟨id, q', hq', hsubscribers, -, hsub, hunsub⟩ := hall r hr
  have hoffset : HasOffset s.files r.1.queueName := by
    by_contra hno
    obtain ⟨hsub', hunsub'⟩ := hlists _ (hlisted r hr) none
      (h.readQueueDir_none hstored hr hno)
    rw [hsub'] at hsub
    rw [hunsub'] at hunsub
    by_cases hnone : r.1.subscribeConsumers = []
    · rw [if_pos hnone] at hunsub
      cases hunsub
    · rw [if_neg hnone] at hsub
      cases hsub
  refine ⟨hoffset, ?_⟩
  by_cases hnone : r.1.subscribeConsumers = []
  · rw [hnone]
    exact Nat.zero_le _
  · obtain ⟨q₁, -, -, hfirst, hread⟩ := h.reads hstored hr hoffset
    have hsome := hreads _ (hlisted r hr)
    rw [hread] at hsome
    by_cases hmany : 247 < r.1.subscribeConsumers.length
    · rw [if_pos hmany] at hsome
      cases hsome
    · rw [if_neg hmany, if_neg hnone] at hread
      obtain ⟨id₁, -, hq₁, hsub₁, -⟩ := hlists _ (hlisted r hr) _ hread
      rw [hsub₁, if_pos rfl, if_neg hnone] at hsub
      cases hsub
      cases hq₁.symm.trans hq'
      have hlen := congrArg List.length (hsubscribers.symm.trans hfirst)
      rw [List.length_take] at hlen
      omega

theorem survive_of_few (h : Prepared s qs)
    (hempty : st.subcribeQueues = ∅ ∧ st.unSubcribeQueues = ∅)
    (hall : ∀ r ∈ qs, HasOffset s.files r.1.queueName ∧ r.1.subscribeConsumers.length ≤ 1) :
    Survive qs s st := by
  obtain ⟨s', hstore, hstored⟩ := h.stored
  have hlisted : ∀ r ∈ qs, r.1.queueName ∈ queueDirs s'.files := fun r hr =>
    (h.created hstored hr).listed
  have hreads : ∀ r ∈ qs, ∃ q', q'.queueName = r.1.queueName ∧
      q'.confirmLevel = r.1.confirmLevel ∧
      q'.subscribeConsumers = r.1.subscribeConsumers ∧
      readQueueDir s'.files r.1.queueName = some (some
        (if r.1.subscribeConsumers = [] then some r.1.queueName else none, q')) := by
    intro r hr
    obtain ⟨hoffset, hone⟩ := hall r hr
    obtain ⟨q', hname, hlevel, hfirst, hread⟩ := h.reads hstored hr hoffset
    rw [if_neg (by omega)] at hread
    exact ⟨q', hname, hlevel, hfirst.trans (List.take_of_length_le hone), hread⟩
  have hread : ∀ r ∈ qs, (readQueueDir s'.files r.1.queueName).isSome := by
    intro r hr
    obtain ⟨q', -, -, -, hread⟩ := hreads r hr
    rw [hread]
    rfl
  obtain ⟨st', hinit, hlists, -⟩ := Loading.load_lists register_registers
    (PersistenceServer.nodup_subDirs s'.files .queue)
      (fun d hd => h.named hstored hd fun r hr hsame => hsame ▸ hread r hr)
        fun d _ => lists_vacant hempty d
  rw [← initQueueDirs_eq] at hinit
  refine ⟨s', st', hstore, hinit, ?_⟩
  intro r hr
  obtain ⟨q', -, hlevel, hsubscribers, hread⟩ := hreads r hr
  obtain ⟨id, -, hq', hsub, hunsub⟩ := hlists _ (hlisted r hr) _ hread
  refine ⟨id, q', hq', hsubscribers, hlevel, ?_, ?_⟩
  · rw [hsub]
    split <;> simp
  · rw [hunsub]
    split <;> simp

/-- Subscriptions survive if every queue has had a message and has at most one subscriber. -/
theorem subscriptions_survive_iff (h : Prepared s qs)
    (hempty : st.subcribeQueues = ∅ ∧ st.unSubcribeQueues = ∅) : Survive qs s st ↔
      ∀ r ∈ qs, HasOffset s.files r.1.queueName ∧ r.1.subscribeConsumers.length ≤ 1 :=
  ⟨Survive.few h hempty, survive_of_few h hempty⟩

end Restart

end Model

section Runs

attribute [local instance] Platform.plain

/-- `info.bin` of a durable queue. -/
def queueInfo : Bytes := image [writeName [113], writeShort 0, writeBool true, writeBool false]

/-- One durable queue to which a message was published. -/
def oneDurable : FileSystem :=
  put (put (PersistenceServer.oneQueue [113]) (fileNode [113] infoFile) queueInfo)
    (fileNode [113] offsetFile) (beInt 4 0)

def subscribedBy (subscribers : List Int) : MessageQueue :=
  { queueName := [113], durable := true, confirmLevel := 1, subscribeConsumers := subscribers }

theorem created_oneDurable : Created oneDurable .queue [113] := by
  have hready := (PersistenceServer.fresh_oneQueue (show Plain [113] by decide)).ready
  have hfirst := sameDirs_put (hready.file infoFile) queueInfo
  have hsecond := sameDirs_put ((hready.congr hfirst).file offsetFile) (beInt 4 0)
  have hstands : PersistenceServer.Stands (PersistenceServer.oneQueue [113]) .queue [113] :=
    ⟨hready.plain, hready.base, hready.queue, hready.file⟩
  exact ⟨(hstands.congr hfirst).congr hsecond, queueInfo, by decide +kernel, by decide, by decide⟩

theorem prepared_oneDurable {subscribers : List Int} (hnodup : subscribers.Nodup)
    (hfew : subscribers.length ≤ 1000) (hids : ∀ c ∈ subscribers, FitsInt 4 c) :
    Prepared { files := oneDurable } [(subscribedBy subscribers, true)] := by
  refine ⟨?_, List.nodup_singleton _, ?_⟩
  · intro r hr
    cases List.mem_singleton.mp hr
    exact ⟨created_oneDurable, hnodup, hfew, hids, show 1 < 2 ^ 8 by decide⟩
  · intro d hd hother
    have honly : queueDirs oneDurable = [[113]] := by decide
    rw [honly] at hd
    exact absurd (List.mem_singleton.mp hd).symm (hother _ List.mem_cons_self)

theorem hasOffset_oneDurable : HasOffset oneDurable [113] :=
  ⟨beInt 4 0, by decide +kernel, by decide⟩

/-- One subscriber comes back. -/
theorem subscriptions_survive_one :
    Survive [(subscribedBy [7], true)] { files := oneDurable } (start none none) := by
  refine (subscriptions_survive_iff (prepared_oneDurable (by decide) (by decide) ?_)
    ⟨rfl, rfl⟩).mpr ?_
  · intro c hc
    cases List.mem_singleton.mp hc
    constructor <;> decide
  · intro r hr
    cases List.mem_singleton.mp hr
    exact ⟨hasOffset_oneDurable, by decide⟩

/-- Of two subscribers the second is lost. -/
theorem second_subscriber_lost :
    ¬ Survive [(subscribedBy [7, 8], true)] { files := oneDurable } (start none none) := by
  intro hsurvive
  have hids : ∀ c ∈ [(7 : Int), 8], FitsInt 4 c := by
    intro c hc
    rcases List.mem_cons.mp hc with rfl | hc
    · constructor <;> decide
    · cases List.mem_singleton.mp hc
      constructor <;> decide
  have hfew := Survive.few (prepared_oneDurable (by decide) (by decide) hids) ⟨rfl, rfl⟩
    hsurvive _ List.mem_cons_self
  exact absurd hfew.2 (by decide)

end Runs

end Wsmq.LogicServer
