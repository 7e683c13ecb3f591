import Wsmq.Lib.AssocTables
import Wsmq.PersistenceServer.Folders

/-!
# What the files say about exchanges and queues

Four files of a directory are read when the logic server starts.  The others belong to
groups of messages.
-/

namespace Wsmq.PersistenceServer
open Lib Lib.ByteString Lib.Packing Lib.Files

structure Metadata where
  info : Option Bytes := none
  offset : Option Bytes := none
  subscribe : Option Bytes := none
  binding : Option Bytes := none

def metadataOf (F : Folder) : Metadata :=
  ⟨F infoFile, F offsetFile, F subscribeFile, F bindingFile⟩

/-- What is kept about an exchange or a queue that has a directory. -/
def metadata (s : PersistenceServer) : Kind × Name → Option Metadata :=
  fun e => (disk s.files e).map metadataOf

/-- Queue and index of a record that was written. -/
def publishedOf : PersisEvent → Option (Name × Int)
  | .published n iDurableIndex _ _ => some (n, iDurableIndex)
  | .consumed _ _ => none

/-- The records that were written, in that order. -/
def publishedKeys (s : PersistenceServer) : List (Name × Int) := s.history.filterMap publishedOf

/-- What a packet asks for. -/
inductive Order
  | create (k : Kind) (n : Name) (info : Bytes)
  | remove (k : Kind) (n : Name)
  | subscribe (n : Name) (bytes : Bytes)
  | bind (n : Name) (bytes : Bytes)
  | publish (n : Name) (iDurableIndex : Int)
  /-- Something about single messages, or nothing. -/
  | other

namespace Order

/-- The metadata afterwards. -/
def apply (m : Kind × Name → Option Metadata) : Order → Kind × Name → Option Metadata
  | create k n info =>
    Function.update m (k, n) (some { (m (k, n)).getD {} with info := some info })
  | remove k n => Function.update m (k, n) none
  | subscribe n bytes => Function.update m (.queue, n)
      ((m (.queue, n)).map fun x => { x with subscribe := some bytes })
  | bind n bytes => Function.update m (.exchange, n)
      ((m (.exchange, n)).map fun x => { x with binding := some bytes })
  | publish n iDurableIndex => Function.update m (.queue, n)
      ((m (.queue, n)).map fun x => { x with offset := some (beInt 4 iDurableIndex) })
  | other => m

/-- The record that is written, if the queue has a directory. -/
def records (m : Kind × Name → Option Metadata) : Order → List (Name × Int)
  | publish n iDurableIndex => if (m (.queue, n)).isSome then [(n, iDurableIndex)] else []
  | _ => []

end Order

/-- The directories are where the server puts them, and its tables lead to them. -/
structure Orderly (s : PersistenceServer) : Prop where
  sound : Sound s
  tidy : Tidy s.files
  known : ∀ n m, s.msgQueueIndexFile.lookup n = some m → Plain n
  tail : ∀ n f, s.msgQueueTailFile.lookup n = some f →
    Plain n ∧ ∃ F, disk s.files (.queue, n) = some F ∧ (F (f ++ extData)).isSome

/-- What was asked for was done. -/
structure Obeys (o : Order) (s s' : PersistenceServer) : Prop where
  orderly : Orderly s'
  written : metadata s' = o.apply (metadata s)
  published : publishedKeys s' = publishedKeys s ++ o.records (metadata s)

variable {s s' : PersistenceServer} {k : Kind} {n f : Name}

/-! ## Groups -/

/-- The last byte tells names apart. -/
theorem append_ne {ext g : Bytes} (hext : ext ≠ []) (hlast : g.getLast? ≠ ext.getLast?)
    (f : Name) : f ++ ext ≠ g := by
  rintro rfl
  exact hlast (List.getLast?_append_of_ne_nil _ hext)

/-- No file of a group has a name that ends like `.bin`. -/
theorem groupFile_ne {ext g : Bytes} (hg : g.getLast? = some 110) (hext : IsExt ext) (f : Name) :
    f ++ ext ≠ g := by
  rcases hext with rfl | rfl | rfl
  · exact append_ne (by decide) (by rw [hg]; decide) f
  · exact append_ne (by decide) (by rw [hg]; decide) f
  · exact append_ne (by decide) (by rw [hg]; decide) f

theorem eq_of_dataFile {f g ext : Bytes} (hext : IsExt ext) (h : f ++ extData = g ++ ext) :
    f = g := by
  rcases hext with rfl | rfl | rfl
  · exact List.append_cancel_right h
  · exact absurd h.symm (append_ne (by decide)
      (by rw [List.getLast?_append_of_ne_nil _ (by decide)]; decide) g)
  · exact absurd h.symm (append_ne (by decide)
      (by rw [List.getLast?_append_of_ne_nil _ (by decide)]; decide) g)

theorem stem_of_fileName (hf : IsFileName f) : Stem f :=
  ⟨fun _ hext => plain_groupName hf hext, fun _ hext => groupFile_ne (by decide) hext f⟩

theorem Tidy.ready {fs : FileSystem} (ht : Tidy fs) (hn : Plain n)
    (hdir : IsDir fs (Kind.queue.base.child n)) : Ready fs n :=
  ⟨hn, ht.parent .queue n hdir, hdir, (ht.flat .queue n).noDirs⟩

/-- In the directory of a queue, only files of groups have changed. -/
structure InGroups (n : Name) (fs fs' : FileSystem) : Prop where
  inDir : InDir .queue n fs fs'
  kept : ∀ g, g.getLast? = some 110 →
    bytesAt fs' (fileNode n g) = bytesAt fs (fileNode n g)

theorem InGroups.metadata_eq {fs fs' : FileSystem} (h : InGroups n fs fs')
    (hdir : IsDir fs (Kind.queue.base.child n)) (e : Kind × Name) :
    (disk fs' e).map metadataOf = (disk fs e).map metadataOf := by
  rw [h.inDir.disk_eq hdir]
  by_cases he : e = (.queue, n)
  · subst he
    have hold : disk fs (.queue, n) = some fun g => bytesAt fs (fileNode n g) :=
      folderAt_of_isDir hdir
    rw [Function.update_self, hold, Option.map_some, Option.map_some]
    refine congrArg some ?_
    simp only [metadataOf, Metadata.mk.injEq]
    exact ⟨h.kept infoFile (by decide), h.kept offsetFile (by decide),
      h.kept subscribeFile (by decide), h.kept bindingFile (by decide)⟩
  · rw [Function.update_of_ne he]

theorem InDir.disk_other {fs fs' : FileSystem} (h : InDir k n fs fs')
    (hdir : IsDir fs (k.base.child n)) {e : Kind × Name} (he : e ≠ (k, n)) :
    disk fs' e = disk fs e := by
  rw [h.disk_eq hdir, Function.update_of_ne he]

/-- The files of the last group stay, or it is no longer the last. -/
theorem Orderly.inDir (h : Orderly s) (hs : Sound s') (hdir : IsDir s.files (queueNode n))
    (hin : InDir .queue n s.files s'.files)
    (hindex : s'.msgQueueIndexFile = s.msgQueueIndexFile)
    (htail : ∀ m g, s'.msgQueueTailFile.lookup m = some g →
      s.msgQueueTailFile.lookup m = some g ∧ (m = n →
        bytesAt s'.files (fileNode n (g ++ extData)) =
          bytesAt s.files (fileNode n (g ++ extData)))) : Orderly s' := by
  refine ⟨hs, hin.tidy h.tidy hdir, fun m l hl => h.known m l (hindex ▸ hl), fun m g hg => ?_⟩
  obtain ⟨hg, hdata⟩ := htail m g hg
  obtain ⟨hm, F, hF, hsome⟩ := h.tail m g hg
  refine ⟨hm, ?_⟩
  by_cases hmn : m = n
  · subst hmn
    refine ⟨_, folderAt_of_isDir ((hin.dirs _).mp hdir), ?_⟩
    rw [← folderAt_some hF] at hsome
    exact (congrArg Option.isSome (hdata rfl)).trans hsome
  · rw [hin.disk_other hdir fun he => hmn (congrArg Prod.snd he)]
    exact ⟨F, hF, hsome⟩

theorem dropGroup_inGroups (hready : Ready s.files n) (hf : IsFileName f) :
    InGroups n s.files (s.dropGroup n f).files ∧ ∀ g, g ≠ f →
      bytesAt (s.dropGroup n f).files (fileNode n (g ++ extData)) =
        bytesAt s.files (fileNode n (g ++ extData)) := by
  obtain ⟨hin, _, hother⟩ := dropGroup_ready hready (stem_of_fileName hf)
  refine ⟨⟨⟨hin.dirs, hin.other⟩, fun g hg => hother g fun ext hext => ?_⟩, fun g hg => ?_⟩
  · exact (groupFile_ne hg hext f).symm
  · exact hother _ fun ext hext hsame => hg (eq_of_dataFile hext hsame)

theorem tail_dropGroup {m g : Name} (h : (s.dropGroup n f).msgQueueTailFile.lookup m = some g) :
    s.msgQueueTailFile.lookup m = some g ∧ (m = n → g ≠ f) := by
  rw [dropGroup] at h
  dsimp only at h
  split at h
  · obtain ⟨hne, hold⟩ := AssocTables.lookup_erase_some h
    exact ⟨hold, fun hm => absurd hm hne⟩
  · next hno =>
    refine ⟨h, ?_⟩
    rintro rfl rfl
    exact hno h

theorem InGroups.trans {fs fs' fs'' : FileSystem} (h : InGroups n fs fs')
    (h' : InGroups n fs' fs'') : InGroups n fs fs'' :=
  ⟨⟨h.inDir.dirs.trans h'.inDir.dirs, fun p hp => (h'.inDir.other p hp).trans (h.inDir.other p hp)⟩,
    fun g hg => (h'.kept g hg).trans (h.kept g hg)⟩

theorem inGroups_put {fs : FileSystem} (hready : Ready fs n) {ext : Bytes} (hext : IsExt ext)
    (f : Name) (bytes : Bytes) : InGroups n fs (put fs (fileNode n (f ++ ext)) bytes) := by
  have hin := inQueue_put hready (f ++ ext) bytes
  refine ⟨⟨hin.dirs, hin.other⟩, fun g hg => ?_⟩
  rw [bytesAt_put_file, if_neg (groupFile_ne hg hext f).symm]

theorem publishedKeys_consumed (s : PersistenceServer) (n : Name) (i : Int) (files : FileSystem) :
    publishedKeys { s with files := files, history := s.history ++ [.consumed n i] } =
      publishedKeys s := by
  simp [publishedKeys, publishedOf]

/-- The `.consume` file of the group has got longer. -/
structure Noted (n f : Name) (pTemp : Bytes) (fs fs' : FileSystem) : Prop where
  inGroups : InGroups n fs fs'
  consume : bytesAt fs' (fileNode n (f ++ extConsume)) =
    some ((bytesAt fs (fileNode n (f ++ extConsume))).getD [] ++ pTemp)
  other : ∀ g, g ≠ f ++ extConsume → bytesAt fs' (fileNode n g) = bytesAt fs (fileNode n g)

/-- The index is recorded, and the group dropped if it then has as many records as entries. -/
theorem consumeIn_cases (hready : Ready s.files n) (hf : IsFileName f) (iIndex : Int)
    (pTemp : Bytes) : ∃ files, Noted n f pTemp s.files files ∧
      ∃ s₂ : PersistenceServer,
        s₂ = { s with files := files, history := s.history ++ [.consumed n iIndex] } ∧
        ((s.consumeIn n f iIndex pTemp).2 = s₂ ∨
          (s.consumeIn n f iIndex pTemp).2 = s₂.dropGroup n f ∧
            ∃ index, bytesAt s.files (fileNode n (f ++ extIndex)) = some index ∧
              ((bytesAt s.files (fileNode n (f ++ extConsume))).getD [] ++ pTemp).length / 4 =
                index.length / 8) := by
  have hext : IsExt extConsume := Or.inr (Or.inr rfl)
  have hconsume := plain_groupName hf hext
  have hindex := plain_groupName hf (Or.inr (Or.inl rfl) : IsExt extIndex)
  let node := fileNode n (f ++ extConsume)
  let fs₁ := put s.files node ((bytesAt s.files node).getD [])
  let fs₂ := put fs₁ node ((bytesAt fs₁ node).getD [] ++ pTemp)
  have hin₁ : InGroups n s.files fs₁ := inGroups_put hready hext f _
  have hready₁ : Ready fs₁ n := hready.congr hin₁.inDir.dirs
  have hin₂ : InGroups n s.files fs₂ := hin₁.trans (inGroups_put hready₁ hext f _)
  have hready₂ : Ready fs₂ n := hready.congr hin₂.inDir.dirs
  have hnoted : bytesAt fs₂ node = some ((bytesAt s.files node).getD [] ++ pTemp) := by
    simp only [fs₂, fs₁, bytesAt_put, if_true, Option.getD_some]
  have hsame : ∀ g, g ≠ f ++ extConsume →
      bytesAt fs₂ (fileNode n g) = bytesAt s.files (fileNode n g) := by
    intro g hg
    simp only [fs₂, fs₁, node, bytesAt_put, fileNode_eq_iff, hg, if_false]
  have hopen : openFile s.files (groupPath n f extConsume) false = some fs₁ :=
    openFile_ready hready hconsume false
  have happend : appendFile fs₁ (groupPath n f extConsume) pTemp = fs₂ :=
    appendFile_ready hready₁ hconsume pTemp
  have hread : readFile fs₂ (groupPath n f extConsume) = bytesAt fs₂ node :=
    readFile_ready hready₂ hconsume
  have hread' : readFile fs₂ (groupPath n f extIndex) = _ := readFile_ready hready₂ hindex
  rw [hsame _ (ext_ne f (by decide))] at hread'
  refine ⟨fs₂, ⟨hin₂, hnoted, hsame⟩, _, rfl, ?_⟩
  rw [consumeIn]
  dsimp only
  rw [hopen]
  dsimp only
  rw [happend, hread, hread', hnoted]
  cases hold : bytesAt s.files (fileNode n (f ++ extIndex)) with
  | none => exact Or.inl rfl
  | some index =>
    dsimp only
    split
    · next hfull => exact Or.inr ⟨rfl, index, rfl, hfull⟩
    · exact Or.inl rfl

theorem consumeIn_orderly (h : Orderly s) (hn : Plain n) (hdir : IsDir s.files (queueNode n))
    (hf : IsFileName f) (iIndex : Int) (pTemp : Bytes) :
    Orderly (s.consumeIn n f iIndex pTemp).2 ∧
      InGroups n s.files (s.consumeIn n f iIndex pTemp).2.files ∧
        publishedKeys (s.consumeIn n f iIndex pTemp).2 = publishedKeys s := by
  have hready := h.tidy.ready hn hdir
  have hsound : Sound (s.consumeIn n f iIndex pTemp).2 :=
    ⟨(consumeIn_edits (zero_dir .queue hn.2.2.2.2) hf iIndex pTemp).proper h.sound.files,
      h.sound.names.consumeIn n f iIndex pTemp⟩
  obtain ⟨files, hnoted, s₂, hs₂, hrun⟩ := consumeIn_cases hready hf iIndex pTemp
  have hin₂ := hnoted.inGroups
  have hdata : ∀ g, bytesAt files (fileNode n (g ++ extData)) =
      bytesAt s.files (fileNode n (g ++ extData)) := by
    intro g
    refine hnoted.other _ fun hsame => ?_
    exact absurd hsame.symm (append_ne (by decide)
      (by rw [List.getLast?_append_of_ne_nil _ (by decide)]; decide) f)
  have hkeys : publishedKeys s₂ = publishedKeys s := by
    rw [hs₂]
    exact publishedKeys_consumed s n iIndex files
  rcases hrun with hrun | ⟨hrun, -⟩
  · rw [hrun] at hsound ⊢
    subst hs₂
    exact ⟨h.inDir hsound hdir hin₂.inDir rfl fun m g hg => ⟨hg, fun _ => hdata g⟩, hin₂, hkeys⟩
  · rw [hrun] at hsound ⊢
    have hready₂ : Ready s₂.files n := by
      rw [hs₂]
      exact hready.congr hin₂.inDir.dirs
    obtain ⟨hin₃, hkept⟩ := dropGroup_inGroups hready₂ hf
    subst hs₂
    have hin := hin₂.trans hin₃
    refine ⟨h.inDir hsound hdir hin.inDir rfl fun m g hg => ?_, hin, hkeys⟩
    obtain ⟨hold, hne⟩ := tail_dropGroup hg
    exact ⟨hold, fun hm => (hkept g (hne hm)).trans (hdata g)⟩

theorem Orderly.obeys (h : Orderly s) : Obeys .other s s := ⟨h, rfl, (List.append_nil _).symm⟩

/-- A packet that is looked at finds the group of its index in a queue with a directory. -/
theorem onConsumeMessage_cases (h : Orderly s) {ipBuffer : Mem} {r : Int × PersistenceServer}
    (hrun : s.onConsumeMessage ipBuffer = some r) :
    r.2 = s ∨ ∃ n f indexFiles, readName ipBuffer 0 = some n ∧
      s.msgQueueIndexFile.lookup n = some indexFiles ∧
      indexFiles.lookup (readInt ipBuffer maxNameLength) = some f ∧ Plain n ∧ IsFileName f ∧
      IsDir s.files (queueNode n) ∧ r = s.consumeIn n f (readInt ipBuffer maxNameLength)
        (ipBuffer.read maxNameLength 4) := by
  obtain ⟨n, hname, rfl⟩ := Option.map_eq_some_iff.mp hrun
  dsimp only
  split
  · exact Or.inl rfl
  · next hexists =>
    split
    · exact Or.inl rfl
    · next m hm =>
      split
      · exact Or.inl rfl
      · next f hf =>
        have hn := h.known n m hm
        have hdir : IsDir s.files (queueNode n) :=
          (fileExists_dir_iff (k := .queue) h.tidy hn).mp (not_not.mp hexists)
        exact Or.inr ⟨n, f, m, hname, hm, hf, hn, h.sound.names.index n m _ f hm hf, hdir, rfl⟩

/-- What is consumed, in whatever queue, leaves the metadata alone. -/
theorem onConsumeMessage_obeys (h : Orderly s) {ipBuffer : Mem} {r : Int × PersistenceServer}
    (hrun : s.onConsumeMessage ipBuffer = some r) : Obeys .other s r.2 := by
  rcases onConsumeMessage_cases h hrun with hsame |
    ⟨n, f, _, _, _, _, hn, hf, hdir, rfl⟩
  · rw [hsame]
    exact h.obeys
  · obtain ⟨horderly, hin, hkeys⟩ := consumeIn_orderly h hn hdir hf
      (readInt ipBuffer maxNameLength) (ipBuffer.read maxNameLength 4)
    exact ⟨horderly, funext fun e => hin.metadata_eq hdir e,
      hkeys.trans (List.append_nil _).symm⟩

/-! ## Publishing -/

/-- Without a directory nothing is written. -/
theorem obeys_publish_none (h : Orderly s) (hnone : metadata s (.queue, n) = none)
    (iIndex : Int) : Obeys (.publish n iIndex) s s := by
  refine ⟨h, ?_, ?_⟩
  · rw [Order.apply, hnone, Option.map_none, ← hnone, Function.update_eq_self]
  · rw [Order.records, hnone]
    exact (List.append_nil _).symm

/-- The group is chosen: `s₀` is the server with the new entries in its tables. -/
theorem appendRecord_obeys (h : Orderly s) (hn : Plain n) (hdir : IsDir s.files (queueNode n))
    (hf : IsFileName f) (s₀ : PersistenceServer) (hfiles : s₀.files = s.files)
    (hhistory : s₀.history = s.history) (hnames : Names s₀)
    (hknown : ∀ m l, s₀.msgQueueIndexFile.lookup m = some l → Plain m)
    (htail : ∀ m g, s₀.msgQueueTailFile.lookup m = some g →
      m = n ∧ g = f ∨ m ≠ n ∧ s.msgQueueTailFile.lookup m = some g)
    (r : Bytes) (iIndex iWritePos : Int) :
    Obeys (.publish n iIndex) s (s₀.appendRecord r n iIndex f iWritePos).2 := by
  have hready : Ready s₀.files n := hfiles ▸ h.tidy.ready hn hdir
  obtain ⟨files, happended, hrun⟩ :=
    appendRecord_ready hready (stem_of_fileName hf) r iIndex iWritePos
  rw [hfiles] at happended
  have hin : InDir .queue n s.files files := ⟨happended.inQueue.dirs, happended.inQueue.other⟩
  have hold : disk s.files (.queue, n) = some fun g => bytesAt s.files (fileNode n g) :=
    folderAt_of_isDir hdir
  have hmetadata : metadata s (.queue, n) = some _ := congrArg (Option.map metadataOf) hold
  have hkept : ∀ g, g.getLast? = some 110 → g ≠ offsetFile →
      bytesAt files (fileNode n g) = bytesAt s.files (fileNode n g) := fun g hg hne =>
    happended.other g (groupFile_ne hg (Or.inl rfl) f).symm
      (groupFile_ne hg (Or.inr (Or.inl rfl)) f).symm hne
  rw [hrun]
  refine ⟨⟨⟨?_, hnames.congr rfl rfl⟩, hin.tidy h.tidy hdir, hknown, fun m g hg => ?_⟩, ?_, ?_⟩
  · have hproper : Proper s₀.files := by
      rw [hfiles]
      exact h.sound.files
    have hedits := appendRecord_edits (s := s₀) (zero_dir .queue hn.2.2.2.2) hf r iIndex iWritePos
    rw [hrun] at hedits
    exact hedits.proper hproper
  · rcases htail m g hg with ⟨rfl, rfl⟩ | ⟨hm, hold⟩
    · refine ⟨hn, _, folderAt_of_isDir ((hin.dirs _).mp hdir), ?_⟩
      exact Option.isSome_of_eq_some happended.data
    · obtain ⟨hplain, F, hF, hsome⟩ := h.tail m g hold
      refine ⟨hplain, F, ?_, hsome⟩
      rw [hin.disk_other hdir fun he => hm (congrArg Prod.snd he)]
      exact hF
  · funext e
    show (disk files e).map metadataOf = _
    rw [hin.disk_eq hdir, Order.apply, hmetadata]
    by_cases he : e = (.queue, n)
    · subst he
      rw [Function.update_self, Function.update_self]
      refine congrArg some ?_
      simp only [metadataOf, Metadata.mk.injEq]
      exact ⟨hkept infoFile (by decide) (by decide), happended.offset,
        hkept subscribeFile (by decide) (by decide), hkept bindingFile (by decide) (by decide)⟩
    · rw [Function.update_of_ne he, Function.update_of_ne he]
      rfl
  · rw [Order.records, hmetadata]
    simp [publishedKeys, publishedOf, hhistory]

theorem onPublishMessage_obeys (h : Orderly s) (hn : Plain n) (r : Bytes) (iIndex : Int) :
    ∃ o, s.onPublishMessage r n iIndex = some o ∧ Obeys (.publish n iIndex) s o.2 := by
  have hiff := fileExists_dir_iff (k := .queue) h.tidy hn
  by_cases hdir : IsDir s.files (queueNode n)
  · have hexists : fileExists s.files (queueDir n) = true := hiff.mpr hdir
    have hname := isFileName_convert iIndex
    have hnew := appendRecord_obeys h hn hdir hname (s.createGroup n iIndex) rfl rfl
      (h.sound.names.createGroup n hname) (fun m l hl => ?_) (fun m g hg => ?_) r iIndex 0
    · rw [onPublishMessage, if_neg (not_not.mpr hexists)]
      cases htail : s.msgQueueTailFile.lookup n with
      | none => exact ⟨_, rfl, hnew⟩
      | some g =>
        obtain ⟨_, F, hF, hsome⟩ := h.tail n g htail
        obtain ⟨data, hdata⟩ := Option.isSome_iff_exists.mp hsome
        have hg := h.sound.names.tail n g htail
        have hread : readFile s.files (groupPath n g extData) = some data := by
          rw [groupPath, readFile_ready (h.tidy.ready hn hdir) (plain_groupName hg (Or.inl rfl))]
          exact (folderAt_some hF _).trans hdata
        dsimp only
        rw [hread, Option.map_some]
        split
        · exact ⟨_, rfl, hnew⟩
        · refine ⟨_, rfl, ?_⟩
          refine appendRecord_obeys h hn hdir hg (s.insertIndex n iIndex g) rfl rfl
            (h.sound.names.insertIndex n iIndex hg) (fun m l hl => ?_) (fun m g' hg' => ?_) r
            iIndex _
          · rcases AssocTables.lookup_insert_some hl with ⟨rfl, _⟩ | ⟨_, hold⟩
            · exact hn
            · exact h.known m l hold
          · by_cases hm : m = n
            · subst hm
              exact Or.inl ⟨rfl, Option.some.inj (hg'.symm.trans htail)⟩
            · exact Or.inr ⟨hm, hg'⟩
    · rcases AssocTables.lookup_insert_some hl with ⟨rfl, _⟩ | ⟨_, hold⟩
      · exact hn
      · exact h.known m l hold
    · rcases AssocTables.lookup_insert_some hg with ⟨rfl, rfl⟩ | ⟨hm, hold⟩
      · exact Or.inl ⟨rfl, rfl⟩
      · exact Or.inr ⟨hm, hold⟩
  · have hnone : metadata s (.queue, n) = none := by
      rw [metadata, disk_eq_none_iff.mpr hdir, Option.map_none]
    refine ⟨(error, s), if_pos fun hexists => hdir (hiff.mp hexists), ?_⟩
    exact obeys_publish_none h hnone iIndex

/-! ## Exchanges and queues -/

theorem metadata_update {fs fs' : FileSystem} {e : Kind × Name} {F : Option Folder}
    (h : disk fs' = Function.update (disk fs) e F) :
    (fun x => (disk fs' x).map metadataOf) =
      Function.update (fun x => (disk fs x).map metadataOf) e (F.map metadataOf) := by
  funext x
  rw [h]
  by_cases hx : x = e
  · subst hx
    rw [Function.update_self, Function.update_self]
  · rw [Function.update_of_ne hx, Function.update_of_ne hx]

/-- One file that belongs to no group is written. -/
theorem Orderly.put (h : Orderly s) {files : FileSystem} {F : Folder} {bytes : Option Bytes}
    (hs : Sound { s with files := files }) (ht : Tidy files) (hf : f.getLast? = some 110)
    (hdisk : disk files = Function.update (disk s.files) (k, n)
      (some (Function.update F f bytes)))
    (hF : ∀ F', disk s.files (k, n) = some F' → F' = F) : Orderly { s with files := files } := by
  refine ⟨hs, ht, h.known, fun m g hg => ?_⟩
  obtain ⟨hm, F', hF', hsome⟩ := h.tail m g hg
  refine ⟨hm, ?_⟩
  show ∃ F₁, disk files (.queue, m) = some F₁ ∧ _
  rw [hdisk]
  by_cases he : (Kind.queue, m) = (k, n)
  · rw [he] at hF' ⊢
    rw [Function.update_self]
    refine ⟨_, rfl, ?_⟩
    rw [Function.update_of_ne (groupFile_ne hf (Or.inl rfl) g), ← hF F' hF']
    exact hsome
  · rw [Function.update_of_ne he]
    exact ⟨F', hF', hsome⟩

theorem createInfo_obeys (h : Orderly s) (k : Kind) (hn : Plain n) (bytes : Bytes) :
    Obeys (.create k n bytes) s (s.createInfo (k.dir n) bytes).2 := by
  obtain ⟨files, hrun, ht, hdisk⟩ := createInfo_disk (k := k) h.tidy hn bytes
  have hs : Sound { s with files := files } := by
    have hchanges := createInfo_changes h.sound (zero_dir k hn.2.2.2.2) bytes
    rw [hrun] at hchanges
    exact hchanges.sound h.sound
  rw [hrun]
  refine ⟨h.put hs ht (by decide) hdisk fun F hF => ?_, ?_, (List.append_nil _).symm⟩
  · rw [hF, Option.getD_some]
  · refine (metadata_update hdisk).trans (congrArg (Function.update (metadata s) (k, n)) ?_)
    rw [Option.map_some]
    refine congrArg some ?_
    cases hF : disk s.files (k, n) with
    | none =>
      have hnone : metadata s (k, n) = none := congrArg (Option.map metadataOf) hF
      rw [hnone]
      rfl
    | some F =>
      have hsome : metadata s (k, n) = some (metadataOf F) :=
        congrArg (Option.map metadataOf) hF
      rw [hsome]
      rfl

/-- `set` is what the new file means for the metadata, which `o` asks for. -/
theorem rewrite_obeys (h : Orderly s) (k : Kind) (hn : Plain n) (hf : Plain f)
    (hlast : f.getLast? = some 110) (bytes : Bytes) {set : Metadata → Metadata}
    (hset : ∀ F : Folder, metadataOf (Function.update F f (some bytes)) = set (metadataOf F))
    {o : Order} (happly : o.apply (metadata s) =
      Function.update (metadata s) (k, n) ((metadata s (k, n)).map set))
    (hrecords : o.records (metadata s) = []) : Obeys o s (s.rewrite (k.dir n) f bytes).2 := by
  have hdone := rewrite_disk (s := s) (k := k) h.tidy hn hf bytes
  cases hF : disk s.files (k, n) with
  | none =>
    rw [hF] at hdone
    have hnone : metadata s (k, n) = none := congrArg (Option.map metadataOf) hF
    rw [hnone, Option.map_none, ← hnone, Function.update_eq_self] at happly
    rw [hdone]
    exact ⟨h, happly.symm, by rw [hrecords, List.append_nil]⟩
  | some F =>
    rw [hF] at hdone
    obtain ⟨files, hrun, ht, hdisk⟩ := hdone
    have hs : Sound { s with files := files } := by
      have hchanges := rewrite_changes h.sound (zero_dir k hn.2.2.2.2) hf bytes
      rw [hrun] at hchanges
      exact hchanges.sound h.sound
    have hsome : metadata s (k, n) = some (metadataOf F) := congrArg (Option.map metadataOf) hF
    rw [hsome] at happly
    rw [hrun]
    refine ⟨h.put hs ht hlast hdisk fun F' hF' => ?_, ?_, by rw [hrecords, List.append_nil]; rfl⟩
    · exact Option.some.inj (hF'.symm.trans hF)
    · rw [happly]
      refine (metadata_update hdisk).trans (congrArg (Function.update (metadata s) (k, n)) ?_)
      exact congrArg some (hset F)

theorem tail_removeInfo (s : PersistenceServer) (dir : Bytes) :
    (s.removeInfo dir).msgQueueTailFile = s.msgQueueTailFile := by
  rw [removeInfo]
  split
  · rfl
  · rfl

/-- The directory is removed; what `m_mMsgQueueTailFile` still knows is elsewhere. -/
theorem removeInfo_obeys (h : Orderly s) (k : Kind) (hn : Plain n)
    (tail : AList fun _ : Name => Name)
    (htail : ∀ m g, tail.lookup m = some g →
      s.msgQueueTailFile.lookup m = some g ∧ (Kind.queue, m) ≠ (k, n)) :
    Obeys (.remove k n) s { s.removeInfo (k.dir n) with msgQueueTailFile := tail } := by
  obtain ⟨files, hrun, ht, hdisk⟩ := removeInfo_disk (k := k) h.sound.files h.tidy hn
  have hs : Sound { s with files := files } := by
    have hchanges := removeInfo_changes h.sound (k.dir n)
    rw [hrun] at hchanges
    exact hchanges.sound h.sound
  rw [hrun]
  refine ⟨⟨⟨hs.files, ?_⟩, ht, h.known, fun m g hg => ?_⟩, metadata_update hdisk,
    (List.append_nil _).symm⟩
  · exact ⟨fun m g hg => h.sound.names.tail m g (htail m g hg).1, h.sound.names.index⟩
  · obtain ⟨hold, hne⟩ := htail m g hg
    obtain ⟨hm, F, hF, hsome⟩ := h.tail m g hold
    refine ⟨hm, F, ?_, hsome⟩
    show disk files (.queue, m) = some F
    rw [hdisk, Function.update_of_ne hne]
    exact hF

/-! ## Packets -/

/-- The packet begins with its length. -/
structure OwnPacket (pBuff : Bytes) : Prop where
  long : 4 ≤ pBuff.length
  length : readUShort (Mem.ofBytes pBuff) 0 = pBuff.length

theorem processPacket_own {pBuff : Bytes} (h : OwnPacket pBuff) (s : PersistenceServer) :
    s.processPacket pBuff = (s.dispatch pBuff).map Prod.snd := by
  have hlong := h.long
  rw [processPacket, if_neg (by omega), if_neg (not_not.mpr h.length)]

/-- The bytes behind the head of a packet. -/
def bodyOf (pBuff : Bytes) : Bytes := (packetBody pBuff).read 0 (pBuff.length - 4)

def createCmd : Kind → Nat
  | .exchange => cmdCreateExcnange
  | .queue => cmdCreateQueue

/-- The packet asks for the order. -/
inductive Carries (pBuff : Bytes) : Order → Prop
  | create (k : Kind) (n : Name) (hp : OwnPacket pBuff) (hcmd : packetCmd pBuff = createCmd k)
      (hname : readName (packetBody pBuff) 0 = some n) (hn : Plain n) :
      Carries pBuff (.create k n (bodyOf pBuff))
  | remove (k : Kind) (n : Name) (hp : OwnPacket pBuff) (hcmd : packetCmd pBuff = deleteCmd k)
      (hname : readName (packetBody pBuff) 0 = some n) (hn : Plain n) :
      Carries pBuff (.remove k n)
  | subscribe (n : Name) (hp : OwnPacket pBuff)
      (hcmd : packetCmd pBuff = cmdCreateSubcribe ∨ packetCmd pBuff = cmdCancelSubcribe)
      (hname : readName (packetBody pBuff) 0 = some n) (hn : Plain n) :
      Carries pBuff (.subscribe n (bodyOf pBuff))
  | bind (n : Name) (hp : OwnPacket pBuff) (hcmd : packetCmd pBuff = cmdCreateBinding)
      (hname : readName (packetBody pBuff) 0 = some n) (hn : Plain n) :
      Carries pBuff (.bind n (bodyOf pBuff))
  | publish (n : Name) (hp : OwnPacket pBuff) (hcmd : packetCmd pBuff = cmdCreatePublish)
      (hname : readName (packetBody pBuff) 0 = some n) (hn : Plain n) :
      Carries pBuff (.publish n (readInt (Mem.ofBytes pBuff) (4 + maxNameLength)))
  | consume (n : Name) (hp : OwnPacket pBuff) (hcmd : packetCmd pBuff = cmdCreateRecv ∨
      packetCmd pBuff = cmdServerPushMessage ∨ packetCmd pBuff = cmdClientAckMessage)
      (hname : readName (packetBody pBuff) 0 = some n) : Carries pBuff .other
  /-- The length is another one. -/
  | ignored (h : readUShort (Mem.ofBytes pBuff) 0 ≠ pBuff.length) : Carries pBuff .other

theorem process_of_dispatch {pBuff : Bytes} {o : Order} {r : Int × PersistenceServer}
    (hp : OwnPacket pBuff) (hrun : s.dispatch pBuff = some r) (h : Obeys o s r.2) :
    ∃ s', s.processPacket pBuff = some s' ∧ Obeys o s s' :=
  ⟨r.2, by rw [processPacket_own hp, hrun, Option.map_some], h⟩

theorem processPacket_subscribe {pBuff bytes : Bytes} (hc : Carries pBuff (.subscribe n bytes))
    (s : PersistenceServer) :
    s.processPacket pBuff = some (s.rewrite (queueDir n) subscribeFile bytes).2 := by
  cases hc with
  | subscribe _ hp hcmd hname hn =>
    rw [processPacket_own hp]
    rcases hcmd with hcmd | hcmd
    · simp only [dispatch, hcmd, onSubcribe, hname]
      rfl
    · simp only [dispatch, hcmd, onSubcribe, hname]
      rfl

theorem processPacket_bind {pBuff bytes : Bytes} (hc : Carries pBuff (.bind n bytes))
    (s : PersistenceServer) :
    s.processPacket pBuff = some (s.rewrite (exchangeDir n) bindingFile bytes).2 := by
  cases hc with
  | bind _ hp hcmd hname hn =>
    rw [processPacket_own hp]
    simp only [dispatch, hcmd, onBinding, hname]
    rfl

/-- The server does what the packet asks for. -/
theorem processPacket_obeys (h : Orderly s) {pBuff : Bytes} {o : Order}
    (hc : Carries pBuff o) : ∃ s', s.processPacket pBuff = some s' ∧ Obeys o s s' := by
  cases hc with
  | create k n hp hcmd hname hn =>
    refine process_of_dispatch hp ?_ (createInfo_obeys h k hn (bodyOf pBuff))
    cases k with
    | exchange =>
      simp only [dispatch, hcmd, createCmd, onCreateExchange, hname]
      rfl
    | queue =>
      simp only [dispatch, hcmd, createCmd, onCreateQueue, hname]
      rfl
  | remove k n hp hcmd hname hn =>
    cases k with
    | exchange =>
      have hdone := removeInfo_obeys h .exchange hn (s.removeInfo (exchangeDir n)).msgQueueTailFile
        fun m g hg => ?_
      · refine process_of_dispatch (r := (success, s.removeInfo (exchangeDir n))) hp ?_ hdone
        simp only [dispatch, hcmd, deleteCmd, onDeleteExchange, hname]
        rfl
      · rw [tail_removeInfo] at hg
        exact ⟨hg, by simp⟩
    | queue =>
      have hdone := removeInfo_obeys h .queue hn
        ((s.removeInfo (queueDir n)).msgQueueTailFile.erase n) fun m g hg => ?_
      · refine process_of_dispatch (r := (success, _)) hp ?_ hdone
        simp only [dispatch, hcmd, deleteCmd, onDeleteQueue, hname]
        rfl
      · rw [tail_removeInfo] at hg
        obtain ⟨hne, hold⟩ := AssocTables.lookup_erase_some hg
        exact ⟨hold, fun he => hne (congrArg Prod.snd he)⟩
  | subscribe n hp hcmd hname hn =>
    exact ⟨_, processPacket_subscribe (.subscribe n hp hcmd hname hn) s,
      rewrite_obeys h .queue hn (f := subscribeFile) (by decide) (by decide) (bodyOf pBuff)
        (fun F => rfl) rfl rfl⟩
  | bind n hp hcmd hname hn =>
    exact ⟨_, processPacket_bind (.bind n hp hcmd hname hn) s,
      rewrite_obeys h .exchange hn (f := bindingFile) (by decide) (by decide) (bodyOf pBuff)
        (fun F => rfl) rfl rfl⟩
  | publish n hp hcmd hname hn =>
    obtain ⟨r, hrun, hobeys⟩ := onPublishMessage_obeys h hn pBuff
      (readInt (Mem.ofBytes pBuff) (4 + maxNameLength))
    refine process_of_dispatch hp ?_ hobeys
    rw [readName_packetBody] at hname
    simp only [dispatch, hcmd, processPublish, hname]
    exact hrun
  | consume n hp hcmd hname =>
    have hrun : ∃ r, s.onConsumeMessage (packetBody pBuff) = some r := by
      rw [onConsumeMessage, hname]
      exact ⟨_, rfl⟩
    obtain ⟨r, hrun⟩ := hrun
    refine process_of_dispatch hp ?_ (onConsumeMessage_obeys h hrun)
    rcases hcmd with hcmd | hcmd | hcmd
    · simp only [dispatch, hcmd]
      exact hrun
    · simp only [dispatch, hcmd]
      exact hrun
    · simp only [dispatch, hcmd]
      exact hrun
  | ignored hno =>
    refine ⟨s, ?_, h.obeys⟩
    rw [processPacket]
    split
    · rfl
    · rfl

end Wsmq.PersistenceServer
