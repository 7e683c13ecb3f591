import Wsmq.PersistenceServer.ClearUp
import Wsmq.PersistenceServer.Deletion

/-!
# What the maps say about the files

Three maps tell which groups a queue has.  An entry that is left over when a queue is deleted or
a group merged does no harm until its name or its index comes again.
-/

namespace Wsmq.PersistenceServer
open Lib Lib.ByteString Lib.Packing Lib.Files

/-- What comes to the server about a queue. -/
inductive QueueStep
  | create (ipBuffer : Mem) (iLen : Nat)
  | delete (ipBuffer : Mem)
  | publish (ipBuffer : Bytes) (istrQueueName : Name) (iDurableIndex : Int)
  | consume (ipBuffer : Mem)
  | clearUp

/-- There is no result when `ClearUpFile` reads past the end of a list or of a file. -/
def queueStep (s : PersistenceServer) : QueueStep → Option PersistenceServer
  | .create ipBuffer iLen => (s.onCreateQueue ipBuffer iLen).map Prod.snd
  | .delete ipBuffer => (s.onDeleteQueue ipBuffer).map Prod.snd
  | .publish ipBuffer istrQueueName iDurableIndex =>
    (s.onPublishMessage ipBuffer istrQueueName iDurableIndex).map Prod.snd
  | .consume ipBuffer => (s.onConsumeMessage ipBuffer).map Prod.snd
  | .clearUp => if s.clearUpFile.1 = .returned then some s.clearUpFile.2.server else none

/-! ## Agreement -/

/-- `m_mMsgQueueList[n]`. -/
def fileList (s : PersistenceServer) (n : Name) : List Name := (s.msgQueueList.lookup n).getD []

/-- The maps say about the queue what its directory says.  A group exists while it has an
index file. -/
structure AgreesAt (s : PersistenceServer) (n : Name) (F : Folder) : Prop where
  ascending : (s.fileList n).Pairwise (· < ·)
  listed : ∀ f, f ∈ s.fileList n ↔ F (f ++ extIndex) ≠ none
  index : ∀ f index, F (f ++ extIndex) = some index →
    ∀ k ∈ (indexEntries index).map Prod.fst, s.fileOf n k = some f
  tail : ∀ f, s.msgQueueTailFile.lookup n = some f → F (f ++ extIndex) ≠ none

/-- The maps agree with the files of every queue that exists. -/
def Agrees (s : PersistenceServer) : Prop :=
  ∀ n F, disk s.files (.queue, n) = some F → s.AgreesAt n F

/-! ## The steps that are looked at -/

/-- The last index of the present life of the queue; none is -1. -/
def lastIndex (F : Folder) : Int :=
  ((F offsetFile).map fun bytes => readInt (Mem.ofBytes bytes) 0).getD (-1)

/-- Indices rise while the queue lives. -/
def Rising (s : PersistenceServer) : QueueStep → Prop
  | .create ipBuffer _ => ∀ n ∈ readName ipBuffer 0, Plain n
  | .delete ipBuffer => ∀ n ∈ readName ipBuffer 0, Plain n
  | .publish _ n k => Plain n ∧ IsIndex k ∧ ∀ F ∈ disk s.files (.queue, n), lastIndex F < k
  | .consume _ => True
  | .clearUp => True

/-- The pairs that are compared as long as nothing is merged. -/
def comparedPairs (strQueueName : Name) : List Name → List Pair
  | prev :: cur :: fileList =>
    ⟨strQueueName, prev, cur, fileList.length⟩ :: comparedPairs strQueueName fileList
  | _ => []

/-- Both groups are more than half consumed, and none of their files is missing or empty. -/
def Mergeable (files : FileSystem) (p : Pair) : Prop :=
  p.OverHalf files ∧ (readGroup files p.queue p.prev).isSome ∧
    (readGroup files p.queue p.cur).isSome

instance (files : FileSystem) (p : Pair) : Decidable (Mergeable files p) :=
  inferInstanceAs (Decidable (_ ∧ _))

/-- No entry of an earlier life is met, and no groups are merged. -/
def Unstale (s : PersistenceServer) : QueueStep → Prop
  | .create ipBuffer _ => ∀ n ∈ readName ipBuffer 0,
      ¬ IsDir s.files (queueNode n) → s.fileList n = []
  | .publish ipBuffer n k => IsDir s.files (queueNode n) →
      s.fileOf n k = none ∨ s.fileOf n k = some (s.groupFor ipBuffer n k)
  | .clearUp => ∀ b ∈ s.msgQueueList.entries, ∀ p ∈ comparedPairs b.1 b.2,
      ¬ Mergeable s.files p
  | .delete _ => True
  | .consume _ => True

instance (s : PersistenceServer) (a : QueueStep) : Decidable (Unstale s a) := by
  cases a with
  | create ipBuffer iLen => exact inferInstanceAs (Decidable (∀ n ∈ readName ipBuffer 0, _))
  | delete ipBuffer => exact isTrue trivial
  | publish ipBuffer n k => exact inferInstanceAs (Decidable (_ → _ ∨ _))
  | consume ipBuffer => exact isTrue trivial
  | clearUp => exact inferInstanceAs (Decidable (∀ b ∈ s.msgQueueList.entries, _))

instance (k : Int) : Decidable (IsIndex k) := inferInstanceAs (Decidable (_ ∧ _))

instance (s : PersistenceServer) (a : QueueStep) : Decidable (Rising s a) := by
  cases a with
  | create ipBuffer iLen => exact inferInstanceAs (Decidable (∀ n ∈ readName ipBuffer 0, _))
  | delete ipBuffer => exact inferInstanceAs (Decidable (∀ n ∈ readName ipBuffer 0, _))
  | publish ipBuffer n k => exact inferInstanceAs (Decidable (_ ∧ _ ∧ _))
  | consume ipBuffer => exact isTrue trivial
  | clearUp => exact isTrue trivial

/-! ## The invariant -/

/-- The groups of the directory. -/
structure Groups (F : Folder) : Prop where
  whole : ∀ f index, F (f ++ extIndex) = some index → 8 ∣ index.length
  named : ∀ f, F (f ++ extIndex) ≠ none →
    ∃ j, IsIndex j ∧ j ≤ lastIndex F ∧ f = convertIndexToString j

/-- What holds whatever the maps say about the files. -/
structure Grouped (s : PersistenceServer) : Prop where
  orderly : Orderly s
  groups : ∀ n F, disk s.files (.queue, n) = some F → Groups F
  listed : ∀ n l, s.msgQueueList.lookup n = some l → Plain n ∧ ∀ f ∈ l, GroupName f

variable {s s' : PersistenceServer} {n f : Name} {F F' : Folder}

theorem Groups.congr (h : Groups F) (hindex : ∀ f, F' (f ++ extIndex) = F (f ++ extIndex))
    (hoffset : F' offsetFile = F offsetFile) : Groups F' := by
  have hlast : lastIndex F' = lastIndex F := by rw [lastIndex, lastIndex, hoffset]
  refine ⟨fun f index hf => h.whole f index (hindex f ▸ hf), fun f hf => ?_⟩
  rw [hlast]
  rw [hindex] at hf
  exact h.named f hf

theorem Groups.drop (h : Groups F) (hgone : F' (f ++ extIndex) = none)
    (hother : ∀ g, g ≠ f → F' (g ++ extIndex) = F (g ++ extIndex))
    (hoffset : F' offsetFile = F offsetFile) : Groups F' := by
  have hlast : lastIndex F' = lastIndex F := by rw [lastIndex, lastIndex, hoffset]
  have hold : ∀ g, F' (g ++ extIndex) ≠ none → F' (g ++ extIndex) = F (g ++ extIndex) := by
    intro g hne
    refine hother g ?_
    rintro rfl
    exact hne hgone
  refine ⟨fun g index hg => ?_, fun g hg => ?_⟩
  · have hsame := hold g (hg ▸ Option.some_ne_none _)
    exact h.whole g index (hsame.symm.trans hg)
  · rw [hlast]
    exact h.named g (hold g hg ▸ hg)

theorem AgreesAt.congr (h : s.AgreesAt n F) (hlist : s'.fileList n = s.fileList n)
    (hfileOf : ∀ k, s'.fileOf n k = s.fileOf n k)
    (htail : ∀ f, s'.msgQueueTailFile.lookup n = some f → s.msgQueueTailFile.lookup n = some f)
    (hindex : ∀ f, F' (f ++ extIndex) = F (f ++ extIndex)) : s'.AgreesAt n F' := by
  refine ⟨hlist ▸ h.ascending, fun f => ?_, fun f index hf k hk => ?_, fun f hf => ?_⟩
  · rw [hlist, hindex]
    exact h.listed f
  · rw [hfileOf]
    exact h.index f index (hindex f ▸ hf) k hk
  · rw [hindex]
    exact h.tail f (htail f hf)

/-- Groups that are listed for a queue with a directory have the names of groups. -/
theorem AgreesAt.groupName (hat : s.AgreesAt n F) (hg : Groups F) (hin : f ∈ s.fileList n) :
    GroupName f := by
  obtain ⟨j, hj, -, rfl⟩ := hg.named f ((hat.listed f).mp hin)
  exact groupName_convert hj

/-- What happens in the queue leaves the others as they are. -/
structure Aside (n : Name) (s s' : PersistenceServer) : Prop where
  disk : ∀ m, m ≠ n → disk s'.files (.queue, m) = disk s.files (.queue, m)
  fileList : ∀ m, m ≠ n → s'.fileList m = s.fileList m
  fileOf : ∀ m, m ≠ n → ∀ k, s'.fileOf m k = s.fileOf m k
  tail : ∀ m, m ≠ n → s'.msgQueueTailFile.lookup m = s.msgQueueTailFile.lookup m

theorem Agrees.aside (h : Agrees s) (ha : Aside n s s')
    (hat : ∀ F, disk s'.files (.queue, n) = some F → s'.AgreesAt n F) : Agrees s' := by
  intro m F hF
  by_cases hm : m = n
  · subst hm
    exact hat F hF
  · rw [ha.disk m hm] at hF
    exact (h m F hF).congr (ha.fileList m hm) (ha.fileOf m hm) (fun f hf => ha.tail m hm ▸ hf)
      fun _ => rfl

theorem Grouped.aside (h : Grouped s) (ha : Aside n s s') (ho : Orderly s')
    (hat : ∀ F, disk s'.files (.queue, n) = some F → Groups F)
    (hlisted : ∀ n l, s'.msgQueueList.lookup n = some l → Plain n ∧ ∀ f ∈ l, GroupName f) :
    Grouped s' := by
  refine ⟨ho, fun m F hF => ?_, hlisted⟩
  by_cases hm : m = n
  · subst hm
    exact hat F hF
  · rw [ha.disk m hm] at hF
    exact h.groups m F hF

theorem queue_ne {m : Name} (hm : m ≠ n) : (Kind.queue, m) ≠ (Kind.queue, n) :=
  fun h => hm (congrArg Prod.snd h)

/-! ## Creating and deleting -/

theorem indexFile_ne {g : Bytes} (hg : g.getLast? = some 110) (f : Name) : f ++ extIndex ≠ g :=
  groupFile_ne hg (Or.inr (Or.inl rfl)) f

/-- A queue begins without groups. -/
theorem createInfo_agrees (h : Grouped s) (ha : Agrees s) (hn : Plain n) (bytes : Bytes) :
    Grouped (s.createInfo (queueDir n) bytes).2 ∧
      ((¬ IsDir s.files (queueNode n) → s.fileList n = []) ↔
        Agrees (s.createInfo (queueDir n) bytes).2) := by
  have ho := (createInfo_obeys h.orderly .queue hn bytes).orderly
  obtain ⟨files, hrun, -, hdisk⟩ := createInfo_disk (k := .queue) h.orderly.tidy hn bytes
  rw [show Kind.queue.dir n = queueDir n from rfl] at hrun ho
  rw [hrun] at ho ⊢
  generalize hF : (disk s.files (.queue, n)).getD (fun _ => none) = F at hdisk
  have haside : Aside n s { s with files := files } := by
    refine ⟨fun m hm => ?_, fun _ _ => rfl, fun _ _ _ => rfl, fun _ _ => rfl⟩
    show disk files (.queue, m) = _
    rw [hdisk, Function.update_of_ne (queue_ne hm)]
  have hself : disk files (.queue, n) = some (Function.update F infoFile (some bytes)) := by
    rw [hdisk, Function.update_self]
  have hindex : ∀ f, Function.update F infoFile (some bytes) (f ++ extIndex) =
      F (f ++ extIndex) := fun f => Function.update_of_ne (indexFile_ne (by decide) f) _ _
  have hoffset : Function.update F infoFile (some bytes) offsetFile = F offsetFile :=
    Function.update_of_ne (by decide) _ _
  by_cases hdir : IsDir s.files (queueNode n)
  · have hold : disk s.files (.queue, n) = some F := by
      have hsome : disk s.files (.queue, n) = some _ := folderAt_of_isDir hdir
      rw [hsome] at hF ⊢
      exact congrArg some hF
    refine ⟨h.aside haside ho (fun F' hF' => ?_) h.listed, ?_⟩
    · cases hself.symm.trans hF'
      exact (h.groups n F hold).congr hindex hoffset
    · refine iff_of_true (fun hno => absurd hdir hno) (ha.aside haside fun F' hF' => ?_)
      cases hself.symm.trans hF'
      exact (ha n F hold).congr rfl (fun _ => rfl) (fun _ => id) hindex
  · have hold : disk s.files (.queue, n) = none := disk_eq_none_iff.mpr hdir
    have hempty : ∀ f, F f = none := by
      rw [hold] at hF
      subst hF
      exact fun _ => rfl
    have hnone : ∀ f, Function.update F infoFile (some bytes) (f ++ extIndex) = none :=
      fun f => (hindex f).trans (hempty _)
    refine ⟨h.aside haside ho (fun F' hF' => ?_) h.listed, fun hlist => ?_, fun hagrees _ => ?_⟩
    · cases hself.symm.trans hF'
      refine ⟨fun f index hf => ?_, fun f hf => absurd (hnone f) hf⟩
      rw [hnone f] at hf
      cases hf
    · refine ha.aside haside fun F' hF' => ?_
      cases hself.symm.trans hF'
      have hlist : (fileList { s with files := files } n) = [] := hlist hdir
      refine ⟨hlist ▸ List.Pairwise.nil, fun f => ?_, fun f index hf => ?_, fun f hf => ?_⟩
      · rw [hlist]
        exact iff_of_false List.not_mem_nil fun hne => hne (hnone f)
      · rw [hnone f] at hf
        cases hf
      · obtain ⟨-, F₀, hF₀, -⟩ := h.orderly.tail n f hf
        rw [hold] at hF₀
        cases hF₀
    · refine List.eq_nil_iff_forall_not_mem.mpr fun f hf => ?_
      exact ((hagrees n _ hself).listed f).mp hf (hnone f)

/-- The maps may keep what they say about a queue that is gone. -/
theorem removeInfo_agrees (h : Grouped s) (ha : Agrees s) (hn : Plain n)
    {t : PersistenceServer} (ht : t = { s.removeInfo (queueDir n) with
      msgQueueTailFile := (s.removeInfo (queueDir n)).msgQueueTailFile.erase n }) :
    Grouped t ∧ Agrees t := by
  have ho : Orderly t := by
    subst ht
    refine (removeInfo_obeys h.orderly .queue hn _ fun m g hg => ?_).orderly
    rw [tail_removeInfo] at hg
    obtain ⟨hne, hold⟩ := AssocTables.lookup_erase_some hg
    exact ⟨hold, queue_ne hne⟩
  obtain ⟨files, hrun, -, hdisk⟩ :=
    removeInfo_disk (k := .queue) h.orderly.sound.files h.orderly.tidy hn
  rw [show Kind.queue.dir n = queueDir n from rfl] at hrun
  rw [hrun] at ht
  subst ht
  have haside : Aside n s
      { s with files := files, msgQueueTailFile := s.msgQueueTailFile.erase n } := by
    refine ⟨fun m hm => ?_, fun _ _ => rfl, fun _ _ _ => rfl, fun m hm => ?_⟩
    · show disk files (.queue, m) = _
      rw [hdisk, Function.update_of_ne (queue_ne hm)]
    · exact AList.lookup_erase_ne hm
  have hself : disk files (.queue, n) = none := by rw [hdisk, Function.update_self]
  have hno : ∀ F, disk files (.queue, n) ≠ some F := fun F hF => by
    rw [hself] at hF
    cases hF
  exact ⟨h.aside haside ho (fun F hF => absurd hF (hno F)) h.listed,
    ha.aside haside fun F hF => absurd hF (hno F)⟩

/-! ## Publishing -/

section Publish

variable {k iWritePos : Int} {r : Bytes}

theorem readInt_indexEntry (hk : IsIndex k) (iWritePos : Int) :
    readInt (Mem.ofBytes (indexEntry k iWritePos)) 0 = k := by
  have hf : ∀ f ∈ [writeInt k, writeInt iWritePos], f.Fits := by simp [Field.Fits, writeInt]
  exact readInt_field (a := 0) [] (holds_ofBytes (indexEntry k iWritePos)) hf hk.fits

theorem lastIndex_of_offset (hk : IsIndex k) (h : F offsetFile = some (beInt 4 k)) :
    lastIndex F = k := by
  have hread := holds_ofBytes (beInt 4 k)
  rw [Holds, beInt_length] at hread
  rw [lastIndex, h, Option.map_some, Option.getD_some, readInt, hread, ofBeInt_beInt hk.fits]

/-- What is published as far as directory and maps of the queue go. -/
structure Gains (n f : Name) (k iWritePos : Int) (F F' : Folder) (s s' : PersistenceServer) :
    Prop where
  entry : F' (f ++ extIndex) = some ((F (f ++ extIndex)).getD [] ++ indexEntry k iWritePos)
  other : ∀ g, g ≠ f → F' (g ++ extIndex) = F (g ++ extIndex)
  offset : F' offsetFile = some (beInt 4 k)
  fileOf : ∀ j, s'.fileOf n j = if j = k ∧ s.fileOf n k = none then some f else s.fileOf n j
  tail : s'.msgQueueTailFile.lookup n = some f

theorem Gains.keys (h : Gains n f k iWritePos F F' s s') (hg : Groups F) (hk : IsIndex k) :
    8 ∣ ((F (f ++ extIndex)).getD []).length ∧ ∃ index, F' (f ++ extIndex) = some index ∧
      8 ∣ index.length ∧ (indexEntries index).map Prod.fst =
        (indexEntries ((F (f ++ extIndex)).getD [])).map Prod.fst ++ [k] := by
  have hwhole : 8 ∣ ((F (f ++ extIndex)).getD []).length := by
    cases hold : F (f ++ extIndex) with
    | none => exact Nat.dvd_zero 8
    | some index => exact hg.whole f index hold
  refine ⟨hwhole, _, h.entry, ?_, ?_⟩
  · rw [List.length_append, indexEntry_length]
    exact Dvd.dvd.add hwhole (Nat.dvd_refl 8)
  · obtain ⟨m, hm⟩ := hwhole
    rw [indexEntries_snoc hm (indexEntry_length k iWritePos), List.map_append, List.map_singleton,
      readInt_indexEntry hk]

theorem Gains.groups (h : Gains n f k iWritePos F F' s s') (hg : Groups F) (hk : IsIndex k)
    (hlast : lastIndex F < k) (hname : f = convertIndexToString k ∨ F (f ++ extIndex) ≠ none) :
    Groups F' := by
  obtain ⟨-, index, hindex, hwhole, -⟩ := h.keys hg hk
  have hlater : ∀ g, F (g ++ extIndex) ≠ none →
      ∃ j, IsIndex j ∧ j ≤ lastIndex F' ∧ g = convertIndexToString j := by
    intro g hne
    obtain ⟨j, hj, hle, rfl⟩ := hg.named g hne
    refine ⟨j, hj, ?_, rfl⟩
    rw [lastIndex_of_offset hk h.offset]
    exact le_of_lt (lt_of_le_of_lt hle hlast)
  refine ⟨fun g bytes hbytes => ?_, fun g hne => ?_⟩
  · by_cases hgf : g = f
    · subst hgf
      cases hindex.symm.trans hbytes
      exact hwhole
    · rw [h.other g hgf] at hbytes
      exact hg.whole g bytes hbytes
  · by_cases hgf : g = f
    · subst hgf
      rcases hname with rfl | hold
      · exact ⟨k, hk, le_of_eq (lastIndex_of_offset hk h.offset).symm, rfl⟩
      · exact hlater g hold
    · rw [h.other g hgf] at hne
      exact hlater g hne

/-- The maps lead to the right groups exactly if the index was not known for another one. -/
theorem Gains.index_iff (h : Gains n f k iWritePos F F' s s') (hg : Groups F) (hk : IsIndex k)
    (ha : s.AgreesAt n F) : (s.fileOf n k = none ∨ s.fileOf n k = some f) ↔
      ∀ g index, F' (g ++ extIndex) = some index →
        ∀ j ∈ (indexEntries index).map Prod.fst, s'.fileOf n j = some g := by
  obtain ⟨-, index, hindex, -, hkeys⟩ := h.keys hg hk
  have hkept : ∀ j g, s.fileOf n j = some g → s'.fileOf n j = some g := by
    intro j g hj
    rw [h.fileOf, if_neg]
    · exact hj
    · rintro ⟨rfl, hnone⟩
      rw [hnone] at hj
      cases hj
  constructor
  · intro hfree g bytes hbytes j hj
    by_cases hgf : g = f
    · subst hgf
      cases hindex.symm.trans hbytes
      rw [hkeys] at hj
      rcases List.mem_append.mp hj with hj | hj
      · cases hold : F (g ++ extIndex) with
        | none =>
          rw [hold] at hj
          cases hj
        | some old =>
          rw [hold] at hj
          exact hkept j g (ha.index g old hold j hj)
      · rw [List.mem_singleton.mp hj]
        rcases hfree with hnone | hsome
        · rw [h.fileOf, if_pos ⟨rfl, hnone⟩]
        · exact hkept k g hsome
    · rw [h.other g hgf] at hbytes
      exact hkept j g (ha.index g bytes hbytes j hj)
  · intro hall
    have hin : k ∈ (indexEntries index).map Prod.fst := by
      rw [hkeys]
      exact List.mem_append_right _ (List.mem_singleton_self k)
    have hnew := hall f index hindex k hin
    rw [h.fileOf] at hnew
    split at hnew
    · next hnone => exact Or.inl hnone.2
    · exact Or.inr hnew

/-- A group that comes in stands behind all others. -/
theorem Gains.listed (h : Gains n f k iWritePos F F' s s') (hg : Groups F) (hk : IsIndex k)
    (hlast : lastIndex F < k) (ha : s.AgreesAt n F)
    (hlist : f = convertIndexToString k ∧ s'.fileList n = s.fileList n ++ [f] ∨
      F (f ++ extIndex) ≠ none ∧ s'.fileList n = s.fileList n) :
    (s'.fileList n).Pairwise (· < ·) ∧ ∀ g, g ∈ s'.fileList n ↔ F' (g ++ extIndex) ≠ none := by
  have hmem : ∀ g, F' (g ++ extIndex) ≠ none ↔ F (g ++ extIndex) ≠ none ∨ g = f := by
    intro g
    by_cases hgf : g = f
    · subst hgf
      rw [h.entry]
      exact iff_of_true (Option.some_ne_none _) (Or.inr rfl)
    · rw [h.other g hgf, or_iff_left hgf]
  rcases hlist with ⟨hname, hlist⟩ | ⟨hold, hlist⟩
  · rw [hlist]
    constructor
    · refine List.pairwise_append.mpr ⟨ha.ascending, List.pairwise_singleton _ _, ?_⟩
      intro g hin f' hf'
      obtain ⟨j, hj, hle, rfl⟩ := hg.named g ((ha.listed g).mp hin)
      rw [List.mem_singleton.mp hf', hname]
      exact convert_lt hj hk (lt_of_le_of_lt hle hlast)
    · intro g
      rw [List.mem_append, List.mem_singleton, hmem, ha.listed]
  · rw [hlist]
    refine ⟨ha.ascending, fun g => ?_⟩
    rw [hmem, ha.listed]
    refine ⟨Or.inl, ?_⟩
    rintro (hin | rfl)
    · exact hin
    · exact hold

theorem Published.gains (h : Published n f k r iWritePos s s') :
    Gains n f k iWritePos (fun g => bytesAt s.files (fileNode n g))
      (fun g => bytesAt s'.files (fileNode n g)) s s' := by
  refine ⟨h.files.index, fun g hgf => ?_, h.files.offset, fun j => ?_, h.tail⟩
  · have hext : IsExt extIndex := Or.inr (Or.inl rfl)
    refine h.files.other _ ?_ ?_ (indexFile_ne (by decide) g)
    · exact fun hsame => hgf (groupFile_inj hext (Or.inl rfl) hsame).1
    · exact fun hsame => hgf (groupFile_inj hext hext hsame).1
  · rw [h.fileOf]
    simp only [true_and]

theorem Enters.fileList (h : Enters n r k s s') :
    (s.groupFor r n k = convertIndexToString k ∧
        s'.fileList n = s.fileList n ++ [s.groupFor r n k] ∨
      s.msgQueueTailFile.lookup n = some (s.groupFor r n k) ∧ s'.fileList n = s.fileList n) ∧
    ∀ m, m ≠ n → s'.msgQueueList.lookup m = s.msgQueueList.lookup m := by
  rcases h.group with ⟨-, hname, hlist⟩ | ⟨-, htail, hlist⟩
  · refine ⟨Or.inl ⟨hname, ?_⟩, fun m hm => ?_⟩
    · rw [PersistenceServer.fileList, hlist, hname, pushFile]
      dsimp only
      rw [AList.lookup_insert]
      rfl
    · rw [hlist]
      exact AList.lookup_insert_ne hm
  · refine ⟨Or.inr ⟨htail, ?_⟩, fun m _ => by rw [hlist]⟩
    rw [PersistenceServer.fileList, hlist]
    rfl

theorem fileList_some {l : List Name} (h : s.msgQueueList.lookup n = some l) :
    s.fileList n = l := by rw [fileList, h, Option.getD_some]

theorem onPublishMessage_agrees (h : Grouped s) (ha : Agrees s) (hn : Plain n) (hk : IsIndex k)
    (hlast : ∀ F ∈ disk s.files (.queue, n), lastIndex F < k) {o : Int × PersistenceServer}
    (hrun : s.onPublishMessage r n k = some o) :
    Grouped o.2 ∧ ((IsDir s.files (queueNode n) →
      s.fileOf n k = none ∨ s.fileOf n k = some (s.groupFor r n k)) ↔ Agrees o.2) := by
  by_cases hdir : IsDir s.files (queueNode n)
  swap
  · have hiff : fileExists s.files (queueDir n) = true ↔ IsDir s.files (queueNode n) :=
      fileExists_dir_iff (k := .queue) h.orderly.tidy hn
    rw [onPublishMessage, if_pos fun hexists => hdir (hiff.mp hexists)] at hrun
    cases hrun
    exact ⟨h, iff_of_true (fun hyes => absurd hyes hdir) ha⟩
  have ho : Orderly o.2 := by
    obtain ⟨o', hrun', hobeys⟩ := onPublishMessage_obeys h.orderly hn r k
    cases hrun.symm.trans hrun'
    exact hobeys.orderly
  have henters := onPublishMessage_enters h.orderly hn hdir hrun
  obtain ⟨hlist, hlistOther⟩ := henters.fileList
  obtain ⟨iWritePos, hpublished⟩ := henters.published
  have hgains := hpublished.gains
  have hin : InDir .queue n s.files o.2.files :=
    ⟨hpublished.files.inQueue.dirs, hpublished.files.inQueue.other⟩
  have hF : disk s.files (.queue, n) = some _ := folderAt_of_isDir hdir
  have hF' : disk o.2.files (.queue, n) = some _ := folderAt_of_isDir ((hin.dirs _).mp hdir)
  have hg := h.groups n _ hF
  have hat := ha n _ hF
  have hlast := hlast _ hF
  have haside : Aside n s o.2 := by
    refine ⟨fun m hm => hin.disk_other hdir (queue_ne hm), fun m hm => ?_, fun m hm j => ?_,
      hpublished.otherTail⟩
    · rw [fileList, fileList, hlistOther m hm]
    · rw [hpublished.fileOf, if_neg fun hc => hm hc.1]
  have hold : s.msgQueueTailFile.lookup n = some (s.groupFor r n k) →
      bytesAt s.files (fileNode n (s.groupFor r n k ++ extIndex)) ≠ none := hat.tail _
  constructor
  · refine h.aside haside ho (fun F hFolder => ?_) fun m l hl => ?_
    · cases hF'.symm.trans hFolder
      exact hgains.groups hg hk hlast (hlist.imp (fun hnew => hnew.1) fun htail => hold htail.1)
    · by_cases hm : m = n
      · subst hm
        have hl := fileList_some hl
        refine ⟨hn, fun f hf => ?_⟩
        have hgroupOld : ∀ f ∈ s.fileList m, GroupName f := fun f hf => hat.groupName hg hf
        rw [← hl] at hf
        rcases hlist with ⟨hname, hlist⟩ | ⟨-, hlist⟩
        · rw [hlist] at hf
          rcases List.mem_append.mp hf with hf | hf
          · exact hgroupOld f hf
          · rw [List.mem_singleton.mp hf, hname]
            exact groupName_convert hk
        · exact hgroupOld f (hlist ▸ hf)
      · rw [hlistOther m hm] at hl
        exact h.listed m l hl
  · constructor
    · intro hfree
      obtain ⟨hsorted, hmem⟩ := hgains.listed hg hk hlast hat
        (hlist.imp id fun htail => ⟨hold htail.1, htail.2⟩)
      refine ha.aside haside fun F hFolder => ?_
      cases hF'.symm.trans hFolder
      refine ⟨hsorted, hmem, (hgains.index_iff hg hk hat).mp (hfree hdir), fun f hf => ?_⟩
      cases hgains.tail.symm.trans hf
      exact fun hnone => Option.some_ne_none _ (hgains.entry.symm.trans hnone)
    · intro hagrees _
      exact (hgains.index_iff hg hk hat).mpr (hagrees n _ hF').index

end Publish

/-! ## Consuming -/

theorem fileList_dropGroup (s : PersistenceServer) (n f : Name) :
    (s.dropGroup n f).fileList n = (s.fileList n).filter (fun g => g ≠ f) ∧
      ∀ m, m ≠ n → (s.dropGroup n f).msgQueueList.lookup m = s.msgQueueList.lookup m := by
  unfold dropGroup fileList
  dsimp only
  cases hlist : s.msgQueueList.lookup n with
  | none =>
    dsimp only
    rw [hlist]
    exact ⟨rfl, fun _ _ => rfl⟩
  | some l =>
    dsimp only
    rw [AList.lookup_insert]
    exact ⟨rfl, fun m hm => AList.lookup_insert_ne hm⟩

/-- A group that is dropped is dropped from the maps as well. -/
theorem AgreesAt.drop (h : s.AgreesAt n F) (hgone : F' (f ++ extIndex) = none)
    (hother : ∀ g, g ≠ f → F' (g ++ extIndex) = F (g ++ extIndex)) :
    (s.dropGroup n f).AgreesAt n F' := by
  have hlist := (fileList_dropGroup s n f).1
  have hmem : ∀ g, F' (g ++ extIndex) ≠ none ↔ F (g ++ extIndex) ≠ none ∧ g ≠ f := by
    intro g
    by_cases hgf : g = f
    · subst hgf
      exact iff_of_false (fun hne => hne hgone) fun hand => hand.2 rfl
    · rw [hother g hgf, and_iff_left hgf]
  refine ⟨?_, fun g => ?_, fun g index hindex k hk => ?_, fun g hg => ?_⟩
  · rw [hlist]
    exact h.ascending.sublist List.filter_sublist
  · rw [hlist, List.mem_filter, decide_eq_true_iff, hmem, h.listed]
  · have hne : g ≠ f := by
      rintro rfl
      rw [hgone] at hindex
      cases hindex
    rw [hother g hne] at hindex
    exact h.index g index hindex k hk
  · obtain ⟨hold, hne⟩ := (dropGroup_maps s n f).1 n g hg
    exact (hmem g).mpr ⟨h.tail g hold, hne rfl⟩

/-- Another record in a `.consume` file is no matter of the maps. -/
theorem Noted.agrees {files : FileSystem} {pTemp : Bytes} (h : Grouped s) (ha : Agrees s)
    (hdir : IsDir s.files (queueNode n)) (hnoted : Noted n f pTemp s.files files)
    {s₂ : PersistenceServer} {history : List PersisEvent}
    (hs₂ : s₂ = { s with files := files, history := history }) :
    Aside n s s₂ ∧ ∃ F, disk s₂.files (.queue, n) = some F ∧ Groups F ∧ s₂.AgreesAt n F := by
  subst hs₂
  have hin := hnoted.inGroups.inDir
  have hF : disk s.files (.queue, n) = some _ := folderAt_of_isDir hdir
  have hF₂ : disk files (.queue, n) = some _ := folderAt_of_isDir ((hin.dirs _).mp hdir)
  have hindex : ∀ g, bytesAt files (fileNode n (g ++ extIndex)) =
      bytesAt s.files (fileNode n (g ++ extIndex)) := by
    intro g
    refine hnoted.other _ fun hsame => ?_
    exact absurd (groupFile_inj (Or.inr (Or.inl rfl)) (Or.inr (Or.inr rfl)) hsame).2 (by decide)
  refine ⟨⟨fun m hm => hin.disk_other hdir (queue_ne hm), fun _ _ => rfl, fun _ _ _ => rfl,
    fun _ _ => rfl⟩, _, hF₂, ?_, ?_⟩
  · exact (h.groups n _ hF).congr hindex (hnoted.inGroups.kept offsetFile (by decide))
  · exact (ha n _ hF).congr rfl (fun _ => rfl) (fun _ => id) hindex

theorem dropGroup_agrees (hready : Ready s.files n) (hf : IsFileName f)
    (hF : disk s.files (.queue, n) = some F) (hg : Groups F) (hat : s.AgreesAt n F) :
    Aside n s (s.dropGroup n f) ∧ ∃ F', disk (s.dropGroup n f).files (.queue, n) = some F' ∧
      Groups F' ∧ (s.dropGroup n f).AgreesAt n F' := by
  obtain ⟨hin, hgone, hother⟩ := dropGroup_ready hready (stem_of_fileName hf)
  have hinDir : InDir .queue n s.files (s.dropGroup n f).files := ⟨hin.dirs, hin.other⟩
  have hext : IsExt extIndex := Or.inr (Or.inl rfl)
  have hF' : disk (s.dropGroup n f).files (.queue, n) = some _ :=
    folderAt_of_isDir ((hin.dirs _).mp hready.queue)
  have hrest : ∀ g, g ≠ f → bytesAt (s.dropGroup n f).files (fileNode n (g ++ extIndex)) =
      F (g ++ extIndex) := by
    intro g hgf
    rw [hother _ fun ext hext' hsame => hgf (groupFile_inj hext hext' hsame).1]
    exact folderAt_some hF _
  have hoffset : bytesAt (s.dropGroup n f).files (fileNode n offsetFile) = F offsetFile := by
    rw [hother _ fun ext hext' hsame => groupFile_ne (by decide) hext' f hsame.symm]
    exact folderAt_some hF _
  refine ⟨⟨fun m hm => hinDir.disk_other hready.queue (queue_ne hm), fun m hm => ?_,
    fun _ _ _ => rfl, (dropGroup_maps s n f).2⟩, _, hF', hg.drop (hgone _ hext) hrest hoffset,
    hat.drop (hgone _ hext) hrest⟩
  rw [fileList, fileList, (fileList_dropGroup s n f).2 m hm]

theorem Aside.trans {s'' : PersistenceServer} (h : Aside n s s') (h' : Aside n s' s'') :
    Aside n s s'' where
  disk m hm := (h'.disk m hm).trans (h.disk m hm)
  fileList m hm := (h'.fileList m hm).trans (h.fileList m hm)
  fileOf m hm k := (h'.fileOf m hm k).trans (h.fileOf m hm k)
  tail m hm := (h'.tail m hm).trans (h.tail m hm)

theorem onConsumeMessage_agrees (h : Grouped s) (ha : Agrees s) {ipBuffer : Mem}
    {o : Int × PersistenceServer} (hrun : s.onConsumeMessage ipBuffer = some o) :
    Grouped o.2 ∧ Agrees o.2 := by
  have ho := (onConsumeMessage_obeys h.orderly hrun).orderly
  rcases onConsumeMessage_cases h.orderly hrun with hsame |
    ⟨n, f, _, _, _, _, hn, hf, hdir, rfl⟩
  · rw [hsame]
    exact ⟨h, ha⟩
  have hready := h.orderly.tidy.ready hn hdir
  obtain ⟨files, hnoted, s₂, hs₂, hcases⟩ := consumeIn_cases hready hf
    (readInt ipBuffer maxNameLength) (ipBuffer.read maxNameLength 4)
  obtain ⟨haside, F, hF, hg, hat⟩ := hnoted.agrees h ha hdir hs₂
  have hlist : s₂.msgQueueList = s.msgQueueList := by rw [hs₂]
  have hfolder : ∀ {t : PersistenceServer} {F' : Folder} {P : Folder → Prop},
      disk t.files (.queue, n) = some F' → P F' → ∀ F, disk t.files (.queue, n) = some F → P F := by
    intro t F' P hF' hP F hFolder
    cases hF'.symm.trans hFolder
    exact hP
  rcases hcases with hcase | ⟨hcase, -⟩
  · rw [hcase] at ho ⊢
    exact ⟨h.aside haside ho (hfolder hF hg) (hlist ▸ h.listed), ha.aside haside (hfolder hF hat)⟩
  · rw [hcase] at ho ⊢
    have hready₂ : Ready s₂.files n := by
      rw [hs₂]
      exact hready.congr hnoted.inGroups.inDir.dirs
    obtain ⟨haside', F', hF', hg', hat'⟩ := dropGroup_agrees hready₂ hf hF hg hat
    refine ⟨h.aside (haside.trans haside') ho (hfolder hF' hg') fun m l hl => ?_,
      ha.aside (haside.trans haside') (hfolder hF' hat')⟩
    by_cases hm : m = n
    · subst hm
      have hl := fileList_some hl
      exact ⟨hn, fun g hin => hat'.groupName hg' (hl ▸ hin)⟩
    · rw [(fileList_dropGroup s₂ n f).2 m hm, hlist] at hl
      exact h.listed m l hl

/-! ## Cleaning up -/

section CleanUp

variable {q g strPrev : Name} {names : List Name} {x x' : Scan} {p : Pair}

theorem comparedPairs_mem (h : p ∈ comparedPairs q names) :
    p.queue = q ∧ p.prev ∈ names ∧ p.cur ∈ names := by
  fun_induction comparedPairs q names with
  | case1 prev cur names ih =>
    rcases List.mem_cons.mp h with rfl | h
    · exact ⟨rfl, List.mem_cons_self, List.mem_cons_of_mem _ List.mem_cons_self⟩
    · obtain ⟨hqueue, hprev, hcur⟩ := ih h
      exact ⟨hqueue, List.mem_cons_of_mem _ (List.mem_cons_of_mem _ hprev),
        List.mem_cons_of_mem _ (List.mem_cons_of_mem _ hcur)⟩
  | case2 names hno => cases h

theorem mergeFiles_unread (h : readGroup s.files q n = none ∨ readGroup s.files q f = none) :
    s.mergeFiles q n f = some (error, s) := by
  rw [mergeFiles]
  rcases h with hnone | hnone
  · rw [hnone]
  · rw [hnone]
    cases readGroup s.files q n with
    | none => rfl
    | some g₁ => rfl

theorem turn_idle (h : ¬ Mergeable s.files p) :
    s.turn p (p.OverHalf s.files) = some (false, s) ∧
      (s.callOf p (p.OverHalf s.files)).countP (fun c => c.2 = some success) = 0 := by
  by_cases hover : p.OverHalf s.files
  · have hunread : readGroup s.files p.queue p.prev = none ∨
        readGroup s.files p.queue p.cur = none := by
      by_contra hread
      obtain ⟨hprev, hcur⟩ := not_or.mp hread
      exact h ⟨hover, Option.isSome_iff_ne_none.mpr hprev, Option.isSome_iff_ne_none.mpr hcur⟩
    rw [turn, callOf, if_pos hover, if_pos hover, mergeFiles_unread hunread]
    exact ⟨rfl, rfl⟩
  · rw [turn_of_not hover, callOf_of_not hover]
    exact ⟨rfl, rfl⟩

theorem compare_idle (h : ¬ Mergeable x.server.files p) :
    (x.compare p).2.server = x.server ∧ (x.compare p).2.clearCount = x.clearCount := by
  obtain ⟨-, hserver, -, -, hcount⟩ := compare_spec x p
  obtain ⟨hturn, hcalls⟩ := turn_idle h
  rw [hturn] at hserver
  rw [hcalls] at hcount
  exact ⟨hserver, hcount⟩

/-- A group of the queue has no index file. -/
structure Lost (q g : Name) (x : Scan) : Prop where
  ready : Ready x.server.files q
  gone : bytesAt x.server.files (fileNode q (g ++ extIndex)) = none

theorem turn_merges {n : Nat} {prev cur : Name} (h : Mergeable s.files ⟨q, prev, cur, n⟩)
    (hready : Ready s.files q) (hprev : GroupName prev) (hcur : GroupName cur)
    {r : Bool × PersistenceServer}
    (hturn : s.turn ⟨q, prev, cur, n⟩ (Pair.OverHalf ⟨q, prev, cur, n⟩ s.files) = some r) :
    s.callOf ⟨q, prev, cur, n⟩ (Pair.OverHalf ⟨q, prev, cur, n⟩ s.files) =
        [(⟨q, prev, cur, n⟩, some success)] ∧ Ready r.2.files q ∧
      bytesAt r.2.files (fileNode q (cur ++ extIndex)) = none ∧
      ∀ g, GroupName g → g ≠ prev → bytesAt s.files (fileNode q (g ++ extIndex)) = none →
        bytesAt r.2.files (fileNode q (g ++ extIndex)) = none := by
  obtain ⟨hover, hg₁, hg₂⟩ := h
  obtain ⟨g₁, hg₁⟩ := Option.isSome_iff_exists.mp hg₁
  obtain ⟨g₂, hg₂⟩ := Option.isSome_iff_exists.mp hg₂
  rw [turn, if_pos hover] at hturn
  obtain ⟨r', hmerge, rfl⟩ := Option.map_eq_some_iff.mp hturn
  obtain ⟨hret, hdrops⟩ := mergeFiles_drops hready hprev hcur hg₁ hg₂ hmerge
  refine ⟨?_, hdrops⟩
  dsimp only at hmerge
  rw [callOf, if_pos hover, hmerge, Option.map_some, hret]

/-- What is lost stays lost, unless it is the first of two groups. -/
theorem compare_lost {n : Nat} {prev cur : Name} (h : Lost q g x) (hprev : GroupName prev)
    (hcur : GroupName cur) (hg : GroupName g) (hgp : g ≠ prev) :
    Lost q g (x.compare ⟨q, prev, cur, n⟩).2 := by
  by_cases hmerge : Mergeable x.server.files ⟨q, prev, cur, n⟩
  · obtain ⟨-, hserver, -⟩ := compare_spec x ⟨q, prev, cur, n⟩
    cases hturn : x.server.turn ⟨q, prev, cur, n⟩
        (Pair.OverHalf ⟨q, prev, cur, n⟩ x.server.files) with
    | none =>
      rw [hturn] at hserver
      exact ⟨hserver ▸ h.ready, hserver ▸ h.gone⟩
    | some r =>
      obtain ⟨-, hready, -, hgone⟩ := turn_merges hmerge h.ready hprev hcur hturn
      rw [hturn] at hserver
      exact ⟨hserver ▸ hready, hserver ▸ hgone g hg hgp h.gone⟩
  · obtain ⟨hserver, -⟩ := compare_idle hmerge
    exact ⟨hserver ▸ h.ready, hserver ▸ h.gone⟩

/-- The groups of the list have names of their own. -/
def Named (names : List Name) : Prop := names.Nodup ∧ ∀ f ∈ names, GroupName f

theorem Named.tail {names : List Name} (h : Named (f :: names)) : Named names :=
  ⟨(List.nodup_cons.mp h.1).2, fun g hg => h.2 g (List.mem_cons_of_mem f hg)⟩

theorem Named.head {names : List Name} (h : Named (f :: names)) : GroupName f :=
  h.2 f List.mem_cons_self

theorem scanFiles_lost (hnames : Named (strPrev :: names)) (hg : GroupName g)
    (hout : g ∉ strPrev :: names) (h : Lost q g x) : Lost q g (scanFiles q strPrev names x).2 := by
  fun_induction scanFiles q strPrev names x with
  | case1 strPrev x => exact h
  | case2 cur names x ih =>
    exact ih hnames.tail (fun hin => hout (List.mem_cons_of_mem _ hin)) h
  | case3 strPrev cur names x hprev x' hcompare =>
    have hlost := compare_lost (n := names.length) h hnames.head hnames.tail.head hg
      fun hsame => hout (hsame ▸ List.mem_cons_self)
    rw [hcompare] at hlost
    exact hlost
  | case4 strPrev cur x hprev merged x' hcompare =>
    have hlost := compare_lost (n := ([] : List Name).length) h hnames.head hnames.tail.head
      hg fun hsame => hout (hsame ▸ List.mem_cons_self)
    rw [hcompare] at hlost
    exact hlost
  | case5 strPrev cur x hprev merged x' next names hcompare ih =>
    have hlost := compare_lost (n := (next :: names).length) h hnames.head hnames.tail.head
      hg fun hsame => hout (hsame ▸ List.mem_cons_self)
    rw [hcompare] at hlost
    exact ih hnames.tail.tail
      (fun hin => hout (List.mem_cons_of_mem _ (List.mem_cons_of_mem _ hin))) hlost

/-- Nothing is merged, so nothing happens. -/
theorem scanFiles_idle (hnames : ∀ f ∈ strPrev :: names, GroupName f)
    (h : ∀ p ∈ comparedPairs q (strPrev :: names), ¬ Mergeable x.server.files p) :
    (scanFiles q strPrev names x).2.server = x.server ∧
      (scanFiles q strPrev names x).2.clearCount = x.clearCount := by
  fun_induction scanFiles q strPrev names x with
  | case1 strPrev x => exact ⟨rfl, rfl⟩
  | case2 cur names x ih =>
    exact absurd (hnames [] List.mem_cons_self).length (by decide)
  | case3 strPrev cur names x hprev x' hcompare =>
    have hidle := compare_idle (h ⟨q, strPrev, cur, names.length⟩ List.mem_cons_self)
    rw [hcompare] at hidle
    exact hidle
  | case4 strPrev cur x hprev merged x' hcompare =>
    have hidle := compare_idle (h ⟨q, strPrev, cur, ([] : List Name).length⟩ List.mem_cons_self)
    rw [hcompare] at hidle
    exact hidle
  | case5 strPrev cur x hprev merged x' next names hcompare ih =>
    have hidle := compare_idle
      (h ⟨q, strPrev, cur, (next :: names).length⟩ List.mem_cons_self)
    rw [hcompare] at hidle
    obtain ⟨hserver, hcount⟩ := hidle
    have hrest := ih (fun f hf => hnames f (List.mem_cons_of_mem _ (List.mem_cons_of_mem _ hf)))
      fun p hp => by
        rw [hserver]
        exact h p (List.mem_cons_of_mem _ hp)
    exact ⟨hrest.1.trans hserver, hrest.2.trans hcount⟩

theorem clearCount_scanFiles (q strPrev : Name) (names : List Name) (x : Scan) :
    x.clearCount ≤ (scanFiles q strPrev names x).2.clearCount := by
  obtain ⟨ps, cs, hadds, -⟩ := scanFiles_adds q strPrev names x
  rw [hadds.count]
  exact Nat.le_add_right _ _

/-- The second group of the first pair that is merged is lost when the loop is through. -/
theorem scanFiles_merges (hnames : Named (strPrev :: names)) (hready : Ready x.server.files q)
    (h : ∃ p ∈ comparedPairs q (strPrev :: names), Mergeable x.server.files p)
    (hend : (scanFiles q strPrev names x).1 = .returned) :
    (scanFiles q strPrev names x).2.clearCount ≠ 0 ∧
      ∃ g ∈ strPrev :: names, Lost q g (scanFiles q strPrev names x).2 := by
  fun_induction scanFiles q strPrev names x with
  | case1 strPrev x =>
    obtain ⟨p, hp, -⟩ := h
    cases hp
  | case2 cur names x ih => exact absurd hnames.head.length (by decide)
  | case3 strPrev cur names x hprev x' hcompare => cases hend
  | case4 strPrev cur x hprev merged x' hcompare => cases hend
  | case5 strPrev cur x hprev merged x' next names hcompare ih =>
    by_cases hmerge : Mergeable x.server.files ⟨q, strPrev, cur, (next :: names).length⟩
    · obtain ⟨hret, hserver, -, -, hcount⟩ :=
        compare_spec x ⟨q, strPrev, cur, (next :: names).length⟩
      rw [hcompare] at hret hserver hcount
      cases hturn : x.server.turn ⟨q, strPrev, cur, (next :: names).length⟩
          (Pair.OverHalf ⟨q, strPrev, cur, (next :: names).length⟩ x.server.files) with
      | none =>
        rw [hturn] at hret
        cases hret
      | some r =>
        obtain ⟨hcalls, hready', hgone, -⟩ :=
          turn_merges hmerge hready hnames.head hnames.tail.head hturn
        rw [hturn] at hserver
        rw [hcalls] at hcount
        have hlost : Lost q cur x' := ⟨hserver ▸ hready', hserver ▸ hgone⟩
        have hout : cur ∉ next :: names := (List.nodup_cons.mp hnames.tail.1).1
        refine ⟨?_, cur, List.mem_cons_of_mem _ List.mem_cons_self,
          scanFiles_lost hnames.tail.tail hnames.tail.head hout hlost⟩
        have hmono := clearCount_scanFiles q next names x'
        simp only [List.countP_singleton, decide_true, if_true] at hcount
        omega
    · have hidle := compare_idle hmerge
      rw [hcompare] at hidle
      obtain ⟨hserver, -⟩ := hidle
      obtain ⟨p, hp, hpm⟩ := h
      have hrest : ∃ p ∈ comparedPairs q (next :: names), Mergeable x'.server.files p := by
        rcases List.mem_cons.mp hp with rfl | hp
        · exact absurd hpm hmerge
        · exact ⟨p, hp, hserver ▸ hpm⟩
      obtain ⟨hcount, g, hg, hlost⟩ := ih hnames.tail.tail (hserver ▸ hready) hrest hend
      exact ⟨hcount, g, List.mem_cons_of_mem _ (List.mem_cons_of_mem _ hg), hlost⟩

theorem compare_list (x : Scan) (p : Pair) :
    (x.compare p).2.server.msgQueueList = x.server.msgQueueList := by
  obtain ⟨-, hserver, -⟩ := compare_spec x p
  rw [hserver]
  unfold turn
  split
  · cases hmerge : x.server.mergeFiles p.queue p.prev p.cur with
    | none => rfl
    | some r => exact mergeFiles_list hmerge
  · rfl

theorem scanFiles_list (q strPrev : Name) (names : List Name) (x : Scan) :
    (scanFiles q strPrev names x).2.server.msgQueueList = x.server.msgQueueList := by
  fun_induction scanFiles q strPrev names x with
  | case1 strPrev x => rfl
  | case2 cur names x ih => exact ih
  | case3 strPrev cur names x hprev x' hcompare =>
    have hlist := compare_list x ⟨q, strPrev, cur, names.length⟩
    rw [hcompare] at hlist
    exact hlist
  | case4 strPrev cur x hprev merged x' hcompare =>
    have hlist := compare_list x ⟨q, strPrev, cur, ([] : List Name).length⟩
    rw [hcompare] at hlist
    exact hlist
  | case5 strPrev cur x hprev merged x' next names hcompare ih =>
    have hlist := compare_list x ⟨q, strPrev, cur, (next :: names).length⟩
    rw [hcompare] at hlist
    exact ih.trans hlist

/-! ### The queues -/

variable {entries : List ((_ : Name) × List Name)} {b : (_ : Name) × List Name}

/-- The loop over the groups of a queue, from its first group on. -/
theorem scanFiles_first (hnames : ∀ f ∈ names, GroupName f) :
    ((∀ p ∈ comparedPairs q names, ¬ Mergeable x.server.files p) →
      (scanFiles q [] names x).2.server = x.server ∧
        (scanFiles q [] names x).2.clearCount = x.clearCount) ∧
    (Ready x.server.files q → names.Nodup → (∃ p ∈ comparedPairs q names, Mergeable x.server.files p) →
      (scanFiles q [] names x).1 = .returned →
        (scanFiles q [] names x).2.clearCount ≠ 0 ∧
          ∃ g ∈ names, Lost q g (scanFiles q [] names x).2) := by
  cases names with
  | nil =>
    refine ⟨fun _ => ⟨rfl, rfl⟩, fun _ _ h => ?_⟩
    obtain ⟨p, hp, -⟩ := h
    cases hp
  | cons cur names =>
    rw [scanFiles_empty]
    exact ⟨scanFiles_idle hnames, fun hready hnodup => scanFiles_merges ⟨hnodup, hnames⟩ hready⟩

theorem scanQueues_list (entries : List ((_ : Name) × List Name)) (x : Scan) :
    (scanQueues entries x).2.server.msgQueueList = x.server.msgQueueList := by
  induction entries generalizing x with
  | nil => rfl
  | cons b entries ih =>
    rw [scanQueues]
    split
    · rfl
    · have hfirst := scanFiles_list b.1 [] b.2 x
      cases hscan : scanFiles b.1 [] b.2 x with
      | mk ended x' =>
        rw [hscan] at hfirst
        cases ended with
        | returned => exact (ih x').trans hfirst
        | pastEnd => exact hfirst
        | inMerge => exact hfirst

theorem scanQueues_idle (hnames : ∀ b ∈ entries, ∀ f ∈ b.2, GroupName f)
    (h : ∀ b ∈ entries, ∀ p ∈ comparedPairs b.1 b.2, ¬ Mergeable x.server.files p) :
    (scanQueues entries x).2.server = x.server := by
  induction entries generalizing x with
  | nil => rfl
  | cons b entries ih =>
    rw [scanQueues]
    split
    · rfl
    · have hfirst := ((scanFiles_first (q := b.1) (x := x) (hnames b List.mem_cons_self)).1
        (h b List.mem_cons_self)).1
      cases hscan : scanFiles b.1 [] b.2 x with
      | mk ended x' =>
        rw [hscan] at hfirst
        cases ended with
        | returned =>
          refine (ih (fun b' hb' => hnames b' (List.mem_cons_of_mem b hb'))
            fun b' hb' p hp => ?_).trans hfirst
          rw [hfirst]
          exact h b' (List.mem_cons_of_mem b hb') p hp
        | pastEnd => exact hfirst
        | inMerge => exact hfirst

/-- The scan ends with the queue in which groups are merged. -/
theorem scanQueues_merges (hnames : ∀ b ∈ entries, ∀ f ∈ b.2, GroupName f)
    (hready : ∀ b ∈ entries, ∀ p ∈ comparedPairs b.1 b.2, Mergeable x.server.files p →
      Ready x.server.files b.1 ∧ b.2.Nodup)
    (h : ∃ b ∈ entries, ∃ p ∈ comparedPairs b.1 b.2, Mergeable x.server.files p)
    (hcount : x.clearCount = 0) (hend : (scanQueues entries x).1 = .returned) :
    ∃ b ∈ entries, ∃ g ∈ b.2, Lost b.1 g (scanQueues entries x).2 := by
  induction entries generalizing x with
  | nil =>
    obtain ⟨b, hb, -⟩ := h
    cases hb
  | cons b entries ih =>
    have hfirst := scanFiles_first (q := b.1) (x := x) (hnames b List.mem_cons_self)
    rw [scanQueues, if_neg (not_not.mpr hcount)] at hend ⊢
    cases hscan : scanFiles b.1 [] b.2 x with
    | mk ended x' =>
      rw [hscan] at hend hfirst
      cases ended with
      | pastEnd => cases hend
      | inMerge => cases hend
      | returned =>
        by_cases hmerge : ∃ p ∈ comparedPairs b.1 b.2, Mergeable x.server.files p
        · obtain ⟨p, hp, hpm⟩ := hmerge
          obtain ⟨hreadyQ, hnodup⟩ := hready b List.mem_cons_self p hp hpm
          obtain ⟨hnonzero, g, hg, hlost⟩ := hfirst.2 hreadyQ hnodup ⟨p, hp, hpm⟩ rfl
          refine ⟨b, List.mem_cons_self, g, hg, ?_⟩
          rw [andThen, scanQueues_done hnonzero]
          exact hlost
        · have hnone : ∀ p ∈ comparedPairs b.1 b.2, ¬ Mergeable x.server.files p :=
            fun p hp hpm => hmerge ⟨p, hp, hpm⟩
          obtain ⟨hserver, hsame⟩ := hfirst.1 hnone
          obtain ⟨b', hb', p, hp, hpm⟩ := h
          have hrest : ∃ b ∈ entries, ∃ p ∈ comparedPairs b.1 b.2,
              Mergeable x'.server.files p := by
            rcases List.mem_cons.mp hb' with rfl | hb'
            · exact absurd hpm (hnone p hp)
            · exact ⟨b', hb', p, hp, hserver ▸ hpm⟩
          obtain ⟨b', hb', hlost⟩ := ih (fun b' hb' => hnames b' (List.mem_cons_of_mem b hb'))
            (fun b' hb' p hp hpm => by
              have hserver : x'.server = x.server := hserver
              rw [hserver] at hpm ⊢
              exact hready b' (List.mem_cons_of_mem b hb') p hp hpm)
            hrest (hsame.trans hcount) hend
          exact ⟨b', List.mem_cons_of_mem b hb', hlost⟩

theorem lookup_of_mem_entries {l : AList fun _ : Name => List Name} (h : b ∈ l.entries) :
    l.lookup b.1 = some b.2 := AList.mem_lookup_iff.mpr h

/-- Files that can be merged are in the directory of a queue. -/
theorem Grouped.ready_of_mergeable (h : Grouped s) (hb : b ∈ s.msgQueueList.entries)
    (hp : p ∈ comparedPairs b.1 b.2) (hm : Mergeable s.files p) : Ready s.files b.1 := by
  obtain ⟨hplain, hnames⟩ := h.listed b.1 b.2 (lookup_of_mem_entries hb)
  obtain ⟨hqueue, hprev, -⟩ := comparedPairs_mem hp
  obtain ⟨g₁, hg₁⟩ := Option.isSome_iff_exists.mp hm.2.1
  obtain ⟨hindex, -⟩ := readGroup_some hg₁
  obtain ⟨node, hnode, -⟩ := Option.bind_eq_some_iff.mp hindex
  rw [hqueue] at hnode
  have hfile : Plain (p.prev ++ extIndex) :=
    plain_groupFile (hnames p.prev hprev) (Or.inr (Or.inl rfl))
  exact h.orderly.tidy.ready hplain (resolve_file_some hplain hfile hnode).1

/-- A group that is merged into another stays in the list. -/
theorem clearUpFile_agrees (h : Grouped s) (ha : Agrees s)
    (hend : s.clearUpFile.1 = .returned) :
    ((∀ b ∈ s.msgQueueList.entries, ∀ p ∈ comparedPairs b.1 b.2, ¬ Mergeable s.files p) ↔
      Agrees s.clearUpFile.2.server) ∧
    (Agrees s.clearUpFile.2.server → Grouped s.clearUpFile.2.server) := by
  have hnames : ∀ b ∈ s.msgQueueList.entries, ∀ f ∈ b.2, GroupName f := fun b hb =>
    (h.listed b.1 b.2 (lookup_of_mem_entries hb)).2
  have hidle : (∀ b ∈ s.msgQueueList.entries, ∀ p ∈ comparedPairs b.1 b.2,
      ¬ Mergeable s.files p) → s.clearUpFile.2.server = s := fun hnone =>
    scanQueues_idle (x := { server := s }) hnames hnone
  have hlist : s.clearUpFile.2.server.msgQueueList = s.msgQueueList := scanQueues_list _ _
  have hnone : Agrees s.clearUpFile.2.server →
      ∀ b ∈ s.msgQueueList.entries, ∀ p ∈ comparedPairs b.1 b.2, ¬ Mergeable s.files p := by
    intro hagrees b hb p hp hpm
    have hready : ∀ b ∈ s.msgQueueList.entries, ∀ p ∈ comparedPairs b.1 b.2,
        Mergeable s.files p → Ready s.files b.1 ∧ b.2.Nodup := by
      intro b hb p hp hpm
      have hready := h.ready_of_mergeable hb hp hpm
      have hascending := (ha b.1 _ (folderAt_of_isDir hready.queue)).ascending
      rw [fileList_some (lookup_of_mem_entries hb)] at hascending
      refine ⟨hready, hascending.imp ?_⟩
      rintro f g hlt rfl
      exact List.lt_irrefl f hlt
    obtain ⟨b, hb, g, hg, hlost⟩ := scanQueues_merges (x := { server := s }) hnames hready
      ⟨b, hb, p, hp, hpm⟩ rfl hend
    have hat := hagrees b.1 _ (folderAt_of_isDir hlost.ready.queue)
    have hin : g ∈ s.clearUpFile.2.server.fileList b.1 := by
      rw [fileList, hlist, lookup_of_mem_entries hb]
      exact hg
    exact (hat.listed g).mp hin hlost.gone
  refine ⟨⟨fun hfree => (hidle hfree).symm ▸ ha, hnone⟩, fun hagrees => ?_⟩
  rw [hidle (hnone hagrees)]
  exact h

end CleanUp

/-! ## Runs -/

/-- One step keeps the maps in agreement exactly if it meets nothing stale. -/
theorem queueStep_agrees {a : QueueStep} (h : Grouped s) (ha : Agrees s) (hrising : Rising s a)
    (hrun : queueStep s a = some s') :
    (Unstale s a ↔ Agrees s') ∧ (Agrees s' → Grouped s') := by
  cases a with
  | create ipBuffer iLen =>
    obtain ⟨o, ho, rfl⟩ := Option.map_eq_some_iff.mp hrun
    obtain ⟨n, hname, rfl⟩ := Option.map_eq_some_iff.mp ho
    obtain ⟨hgrouped, hiff⟩ :=
      createInfo_agrees h ha (hrising n hname) (ipBuffer.read 0 iLen)
    refine ⟨?_, fun _ => hgrouped⟩
    rw [← hiff, Unstale, hname]
    exact ⟨fun hall => hall n rfl, fun hlist m hm => by cases hm; exact hlist⟩
  | delete ipBuffer =>
    obtain ⟨o, ho, rfl⟩ := Option.map_eq_some_iff.mp hrun
    obtain ⟨n, hname, rfl⟩ := Option.map_eq_some_iff.mp ho
    obtain ⟨hgrouped, hagrees⟩ := removeInfo_agrees h ha (hrising n hname) rfl
    exact ⟨iff_of_true trivial hagrees, fun _ => hgrouped⟩
  | publish r n k =>
    obtain ⟨o, ho, rfl⟩ := Option.map_eq_some_iff.mp hrun
    obtain ⟨hn, hk, hlast⟩ := hrising
    obtain ⟨hgrouped, hiff⟩ := onPublishMessage_agrees h ha hn hk hlast ho
    exact ⟨hiff, fun _ => hgrouped⟩
  | consume ipBuffer =>
    obtain ⟨o, ho, rfl⟩ := Option.map_eq_some_iff.mp hrun
    obtain ⟨hgrouped, hagrees⟩ := onConsumeMessage_agrees h ha ho
    exact ⟨iff_of_true trivial hagrees, fun _ => hgrouped⟩
  | clearUp =>
    rw [queueStep] at hrun
    split at hrun
    · next hend =>
      cases hrun
      exact clearUpFile_agrees h ha hend
    · cases hrun

/-- The maps agree with the files throughout a run exactly if no step meets a stale entry. -/
theorem agrees_throughout_iff {as : List QueueStep} {t : PersistenceServer} (hs : Grouped s)
    (ha : Agrees s) (hrising : Runs.AllSteps queueStep Rising s as)
    (hrun : Runs.run queueStep s as = some t) :
    Runs.AllSteps queueStep Unstale s as ↔ ∀ pre post r, as = pre ++ post →
      Runs.run queueStep s pre = some r → Agrees r := by
  have hstep : ∀ s a t, Grouped s → Agrees s → Rising s a → queueStep s a = some t →
      (Unstale s a ↔ Agrees t) ∧ (Agrees t → Grouped t) :=
    fun _ _ _ h ha hrising hstep => queueStep_agrees h ha hrising hstep
  exact Runs.allSteps_iff_of_allowed hstep hs ha hrising hrun

section Start

theorem not_isDir_empty (p : Path) (h : p.comps ≠ []) : ¬ IsDir (∅ : FileSystem) p := by
  rintro (hroot | hdir)
  · exact h hroot
  · cases hdir

theorem grouped_empty : Grouped { files := ∅ } := by
  have hdisk : ∀ n F, disk (∅ : FileSystem) (.queue, n) ≠ some F := by
    intro n F hF
    exact not_isDir_empty _ (Path.child_ne_nil _ _) (isDir_of_folderAt hF)
  have htidy : Tidy (∅ : FileSystem) := by
    refine ⟨fun _ => rfl, fun _ _ => ⟨rfl, fun _ => ?_, fun _ _ => rfl⟩, fun _ _ hdir => ?_⟩
    · exact not_isDir_empty _ (Path.child_ne_nil _ _)
    · exact absurd hdir (not_isDir_empty _ (Path.child_ne_nil _ _))
  have hproper : Proper (∅ : FileSystem) := fun _ hp => absurd rfl hp
  exact ⟨orderly_start hproper htidy, fun n F hF => absurd hF (hdisk n F), fun _ _ h => nomatch h⟩

theorem agrees_empty : Agrees { files := ∅ } := by
  intro n F hF
  exact absurd (isDir_of_folderAt hF) (not_isDir_empty _ (Path.child_ne_nil _ _))

def createEmpty : QueueStep := .create (Mem.ofBytes (image [writeName [113]])) maxNameLength

def deleteEmpty : QueueStep := .delete (Mem.ofBytes (image [writeName [113]]))

def publishOne (k : Int) : QueueStep := .publish (emptyRecord k) [113] k

def consumeOne (k : Int) : QueueStep :=
  .consume (Mem.ofBytes (image [writeName [113], writeInt k]))

/-- All messages of a queue are consumed before it is deleted and made again. -/
def madeAgain : List QueueStep :=
  [createEmpty, publishOne 0, publishOne 1, consumeOne 0, consumeOne 1, deleteEmpty, createEmpty,
    publishOne 0, .clearUp]

theorem agrees_throughout_madeAgain : ∃ t, Runs.run queueStep { files := ∅ } madeAgain = some t ∧
    ∀ pre post r, madeAgain = pre ++ post →
      Runs.run queueStep { files := ∅ } pre = some r → Agrees r := by
  have hsome : (Runs.run queueStep { files := ∅ } madeAgain).isSome := by decide +kernel
  obtain ⟨t, ht⟩ := Option.isSome_iff_exists.mp hsome
  exact ⟨t, ht, (agrees_throughout_iff grouped_empty agrees_empty (by decide +kernel) ht).mp
    (by decide +kernel)⟩

/-- A queue is deleted with a message in it. -/
def deletedEarly : List QueueStep :=
  [createEmpty, publishOne 0, deleteEmpty, createEmpty, publishOne 0]

theorem group_listed_twice : Runs.AllSteps queueStep Rising { files := ∅ } deletedEarly ∧
    ∃ t, Runs.run queueStep { files := ∅ } deletedEarly = some t ∧
      t.fileList [113] = [convertIndexToString 0, convertIndexToString 0] ∧ ¬ Agrees t := by
  refine ⟨by decide +kernel, ?_⟩
  have hcheck : (Runs.run queueStep { files := ∅ } deletedEarly).map (fun t =>
      decide (t.fileList [113] = [convertIndexToString 0, convertIndexToString 0] ∧
        IsDir t.files (queueNode [113]))) = some true := by
    decide +kernel
  obtain ⟨t, ht, hcheck⟩ := Option.map_eq_some_iff.mp hcheck
  obtain ⟨htwice, hdir⟩ := of_decide_eq_true hcheck
  refine ⟨t, ht, htwice, fun hagrees => ?_⟩
  have hascending := (hagrees [113] _ (folderAt_of_isDir hdir)).ascending
  rw [htwice] at hascending
  exact List.lt_irrefl _ (List.rel_of_pairwise_cons hascending List.mem_cons_self)

end Start

end Wsmq.PersistenceServer
