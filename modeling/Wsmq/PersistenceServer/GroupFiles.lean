import Wsmq.Lib.SegmentedLog
import Wsmq.PersistenceServer.GroupNames

/-!
# The files of one group

What the file calls of the handlers do in the directory of a queue, and what the three
files of a group hold.
-/

namespace Wsmq.PersistenceServer
open Lib Lib.ByteString Lib.Packing Lib.Files

variable {fs fs' : FileSystem} {q f g ext : Name} {s : PersistenceServer}

/-! ## Calls -/

@[simp] theorem fileNode_eq_iff : fileNode q f = fileNode q g ↔ f = g :=
  ⟨fun h => (fileNode_inj h).2, congrArg (fileNode q)⟩

theorem bytesAt_put_file (fs : FileSystem) (q f g : Name) (bytes : Bytes) :
    bytesAt (put fs (fileNode q f) bytes) (fileNode q g) =
      if g = f then some bytes else bytesAt fs (fileNode q g) := by
  simp only [bytesAt_put, fileNode_eq_iff]

theorem bytesAt_erase_file (fs : FileSystem) (q f g : Name) :
    bytesAt (fs.erase (fileNode q f)) (fileNode q g) =
      if g = f then none else bytesAt fs (fileNode q g) := by
  simp only [bytesAt_erase, fileNode_eq_iff]

/-- Only files in the directory of the queue are changed, and no directory. -/
structure InQueue (q : Name) (fs fs' : FileSystem) : Prop where
  dirs : SameDirs fs fs'
  other : ∀ p, (∀ f, p ≠ fileNode q f) → bytesAt fs' p = bytesAt fs p

namespace InQueue

theorem refl (q : Name) (fs : FileSystem) : InQueue q fs fs := ⟨SameDirs.refl fs, fun _ _ => rfl⟩

theorem trans {fs'' : FileSystem} (h : InQueue q fs fs') (h' : InQueue q fs' fs'') :
    InQueue q fs fs'' :=
  ⟨h.dirs.trans h'.dirs, fun p hp => (h'.other p hp).trans (h.other p hp)⟩

theorem ready (h : InQueue q fs fs') (hr : Ready fs q) : Ready fs' q := hr.congr h.dirs

end InQueue

theorem inQueue_put (h : Ready fs q) (f : Name) (bytes : Bytes) :
    InQueue q fs (put fs (fileNode q f) bytes) := by
  refine ⟨sameDirs_put (h.file f) bytes, fun p hp => ?_⟩
  rw [bytesAt_put, if_neg (hp f)]

theorem inQueue_erase (h : Ready fs q) (f : Name) : InQueue q fs (fs.erase (fileNode q f)) := by
  refine ⟨sameDirs_erase (h.file f), fun p hp => ?_⟩
  rw [bytesAt_erase, if_neg (hp f)]

theorem readFile_ready (h : Ready fs q) (hf : Plain f) :
    readFile fs (queueDir q ++ slash :: f) = bytesAt fs (fileNode q f) := by
  rw [readFile, resolve_file h hf, Option.bind_some]

theorem openFile_ready (h : Ready fs q) (hf : Plain f) (truncate : Bool) :
    openFile fs (queueDir q ++ slash :: f) truncate =
      some (put fs (fileNode q f) (if truncate then [] else (bytesAt fs (fileNode q f)).getD [])) := by
  rw [openFile, resolve_file h hf, Option.bind_some, if_neg (h.file f)]

theorem tryOpen_ready (h : Ready fs q) (hf : Plain f) (truncate : Bool) :
    tryOpen fs (queueDir q ++ slash :: f) truncate =
      (true, put fs (fileNode q f)
        (if truncate then [] else (bytesAt fs (fileNode q f)).getD [])) := by
  rw [tryOpen, openFile_ready h hf]

theorem appendFile_ready (h : Ready fs q) (hf : Plain f) (bytes : Bytes) :
    appendFile fs (queueDir q ++ slash :: f) bytes =
      put fs (fileNode q f) ((bytesAt fs (fileNode q f)).getD [] ++ bytes) := by
  rw [appendFile, resolve_file h hf]

theorem removeFile_ready (h : Ready fs q) (hf : Plain f) :
    removeFile fs (queueDir q ++ slash :: f) = fs.erase (fileNode q f) := by
  rw [removeFile, resolve_file h hf]
  exact if_neg (h.file f)

theorem fileExists_queueDir (h : Ready fs q) : fileExists fs (queueDir q) = true := by
  rw [fileExists, resolve_queueDir h]
  exact decide_eq_true (Or.inl h.queue)

/-! ## Appending a record -/

theorem plain_offsetFile : Plain offsetFile := by decide

theorem ext_ne (g : Name) {ext ext' : Bytes} (h : ext ≠ ext') : g ++ ext ≠ g ++ ext' :=
  fun hsame => h (List.append_cancel_left hsame)

/-- The open files get record, entry and offset. -/
structure Appended (q g : Name) (r : Bytes) (iIndex iWritePos : Int) (fs fs' : FileSystem) :
    Prop where
  inQueue : InQueue q fs fs'
  data : bytesAt fs' (fileNode q (g ++ extData)) =
    some ((bytesAt fs (fileNode q (g ++ extData))).getD [] ++ r)
  index : bytesAt fs' (fileNode q (g ++ extIndex)) =
    some ((bytesAt fs (fileNode q (g ++ extIndex))).getD [] ++ indexEntry iIndex iWritePos)
  offset : bytesAt fs' (fileNode q offsetFile) = some (beInt 4 iIndex)
  other : ∀ f, f ≠ g ++ extData → f ≠ g ++ extIndex → f ≠ offsetFile →
    bytesAt fs' (fileNode q f) = bytesAt fs (fileNode q f)

theorem opened_bytesAt (fs : FileSystem) (p p' : Path) :
    (bytesAt (put fs p ((bytesAt fs p).getD [])) p').getD [] = (bytesAt fs p').getD [] := by
  rw [bytesAt_put]
  split
  · next h =>
    rw [h]
    rfl
  · rfl

theorem writeFiles_appended (h : Ready fs q) (hg : Stem g) (r : Bytes)
    (iIndex iWritePos : Int) (hoffset : bytesAt fs (fileNode q offsetFile) = some []) :
    Appended q g r iIndex iWritePos fs (writeFiles fs q g r iIndex iWritePos) := by
  have hdata : Plain (g ++ extData) := hg.plain _ (Or.inl rfl)
  have hindex : Plain (g ++ extIndex) := hg.plain _ (Or.inr (Or.inl rfl))
  have hne : g ++ extIndex ≠ g ++ extData := ext_ne g (by decide)
  have hneData := hg.ne_offset _ (Or.inl rfl)
  have hneIndex := hg.ne_offset _ (Or.inr (Or.inl rfl))
  have h₁ := inQueue_put h (g ++ extData) ((bytesAt fs (fileNode q (g ++ extData))).getD [] ++ r)
  have h₂ := inQueue_put (h₁.ready h) (g ++ extIndex)
    ((bytesAt fs (fileNode q (g ++ extIndex))).getD [] ++ indexEntry iIndex iWritePos)
  have h₃ := inQueue_put (h₂.ready (h₁.ready h)) offsetFile (beInt 4 iIndex)
  have hwrite : writeFiles fs q g r iIndex iWritePos = put (put (put fs (fileNode q (g ++ extData))
      ((bytesAt fs (fileNode q (g ++ extData))).getD [] ++ r)) (fileNode q (g ++ extIndex))
        ((bytesAt fs (fileNode q (g ++ extIndex))).getD [] ++ indexEntry iIndex iWritePos))
          (fileNode q offsetFile) (beInt 4 iIndex) := by
    rw [writeFiles, groupPath, groupPath, offsetPath, appendFile_ready h hdata,
      appendFile_ready (h₁.ready h) hindex, bytesAt_put_file, if_neg hne]
    refine (appendFile_ready (h₂.ready (h₁.ready h)) plain_offsetFile _).trans ?_
    rw [bytesAt_put_file, if_neg hneIndex.symm, bytesAt_put_file, if_neg hneData.symm, hoffset]
    rfl
  rw [hwrite]
  refine ⟨(h₁.trans h₂).trans h₃, ?_, ?_, ?_, fun f hf hf' hf'' => ?_⟩
  · simp only [bytesAt_put_file, hneData, hne.symm, if_false, if_true]
  · simp only [bytesAt_put_file, hneIndex, if_false, if_true]
  · simp only [bytesAt_put_file, if_true]
  · simp only [bytesAt_put_file, hf, hf', hf'', if_false]

theorem appendRecord_ready (h : Ready s.files q) (hg : Stem g) (r : Bytes)
    (iIndex iWritePos : Int) :
    ∃ files, Appended q g r iIndex iWritePos s.files files ∧
      s.appendRecord r q iIndex g iWritePos = (success, { s with
        files := files
        history := s.history ++ [.published q iIndex r g] }) := by
  have hdata : Plain (g ++ extData) := hg.plain _ (Or.inl rfl)
  have hindex : Plain (g ++ extIndex) := hg.plain _ (Or.inr (Or.inl rfl))
  let fs₁ := put s.files (fileNode q (g ++ extData))
    ((bytesAt s.files (fileNode q (g ++ extData))).getD [])
  let fs₂ := put fs₁ (fileNode q (g ++ extIndex)) ((bytesAt fs₁ (fileNode q (g ++ extIndex))).getD [])
  let fs₃ := put fs₂ (fileNode q offsetFile) []
  have h₁ : InQueue q s.files fs₁ := inQueue_put h _ _
  have h₂ : InQueue q fs₁ fs₂ := inQueue_put (h₁.ready h) _ _
  have h₃ : InQueue q fs₂ fs₃ := inQueue_put (h₂.ready (h₁.ready h)) _ _
  have hopened : InQueue q s.files fs₃ := (h₁.trans h₂).trans h₃
  have hsame : ∀ f, f ≠ offsetFile → (bytesAt fs₃ (fileNode q f)).getD [] =
      (bytesAt s.files (fileNode q f)).getD [] := by
    intro f hf
    have hput : bytesAt fs₃ (fileNode q f) = bytesAt fs₂ (fileNode q f) := by
      rw [bytesAt_put_file, if_neg hf]
    rw [hput]
    exact (opened_bytesAt fs₁ _ _).trans (opened_bytesAt s.files _ _)
  have hwritten := writeFiles_appended (hopened.ready h) hg r iIndex iWritePos
    (by rw [bytesAt_put_file, if_pos rfl])
  refine ⟨_, ⟨hopened.trans hwritten.inQueue, ?_, ?_, hwritten.offset, fun f hf hf' hf'' => ?_⟩, ?_⟩
  · rw [hwritten.data, hsame _ (hg.ne_offset _ (Or.inl rfl))]
  · rw [hwritten.index, hsame _ (hg.ne_offset _ (Or.inr (Or.inl rfl)))]
  · rw [hwritten.other f hf hf' hf'']
    simp only [fs₃, fs₂, fs₁, bytesAt_put_file, hf, hf', hf'', if_false]
  · have hopen : tryOpen fs₂ (offsetPath q) true = (true, fs₃) :=
      tryOpen_ready (h₂.ready (h₁.ready h)) plain_offsetFile true
    have hopen₂ : tryOpen fs₁ (groupPath q g extIndex) false = (true, fs₂) :=
      tryOpen_ready (h₁.ready h) hindex false
    have hopen₁ : tryOpen s.files (groupPath q g extData) false = (true, fs₁) :=
      tryOpen_ready h hdata false
    rw [appendRecord, hopen₁, hopen₂, hopen, if_neg (by simp)]

/-! ## Contents -/

/-- Messages under one name. -/
abbrev Group := SegmentedLog.Segment Name Int Bytes

/-- The entry of the index file leads to the record. -/
def LeadsTo (data : Bytes) (e : Int × Int) (r : Int × Bytes) : Prop :=
  e.1 = r.1 ∧ recordAt data e.2 = some r.2

/-- The `.consume` file holds the indices of the group that are consumed, each once. -/
structure ConsumeFile (consume : Bytes) (consumed : List Int) (g : Group) : Prop where
  length : consume.length = 4 * (consumeIndexSet consume).length
  nodup : (consumeIndexSet consume).Nodup
  mem : ∀ k, k ∈ consumeIndexSet consume ↔ k ∈ consumed ∧ k ∈ g.keys

/-- The files of a group that is not all consumed. -/
structure GroupFiles (fs : FileSystem) (q : Name) (consumed : List Int) (g : Group)
    (data index : Bytes) : Prop where
  dataFile : bytesAt fs (fileNode q (g.name ++ extData)) = some data
  indexFile : bytesAt fs (fileNode q (g.name ++ extIndex)) = some index
  length : index.length = 8 * g.entries.length
  entries : List.Forall₂ (LeadsTo data) (indexEntries index) g.entries
  consume : ConsumeFile ((bytesAt fs (fileNode q (g.name ++ extConsume))).getD []) consumed g

variable {consumed : List Int} {grp : Group} {data index : Bytes}

theorem GroupFiles.congr (h : GroupFiles fs q consumed grp data index)
    (hsame : ∀ ext, IsExt ext → bytesAt fs' (fileNode q (grp.name ++ ext)) =
      bytesAt fs (fileNode q (grp.name ++ ext))) : GroupFiles fs' q consumed grp data index where
  dataFile := (hsame _ (Or.inl rfl)).trans h.dataFile
  indexFile := (hsame _ (Or.inr (Or.inl rfl))).trans h.indexFile
  length := h.length
  entries := h.entries
  consume := by
    rw [hsame _ (Or.inr (Or.inr rfl))]
    exact h.consume

/-- The files of a group say nothing about indices of other groups. -/
theorem GroupFiles.consume_other (h : GroupFiles fs q consumed grp data index) {k : Int}
    (hk : k ∉ grp.keys) : GroupFiles fs q (consumed ++ [k]) grp data index where
  dataFile := h.dataFile
  indexFile := h.indexFile
  length := h.length
  entries := h.entries
  consume := by
    refine ⟨h.consume.length, h.consume.nodup, fun j => ?_⟩
    rw [h.consume.mem j, List.mem_append, List.mem_singleton]
    constructor
    · exact fun hj => ⟨Or.inl hj.1, hj.2⟩
    · rintro ⟨hj | rfl, hin⟩
      · exact ⟨hj, hin⟩
      · exact absurd hin hk

theorem consumeFile_nil {g : Group} (h : ∀ k ∈ g.keys, k ∉ consumed) :
    ConsumeFile [] consumed g := by
  refine ⟨rfl, List.nodup_nil, fun k => ?_⟩
  constructor
  · exact fun hk => nomatch hk
  · exact fun hk => absurd hk.1 (h k hk.2)

/-! ### Appending -/

theorem leadsTo_append {r : Bytes} (hr : OwnLength r) (data : Bytes) (k : Int) :
    LeadsTo (data ++ r) (k, data.length) (k, r) := by
  refine ⟨rfl, ?_⟩
  have hat : recordAt (data ++ (r ++ [])) data.length = some r := recordAt_append hr
  rwa [List.append_nil] at hat

theorem fits_length {n : Nat} (h : n ≤ durableMessageFileSize) : FitsInt 4 n := by
  have hsize : durableMessageFileSize < 2 ^ 31 := by decide
  have hmax : ((256 ^ 4 / 2 : Nat) : Int) = 2 ^ 31 := by decide
  rw [FitsInt, hmax]
  omega

theorem groupFiles_new {k : Int} {r : Bytes} (hname : GroupName g) (hk : IsIndex k)
    (hr : OwnLength r) (hnew : k ∉ consumed)
    (habsent : ∀ ext, IsExt ext → bytesAt fs (fileNode q (g ++ ext)) = none)
    (h : Appended q g r k 0 fs fs') :
    GroupFiles fs' q consumed ⟨g, [(k, r)]⟩ r (indexEntry k 0) := by
  have hempty : (indexEntry k 0).length = 8 := indexEntry_length k 0
  have hnil : ([] : Bytes).length = 8 * 0 := rfl
  have hentries : indexEntries (indexEntry k 0) = [(k, 0)] :=
    indexEntries_append_entry hnil hk.fits (fits_length (Nat.zero_le _))
  refine ⟨?_, ?_, hempty, ?_, ?_⟩
  · rw [h.data, habsent _ (Or.inl rfl)]
    rfl
  · rw [h.index, habsent _ (Or.inr (Or.inl rfl))]
    rfl
  · rw [hentries]
    exact List.Forall₂.cons (leadsTo_append hr [] k) List.Forall₂.nil
  · rw [h.other _ (ext_ne g (by decide)) (ext_ne g (by decide)) (groupFile_ne_offset hname _),
      habsent _ (Or.inr (Or.inr rfl))]
    refine consumeFile_nil fun j hj => ?_
    rw [List.mem_singleton.mp hj]
    exact hnew

theorem groupFiles_add {k : Int} {r : Bytes} (hname : GroupName grp.name) (hk : IsIndex k)
    (hr : OwnLength r) (hnew : k ∉ consumed) (hsize : data.length ≤ durableMessageFileSize)
    (hg : GroupFiles fs q consumed grp data index)
    (h : Appended q grp.name r k data.length fs fs') :
    GroupFiles fs' q consumed (grp.add k r) (data ++ r) (index ++ indexEntry k data.length) := by
  refine ⟨?_, ?_, ?_, ?_, ?_⟩
  · exact h.data.trans (by rw [hg.dataFile]; rfl)
  · exact h.index.trans (by rw [hg.indexFile]; rfl)
  · rw [List.length_append, hg.length, indexEntry_length, SegmentedLog.Segment.add,
      List.length_append, List.length_singleton, Nat.mul_add]
  · rw [indexEntries_append_entry hg.length hk.fits (fits_length hsize)]
    refine List.rel_append ?_ (List.Forall₂.cons (leadsTo_append hr data k) List.Forall₂.nil)
    exact hg.entries.imp fun e e' he => ⟨he.1, recordAt_left he.2 r⟩
  · have hsame : bytesAt fs' (fileNode q (grp.name ++ extConsume)) =
        bytesAt fs (fileNode q (grp.name ++ extConsume)) :=
      h.other _ (ext_ne _ (by decide)) (ext_ne _ (by decide)) (groupFile_ne_offset hname _)
    have hold := hg.consume
    rw [← hsame] at hold
    refine ⟨hold.length, hold.nodup, fun j => (hold.mem j).trans ?_⟩
    rw [SegmentedLog.Segment.keys_add, List.mem_append, List.mem_singleton]
    constructor
    · exact fun hj => ⟨hj.1, Or.inl hj.2⟩
    · rintro ⟨hj, hin | rfl⟩
      · exact ⟨hj, hin⟩
      · exact absurd hj hnew

/-! ### Reading -/

theorem readEntries_filter {set : List Int} {es : List (Int × Int)} {rs : List (Int × Bytes)}
    (h : List.Forall₂ (LeadsTo data) es rs) (hset : ∀ r ∈ rs, r.1 ∈ set ↔ r.1 ∈ consumed) :
    readEntries data set es = some (rs.filter fun r => r.1 ∉ consumed) := by
  induction h with
  | nil => rfl
  | @cons e r es rs he _ ih =>
    have hrest := ih fun r' hr' => hset r' (List.mem_cons_of_mem r hr')
    have hmem := hset r List.mem_cons_self
    rw [readEntries, he.1, List.filter_cons]
    by_cases hk : r.1 ∈ consumed
    · rw [if_pos (hmem.mpr hk), if_neg (by simpa using hk)]
      exact hrest
    · rw [if_neg (fun hin => hk (hmem.mp hin)), if_pos (by simpa using hk), he.2, hrest]
      rfl

theorem readFile_sub (h : Ready fs q) (hf : Plain f) :
    readFile fs (subPath q ++ slash :: f) = bytesAt fs (fileNode q f) := by
  rw [readFile, resolve_subFile h hf, Option.bind_some]

theorem groupRecords_ready (h : Ready fs q) (hname : GroupName grp.name)
    (hne : grp.entries ≠ []) (hg : GroupFiles fs q consumed grp data index) :
    groupRecords fs (subPath q ++ slash :: grp.name) =
      some (grp.entries.filter fun r => r.1 ∉ consumed) := by
  have hpath : ∀ ext, (subPath q ++ slash :: grp.name) ++ ext =
      subPath q ++ slash :: (grp.name ++ ext) := fun ext => List.append_assoc _ _ _
  have hread : ∀ ext, IsExt ext → readFile fs ((subPath q ++ slash :: grp.name) ++ ext) =
      bytesAt fs (fileNode q (grp.name ++ ext)) := by
    intro ext hext
    rw [hpath]
    exact readFile_sub h (plain_groupFile hname hext)
  have hindex : index ≠ [] := by
    rintro rfl
    have hlen := hg.length
    have hpos := List.length_pos_iff.mpr hne
    simp only [List.length_nil] at hlen
    omega
  have hdata : data ≠ [] := by
    rintro rfl
    obtain ⟨e, rest, hentries⟩ := List.exists_cons_of_ne_nil hne
    have hfirst := hg.entries
    rw [hentries] at hfirst
    obtain ⟨e', es', he, _, _⟩ := List.forall₂_cons_right_iff.mp hfirst
    have hin := (recordAt_some he.2).2.1
    have hpos := (recordAt_some he.2).1
    simp only [List.length_nil] at hin
    omega
  rw [groupRecords, hread _ (Or.inr (Or.inl rfl)), hread _ (Or.inl rfl),
    hread _ (Or.inr (Or.inr rfl)), hg.indexFile, hg.dataFile]
  dsimp only
  rw [if_neg (not_or.mpr ⟨hindex, hdata⟩)]
  refine readEntries_filter hg.entries fun r hr => ?_
  have hset : (((bytesAt fs (fileNode q (grp.name ++ extConsume))).map consumeIndexSet).getD []) =
      consumeIndexSet ((bytesAt fs (fileNode q (grp.name ++ extConsume))).getD []) := by
    cases bytesAt fs (fileNode q (grp.name ++ extConsume)) with
    | none => rfl
    | some bytes => rfl
  rw [hset, hg.consume.mem]
  exact and_iff_left (List.mem_map_of_mem hr)

/-! ### Consuming -/

/-- As many indices as messages: all are consumed. -/
theorem ConsumeFile.full_iff {consume : Bytes} (h : ConsumeFile consume consumed grp)
    (hkeys : grp.keys.Nodup) :
    (consumeIndexSet consume).length = grp.entries.length ↔ ¬ grp.Live consumed := by
  have hlen : grp.keys.length = grp.entries.length := List.length_map _
  have hsub : consumeIndexSet consume ⊆ grp.keys := fun k hk => ((h.mem k).mp hk).2
  constructor
  · rintro hfull ⟨k, hk, hnot⟩
    have hperm := (List.subperm_of_subset h.nodup hsub).perm_of_length_le
      (hlen.trans hfull.symm).le
    exact hnot ((h.mem k).mp (hperm.mem_iff.mpr hk)).1
  · intro hdead
    rw [← hlen]
    refine ((List.perm_ext_iff_of_nodup h.nodup hkeys).mpr fun k => ⟨fun hk => hsub hk, ?_⟩).length_eq
    intro hk
    refine (h.mem k).mpr ⟨?_, hk⟩
    by_contra hnot
    exact hdead ⟨k, hk, hnot⟩

theorem ConsumeFile.add {consume pTemp : Bytes} {k : Int} (h : ConsumeFile consume consumed grp)
    (hlen : pTemp.length = 4) (hread : readInt (Mem.ofBytes pTemp) 0 = k) (hk : k ∈ grp.keys)
    (hnew : k ∉ consumed) : ConsumeFile (consume ++ pTemp) (consumed ++ [k]) grp := by
  have hset := consumeIndexSet_snoc h.length hlen
  rw [hread] at hset
  refine ⟨?_, ?_, fun j => ?_⟩
  · rw [hset, List.length_append, List.length_append, h.length, hlen, List.length_singleton,
      Nat.mul_add]
  · rw [hset]
    refine List.nodup_append'.mpr ⟨h.nodup, List.nodup_singleton k, fun j hj hj' => ?_⟩
    rw [List.mem_singleton.mp hj'] at hj
    exact hnew ((h.mem k).mp hj).1
  · rw [hset, List.mem_append, List.mem_append, h.mem j, List.mem_singleton]
    constructor
    · rintro (hj | rfl)
      · exact ⟨Or.inl hj.1, hj.2⟩
      · exact ⟨Or.inr rfl, hk⟩
    · rintro ⟨hj | rfl, hin⟩
      · exact Or.inl ⟨hj, hin⟩
      · exact Or.inr rfl

/-- What becomes of the files: the group stays until its last message is consumed. -/
structure ConsumedFiles (q : Name) (consumed : List Int) (grp : Group) (data index : Bytes)
    (fs fs' : FileSystem) : Prop where
  inQueue : InQueue q fs fs'
  live : grp.Live consumed → GroupFiles fs' q consumed grp data index
  dead : ¬ grp.Live consumed → ∀ ext, IsExt ext →
    bytesAt fs' (fileNode q (grp.name ++ ext)) = none
  other : ∀ f, (∀ ext, IsExt ext → f ≠ grp.name ++ ext) →
    bytesAt fs' (fileNode q f) = bytesAt fs (fileNode q f)

theorem dropGroup_ready (h : Ready s.files q) (hname : Stem g) :
    InQueue q s.files (s.dropGroup q g).files ∧
      (∀ ext, IsExt ext → bytesAt (s.dropGroup q g).files (fileNode q (g ++ ext)) = none) ∧
        ∀ f, (∀ ext, IsExt ext → f ≠ g ++ ext) →
          bytesAt (s.dropGroup q g).files (fileNode q f) = bytesAt s.files (fileNode q f) := by
  have hdata : IsExt extData := Or.inl rfl
  have hindex : IsExt extIndex := Or.inr (Or.inl rfl)
  have hconsume : IsExt extConsume := Or.inr (Or.inr rfl)
  have h₁ := inQueue_erase h (g ++ extData)
  have h₂ := inQueue_erase (h₁.ready h) (g ++ extIndex)
  have h₃ := inQueue_erase (h₂.ready (h₁.ready h)) (g ++ extConsume)
  have hfiles : (s.dropGroup q g).files = ((s.files.erase (fileNode q (g ++ extData))).erase
      (fileNode q (g ++ extIndex))).erase (fileNode q (g ++ extConsume)) := by
    rw [dropGroup]
    dsimp only
    rw [groupPath, groupPath, groupPath, removeFile_ready h (hname.plain _ hdata),
      removeFile_ready (h₁.ready h) (hname.plain _ hindex),
      removeFile_ready (h₂.ready (h₁.ready h)) (hname.plain _ hconsume)]
  rw [hfiles]
  refine ⟨(h₁.trans h₂).trans h₃, ?_, fun f hf => ?_⟩
  · rintro ext (rfl | rfl | rfl)
    · simp only [bytesAt_erase_file, if_true, ite_self]
    · simp only [bytesAt_erase_file, if_true, ite_self]
    · simp only [bytesAt_erase_file, if_true]
  · simp only [bytesAt_erase_file, hf _ hdata, hf _ hindex, hf _ hconsume, if_false]

theorem consumeIn_ready {k : Int} {pTemp : Bytes} (h : Ready s.files q)
    (hname : GroupName grp.name) (hkeys : grp.keys.Nodup)
    (hg : GroupFiles s.files q consumed grp data index) (hlen : pTemp.length = 4)
    (hread : readInt (Mem.ofBytes pTemp) 0 = k) (hk : k ∈ grp.keys) (hnew : k ∉ consumed) :
    ∃ files, ConsumedFiles q (consumed ++ [k]) grp data index s.files
        (s.consumeIn q grp.name k pTemp).2.files ∧
      (s.consumeIn q grp.name k pTemp) = (success,
        if grp.Live (consumed ++ [k]) then
          { s with files := files, history := s.history ++ [.consumed q k] }
        else dropGroup { s with files := files, history := s.history ++ [.consumed q k] } q
          grp.name) := by
  have hconsume : Plain (grp.name ++ extConsume) := plain_groupFile hname (Or.inr (Or.inr rfl))
  have hindex : Plain (grp.name ++ extIndex) := plain_groupFile hname (Or.inr (Or.inl rfl))
  let node := fileNode q (grp.name ++ extConsume)
  let fs₁ := put s.files node ((bytesAt s.files node).getD [])
  let fs₂ := put fs₁ node ((bytesAt fs₁ node).getD [] ++ pTemp)
  have h₁ : InQueue q s.files fs₁ := inQueue_put h _ _
  have h₂ : InQueue q fs₁ fs₂ := inQueue_put (h₁.ready h) _ _
  have hready : Ready fs₂ q := h₂.ready (h₁.ready h)
  have hold : bytesAt fs₂ node = some ((bytesAt s.files node).getD [] ++ pTemp) := by
    simp only [fs₂, fs₁, bytesAt_put, if_true, Option.getD_some]
  have hsame : ∀ f, f ≠ grp.name ++ extConsume →
      bytesAt fs₂ (fileNode q f) = bytesAt s.files (fileNode q f) := by
    intro f hf
    simp only [fs₂, fs₁, node, bytesAt_put, fileNode_eq_iff, hf, if_false]
  have hadded := hg.consume.add hlen hread hk hnew
  have hindexFile : bytesAt fs₂ (fileNode q (grp.name ++ extIndex)) = some index :=
    (hsame _ (ext_ne _ (by decide))).trans hg.indexFile
  have hfull : ((bytesAt s.files node).getD [] ++ pTemp).length / 4 = index.length / 8 ↔
      ¬ grp.Live (consumed ++ [k]) := by
    rw [hadded.length, hg.length, ← hadded.full_iff hkeys]
    omega
  have hrun : s.consumeIn q grp.name k pTemp = (success,
      if grp.Live (consumed ++ [k]) then
        { s with files := fs₂, history := s.history ++ [.consumed q k] }
      else dropGroup { s with files := fs₂, history := s.history ++ [.consumed q k] } q
        grp.name) := by
    have hopen : openFile s.files (groupPath q grp.name extConsume) false = some fs₁ :=
      openFile_ready h hconsume false
    have happend : appendFile fs₁ (groupPath q grp.name extConsume) pTemp = fs₂ :=
      appendFile_ready (h₁.ready h) hconsume pTemp
    have hread₁ : readFile fs₂ (groupPath q grp.name extConsume) = bytesAt fs₂ node :=
      readFile_ready hready hconsume
    have hread₂ : readFile fs₂ (groupPath q grp.name extIndex) = _ := readFile_ready hready hindex
    rw [consumeIn]
    dsimp only
    rw [hopen]
    dsimp only
    rw [happend, hread₁, hread₂, hold, hindexFile]
    dsimp only
    by_cases hlive : grp.Live (consumed ++ [k])
    · rw [if_pos hlive, if_neg fun hfull' => hfull.mp hfull' hlive]
    · rw [if_neg hlive, if_pos (hfull.mpr hlive)]
  refine ⟨fs₂, ?_, hrun⟩
  rw [hrun]
  by_cases hlive : grp.Live (consumed ++ [k])
  · rw [if_pos hlive]
    refine ⟨h₁.trans h₂, fun _ => ?_, fun hdead => absurd hlive hdead, fun f hf => ?_⟩
    · refine ⟨(hsame _ (ext_ne _ (by decide))).trans hg.dataFile, hindexFile, hg.length,
        hg.entries, ?_⟩
      rw [hold]
      exact hadded
    · exact hsame f (hf _ (Or.inr (Or.inr rfl)))
  · rw [if_neg hlive]
    obtain ⟨hin, hgone, hother⟩ := dropGroup_ready
      (s := { s with files := fs₂, history := s.history ++ [.consumed q k] }) hready hname.stem
    refine ⟨(h₁.trans h₂).trans hin, fun hlive' => absurd hlive' hlive, fun _ => hgone,
      fun f hf => ?_⟩
    exact (hother f hf).trans (hsame f (hf _ (Or.inr (Or.inr rfl))))

end Wsmq.PersistenceServer
