import Wsmq.Lib.Decimal
import Wsmq.PersistenceServer.Handlers

/-!
# Names and paths of message groups

A group is named after its first durable index in ten digits, so the names sort
like the indices.
-/

namespace Wsmq.PersistenceServer
open Lib.ByteString Lib.Packing Lib.Files Lib.Decimal

/-! ## Names -/

/-- Ten digits. -/
structure GroupName (g : Name) : Prop where
  length : g.length = 10
  digits : ∀ b ∈ g, IsDigit b

/-- What `ConvertIndexToString` is given. -/
def IsIndex (iIndex : Int) : Prop := 0 ≤ iIndex ∧ iIndex < 2 ^ 31

theorem IsIndex.fits {iIndex : Int} (h : IsIndex iIndex) : FitsInt 4 iIndex := by
  have hmax : ((256 ^ 4 / 2 : Nat) : Int) = 2 ^ 31 := by decide
  rw [FitsInt, hmax]
  exact ⟨by have hpos := h.1; omega, h.2⟩

theorem decimalNat_eq {n : Nat} (h : n ≠ 0) :
    decimalNat n = ((Nat.digits 10 n).map digit).reverse := if_neg h

theorem decimalNat_digits (n : Nat) : ∀ b ∈ decimalNat n, IsDigit b := by
  intro b hb
  rcases Nat.eq_zero_or_pos n with rfl | hn
  · have hzero : b = 48 := by simpa [decimalNat, ascii] using hb
    rw [hzero]
    exact ⟨by decide, by decide⟩
  · rw [decimalNat_eq (Nat.pos_iff_ne_zero.mp hn), List.mem_reverse] at hb
    obtain ⟨d, hd, rfl⟩ := List.mem_map.mp hb
    exact isDigit_digit (Nat.digits_lt_base (by decide) hd)

theorem value_decimalNat (n : Nat) : value (decimalNat n) = n := by
  rcases Nat.eq_zero_or_pos n with rfl | hn
  · decide
  · rw [decimalNat_eq (Nat.pos_iff_ne_zero.mp hn),
      value_reverse fun d hd => Nat.digits_lt_base (by decide) hd, Nat.ofDigits_digits]

theorem decimalNat_length {n : Nat} (h : n < 10 ^ 10) : (decimalNat n).length ≤ 10 := by
  rcases Nat.eq_zero_or_pos n with rfl | hn
  · decide
  · rw [decimalNat_eq (Nat.pos_iff_ne_zero.mp hn), List.length_reverse, List.length_map]
    exact (Nat.digits_length_le_iff (by decide) n).mpr h

theorem toString_of_nonneg {v : Int} (h : 0 ≤ v) : toString v = decimalNat v.toNat := by
  rw [toString, if_neg (Int.not_lt.mpr h)]
  exact congrArg decimalNat (by omega)

theorem groupName_convert {i : Int} (h : IsIndex i) : GroupName (convertIndexToString i) := by
  have hlen : (toString i).length ≤ 10 := by
    have hlt := h.2
    rw [toString_of_nonneg h.1]
    exact decimalNat_length (by omega)
  refine ⟨?_, fun b hb => ?_⟩
  · rw [convertIndexToString, List.length_append, List.length_replicate]
    exact Nat.sub_add_cancel hlen
  · rcases List.mem_append.mp hb with hb | hb
    · rw [List.eq_of_mem_replicate hb]
      exact ⟨by decide, by decide⟩
    · rw [toString_of_nonneg h.1] at hb
      exact decimalNat_digits _ b hb

theorem value_convert {i : Int} (h : IsIndex i) : value (convertIndexToString i) = i.toNat := by
  rw [convertIndexToString, value_replicate_zero, toString_of_nonneg h.1, value_decimalNat]

theorem convert_lt {i j : Int} (hi : IsIndex i) (hj : IsIndex j) (h : i < j) :
    convertIndexToString i < convertIndexToString j := by
  have hgi := groupName_convert hi
  have hgj := groupName_convert hj
  refine lt_of_value_lt (hgi.length.trans hgj.length.symm) hgi.digits hgj.digits ?_
  rw [value_convert hi, value_convert hj]
  have hpos := hi.1
  omega

theorem convert_inj {i j : Int} (hi : IsIndex i) (hj : IsIndex j)
    (h : convertIndexToString i = convertIndexToString j) : i = j := by
  have hv := congrArg value h
  rw [value_convert hi, value_convert hj] at hv
  have hposi := hi.1
  have hposj := hj.1
  omega

theorem convert_lt_iff {i j : Int} (hi : IsIndex i) (hj : IsIndex j) :
    convertIndexToString i < convertIndexToString j ↔ i < j := by
  refine ⟨fun hlt => ?_, convert_lt hi hj⟩
  rcases Int.lt_trichotomy i j with h | rfl | h
  · exact h
  · exact absurd hlt (List.lt_irrefl _)
  · exact absurd (List.lt_trans hlt (convert_lt hj hi h)) (List.lt_irrefl _)

/-- However the names are listed, there is one order for them. -/
theorem sortFiles_eq {vIndexFiles sorted : List Name} (hperm : vIndexFiles.Perm sorted)
    (hsorted : sorted.Pairwise fun a b => a ≤ b) : sortFiles vIndexFiles = sorted :=
  List.Perm.eq_of_pairwise' (List.pairwise_insertionSort (fun a b => a ≤ b) _) hsorted
    ((List.perm_insertionSort _ _).trans hperm)

/-- The names of groups sort like the indices they are made from. -/
theorem sortFiles_convert {vIndexFiles : List Name} {is : List Int} (his : ∀ i ∈ is, IsIndex i)
    (hperm : vIndexFiles.Perm (is.map convertIndexToString)) :
    sortFiles vIndexFiles = (is.insertionSort fun i j => i ≤ j).map convertIndexToString := by
  have hsort := List.perm_insertionSort (fun i j : Int => i ≤ j) is
  refine sortFiles_eq (hperm.trans (hsort.symm.map _)) (List.pairwise_map.mpr ?_)
  refine (List.pairwise_insertionSort (fun i j : Int => i ≤ j) is).imp_of_mem ?_
  intro i j hi hj hle
  rcases Int.lt_or_eq_of_le hle with hlt | rfl
  · exact List.le_of_lt (convert_lt (his i (hsort.mem_iff.mp hi)) (his j (hsort.mem_iff.mp hj)) hlt)
  · exact List.le_refl _

/-! ## File names -/

/-- The extensions of the three files. -/
def IsExt (ext : Bytes) : Prop := ext = extData ∨ ext = extIndex ∨ ext = extConsume

theorem ext_eq_of_append_eq {g g' ext ext' : Bytes} (hg : GroupName g) (hg' : GroupName g')
    (h : g ++ ext = g' ++ ext') : g = g' ∧ ext = ext' :=
  List.append_inj h (hg.length.trans hg'.length.symm)

theorem not_mem_groupName {g : Name} (hg : GroupName g) {b : UInt8} (hb : ¬ IsDigit b) : b ∉ g :=
  fun hmem => hb (hg.digits b hmem)

theorem plain_append_ext {f ext : Bytes} (hslash : slash ∉ f) (hzero : 0 ∉ f) (hext : IsExt ext) :
    Plain (f ++ ext) := by
  have hfacts : slash ∉ ext ∧ 0 ∉ ext ∧ 5 ≤ ext.length := by
    rcases hext with rfl | rfl | rfl <;> decide
  obtain ⟨hslash', hzero', hlen⟩ := hfacts
  have hlong : 5 ≤ (f ++ ext).length := by
    rw [List.length_append]
    omega
  refine ⟨?_, ?_, ?_, ?_, ?_⟩
  · intro h
    rw [h] at hlong
    exact absurd hlong (by decide)
  · intro h
    rw [h] at hlong
    exact absurd hlong (by decide)
  · intro h
    rw [h] at hlong
    exact absurd hlong (by decide)
  · rw [List.mem_append]
    exact not_or.mpr ⟨hslash, hslash'⟩
  · rw [List.mem_append]
    exact not_or.mpr ⟨hzero, hzero'⟩

theorem plain_groupFile {g ext : Bytes} (hg : GroupName g) (hext : IsExt ext) :
    Plain (g ++ ext) := by
  have hslash : slash ∉ g := not_mem_groupName hg (by rintro ⟨h, _⟩; revert h; decide)
  have hzero : 0 ∉ g := not_mem_groupName hg (by rintro ⟨h, _⟩; revert h; decide)
  exact plain_append_ext hslash hzero hext

def offsetFile : Name := ascii "write_offset.bin"

theorem groupFile_ne_offset {g : Name} (hg : GroupName g) (ext : Bytes) :
    g ++ ext ≠ offsetFile := by
  obtain ⟨b, bs, rfl⟩ := List.exists_cons_of_length_pos (by rw [hg.length]; decide : 0 < g.length)
  intro h
  have hb : b = 119 := (List.cons.inj (h.trans (by decide : offsetFile = 119 :: offsetFile.tail))).1
  have hdigit := hg.digits b List.mem_cons_self
  rw [hb] at hdigit
  exact absurd hdigit.2 (by decide)

/-- With the extensions it names files of the directory, and not that of the offset. -/
structure Stem (g : Name) : Prop where
  plain : ∀ ext, IsExt ext → Plain (g ++ ext)
  ne_offset : ∀ ext, IsExt ext → g ++ ext ≠ offsetFile

theorem GroupName.stem {g : Name} (hg : GroupName g) : Stem g :=
  ⟨fun _ => plain_groupFile hg, fun ext _ => groupFile_ne_offset hg ext⟩

theorem beforeFirst_skip {pat g : Bytes} {b : UInt8} {rest : Bytes} (hpat : pat = b :: rest)
    (hb : b ∉ g) (ext : Bytes) :
    beforeFirst pat (g ++ ext) = (beforeFirst pat ext).map (g ++ ·) := by
  induction g with
  | nil => simp
  | cons c g ih =>
    have hne : ¬ pat.isPrefixOf (c :: (g ++ ext)) = true := by
      rw [hpat, List.isPrefixOf_iff_prefix, List.cons_prefix_cons]
      rintro ⟨rfl, _⟩
      exact hb List.mem_cons_self
    rw [List.cons_append, beforeFirst, if_neg hne, ih fun h => hb (List.mem_cons_of_mem c h),
      Option.map_map]
    rfl

/-- Of the files of a group, `find(".index")` picks the index file. -/
theorem beforeFirst_groupFile {g ext : Bytes} (hg : GroupName g) (hext : IsExt ext) :
    beforeFirst extIndex (g ++ ext) = if ext = extIndex then some g else none := by
  have hdot : (46 : UInt8) ∉ g := not_mem_groupName hg (by rintro ⟨h, _⟩; revert h; decide)
  have hpat : extIndex = 46 :: extIndex.tail := by decide
  rw [beforeFirst_skip hpat hdot]
  rcases hext with rfl | rfl | rfl
  · have hnone : beforeFirst extIndex extData = none := by decide
    rw [hnone, if_neg (by decide)]
    rfl
  · have hsome : beforeFirst extIndex extIndex = some [] := by decide
    rw [hsome, if_pos rfl, Option.map_some, List.append_nil]
  · have hnone : beforeFirst extIndex extConsume = none := by decide
    rw [hnone, if_neg (by decide)]
    rfl

/-! ## Paths -/

def baseNode : Path := Path.cwd.child (ascii "queue")
def queueNode (q : Name) : Path := baseNode.child q
def fileNode (q f : Name) : Path := (queueNode q).child f

/-- The directory of a queue is there and holds only files. -/
structure Ready (fs : FileSystem) (q : Name) : Prop where
  plain : Plain q
  base : IsDir fs baseNode
  queue : IsDir fs (queueNode q)
  file : ∀ f, ¬ IsDir fs (fileNode q f)

theorem Ready.congr {fs fs' : FileSystem} {q : Name} (h : Ready fs q) (hd : SameDirs fs fs') :
    Ready fs' q :=
  ⟨h.plain, (hd _).mp h.base, (hd _).mp h.queue, fun f hf => h.file f ((hd _).mpr hf)⟩

theorem splitOn_base (rest : Bytes) :
    (defaultQueuePath ++ rest).splitOn slash = [46] :: ascii "queue" :: rest.splitOn slash := by
  have hpath : defaultQueuePath ++ rest = [46] ++ slash :: (ascii "queue" ++ slash :: rest) := by
    simp [defaultQueuePath, ascii, slash]
  rw [hpath, List.splitOn_append_cons_self_of_not_mem (by decide),
    List.splitOn_append_cons_self_of_not_mem (by decide)]

theorem enter_dot (p : Path) : p.enter [46] = p := if_pos (Or.inr rfl)

theorem enter_empty (p : Path) : p.enter [] = p := if_pos (Or.inl rfl)

theorem enter_base : Path.cwd.enter (ascii "queue") = baseNode := by decide

theorem isDir_cwd (fs : FileSystem) : IsDir fs Path.cwd := Or.inl rfl

section Resolve

variable {fs : FileSystem} {q : Name}

theorem resolve_queueDir (h : Ready fs q) : resolve fs (queueDir q) = some (queueNode q) := by
  rw [resolve, queueDir, splitOn_base, splitOn_plain h.plain]
  simp only [walk, isDir_cwd, if_true, enter_dot, enter_base, if_pos h.base, enter_plain h.plain]
  rfl

theorem resolve_file (h : Ready fs q) {f : Name} (hf : Plain f) :
    resolve fs (queueDir q ++ slash :: f) = some (fileNode q f) := by
  rw [resolve, queueDir, List.append_assoc, splitOn_base, splitOn_plain_cons h.plain,
    splitOn_plain hf]
  have hqueue : IsDir fs (baseNode.child q) := h.queue
  simp only [walk, isDir_cwd, if_true, enter_dot, enter_base, if_pos h.base, enter_plain h.plain,
    if_pos hqueue, enter_plain hf]
  rfl

/-- A path to a file of a queue leads there only if the queue has a directory. -/
theorem resolve_file_some {f : Name} {p : Path} (hq : Plain q) (hf : Plain f)
    (h : resolve fs (queueDir q ++ slash :: f) = some p) :
    IsDir fs (queueNode q) ∧ p = fileNode q f := by
  rw [resolve, queueDir, List.append_assoc, splitOn_base, splitOn_plain_cons hq,
    splitOn_plain hf] at h
  simp only [walk, isDir_cwd, if_true, enter_dot, enter_base, enter_plain hq,
    enter_plain hf] at h
  split at h
  · split at h
    · next hdir =>
      cases h
      exact ⟨hdir, rfl⟩
    · cases h
  · cases h

/-- The path with two slashes that `InitFileInfo` makes. -/
theorem resolve_subPath (h : IsDir fs baseNode) (hq : Plain q) :
    resolve fs (subPath q) = some (queueNode q) := by
  have hsplit : (slash :: q).splitOn slash = [] :: q.splitOn slash :=
    List.splitOn_append_cons_self_of_not_mem List.not_mem_nil q
  rw [resolve, subPath, splitOn_base, hsplit, splitOn_plain hq]
  simp only [walk, isDir_cwd, if_true, enter_dot, enter_base, if_pos h, enter_empty,
    enter_plain hq]
  rfl

theorem resolve_subFile (h : Ready fs q) {f : Name} (hf : Plain f) :
    resolve fs (subPath q ++ slash :: f) = some (fileNode q f) := by
  have hsplit : (slash :: (q ++ slash :: f)).splitOn slash = [] :: (q ++ slash :: f).splitOn slash :=
    List.splitOn_append_cons_self_of_not_mem List.not_mem_nil _
  have hqueue : IsDir fs (baseNode.child q) := h.queue
  rw [resolve, subPath, List.append_assoc, List.cons_append, splitOn_base, hsplit,
    splitOn_plain_cons h.plain, splitOn_plain hf]
  simp only [walk, isDir_cwd, if_true, enter_dot, enter_base, if_pos h.base, enter_empty,
    enter_plain h.plain, if_pos hqueue, enter_plain hf]
  rfl

end Resolve

theorem fileNode_inj {q q' f f' : Name} (h : fileNode q f = fileNode q' f') : q = q' ∧ f = f' := by
  obtain ⟨hnode, hf⟩ := Path.child_inj h
  exact ⟨(Path.child_inj hnode).2, hf⟩

end Wsmq.PersistenceServer
