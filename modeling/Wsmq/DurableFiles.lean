import Mathlib.Data.List.Sort
import Wsmq.FuncTool
import Wsmq.Lib.Files

/-!
# The files of a message group

A group of durable messages has a `.data` file with the records one after the other,
an `.index` file with the index and the position of each, and a `.consume` file with
the indices consumed so far.  Both servers find and read them with the same loops.
-/

namespace Wsmq
open Lib.ByteString Lib.Packing Lib.Files

def defaultQueuePath : Bytes := ascii "./queue/"

/-- `sub_path` of the loop over the queue directories, with two slashes. -/
def subPath (d_name : Name) : Bytes := defaultQueuePath ++ slash :: d_name

def extData : Bytes := ascii ".data"
def extIndex : Bytes := ascii ".index"
def extConsume : Bytes := ascii ".consume"

/-! ## Finding -/

/-- `strName.substr(0, strName.find(pat))`; none when `find` has no result. -/
def beforeFirst (pat : Bytes) : Bytes → Option Bytes
  | [] => if pat = [] then some [] else none
  | b :: bs => if pat.isPrefixOf (b :: bs) then some [] else (beforeFirst pat bs).map (b :: ·)

/-- The names of the regular files that contain ".index", up to there. -/
def findIndexFiles (files : FileSystem) (ipDir : Bytes) : List Name :=
  ((readDir files ipDir).getD []).filterMap fun entry =>
    match entry.2 with
    | .dir => none
    | .file _ => beforeFirst extIndex entry.1

/-- `std::sort`. -/
def sortFiles (vIndexFiles : List Name) : List Name :=
  vIndexFiles.insertionSort fun a b => a ≤ b

/-- The directories below `DEFAULT_QUEUE_PATH`. -/
def queueDirs (files : FileSystem) : List Name :=
  ((readDir files defaultQueuePath).getD []).filterMap fun entry =>
    match entry.2 with
    | .dir => some entry.1
    | .file _ => none

/-! ## Reading -/

/-- The loop over an index file: message index and position of each entry. -/
def indexEntries (index : Bytes) : List (Int × Int) :=
  (List.range ((index.length + 7) / 8)).map fun k =>
    (readInt (Mem.ofBytes index) (8 * k), readInt (Mem.ofBytes index) (8 * k + 4))

/-- The loop that fills `consumeIndexSet`. -/
def consumeIndexSet (consume : Bytes) : List Int :=
  (List.range ((consume.length + 3) / 4)).map fun k => readInt (Mem.ofBytes consume) (4 * k)

/-- As many bytes from `iDataPos` on as the first two say; none outside the mapped file. -/
def recordAt (data : Bytes) (iDataPos : Int) : Option Bytes :=
  let pBuff := Mem.ofBytes data
  let iMsgLen := readUShort pBuff iDataPos.toNat
  if iDataPos < 0 ∨ iDataPos + 2 > data.length ∨ iDataPos + iMsgLen > data.length then none
  else some (pBuff.read iDataPos.toNat iMsgLen)

/-- The loop over the entries that are not consumed: index and record of each. -/
def readEntries (data : Bytes) (consumed : List Int) : List (Int × Int) → Option (List (Int × Bytes))
  | [] => some []
  | e :: rest =>
    if e.1 ∈ consumed then readEntries data consumed rest
    else (recordAt data e.2).bind fun r => (readEntries data consumed rest).map ((e.1, r) :: ·)

/-- What the files `ipFile` and an extension hold that is not consumed; nothing when a
file is missing or empty. -/
def groupRecords (files : FileSystem) (ipFile : Bytes) : Option (List (Int × Bytes)) :=
  match readFile files (ipFile ++ extIndex), readFile files (ipFile ++ extData) with
  | some index, some data =>
    if index = [] ∨ data = [] then some []
    else
      readEntries data (((readFile files (ipFile ++ extConsume)).map consumeIndexSet).getD [])
        (indexEntries index)
  | _, _ => some []

def readGroups (files : FileSystem) (d_name : Name) : List Name → Option (List (Int × Bytes))
  | [] => some []
  | f :: rest =>
    (groupRecords files (subPath d_name ++ slash :: f)).bind fun rs =>
      (readGroups files d_name rest).map (rs ++ ·)

/-- The groups of a queue in sorted name order. -/
def storedRecords (files : FileSystem) (d_name : Name) : Option (List (Int × Bytes)) :=
  readGroups files d_name (sortFiles (findIndexFiles files (subPath d_name)))

/-- The record begins with its own length. -/
def OwnLength (r : Bytes) : Prop := 2 ≤ r.length ∧ readUShort (Mem.ofBytes r) 0 = r.length

instance (r : Bytes) : Decidable (OwnLength r) := inferInstanceAs (Decidable (_ ∧ _))

/-! ## Entries -/

/-- An entry as `OnPublishMessage` writes it. -/
def indexEntry (iIndex iDataPos : Int) : Bytes := image [writeInt iIndex, writeInt iDataPos]

@[simp] theorem indexEntry_length (iIndex iDataPos : Int) :
    (indexEntry iIndex iDataPos).length = 8 := by
  simp [indexEntry, writeInt, pad]

theorem readInt_left {bs : Bytes} {a : Nat} (h : a + 4 ≤ bs.length) (cs : Bytes) :
    readInt (Mem.ofBytes (bs ++ cs)) a = readInt (Mem.ofBytes bs) a := by
  rw [readInt, readInt, Mem.read_ofBytes_left h]

theorem readInt_right (bs cs : Bytes) (a : Nat) :
    readInt (Mem.ofBytes (bs ++ cs)) (bs.length + a) = readInt (Mem.ofBytes cs) a := by
  rw [readInt, readInt, Mem.read_ofBytes_right]

theorem readUShort_left {bs : Bytes} {a : Nat} (h : a + 2 ≤ bs.length) (cs : Bytes) :
    readUShort (Mem.ofBytes (bs ++ cs)) a = readUShort (Mem.ofBytes bs) a := by
  rw [readUShort, readUShort, Mem.read_ofBytes_left h]

theorem readUShort_right (bs cs : Bytes) (a : Nat) :
    readUShort (Mem.ofBytes (bs ++ cs)) (bs.length + a) = readUShort (Mem.ofBytes cs) a := by
  rw [readUShort, readUShort, Mem.read_ofBytes_right]

theorem indexEntries_length {index : Bytes} {n : Nat} (h : index.length = 8 * n) :
    (indexEntries index).length = n := by
  rw [indexEntries, List.length_map, List.length_range, h]
  omega

theorem indexEntries_snoc {index entry : Bytes} {n : Nat} (h : index.length = 8 * n)
    (hentry : entry.length = 8) : indexEntries (index ++ entry) = indexEntries index ++
      [(readInt (Mem.ofBytes entry) 0, readInt (Mem.ofBytes entry) 4)] := by
  have hlen : (index ++ entry).length = 8 * n + 8 := by rw [List.length_append, h, hentry]
  have hn : (8 * n + 8 + 7) / 8 = n + 1 := by omega
  have hn' : (8 * n + 7) / 8 = n := by omega
  rw [indexEntries, indexEntries, hlen, h, hn, hn', List.range_succ, List.map_append]
  refine congrArg₂ _ (List.map_congr_left fun k hk => ?_) ?_
  · have hk := List.mem_range.mp hk
    rw [readInt_left (by omega), readInt_left (by omega)]
  · have hfirst := readInt_right index entry 0
    have hsecond := readInt_right index entry 4
    rw [h] at hfirst hsecond
    simp only [List.map_cons, List.map_nil, hsecond]
    rw [← hfirst, Nat.add_zero]

theorem indexEntries_append_entry {index : Bytes} {n : Nat} (h : index.length = 8 * n)
    {iIndex iDataPos : Int} (hi : FitsInt 4 iIndex) (hp : FitsInt 4 iDataPos) :
    indexEntries (index ++ indexEntry iIndex iDataPos) =
      indexEntries index ++ [(iIndex, iDataPos)] := by
  have hh := holds_ofBytes (indexEntry iIndex iDataPos)
  have hf : ∀ f ∈ [writeInt iIndex, writeInt iDataPos], f.Fits := by simp [Field.Fits, writeInt]
  have hfirst := readInt_field (a := 0) [] hh hf hi
  have hsecond := readInt_field (a := 0) [writeInt iIndex] hh hf hp
  rw [indexEntries_snoc h (indexEntry_length _ _)]
  exact congrArg₂ (fun a b => indexEntries index ++ [(a, b)]) hfirst hsecond

theorem indexEntries_append {bs : Bytes} {n : Nat} (h : bs.length = 8 * n) (cs : Bytes) :
    indexEntries (bs ++ cs) = indexEntries bs ++ indexEntries cs := by
  have hlen : ((bs ++ cs).length + 7) / 8 = n + (cs.length + 7) / 8 := by
    rw [List.length_append, h]
    omega
  have hn : (bs.length + 7) / 8 = n := by omega
  rw [indexEntries, indexEntries, indexEntries, hlen, hn, List.range_add, List.map_append,
    List.map_map]
  refine congrArg₂ _ (List.map_congr_left fun k hk => ?_) (List.map_congr_left fun k _ => ?_)
  · have hk := List.mem_range.mp hk
    rw [readInt_left (by omega), readInt_left (by omega)]
  · have hfirst := readInt_right bs cs (8 * k)
    have hsecond := readInt_right bs cs (8 * k + 4)
    rw [h, ← Nat.mul_add] at hfirst
    rw [h, ← Nat.add_assoc, ← Nat.mul_add] at hsecond
    exact Prod.ext hfirst hsecond

theorem indexEntries_zeros (n : Nat) :
    indexEntries (List.replicate (8 * n) 0) = List.replicate n (0, 0) := by
  have hread : ∀ a, readInt (Mem.ofBytes (List.replicate (8 * n) 0)) a = 0 := by
    intro a
    have hzero : ∀ x, Mem.ofBytes (List.replicate (8 * n) 0) x = 0 := by
      intro x
      simp only [Mem.ofBytes, List.getD_eq_getElem?_getD, List.getElem?_replicate]
      split <;> rfl
    have hbytes : (Mem.ofBytes (List.replicate (8 * n) 0)).read a 4 = [0, 0, 0, 0] := by
      simp only [Mem.read, hzero]
      rfl
    rw [readInt, hbytes]
    decide
  have hn : (8 * n + 7) / 8 = n := by omega
  simp only [indexEntries, hread, List.length_replicate, hn]
  rw [List.map_const', List.length_range]

theorem consumeIndexSet_snoc {consume entry : Bytes} {n : Nat} (h : consume.length = 4 * n)
    (hentry : entry.length = 4) : consumeIndexSet (consume ++ entry) =
      consumeIndexSet consume ++ [readInt (Mem.ofBytes entry) 0] := by
  have hlen : (consume ++ entry).length = 4 * n + 4 := by rw [List.length_append, h, hentry]
  have hn : (4 * n + 4 + 3) / 4 = n + 1 := by omega
  have hn' : (4 * n + 3) / 4 = n := by omega
  rw [consumeIndexSet, consumeIndexSet, hlen, h, hn, hn', List.range_succ, List.map_append]
  refine congrArg₂ _ (List.map_congr_left fun k hk => ?_) ?_
  · have hk := List.mem_range.mp hk
    rw [readInt_left (by omega)]
  · have hright := readInt_right consume entry 0
    rw [h, Nat.add_zero] at hright
    rw [List.map_singleton, hright]

/-- A number read from a copy of its bytes. -/
theorem readInt_copy (m : Mem) (a : Nat) : readInt (Mem.ofBytes (m.read a 4)) 0 = readInt m a := by
  have hh := holds_ofBytes (m.read a 4)
  rw [Holds, Mem.read_length] at hh
  rw [readInt, readInt, hh]

/-! ## Records -/

theorem recordAt_append {pre r post : Bytes} (h : OwnLength r) :
    recordAt (pre ++ (r ++ post)) pre.length = some r := by
  have hlen : readUShort (Mem.ofBytes (pre ++ (r ++ post))) pre.length = r.length := by
    have htwo := h.1
    have hleft : readUShort (Mem.ofBytes (r ++ post)) 0 = r.length := by
      rw [readUShort_left (by omega), h.2]
    have hright := readUShort_right pre (r ++ post) 0
    rwa [Nat.add_zero, hleft] at hright
  have hread : (Mem.ofBytes (pre ++ (r ++ post))).read pre.length r.length = r := by
    have hread := Mem.read_ofBytes_append pre r post
    rwa [List.append_assoc] at hread
  have hlong := h.1
  rw [recordAt, Int.toNat_natCast, hlen, if_neg, hread]
  simp only [List.length_append]
  omega

theorem recordAt_some {data r : Bytes} {iDataPos : Int} (h : recordAt data iDataPos = some r) :
    0 ≤ iDataPos ∧ iDataPos + 2 ≤ data.length ∧
      readUShort (Mem.ofBytes data) iDataPos.toNat = r.length ∧
      iDataPos + r.length ≤ data.length ∧
      (Mem.ofBytes data).read iDataPos.toNat r.length = r := by
  unfold recordAt at h
  dsimp only at h
  split at h
  · cases h
  · next hin =>
    have hr := Option.some.inj h
    have hlen : readUShort (Mem.ofBytes data) iDataPos.toNat = r.length := by
      rw [← hr, Mem.read_length]
    rw [hlen] at hr hin
    refine ⟨by omega, by omega, hlen, by omega, hr⟩

/-- Appending does not change what is read. -/
theorem recordAt_left {data r : Bytes} {iDataPos : Int} (h : recordAt data iDataPos = some r)
    (more : Bytes) : recordAt (data ++ more) iDataPos = some r := by
  obtain ⟨hpos, htwo, hlen, hin, hread⟩ := recordAt_some h
  have hshort : readUShort (Mem.ofBytes (data ++ more)) iDataPos.toNat = r.length := by
    rw [readUShort_left (by omega), hlen]
  rw [recordAt, hshort, if_neg, Mem.read_ofBytes_left (by omega), hread]
  rw [List.length_append]
  omega

end Wsmq
