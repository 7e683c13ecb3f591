import Wsmq.PersistenceServer.DurableRuns

/-!
# Merging two groups (`MergeFiles`)

What is left of two groups is written into the files of the first.
-/

namespace Wsmq.PersistenceServer
open Lib Lib.ByteString Lib.Packing Lib.Files

/-- The mapped files of a group. -/
structure GroupBytes where
  index : Bytes
  data : Bytes
  consume : Bytes

/-- None of the three may be missing or empty. -/
def readGroup (files : FileSystem) (strQueueName strFileName : Name) : Option GroupBytes :=
  match readFile files (groupPath strQueueName strFileName extIndex),
    readFile files (groupPath strQueueName strFileName extData),
    readFile files (groupPath strQueueName strFileName extConsume) with
  | some index, some data, some consume =>
    if index = [] ∨ data = [] ∨ consume = [] then none else some ⟨index, data, consume⟩
  | _, _, _ => none

/-- `indexMap.erase(iIndex)`, when the queue has an `indexMap`. -/
def eraseIndex (s : PersistenceServer) (strQueueName : Name) (iIndex : Int) : PersistenceServer :=
  match s.msgQueueIndexFile.lookup strQueueName with
  | none => s
  | some indexMap =>
    { s with msgQueueIndexFile := s.msgQueueIndexFile.insert strQueueName (indexMap.erase iIndex) }

/-- `indexMap[iIndex] = ipFileName1`. -/
def setIndex (s : PersistenceServer) (strQueueName : Name) (iIndex : Int) (ipFileName1 : Name) :
    PersistenceServer :=
  match s.msgQueueIndexFile.lookup strQueueName with
  | none => s
  | some indexMap =>
    { s with
      msgQueueIndexFile :=
        s.msgQueueIndexFile.insert strQueueName (indexMap.insert iIndex ipFileName1) }

/-- `pDataBuff` is given up to `iDataLen`. -/
structure MergeBuffers where
  pIndexBuff : Bytes
  iIndexLen : Nat := 0
  pDataBuff : Bytes := []

/-- `iIndex` and `iDataPos` of the entry at `8 * k`. -/
def GroupBytes.entry (g : GroupBytes) (k : Nat) : Int × Int :=
  (readInt (Mem.ofBytes g.index) (8 * k), readInt (Mem.ofBytes g.index) (8 * k + 4))

def GroupBytes.entryBytes (g : GroupBytes) (k : Nat) : Bytes := (Mem.ofBytes g.index).read (8 * k) 8

/-- The two `memcpy`.  The entry goes to the start of `pIndexBuff` every time.  No result when
one reads or writes outside its array. -/
def MergeBuffers.copy (b : MergeBuffers) (g : GroupBytes) (k : Nat) : Option MergeBuffers :=
  (recordAt g.data (g.entry k).2).bind fun r =>
    if b.pIndexBuff.length < 8 ∨ b.pDataBuff.length + r.length > durableMessageFileSize then none
    else
      some
        { pIndexBuff := g.entryBytes k ++ b.pIndexBuff.drop 8
          iIndexLen := b.iIndexLen + 8
          pDataBuff := b.pDataBuff ++ r }

/-- One turn of the loops.  Only the second loop enters the index anew, under `oFile`. -/
def mergeTurn (g : GroupBytes) (strQueueName : Name) (oFile : Option Name) (k : Nat)
    (x : MergeBuffers × PersistenceServer) : Option (MergeBuffers × PersistenceServer) :=
  let iIndex := (g.entry k).1
  if iIndex ∈ consumeIndexSet g.consume then some (x.1, x.2.eraseIndex strQueueName iIndex)
  else
    (x.1.copy g k).map fun b =>
      (b, match oFile with
        | none => x.2
        | some ipFileName1 => x.2.setIndex strQueueName iIndex ipFileName1)

def mergeLoop (g : GroupBytes) (strQueueName : Name) (oFile : Option Name) :
    List Nat → MergeBuffers × PersistenceServer → Option (MergeBuffers × PersistenceServer)
  | [], x => some x
  | k :: ks, x => (mergeTurn g strQueueName oFile k x).bind (mergeLoop g strQueueName oFile ks)

/-- The offsets of the entries, by eights. -/
def GroupBytes.offsets (g : GroupBytes) : List Nat := List.range ((g.index.length + 7) / 8)

/-- The buffers are written to the first group; both files are opened first.  No result when
`fwrite` reads behind `pIndexBuff`. -/
def writeMerged (s : PersistenceServer) (strQueueName ipFileName1 : Name) (truncate : Bool)
    (b : MergeBuffers) : Option (Int × PersistenceServer) :=
  let strDataFile1 := groupPath strQueueName ipFileName1 extData
  let strIndexFile1 := groupPath strQueueName ipFileName1 extIndex
  let data := tryOpen s.files strDataFile1 truncate
  let index := tryOpen data.2 strIndexFile1 truncate
  if ¬ (data.1 ∧ index.1) then some (error, { s with files := index.2 })
  else if b.iIndexLen > b.pIndexBuff.length then none
  else
    some (success,
      { s with
        files := appendFile (appendFile index.2 strDataFile1 b.pDataBuff) strIndexFile1
          (b.pIndexBuff.take b.iIndexLen) })

/-- The second group and the consumed indices of the first are removed. -/
def dropMerged (s : PersistenceServer) (strQueueName ipFileName1 ipFileName2 : Name) :
    PersistenceServer :=
  { s with
    files := removeFile (removeFile (removeFile (removeFile s.files
      (groupPath strQueueName ipFileName2 extIndex)) (groupPath strQueueName ipFileName2 extData))
        (groupPath strQueueName ipFileName2 extConsume))
          (groupPath strQueueName ipFileName1 extConsume) }

/-- Both groups are mapped before anything is written.  The stack is taken to be large enough:
`pDataBuff` is a local array of 10 MiB, and the usual limit is 8 MiB. -/
def mergeFiles (s : PersistenceServer) (ipQueueName ipFileName1 ipFileName2 : Name) :
    Option (Int × PersistenceServer) :=
  match readGroup s.files ipQueueName ipFileName1, readGroup s.files ipQueueName ipFileName2 with
  | some g₁, some g₂ =>
    let buffers : MergeBuffers := { pIndexBuff := List.replicate g₁.index.length 0 }
    (mergeLoop g₁ ipQueueName none g₁.offsets (buffers, s)).bind fun x =>
    (x.2.writeMerged ipQueueName ipFileName1 true x.1).bind fun r =>
      if r.1 ≠ success then some r
      else
        (mergeLoop g₂ ipQueueName (some ipFileName1) g₂.offsets (buffers, r.2)).bind fun x =>
        (x.2.writeMerged ipQueueName ipFileName1 false x.1).map fun r =>
          if r.1 ≠ success then r
          else (success, r.2.dropMerged ipQueueName ipFileName1 ipFileName2)
  | _, _ => some (error, s)

/-! ## The loops -/

section Loops

variable {g g₁ g₂ : GroupBytes} {q f f₁ f₂ : Name} {oFile : Option Name} {ks : List Nat}
  {b b' : MergeBuffers} {s s' : PersistenceServer}

/-- The offsets of the entries that are not consumed. -/
def GroupBytes.left (g : GroupBytes) (ks : List Nat) : List Nat :=
  ks.filter fun k => (g.entry k).1 ∉ consumeIndexSet g.consume

/-- What the loop leaves in the buffers. -/
structure Copied (g : GroupBytes) (left : List Nat) (rs : List Bytes) (b b' : MergeBuffers) :
    Prop where
  records : List.Forall₂ (fun k r => recordAt g.data (g.entry k).2 = some r) left rs
  data : b'.pDataBuff = b.pDataBuff ++ rs.flatten
  indexLen : b'.iIndexLen = b.iIndexLen + 8 * left.length
  index : b'.pIndexBuff = left.foldl (fun buff k => g.entryBytes k ++ buff.drop 8) b.pIndexBuff

theorem copy_eq_some {k : Nat} (h : b.copy g k = some b') :
    ∃ r, recordAt g.data (g.entry k).2 = some r ∧
      b' =
        { pIndexBuff := g.entryBytes k ++ b.pIndexBuff.drop 8
          iIndexLen := b.iIndexLen + 8
          pDataBuff := b.pDataBuff ++ r } := by
  obtain ⟨r, hr, h⟩ := Option.bind_eq_some_iff.mp h
  split at h
  · cases h
  · exact ⟨r, hr, (Option.some.inj h).symm⟩

theorem eraseIndex_files (s : PersistenceServer) (q : Name) (i : Int) :
    (s.eraseIndex q i).files = s.files := by
  unfold eraseIndex
  split <;> rfl

theorem setIndex_files (s : PersistenceServer) (q : Name) (i : Int) (f : Name) :
    (s.setIndex q i f).files = s.files := by
  unfold setIndex
  split <;> rfl

theorem eraseIndex_list (s : PersistenceServer) (q : Name) (i : Int) :
    (s.eraseIndex q i).msgQueueList = s.msgQueueList := by
  unfold eraseIndex
  split <;> rfl

theorem setIndex_list (s : PersistenceServer) (q : Name) (i : Int) (f : Name) :
    (s.setIndex q i f).msgQueueList = s.msgQueueList := by
  unfold setIndex
  split <;> rfl

theorem mergeLoop_list (h : mergeLoop g q oFile ks (b, s) = some (b', s')) :
    s'.msgQueueList = s.msgQueueList := by
  induction ks generalizing b s with
  | nil =>
    cases h
    rfl
  | cons k ks ih =>
    obtain ⟨⟨b₁, s₁⟩, hone, hrest⟩ := Option.bind_eq_some_iff.mp h
    refine (ih hrest).trans ?_
    unfold mergeTurn at hone
    by_cases hin : (g.entry k).1 ∈ consumeIndexSet g.consume
    · rw [if_pos hin] at hone
      cases hone
      exact eraseIndex_list _ _ _
    · rw [if_neg hin] at hone
      obtain ⟨b₂, _, heq⟩ := Option.map_eq_some_iff.mp hone
      obtain ⟨_, rfl⟩ := Prod.mk.inj heq
      cases oFile with
      | none => rfl
      | some f => exact setIndex_list _ _ _ _

theorem mergeLoop_copied (h : mergeLoop g q oFile ks (b, s) = some (b', s')) :
    s'.files = s.files ∧ ∃ rs, Copied g (g.left ks) rs b b' := by
  induction ks generalizing b s with
  | nil =>
    cases h
    exact ⟨rfl, [], List.Forall₂.nil, (List.append_nil _).symm, rfl, rfl⟩
  | cons k ks ih =>
    rw [mergeLoop] at h
    obtain ⟨⟨b₁, s₁⟩, hone, hrest⟩ := Option.bind_eq_some_iff.mp h
    obtain ⟨hfiles, rs, hrs⟩ := ih hrest
    unfold mergeTurn at hone
    by_cases hin : (g.entry k).1 ∈ consumeIndexSet g.consume
    · rw [if_pos hin] at hone
      cases hone
      have hleft : g.left (k :: ks) = g.left ks := by
        rw [GroupBytes.left, List.filter_cons_of_neg (by simpa using hin)]
        rfl
      rw [hleft]
      exact ⟨hfiles.trans (eraseIndex_files _ _ _), rs, hrs⟩
    · rw [if_neg hin] at hone
      obtain ⟨b₂, hcopy, heq⟩ := Option.map_eq_some_iff.mp hone
      obtain ⟨rfl, rfl⟩ := Prod.mk.inj heq
      obtain ⟨r, hr, rfl⟩ := copy_eq_some hcopy
      have hleft : g.left (k :: ks) = k :: g.left ks := by
        rw [GroupBytes.left, List.filter_cons_of_pos (by simpa using hin)]
        rfl
      rw [hleft]
      refine ⟨hfiles.trans ?_, r :: rs, List.Forall₂.cons hr hrs.records, ?_, ?_, ?_⟩
      · cases oFile with
        | none => rfl
        | some f => exact setIndex_files _ _ _ _
      · rw [hrs.data, List.flatten_cons]
        exact List.append_assoc _ _ _
      · rw [hrs.indexLen, List.length_cons]
        show b.iIndexLen + 8 + _ = _
        omega
      · rw [hrs.index, List.foldl_cons]

/-- What the loop does to the map of the queue. -/
theorem mergeLoop_map (h : mergeLoop g q oFile ks (b, s) = some (b', s'))
    {indexMap : AList fun _ : Int => Name}
    (hmap : s.msgQueueIndexFile.lookup q = some indexMap) :
    ∃ indexMap', s'.msgQueueIndexFile.lookup q = some indexMap' ∧
      ∀ i, indexMap'.lookup i =
        if i ∈ ks.map fun k => (g.entry k).1 then
          if i ∈ consumeIndexSet g.consume then none else oFile.or (indexMap.lookup i)
        else indexMap.lookup i := by
  induction ks generalizing b s indexMap with
  | nil =>
    cases h
    exact ⟨indexMap, hmap, fun i => rfl⟩
  | cons k ks ih =>
    rw [mergeLoop] at h
    obtain ⟨⟨b₁, s₁⟩, hone, hrest⟩ := Option.bind_eq_some_iff.mp h
    unfold mergeTurn at hone
    have hstep : ∃ indexMap₁, s₁.msgQueueIndexFile.lookup q = some indexMap₁ ∧
        ∀ i, indexMap₁.lookup i = if i = (g.entry k).1 then
          if i ∈ consumeIndexSet g.consume then none else oFile.or (indexMap.lookup i)
        else indexMap.lookup i := by
      by_cases hin : (g.entry k).1 ∈ consumeIndexSet g.consume
      · rw [if_pos hin] at hone
        cases hone
        refine ⟨indexMap.erase (g.entry k).1, ?_, fun i => ?_⟩
        · rw [eraseIndex, hmap]
          exact AList.lookup_insert _
        · by_cases hi : i = (g.entry k).1
          · rw [if_pos hi, hi, if_pos hin, AList.lookup_erase]
          · rw [if_neg hi, AList.lookup_erase_ne hi]
      · rw [if_neg hin] at hone
        obtain ⟨b₂, _, heq⟩ := Option.map_eq_some_iff.mp hone
        obtain ⟨_, rfl⟩ := Prod.mk.inj heq
        cases oFile with
        | none =>
          refine ⟨indexMap, hmap, fun i => ?_⟩
          by_cases hi : i = (g.entry k).1
          · rw [if_pos hi, hi, if_neg hin]
            rfl
          · rw [if_neg hi]
        | some f =>
          refine ⟨indexMap.insert (g.entry k).1 f, ?_, fun i => ?_⟩
          · dsimp only
            rw [setIndex, hmap]
            exact AList.lookup_insert _
          · by_cases hi : i = (g.entry k).1
            · rw [if_pos hi, hi, if_neg hin, AList.lookup_insert]
              rfl
            · rw [if_neg hi, AList.lookup_insert_ne hi]
    obtain ⟨indexMap₁, hmap₁, hone₁⟩ := hstep
    obtain ⟨indexMap', hmap', hlookup⟩ := ih hrest hmap₁
    refine ⟨indexMap', hmap', fun i => ?_⟩
    rw [hlookup, hone₁]
    simp only [List.map_cons, List.mem_cons]
    by_cases hi : i = (g.entry k).1
    · simp only [hi, if_true, true_or]
      split_ifs
      · rfl
      · cases oFile <;> rfl
      · rfl
      · rfl
    · simp only [hi, if_false, false_or]

end Loops

/-! ## The files -/

section Contents

variable {q f f₁ f₂ : Name} {s : PersistenceServer} {b : MergeBuffers}
  {r : Int × PersistenceServer} {truncate : Bool}

/-- What an open file already holds. -/
def kept (truncate : Bool) (bytes : Option Bytes) : Bytes := if truncate then [] else bytes.getD []

/-- The buffers stand in the files of the group. -/
structure Written (q f : Name) (truncate : Bool) (b : MergeBuffers) (fs fs' : FileSystem) :
    Prop where
  inQueue : InQueue q fs fs'
  data : bytesAt fs' (fileNode q (f ++ extData)) =
    some (kept truncate (bytesAt fs (fileNode q (f ++ extData))) ++ b.pDataBuff)
  index : bytesAt fs' (fileNode q (f ++ extIndex)) =
    some (kept truncate (bytesAt fs (fileNode q (f ++ extIndex))) ++
      b.pIndexBuff.take b.iIndexLen)
  other : ∀ g, g ≠ f ++ extData → g ≠ f ++ extIndex →
    bytesAt fs' (fileNode q g) = bytesAt fs (fileNode q g)

theorem writeMerged_ready (h : Ready s.files q) (hf : GroupName f)
    (hrun : s.writeMerged q f truncate b = some r) :
    b.iIndexLen ≤ b.pIndexBuff.length ∧
      ∃ files, Written q f truncate b s.files files ∧ r = (success, { s with files := files }) := by
  have hdata : Plain (f ++ extData) := plain_groupFile hf (Or.inl rfl)
  have hindex : Plain (f ++ extIndex) := plain_groupFile hf (Or.inr (Or.inl rfl))
  have hne : f ++ extIndex ≠ f ++ extData := ext_ne f (by decide)
  let data := fileNode q (f ++ extData)
  let index := fileNode q (f ++ extIndex)
  let fs₁ := put s.files data (kept truncate (bytesAt s.files data))
  let fs₂ := put fs₁ index (kept truncate (bytesAt fs₁ index))
  let fs₃ := put fs₂ data ((bytesAt fs₂ data).getD [] ++ b.pDataBuff)
  let fs₄ := put fs₃ index ((bytesAt fs₃ index).getD [] ++ b.pIndexBuff.take b.iIndexLen)
  have h₁ : InQueue q s.files fs₁ := inQueue_put h _ _
  have h₂ : InQueue q s.files fs₂ := h₁.trans (inQueue_put (h₁.ready h) _ _)
  have h₃ : InQueue q s.files fs₃ := h₂.trans (inQueue_put (h₂.ready h) _ _)
  have h₄ : InQueue q s.files fs₄ := h₃.trans (inQueue_put (h₃.ready h) _ _)
  have hopen₁ : tryOpen s.files (groupPath q f extData) truncate = (true, fs₁) :=
    tryOpen_ready h hdata truncate
  have hopen₂ : tryOpen fs₁ (groupPath q f extIndex) truncate = (true, fs₂) :=
    tryOpen_ready (h₁.ready h) hindex truncate
  have happend₁ : appendFile fs₂ (groupPath q f extData) b.pDataBuff = fs₃ :=
    appendFile_ready (h₂.ready h) hdata _
  have happend₂ : appendFile fs₃ (groupPath q f extIndex) (b.pIndexBuff.take b.iIndexLen) = fs₄ :=
    appendFile_ready (h₃.ready h) hindex _
  rw [writeMerged] at hrun
  rw [hopen₁] at hrun
  dsimp only at hrun
  rw [hopen₂, if_neg (by simp), happend₁, happend₂] at hrun
  split at hrun
  · cases hrun
  · next hlen =>
    refine ⟨Nat.le_of_not_lt hlen, fs₄, ⟨h₄, ?_, ?_, fun g hg hg' => ?_⟩,
      (Option.some.inj hrun).symm⟩
    · simp only [fs₄, fs₃, fs₂, fs₁, data, index, bytesAt_put_file, hne.symm, if_false, if_true,
        Option.getD_some]
    · simp only [fs₄, fs₃, fs₂, fs₁, data, index, bytesAt_put_file, hne, if_false, if_true,
        Option.getD_some]
    · simp only [fs₄, fs₃, fs₂, fs₁, data, index, bytesAt_put_file, hg, hg', if_false]

theorem dropMerged_ready (h : Ready s.files q) (hf₁ : GroupName f₁) (hf₂ : GroupName f₂) :
    InQueue q s.files (s.dropMerged q f₁ f₂).files ∧
      bytesAt (s.dropMerged q f₁ f₂).files (fileNode q (f₁ ++ extConsume)) = none ∧
        bytesAt (s.dropMerged q f₁ f₂).files (fileNode q (f₂ ++ extIndex)) = none ∧
        ∀ g, (∀ ext, IsExt ext → g ≠ f₂ ++ ext) → g ≠ f₁ ++ extConsume →
          bytesAt (s.dropMerged q f₁ f₂).files (fileNode q g) = bytesAt s.files (fileNode q g) := by
  have hdata : IsExt extData := Or.inl rfl
  have hindex : IsExt extIndex := Or.inr (Or.inl rfl)
  have hconsume : IsExt extConsume := Or.inr (Or.inr rfl)
  have h₁ := inQueue_erase h (f₂ ++ extIndex)
  have h₂ := h₁.trans (inQueue_erase (h₁.ready h) (f₂ ++ extData))
  have h₃ := h₂.trans (inQueue_erase (h₂.ready h) (f₂ ++ extConsume))
  have h₄ := h₃.trans (inQueue_erase (h₃.ready h) (f₁ ++ extConsume))
  have hfiles : (s.dropMerged q f₁ f₂).files = (((s.files.erase (fileNode q (f₂ ++ extIndex))).erase
      (fileNode q (f₂ ++ extData))).erase (fileNode q (f₂ ++ extConsume))).erase
        (fileNode q (f₁ ++ extConsume)) := by
    rw [dropMerged]
    dsimp only
    rw [groupPath, groupPath, groupPath, groupPath,
      removeFile_ready h (plain_groupFile hf₂ hindex),
      removeFile_ready (h₁.ready h) (plain_groupFile hf₂ hdata),
      removeFile_ready (h₂.ready h) (plain_groupFile hf₂ hconsume),
      removeFile_ready (h₃.ready h) (plain_groupFile hf₁ hconsume)]
  rw [hfiles]
  refine ⟨h₄, ?_, ?_, fun g hg hg' => ?_⟩
  · simp only [bytesAt_erase_file, if_true]
  · simp only [bytesAt_erase_file, if_true, ite_self]
  · simp only [bytesAt_erase_file, hg _ hdata, hg _ hindex, hg _ hconsume, hg', if_false]

/-- What `MergeFiles` has done when it succeeds. -/
structure Merged (q f₁ : Name) (g₁ g₂ : GroupBytes) (rs₁ rs₂ : List Bytes) (b₁ b₂ : MergeBuffers)
    (fs' : FileSystem) : Prop where
  first : Copied g₁ (g₁.left g₁.offsets) rs₁
    { pIndexBuff := List.replicate g₁.index.length 0 } b₁
  second : Copied g₂ (g₂.left g₂.offsets) rs₂
    { pIndexBuff := List.replicate g₁.index.length 0 } b₂
  firstLen : b₁.iIndexLen ≤ b₁.pIndexBuff.length
  secondLen : b₂.iIndexLen ≤ b₂.pIndexBuff.length
  ready : Ready fs' q
  data : bytesAt fs' (fileNode q (f₁ ++ extData)) = some (b₁.pDataBuff ++ b₂.pDataBuff)
  index : bytesAt fs' (fileNode q (f₁ ++ extIndex)) =
    some (b₁.pIndexBuff.take b₁.iIndexLen ++ b₂.pIndexBuff.take b₂.iIndexLen)
  consume : bytesAt fs' (fileNode q (f₁ ++ extConsume)) = none

/-- Two loops, after each of which the buffers are written; then the second group is removed. -/
theorem mergeFiles_stages {g₁ g₂ : GroupBytes} (h : Ready s.files q) (hf₁ : GroupName f₁)
    (hg₁ : readGroup s.files q f₁ = some g₁) (hg₂ : readGroup s.files q f₂ = some g₂)
    (hrun : s.mergeFiles q f₁ f₂ = some r) :
    ∃ b₁ b₂ s₁ s₂ fs₁ fs₂,
      mergeLoop g₁ q none g₁.offsets ({ pIndexBuff := List.replicate g₁.index.length 0 }, s) =
        some (b₁, s₁) ∧ b₁.iIndexLen ≤ b₁.pIndexBuff.length ∧
      Written q f₁ true b₁ s.files fs₁ ∧
      mergeLoop g₂ q (some f₁) g₂.offsets
        ({ pIndexBuff := List.replicate g₁.index.length 0 }, { s₁ with files := fs₁ }) =
          some (b₂, s₂) ∧ b₂.iIndexLen ≤ b₂.pIndexBuff.length ∧
      Written q f₁ false b₂ fs₁ fs₂ ∧
      r = (success, { s₂ with files := fs₂ }.dropMerged q f₁ f₂) := by
  rw [mergeFiles, hg₁, hg₂] at hrun
  obtain ⟨⟨b₁, s₁⟩, hloop₁, hrun⟩ := Option.bind_eq_some_iff.mp hrun
  obtain ⟨r₁, hwrite₁, hrun⟩ := Option.bind_eq_some_iff.mp hrun
  obtain ⟨hfiles₁, -⟩ := mergeLoop_copied hloop₁
  have hready₁ : Ready s₁.files q := hfiles₁ ▸ h
  obtain ⟨hlen₁, fs₁, hw₁, rfl⟩ := writeMerged_ready hready₁ hf₁ hwrite₁
  rw [hfiles₁] at hw₁
  rw [if_neg (by simp)] at hrun
  obtain ⟨⟨b₂, s₂⟩, hloop₂, hrun⟩ := Option.bind_eq_some_iff.mp hrun
  obtain ⟨r₂, hwrite₂, hrun⟩ := Option.map_eq_some_iff.mp hrun
  obtain ⟨hfiles₂, -⟩ := mergeLoop_copied hloop₂
  have hready₂ : Ready s₂.files q := hfiles₂ ▸ hw₁.inQueue.ready h
  obtain ⟨hlen₂, fs₂, hw₂, rfl⟩ := writeMerged_ready hready₂ hf₁ hwrite₂
  rw [hfiles₂] at hw₂
  rw [if_neg (by simp)] at hrun
  exact ⟨b₁, b₂, s₁, s₂, fs₁, fs₂, hloop₁, hlen₁, hw₁, hloop₂, hlen₂, hw₂, hrun.symm⟩

theorem mergeFiles_merged {g₁ g₂ : GroupBytes} {s' : PersistenceServer} (h : Ready s.files q)
    (hf₁ : GroupName f₁) (hf₂ : GroupName f₂) (hne : f₁ ≠ f₂)
    (hg₁ : readGroup s.files q f₁ = some g₁) (hg₂ : readGroup s.files q f₂ = some g₂)
    (hrun : s.mergeFiles q f₁ f₂ = some (success, s')) :
    ∃ rs₁ rs₂ b₁ b₂ s₁ s₂, Merged q f₁ g₁ g₂ rs₁ rs₂ b₁ b₂ s'.files ∧
      mergeLoop g₁ q none g₁.offsets ({ pIndexBuff := List.replicate g₁.index.length 0 }, s) =
        some (b₁, s₁) ∧
      (∃ files, mergeLoop g₂ q (some f₁) g₂.offsets
        ({ pIndexBuff := List.replicate g₁.index.length 0 }, { s₁ with files := files }) =
          some (b₂, s₂)) ∧ s'.msgQueueIndexFile = s₂.msgQueueIndexFile := by
  obtain ⟨b₁, b₂, s₁, s₂, fs₁, fs₂, hloop₁, hlen₁, hw₁, hloop₂, hlen₂, hw₂, hs'⟩ :=
    mergeFiles_stages h hf₁ hg₁ hg₂ hrun
  obtain ⟨-, rs₁, hrs₁⟩ := mergeLoop_copied hloop₁
  obtain ⟨-, rs₂, hrs₂⟩ := mergeLoop_copied hloop₂
  obtain ⟨_, rfl⟩ := Prod.mk.inj hs'
  have hready₂ : Ready fs₂ q := hw₂.inQueue.ready (hw₁.inQueue.ready h)
  obtain ⟨hin, hgone, -, hother⟩ :=
    dropMerged_ready (s := { s₂ with files := fs₂ }) hready₂ hf₁ hf₂
  have hapart : ∀ ext ext', f₁ ++ ext ≠ f₂ ++ ext' :=
    fun ext ext' heq => hne (ext_eq_of_append_eq hf₁ hf₂ heq).1
  refine ⟨rs₁, rs₂, b₁, b₂, s₁, s₂, ⟨hrs₁, hrs₂, hlen₁, hlen₂, hin.ready hready₂, ?_, ?_, hgone⟩,
    hloop₁, ⟨fs₁, hloop₂⟩, rfl⟩
  · rw [hother _ (fun ext _ => hapart _ _) (ext_ne _ (by decide)), hw₂.data, hw₁.data]
    rfl
  · rw [hother _ (fun ext _ => hapart _ _) (ext_ne _ (by decide)), hw₂.index, hw₁.index]
    rfl

/-- A merge removes the second group and brings no other back. -/
theorem mergeFiles_drops {g₁ g₂ : GroupBytes} (h : Ready s.files q) (hf₁ : GroupName f₁)
    (hf₂ : GroupName f₂) (hg₁ : readGroup s.files q f₁ = some g₁)
    (hg₂ : readGroup s.files q f₂ = some g₂) (hrun : s.mergeFiles q f₁ f₂ = some r) :
    r.1 = success ∧ Ready r.2.files q ∧
      bytesAt r.2.files (fileNode q (f₂ ++ extIndex)) = none ∧
      ∀ g, GroupName g → g ≠ f₁ → bytesAt s.files (fileNode q (g ++ extIndex)) = none →
        bytesAt r.2.files (fileNode q (g ++ extIndex)) = none := by
  obtain ⟨b₁, b₂, s₁, s₂, fs₁, fs₂, hloop₁, -, hw₁, hloop₂, -, hw₂, rfl⟩ :=
    mergeFiles_stages h hf₁ hg₁ hg₂ hrun
  have hready₂ : Ready fs₂ q := hw₂.inQueue.ready (hw₁.inQueue.ready h)
  obtain ⟨hin, -, hgone, hother⟩ :=
    dropMerged_ready (s := { s₂ with files := fs₂ }) hready₂ hf₁ hf₂
  refine ⟨rfl, hin.ready hready₂, hgone, fun g hg hgf hnone => ?_⟩
  have hapart : ∀ f ext, GroupName f → g ≠ f → g ++ extIndex ≠ f ++ ext :=
    fun f ext hf hgf hsame => hgf (ext_eq_of_append_eq hg hf hsame).1
  by_cases hg₂ : g = f₂
  · rw [hg₂]
    exact hgone
  · rw [hother _ (fun ext _ => hapart _ _ hf₂ hg₂) (hapart _ _ hf₁ hgf),
      hw₂.other _ (hapart _ _ hf₁ hgf) (hapart _ _ hf₁ hgf),
      hw₁.other _ (hapart _ _ hf₁ hgf) (hapart _ _ hf₁ hgf)]
    exact hnone

theorem writeMerged_list (hrun : s.writeMerged q f truncate b = some r) :
    r.2.msgQueueList = s.msgQueueList := by
  rw [writeMerged] at hrun
  split at hrun
  · cases hrun
    rfl
  · split at hrun
    · cases hrun
    · cases hrun
      rfl

/-- The list of groups is not looked at. -/
theorem mergeFiles_list (hrun : s.mergeFiles q f₁ f₂ = some r) :
    r.2.msgQueueList = s.msgQueueList := by
  unfold mergeFiles at hrun
  split at hrun
  swap
  · cases hrun
    rfl
  obtain ⟨⟨b₁, s₁⟩, hloop₁, hrun⟩ := Option.bind_eq_some_iff.mp hrun
  obtain ⟨r₁, hwrite₁, hrun⟩ := Option.bind_eq_some_iff.mp hrun
  have hfirst : r₁.2.msgQueueList = s.msgQueueList :=
    (writeMerged_list hwrite₁).trans (mergeLoop_list hloop₁)
  split at hrun
  · cases hrun
    exact hfirst
  obtain ⟨⟨b₂, s₂⟩, hloop₂, hrun⟩ := Option.bind_eq_some_iff.mp hrun
  obtain ⟨r₂, hwrite₂, hrun⟩ := Option.map_eq_some_iff.mp hrun
  have hsecond : r₂.2.msgQueueList = s.msgQueueList :=
    ((writeMerged_list hwrite₂).trans (mergeLoop_list hloop₂)).trans hfirst
  split at hrun
  · rw [← hrun]
    exact hsecond
  · rw [← hrun]
    exact hsecond

end Contents

/-! ## The entries -/

section Entries

variable {g : GroupBytes} {left : List Nat} {rs : List Bytes} {b : MergeBuffers} {n : Nat}

theorem entryBytes_length (g : GroupBytes) (k : Nat) : (g.entryBytes k).length = 8 :=
  Mem.read_length _ _ _

theorem indexEntries_entryBytes (g : GroupBytes) (k : Nat) :
    indexEntries (g.entryBytes k) = [g.entry k] := by
  rw [indexEntries, entryBytes_length]
  have hfirst : readInt (Mem.ofBytes (g.entryBytes k)) 0 = (g.entry k).1 :=
    congrArg ofBeInt (Mem.read_ofBytes_read _ _ (by decide))
  have hsecond : readInt (Mem.ofBytes (g.entryBytes k)) 4 = (g.entry k).2 :=
    congrArg ofBeInt (Mem.read_ofBytes_read _ _ (by decide))
  show [(readInt (Mem.ofBytes (g.entryBytes k)) 0, readInt (Mem.ofBytes (g.entryBytes k)) 4)] = _
  rw [hfirst, hsecond]

theorem indexEntries_eq_offsets (g : GroupBytes) : indexEntries g.index = g.offsets.map g.entry :=
  rfl

/-- The entries that the merged index file has for a group: the last one that is left, then
zeros. -/
def GroupBytes.mergedEntries (g : GroupBytes) (left : List Nat) : List (Int × Int) :=
  match left.getLast? with
  | none => []
  | some k => g.entry k :: List.replicate (left.length - 1) (0, 0)

theorem mergedEntries_concat (g : GroupBytes) (left : List Nat) (k : Nat) :
    g.mergedEntries (left ++ [k]) = g.entry k :: List.replicate left.length (0, 0) := by
  rw [GroupBytes.mergedEntries, List.getLast?_concat, List.length_append]
  rfl

theorem mergedEntries_length (g : GroupBytes) (left : List Nat) :
    (g.mergedEntries left).length = left.length := by
  rcases List.eq_nil_or_concat' left with rfl | ⟨l, k, rfl⟩
  · rfl
  · rw [mergedEntries_concat, List.length_cons, List.length_replicate, List.length_append]
    rfl

theorem mergedEntries_getElem? (g : GroupBytes) {k : Nat} (hpos : 0 < k) (hk : k < left.length) :
    (g.mergedEntries left)[k]? = some (0, 0) := by
  rcases List.eq_nil_or_concat' left with rfl | ⟨l, j, rfl⟩
  · exact absurd hk (Nat.not_lt_zero k)
  · obtain ⟨k, rfl⟩ := Nat.exists_eq_succ_of_ne_zero hpos.ne'
    rw [List.length_append, List.length_singleton] at hk
    rw [mergedEntries_concat, List.getElem?_cons_succ, List.getElem?_replicate, if_pos (by omega)]

theorem mergedEntries_of_le_one (g : GroupBytes) (h : left.length ≤ 1) :
    g.mergedEntries left = left.map g.entry := by
  match left, h with
  | [], _ => rfl
  | [k], _ => rfl

theorem foldl_entryBytes_drop (g : GroupBytes) (left : List Nat) (buff : Bytes) :
    (left.foldl (fun buff k => g.entryBytes k ++ buff.drop 8) buff).drop 8 = buff.drop 8 := by
  induction left generalizing buff with
  | nil => rfl
  | cons k left ih =>
    rw [List.foldl_cons, ih]
    exact List.drop_left' (entryBytes_length g k)

/-- Every entry is copied over the one before. -/
theorem merged_index (h : Copied g left rs { pIndexBuff := List.replicate n 0 } b)
    (hlen : b.iIndexLen ≤ b.pIndexBuff.length) :
    (b.pIndexBuff.take b.iIndexLen).length = 8 * left.length ∧
      indexEntries (b.pIndexBuff.take b.iIndexLen) = g.mergedEntries left := by
  have hindexLen : b.iIndexLen = 8 * left.length := h.indexLen.trans (Nat.zero_add _)
  refine ⟨by rw [List.length_take, Nat.min_eq_left hlen, hindexLen], ?_⟩
  rcases List.eq_nil_or_concat' left with rfl | ⟨l, k, rfl⟩
  · rw [hindexLen, List.length_nil, Nat.mul_zero, List.take_zero]
    rfl
  · have hbuff : b.pIndexBuff = g.entryBytes k ++ List.replicate (n - 8) 0 := by
      rw [h.index, List.foldl_append, List.foldl_cons, List.foldl_nil, foldl_entryBytes_drop,
        List.drop_replicate]
    have htake : b.iIndexLen = (g.entryBytes k).length + 8 * l.length := by
      rw [hindexLen, entryBytes_length, List.length_append, List.length_singleton]
      omega
    have hroom : 8 * l.length ≤ n - 8 := by
      rw [hbuff, htake, List.length_append, List.length_replicate] at hlen
      omega
    rw [hbuff, htake, List.take_length_add_append, List.take_replicate, Nat.min_eq_left hroom,
      indexEntries_append (n := 1) (entryBytes_length g k), indexEntries_entryBytes,
      indexEntries_zeros, mergedEntries_concat]
    rfl

end Entries

/-! ## What is recovered -/

section Recovered

variable {data : Bytes} {consumed : List Int} {es : List (Int × Int)} {rs : List Bytes}

/-- The record stands where the entry says. -/
def StandsAt (data : Bytes) (e : Int × Int) (r : Bytes) : Prop := recordAt data e.2 = some r

theorem readEntries_eq_some_iff :
    (readEntries data consumed es).map (List.map Prod.snd) = some rs ↔
      List.Forall₂ (StandsAt data) (es.filter fun e => e.1 ∉ consumed) rs := by
  induction es generalizing rs with
  | nil =>
    rw [List.filter_nil, List.forall₂_nil_left_iff]
    exact ⟨fun h => (Option.some.inj h).symm, fun h => congrArg some h.symm⟩
  | cons e es ih =>
    rw [readEntries]
    by_cases hin : e.1 ∈ consumed
    · rw [if_pos hin, List.filter_cons_of_neg (by simpa using hin)]
      exact ih
    · rw [if_neg hin, List.filter_cons_of_pos (by simpa using hin), List.forall₂_cons_left_iff]
      constructor
      · intro h
        obtain ⟨rs', hread, rfl⟩ := Option.map_eq_some_iff.mp h
        obtain ⟨r, hr, hothers⟩ := Option.bind_eq_some_iff.mp hread
        obtain ⟨rs'', hrest, rfl⟩ := Option.map_eq_some_iff.mp hothers
        exact ⟨r, rs''.map Prod.snd, hr, ih.mp (by rw [hrest]; rfl), rfl⟩
      · rintro ⟨r, rs', hr, hrest, rfl⟩
        obtain ⟨rs'', hread, rfl⟩ := Option.map_eq_some_iff.mp (ih.mpr hrest)
        have hr : recordAt data e.2 = some r := hr
        rw [hr, hread]
        rfl

/-- No record is read twice when the first is read through a zero entry. -/
theorem zero_entry_first (hnodup : rs.Nodup) (hown : ∀ r ∈ rs, OwnLength r)
    (h : List.Forall₂ (StandsAt rs.flatten) es rs) {k : Nat} {e : Int × Int}
    (hk : es[k]? = some e) (hzero : e.2 = 0) : k = 0 := by
  obtain ⟨hlt, hget⟩ := List.getElem?_eq_some_iff.mp hk
  have hlt' : k < rs.length := h.length_eq ▸ hlt
  obtain ⟨r, rest, rfl⟩ := List.exists_cons_of_length_pos (Nat.zero_lt_of_lt hlt')
  have hat : StandsAt (r :: rest).flatten es[k] (r :: rest)[k] := h.get hlt hlt'
  have hfirst : recordAt ([] ++ (r ++ rest.flatten)) ([] : Bytes).length = some r :=
    recordAt_append (hown r List.mem_cons_self)
  rw [StandsAt, hget, hzero, List.flatten_cons] at hat
  have hsame : (r :: rest)[0] = (r :: rest)[k] := Option.some.inj (hfirst.symm.trans hat)
  exact ((hnodup.getElem_inj_iff).mp hsame).symm

end Recovered

/-! ## Well-formed groups -/

section Groups

variable {s s' : PersistenceServer} {q f f₁ f₂ : Name} {g g₁ g₂ : GroupBytes} {rs rs₁ rs₂ : List Bytes}

/-- The record has its own length and its index. -/
def IsRecordOf (iIndex : Int) (r : Bytes) : Prop :=
  OwnLength r ∧ readInt (Mem.ofBytes r) (4 + maxNameLength) = iIndex

instance (iIndex : Int) (r : Bytes) : Decidable (IsRecordOf iIndex r) :=
  inferInstanceAs (Decidable (_ ∧ _))

/-- Every entry points at the record of its index. -/
structure GroupBytes.WellFormed (g : GroupBytes) : Prop where
  nodup : ((indexEntries g.index).map Prod.fst).Nodup
  record : ∀ e ∈ indexEntries g.index, ∃ r, recordAt g.data e.2 = some r ∧ IsRecordOf e.1 r

/-- The entries that are not consumed. -/
def GroupBytes.unconsumed (g : GroupBytes) : List (Int × Int) :=
  (indexEntries g.index).filter fun e => e.1 ∉ consumeIndexSet g.consume

/-- Their records. -/
def GroupBytes.records (g : GroupBytes) : List Bytes :=
  g.unconsumed.filterMap fun e => recordAt g.data e.2

/-- The records that a new server reads from a group. -/
def recoveredRecords (files : FileSystem) (strQueueName strFileName : Name) : Option (List Bytes) :=
  (groupRecords files (subPath strQueueName ++ slash :: strFileName)).map (List.map Prod.snd)

/-- What was unconsumed in either group is read from the first, and entered under it. -/
structure Keeps (s s' : PersistenceServer) (q f₁ f₂ : Name) (g₁ g₂ : GroupBytes) : Prop where
  records : recoveredRecords s'.files q f₁ =
    (recoveredRecords s.files q f₁).bind fun rs₁ =>
      (recoveredRecords s.files q f₂).map (rs₁ ++ ·)
  mapped : ∃ indexMap, s'.msgQueueIndexFile.lookup q = some indexMap ∧
    ∀ e ∈ g₁.unconsumed ++ g₂.unconsumed, indexMap.lookup e.1 = some f₁

/-- Each group has one unconsumed record at most, and it stands at its old position when what
is left of both groups is put together. -/
def Unmoved (g₁ g₂ : GroupBytes) : Prop :=
  g₁.unconsumed.length ≤ 1 ∧ g₂.unconsumed.length ≤ 1 ∧
    List.Forall₂ (StandsAt (g₁.records ++ g₂.records).flatten) (g₁.unconsumed ++ g₂.unconsumed)
      (g₁.records ++ g₂.records)

instance (data : Bytes) (e : Int × Int) (r : Bytes) : Decidable (StandsAt data e r) :=
  inferInstanceAs (Decidable (_ = _))

instance (g₁ g₂ : GroupBytes) : Decidable (Unmoved g₁ g₂) :=
  inferInstanceAs (Decidable (_ ∧ _ ∧ _))

theorem any_record_iff {data : Bytes} {e : Int × Int} :
    (recordAt data e.2).any (fun r => IsRecordOf e.1 r) = true ↔
      ∃ r, recordAt data e.2 = some r ∧ IsRecordOf e.1 r := by
  simp only [Option.any_eq_true, decide_eq_true_eq]

instance (g : GroupBytes) : Decidable g.WellFormed :=
  decidable_of_iff (((indexEntries g.index).map Prod.fst).Nodup ∧
      ∀ e ∈ indexEntries g.index, (recordAt g.data e.2).any (fun r => IsRecordOf e.1 r) = true)
    ⟨fun h => ⟨h.1, fun e he => any_record_iff.mp (h.2 e he)⟩,
      fun h => ⟨h.nodup, fun e he => any_record_iff.mpr (h.record e he)⟩⟩

/-- The queue has an entry under the group for everything that is not consumed. -/
def Entered (s : PersistenceServer) (q f : Name) (g : GroupBytes) : Prop :=
  ∃ indexMap, s.msgQueueIndexFile.lookup q = some indexMap ∧
    ∀ e ∈ g.unconsumed, indexMap.lookup e.1 = some f

instance (s : PersistenceServer) (q f : Name) (g : GroupBytes) : Decidable (s.Entered q f g) :=
  decidable_of_iff ((s.msgQueueIndexFile.lookup q).any
      (fun indexMap => ∀ e ∈ g.unconsumed, indexMap.lookup e.1 = some f) = true)
    (by simp only [Option.any_eq_true, decide_eq_true_eq, Entered])

theorem left_entries (g : GroupBytes) : (g.left g.offsets).map g.entry = g.unconsumed := by
  rw [GroupBytes.unconsumed, indexEntries_eq_offsets, List.filter_map]
  rfl

theorem standsAt_unconsumed
    (h : List.Forall₂ (fun k r => recordAt g.data (g.entry k).2 = some r) (g.left g.offsets) rs) :
    List.Forall₂ (StandsAt g.data) g.unconsumed rs := by
  rw [← left_entries]
  exact List.forall₂_map_left_iff.mpr h

theorem filterMap_of_standsAt {data : Bytes} {es : List (Int × Int)}
    (h : List.Forall₂ (StandsAt data) es rs) :
    es.filterMap (fun e => recordAt data e.2) = rs := by
  induction h with
  | nil => rfl
  | @cons e r es rs he _ ih =>
    exact (List.filterMap_cons_some (f := fun e : Int × Int => recordAt data e.2) he).trans
      (congrArg _ ih)

theorem records_eq (h : List.Forall₂ (StandsAt g.data) g.unconsumed rs) : g.records = rs :=
  filterMap_of_standsAt h

/-- The records say which index they have. -/
theorem keys_of_standsAt {data : Bytes} {es : List (Int × Int)}
    (hrecord : ∀ e ∈ es, ∃ r, recordAt data e.2 = some r ∧ IsRecordOf e.1 r)
    (h : List.Forall₂ (StandsAt data) es rs) :
    rs.map (fun r => readInt (Mem.ofBytes r) (4 + maxNameLength)) = es.map Prod.fst ∧
      ∀ r ∈ rs, OwnLength r := by
  induction h with
  | nil => exact ⟨rfl, fun r hr => nomatch hr⟩
  | @cons e r es rs he _ ih =>
    obtain ⟨hkeys, hown⟩ := ih fun e' he' => hrecord e' (List.mem_cons_of_mem e he')
    obtain ⟨r', hr', hrec⟩ := hrecord e List.mem_cons_self
    obtain rfl : r = r' := Option.some.inj (he.symm.trans hr')
    refine ⟨?_, fun r' hr' => ?_⟩
    · rw [List.map_cons, List.map_cons, hkeys, hrec.2]
    · rcases List.mem_cons.mp hr' with rfl | hr'
      · exact hrec.1
      · exact hown r' hr'

theorem readGroup_some (h : readGroup s.files q f = some g) :
    readFile s.files (groupPath q f extIndex) = some g.index ∧
      readFile s.files (groupPath q f extData) = some g.data ∧
      readFile s.files (groupPath q f extConsume) = some g.consume ∧
        g.index ≠ [] ∧ g.data ≠ [] := by
  unfold readGroup at h
  split at h
  · next index data consume hindex hdata hconsume =>
    split at h
    · cases h
    · next hfull =>
      cases h
      exact ⟨hindex, hdata, hconsume, fun hnil => hfull (Or.inl hnil),
        fun hnil => hfull (Or.inr (Or.inl hnil))⟩
  · cases h

theorem readFile_recover {fs : FileSystem} (h : Ready fs q) (hf : GroupName f) {ext : Bytes}
    (hext : IsExt ext) : readFile fs (subPath q ++ slash :: f ++ ext) =
      bytesAt fs (fileNode q (f ++ ext)) := by
  rw [List.append_assoc]
  exact readFile_sub h (plain_groupFile hf hext)

/-- What is read from the group as it is. -/
theorem recovered_before (h : Ready s.files q) (hf : GroupName f)
    (hg : readGroup s.files q f = some g)
    (hrs : List.Forall₂ (StandsAt g.data) g.unconsumed rs) :
    recoveredRecords s.files q f = some rs := by
  obtain ⟨hindex, hdata, hconsume, hindexNil, hdataNil⟩ := readGroup_some hg
  have hread : ∀ ext, IsExt ext → readFile s.files (subPath q ++ slash :: f ++ ext) =
      readFile s.files (groupPath q f ext) := fun ext hext =>
    (readFile_recover h hf hext).trans (readFile_ready h (plain_groupFile hf hext)).symm
  rw [recoveredRecords, groupRecords, hread _ (Or.inr (Or.inl rfl)), hread _ (Or.inl rfl),
    hread _ (Or.inr (Or.inr rfl)), hindex, hdata, hconsume]
  dsimp only
  rw [if_neg (not_or.mpr ⟨hindexNil, hdataNil⟩)]
  exact readEntries_eq_some_iff.mpr hrs

theorem recovered_merged {b₁ b₂ : MergeBuffers} {fs' : FileSystem} (hf₁ : GroupName f₁)
    (h : Merged q f₁ g₁ g₂ rs₁ rs₂ b₁ b₂ fs') (hown : ∀ r ∈ rs₁ ++ rs₂, OwnLength r) :
    recoveredRecords fs' q f₁ = some (rs₁ ++ rs₂) ↔
      List.Forall₂ (StandsAt (rs₁ ++ rs₂).flatten)
        (g₁.mergedEntries (g₁.left g₁.offsets) ++ g₂.mergedEntries (g₂.left g₂.offsets))
        (rs₁ ++ rs₂) := by
  obtain ⟨hlen₁, hentries₁⟩ := merged_index h.first h.firstLen
  obtain ⟨hlen₂, hentries₂⟩ := merged_index h.second h.secondLen
  have hdata : b₁.pDataBuff ++ b₂.pDataBuff = (rs₁ ++ rs₂).flatten := by
    rw [h.first.data, h.second.data, List.flatten_append]
    rfl
  have hentries := indexEntries_append hlen₁ (b₂.pIndexBuff.take b₂.iIndexLen)
  rw [hentries₁, hentries₂] at hentries
  have hsize : (rs₁ ++ rs₂).length = (g₁.left g₁.offsets).length + (g₂.left g₂.offsets).length := by
    rw [List.length_append, ← h.first.records.length_eq, ← h.second.records.length_eq]
  rw [recoveredRecords, groupRecords, readFile_recover h.ready hf₁ (Or.inr (Or.inl rfl)),
    readFile_recover h.ready hf₁ (Or.inl rfl), readFile_recover h.ready hf₁ (Or.inr (Or.inr rfl)),
    h.index, h.data, h.consume, hdata]
  dsimp only
  split
  · next hempty =>
    have hnone : rs₁ ++ rs₂ = [] := by
      rcases hempty with hnil | hnil
      · have hzero := congrArg List.length hnil
        rw [List.length_append, hlen₁, hlen₂, List.length_nil] at hzero
        exact List.eq_nil_of_length_eq_zero (by omega)
      · rcases hrs : rs₁ ++ rs₂ with _ | ⟨r, rest⟩
        · rfl
        · have htwo := (hown r (hrs ▸ List.mem_cons_self)).1
          have hzero := congrArg List.length hnil
          rw [hrs, List.flatten_cons, List.length_append, List.length_nil] at hzero
          omega
    rw [hnone, List.length_nil] at hsize
    rw [hnone, List.forall₂_nil_right_iff, List.append_eq_nil_iff]
    refine iff_of_true rfl ⟨List.eq_nil_of_length_eq_zero ?_, List.eq_nil_of_length_eq_zero ?_⟩
    · rw [mergedEntries_length]
      omega
    · rw [mergedEntries_length]
      omega
  · rw [hentries]
    refine readEntries_eq_some_iff.trans ?_
    rw [List.filter_eq_self.mpr (by simp)]

theorem mem_of_unconsumed {e : Int × Int} (he : e ∈ g.unconsumed) : e ∈ indexEntries g.index :=
  (List.mem_filter.mp he).1

theorem length_left (g : GroupBytes) : (g.left g.offsets).length = g.unconsumed.length := by
  rw [← left_entries, List.length_map]

/-- Records of different indices are different. -/
theorem records_nodup (hw₁ : g₁.WellFormed) (hw₂ : g₂.WellFormed)
    (hbelow : ∀ e ∈ indexEntries g₁.index, ∀ e' ∈ indexEntries g₂.index, e.1 < e'.1)
    (hkeys₁ : rs₁.map (fun r => readInt (Mem.ofBytes r) (4 + maxNameLength)) =
      g₁.unconsumed.map Prod.fst)
    (hkeys₂ : rs₂.map (fun r => readInt (Mem.ofBytes r) (4 + maxNameLength)) =
      g₂.unconsumed.map Prod.fst) : (rs₁ ++ rs₂).Nodup := by
  refine List.Nodup.of_map (fun r => readInt (Mem.ofBytes r) (4 + maxNameLength)) ?_
  rw [List.map_append, hkeys₁, hkeys₂]
  refine List.nodup_append'.mpr ⟨hw₁.nodup.sublist (List.filter_sublist.map _),
    hw₂.nodup.sublist (List.filter_sublist.map _), fun i hi hi' => ?_⟩
  obtain ⟨e, he, rfl⟩ := List.mem_map.mp hi
  obtain ⟨e', he', heq⟩ := List.mem_map.mp hi'
  have hlt := hbelow e (mem_of_unconsumed he) e' (mem_of_unconsumed he')
  omega

/-- A second entry of a group would be zero, but only the first entry of all can be. -/
theorem one_unconsumed (hnodup : (rs₁ ++ rs₂).Nodup) (hown : ∀ r ∈ rs₁ ++ rs₂, OwnLength r)
    (hrecords : List.Forall₂ (StandsAt (rs₁ ++ rs₂).flatten)
      (g₁.mergedEntries (g₁.left g₁.offsets) ++ g₂.mergedEntries (g₂.left g₂.offsets))
      (rs₁ ++ rs₂)) : g₁.unconsumed.length ≤ 1 ∧ g₂.unconsumed.length ≤ 1 := by
  rw [← length_left, ← length_left]
  constructor
  · by_contra hmany
    have hsecond := mergedEntries_getElem? g₁ Nat.one_pos
      (by omega : 1 < (g₁.left g₁.offsets).length)
    have hfirst := zero_entry_first hnodup hown hrecords
      ((List.getElem?_append_left (by rw [mergedEntries_length]; omega)).trans hsecond) rfl
    omega
  · by_contra hmany
    have hsecond := mergedEntries_getElem? g₂ Nat.one_pos
      (by omega : 1 < (g₂.left g₂.offsets).length)
    have hplace : (g₁.mergedEntries (g₁.left g₁.offsets) ++
        g₂.mergedEntries (g₂.left g₂.offsets))[(g₁.left g₁.offsets).length + 1]? = some (0, 0) := by
      rw [List.getElem?_append_right (by rw [mergedEntries_length]; omega), mergedEntries_length,
        Nat.add_sub_cancel_left, hsecond]
    have hfirst := zero_entry_first hnodup hown hrecords hplace rfl
    omega

/-- The loops enter what is left of both groups under the first. -/
theorem entered_merged {b b₁ b' b₂ : MergeBuffers} {s₁ s₂ : PersistenceServer}
    {files : FileSystem}
    (hbelow : ∀ e ∈ indexEntries g₁.index, ∀ e' ∈ indexEntries g₂.index, e.1 < e'.1)
    (hmap : s.Entered q f₁ g₁) (hloop₁ : mergeLoop g₁ q none g₁.offsets (b, s) = some (b₁, s₁))
    (hloop₂ : mergeLoop g₂ q (some f₁) g₂.offsets (b', { s₁ with files := files }) =
      some (b₂, s₂)) :
    ∃ indexMap, s₂.msgQueueIndexFile.lookup q = some indexMap ∧
      ∀ e ∈ g₁.unconsumed ++ g₂.unconsumed, indexMap.lookup e.1 = some f₁ := by
  obtain ⟨indexMap, hlookup, hknown⟩ := hmap
  obtain ⟨indexMap₁, hlookup₁, hmap₁⟩ := mergeLoop_map hloop₁ hlookup
  obtain ⟨indexMap₂, hlookup₂, hmap₂⟩ := mergeLoop_map hloop₂ hlookup₁
  have hmem : ∀ g : GroupBytes, ∀ i, i ∈ g.offsets.map (fun k => (g.entry k).1) ↔
      i ∈ (indexEntries g.index).map Prod.fst := by
    intro g i
    rw [indexEntries_eq_offsets, List.map_map]
    rfl
  have hnot : ∀ g : GroupBytes, ∀ e ∈ g.unconsumed, e.1 ∉ consumeIndexSet g.consume :=
    fun g e he => of_decide_eq_true (List.mem_filter.mp he).2
  refine ⟨indexMap₂, hlookup₂, fun e he => ?_⟩
  rw [hmap₂]
  simp only [hmem]
  rcases List.mem_append.mp he with he | he
  · have hother : e.1 ∉ (indexEntries g₂.index).map Prod.fst := by
      intro hin
      obtain ⟨e', he', heq⟩ := List.mem_map.mp hin
      have hlt := hbelow e (mem_of_unconsumed he) e' he'
      omega
    rw [if_neg hother, hmap₁]
    simp only [hmem]
    rw [if_pos (List.mem_map_of_mem (mem_of_unconsumed he)), if_neg (hnot g₁ e he)]
    exact hknown e he
  · rw [if_pos (List.mem_map_of_mem (mem_of_unconsumed he)), if_neg (hnot g₂ e he)]
    rfl

/-- After a merge that succeeds, everything unconsumed is read from the first group exactly
when each group had one unconsumed record at most, standing where it will be put. -/
theorem mergeFiles_keeps_iff (h : Ready s.files q) (hf₁ : GroupName f₁) (hf₂ : GroupName f₂)
    (hne : f₁ ≠ f₂) (hg₁ : readGroup s.files q f₁ = some g₁)
    (hg₂ : readGroup s.files q f₂ = some g₂) (hw₁ : g₁.WellFormed) (hw₂ : g₂.WellFormed)
    (hbelow : ∀ e ∈ indexEntries g₁.index, ∀ e' ∈ indexEntries g₂.index, e.1 < e'.1)
    (hmap : s.Entered q f₁ g₁)
    (hrun : s.mergeFiles q f₁ f₂ = some (success, s')) :
    Keeps s s' q f₁ f₂ g₁ g₂ ↔ Unmoved g₁ g₂ := by
  obtain ⟨rs₁, rs₂, b₁, b₂, s₁, s₂, hmerged, hloop₁, ⟨files, hloop₂⟩, hmap'⟩ :=
    mergeFiles_merged h hf₁ hf₂ hne hg₁ hg₂ hrun
  have hrs₁ := standsAt_unconsumed hmerged.first.records
  have hrs₂ := standsAt_unconsumed hmerged.second.records
  obtain ⟨hkeys₁, hown₁⟩ :=
    keys_of_standsAt (fun e he => hw₁.record e (mem_of_unconsumed he)) hrs₁
  obtain ⟨hkeys₂, hown₂⟩ :=
    keys_of_standsAt (fun e he => hw₂.record e (mem_of_unconsumed he)) hrs₂
  have hown : ∀ r ∈ rs₁ ++ rs₂, OwnLength r :=
    fun r hr => (List.mem_append.mp hr).elim (hown₁ r) (hown₂ r)
  have hnodup := records_nodup hw₁ hw₂ hbelow hkeys₁ hkeys₂
  have hbefore : ((recoveredRecords s.files q f₁).bind fun rs₁ =>
      (recoveredRecords s.files q f₂).map (rs₁ ++ ·)) = some (rs₁ ++ rs₂) := by
    rw [recovered_before h hf₁ hg₁ hrs₁, recovered_before h hf₂ hg₂ hrs₂]
    rfl
  have hentries : g₁.unconsumed.length ≤ 1 → g₂.unconsumed.length ≤ 1 →
      g₁.mergedEntries (g₁.left g₁.offsets) ++ g₂.mergedEntries (g₂.left g₂.offsets) =
        g₁.unconsumed ++ g₂.unconsumed := by
    intro hone₁ hone₂
    rw [mergedEntries_of_le_one g₁ ((length_left g₁).trans_le hone₁),
      mergedEntries_of_le_one g₂ ((length_left g₂).trans_le hone₂), left_entries, left_entries]
  rw [Unmoved, records_eq hrs₁, records_eq hrs₂]
  constructor
  · rintro ⟨hrecords, _⟩
    rw [hbefore, recovered_merged hf₁ hmerged hown] at hrecords
    obtain ⟨hone₁, hone₂⟩ := one_unconsumed hnodup hown hrecords
    rw [hentries hone₁ hone₂] at hrecords
    exact ⟨hone₁, hone₂, hrecords⟩
  · rintro ⟨hone₁, hone₂, hstands⟩
    refine ⟨?_, ?_⟩
    · rw [hbefore, recovered_merged hf₁ hmerged hown, hentries hone₁ hone₂]
      exact hstands
    · rw [hmap']
      exact entered_merged hbelow hmap hloop₁ hloop₂

end Groups

section Runs

/-- The record of a message of the queue "q" without a body. -/
def emptyRecord (iDurableIndex : Int) : Bytes :=
  image [writeUShort 42, writeUShort cmdCreatePublish, writeName [113], writeInt iDurableIndex,
    writeShort 0]

def publishEmpty (iDurableIndex : Int) : Step :=
  .publish (emptyRecord iDurableIndex) [113] iDurableIndex

def consumeEmpty (iDurableIndex : Int) : Step :=
  .consume (Mem.ofBytes (image [writeName [113], writeInt iDurableIndex]))

/-- The groups of messages 0, 1 and 2, 3, of which 0 and 3 are left, at 0 and 42. -/
def aligned : List Step :=
  [publishEmpty 0, publishEmpty 1, consumeEmpty 1, .restart, publishEmpty 2, publishEmpty 3,
    consumeEmpty 2]

theorem mergeFiles_keeps_aligned :
    ∃ s s' g₁ g₂, Runs.run step { files := oneQueue [113] } aligned = some s ∧
      s.mergeFiles [113] (convertIndexToString 0) (convertIndexToString 2) = some (success, s') ∧
      Keeps s s' [113] (convertIndexToString 0) (convertIndexToString 2) g₁ g₂ := by
  have hfresh : Fresh (oneQueue [113]) [113] := fresh_oneQueue (by decide)
  have has : Admissible (oneQueue [113]) (fun _ => {}) aligned :=
    ⟨⟨hfresh, ⟨by decide, by decide⟩, by decide, fun _ hj => nomatch hj⟩,
      ⟨hfresh, ⟨by decide, by decide⟩, by decide, by decide⟩, ⟨[113], by decide, hfresh, by decide⟩,
      trivial, ⟨hfresh, ⟨by decide, by decide⟩, by decide, by decide⟩,
      ⟨hfresh, ⟨by decide, by decide⟩, by decide, by decide⟩, ⟨[113], by decide, hfresh, by decide⟩,
      trivial⟩
  obtain ⟨s, hrun, hlogs⟩ := run_logs (fun q hq => ⟨{}, stores_start hq, rfl, rfl⟩) has
  obtain ⟨l, hl, _⟩ := hlogs _ hfresh
  have hcheck : (Runs.run step { files := oneQueue [113] } aligned).bind (fun s =>
      (readGroup s.files [113] (convertIndexToString 0)).bind fun g₁ =>
      (readGroup s.files [113] (convertIndexToString 2)).bind fun g₂ =>
      (s.mergeFiles [113] (convertIndexToString 0) (convertIndexToString 2)).map fun r =>
        decide (r.1 = success ∧ g₁.WellFormed ∧ g₂.WellFormed ∧
          (∀ e ∈ indexEntries g₁.index, ∀ e' ∈ indexEntries g₂.index, e.1 < e'.1) ∧
            s.Entered [113] (convertIndexToString 0) g₁ ∧ Unmoved g₁ g₂)) = some true := by
    decide +kernel
  rw [hrun, Option.bind_some] at hcheck
  obtain ⟨g₁, hg₁, hcheck⟩ := Option.bind_eq_some_iff.mp hcheck
  obtain ⟨g₂, hg₂, hcheck⟩ := Option.bind_eq_some_iff.mp hcheck
  obtain ⟨⟨ret, s'⟩, hmerge, hcheck⟩ := Option.map_eq_some_iff.mp hcheck
  obtain ⟨rfl, hw₁, hw₂, hbelow, hmap, hunmoved⟩ := of_decide_eq_true hcheck
  exact ⟨s, s', g₁, g₂, hrun, hmerge, (mergeFiles_keeps_iff hl.ready
    (groupName_convert ⟨by decide, by decide⟩) (groupName_convert ⟨by decide, by decide⟩)
    (by decide) hg₁ hg₂ hw₁ hw₂ hbelow hmap hmerge).mpr hunmoved⟩

/-- The records that are read from two groups before a merge, and from the first after it. -/
def aroundMerge (as : List Step) (f₁ f₂ : Name) : Option (List Bytes × List Bytes × List Bytes) :=
  (Runs.run step { files := oneQueue [113] } as).bind fun s =>
  (recoveredRecords s.files [113] f₁).bind fun rs₁ =>
  (recoveredRecords s.files [113] f₂).bind fun rs₂ =>
  (s.mergeFiles [113] f₁ f₂).bind fun r =>
    if r.1 ≠ success then none
    else (recoveredRecords r.2.files [113] f₁).map fun rs => (rs₁, rs₂, rs)

/-- Of the groups 0, 1, 2 and 3, 4 the messages 0, 1 and 4 are left; after the merge 1 is read
twice and 4 not at all. -/
theorem merge_reads_first_twice :
    aroundMerge [publishEmpty 0, publishEmpty 1, publishEmpty 2, consumeEmpty 2, .restart,
      publishEmpty 3, publishEmpty 4, consumeEmpty 3] (convertIndexToString 0)
        (convertIndexToString 3) =
      some ([emptyRecord 0, emptyRecord 1], [emptyRecord 4],
        [emptyRecord 1, emptyRecord 0, emptyRecord 1]) := by
  decide +kernel

end Runs

end Wsmq.PersistenceServer
