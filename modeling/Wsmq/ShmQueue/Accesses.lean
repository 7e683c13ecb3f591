import Wsmq.Lib.Accesses
import Wsmq.ShmQueue.Resync

/-!
# The accesses of one call

`enqueueCode` and `dequeueCode` are the bodies of `Enqueue` and `Dequeue`
between the two compare-and-swap loops, one access to the shared memory at a
time: every mention of a header field is a read or a write of its own, and
every `memcpy` goes byte by byte.  Undisturbed they do what `enqueue` and
`dequeue` do in one step (`call_ends_iff`).
-/

namespace Wsmq.ShmQueue
open Lib.ByteString Lib.RingMemory Lib.MarkerScan Lib.Accesses

/-- Where the loop of `Dequeue` that looks for six flag bytes stands. -/
structure Scan where
  readIndex : Nat
  tailFlagCount : Nat
  iopBufLen : Int

abbrev Access (α : Type) : Type := Code ShmQueue Scan α

/-! ## Single accesses -/

def iLen : Access Nat := Code.read fun q => q.queueHead.len

def iHead : Access Nat := Code.read fun q => q.queueHead.head

def iTail : Access Nat := Code.read fun q => q.queueHead.tail

def iBlockNum : Access Int := Code.read fun q => q.queueHead.blockNum

def setLen (n : Nat) : Access Unit :=
  Code.write fun q => { q with queueHead := { q.queueHead with len := n } }

def setHead (n : Nat) : Access Unit :=
  Code.write fun q => { q with queueHead := { q.queueHead with head := n } }

def setTail (n : Nat) : Access Unit :=
  Code.write fun q => { q with queueHead := { q.queueHead with tail := n } }

def setBlockNum (n : Int) : Access Unit :=
  Code.write fun q => { q with queueHead := { q.queueHead with blockNum := n } }

def setMem (q : ShmQueue) (mem : Mem) : ShmQueue := { q with memAddr := mem }

/-- `memcpy` into the ring. -/
def memcpyTo (a : Nat) : Bytes → Access Unit
  | [] => pure ()
  | b :: bs => do
    Code.write fun q => q.setMem (q.memAddr.write a [b])
    memcpyTo (a + 1) bs

/-- `memcpy` out of the ring. -/
def memcpyFrom (a : Nat) : Nat → Access Bytes
  | 0 => pure []
  | n + 1 => do
    let b ← Code.read fun q => q.memAddr a
    let bs ← memcpyFrom (a + 1) n
    return b :: bs

section

variable (q : ShmQueue)

@[simp] theorem eval_iLen : iLen.eval q = some (q.queueHead.len, q) := rfl

@[simp] theorem eval_iHead : iHead.eval q = some (q.queueHead.head, q) := rfl

@[simp] theorem eval_iTail : iTail.eval q = some (q.queueHead.tail, q) := rfl

@[simp] theorem eval_iBlockNum : iBlockNum.eval q = some (q.queueHead.blockNum, q) := rfl

@[simp] theorem eval_setLen (n : Nat) :
    (setLen n).eval q = some ((), { q with queueHead := { q.queueHead with len := n } }) := rfl

@[simp] theorem eval_setHead (n : Nat) :
    (setHead n).eval q = some ((), { q with queueHead := { q.queueHead with head := n } }) := rfl

@[simp] theorem eval_setTail (n : Nat) :
    (setTail n).eval q = some ((), { q with queueHead := { q.queueHead with tail := n } }) := rfl

@[simp] theorem eval_setBlockNum (n : Int) :
    (setBlockNum n).eval q =
      some ((), { q with queueHead := { q.queueHead with blockNum := n } }) := rfl

@[simp] theorem setMem_queueHead (mem : Mem) : (q.setMem mem).queueHead = q.queueHead := rfl

@[simp] theorem setMem_memAddr (mem : Mem) : (q.setMem mem).memAddr = mem := rfl

@[simp] theorem setMem_setMem (mem mem' : Mem) :
    (q.setMem mem).setMem mem' = q.setMem mem' := rfl

end

theorem write_cons (m : Mem) (a : Nat) (b : UInt8) (bs : Bytes) :
    (m.write a [b]).write (a + 1) bs = m.write a (b :: bs) := by
  funext x
  simp only [Mem.write, List.length_cons, List.length_nil]
  rcases Nat.lt_trichotomy x a with hlt | rfl | hgt
  · rw [if_neg (by omega), if_neg (by omega), if_neg (by omega)]
  · rw [if_neg (by omega), if_pos (by omega), if_pos (by omega)]
    simp
  · obtain ⟨k, rfl⟩ : ∃ k, x = a + 1 + k := ⟨x - (a + 1), by omega⟩
    by_cases hk : k < bs.length
    · rw [if_pos (by omega), if_pos (by omega), show a + 1 + k - a = k + 1 by omega,
        Nat.add_sub_cancel_left]
      rfl
    · rw [if_neg (by omega), if_neg (by omega), if_neg (by omega)]

theorem read_cons (m : Mem) (a n : Nat) : m.read a (n + 1) = m a :: m.read (a + 1) n := by
  simp [Mem.read, List.range_succ_eq_map, Nat.add_assoc, Nat.add_comm 1]

@[simp] theorem eval_memcpyTo (q : ShmQueue) (a : Nat) (bs : Bytes) :
    (memcpyTo a bs).eval q = some ((), q.setMem (q.memAddr.write a bs)) := by
  induction bs generalizing q a with
  | nil => simp [memcpyTo, setMem]
  | cons b bs ih => simp [memcpyTo, ih, write_cons]

@[simp] theorem eval_memcpyFrom (q : ShmQueue) (a n : Nat) :
    (memcpyFrom a n).eval q = some (q.memAddr.read a n, q) := by
  induction n generalizing a with
  | zero => rfl
  | succ n ih => simp [memcpyFrom, ih, read_cons]

/-! ## Enqueue -/

def freeSpaceSizeCode : Access Int := do
  if (← iHead) < (← iTail) ∨ ((← iHead) = (← iTail) ∧ (← iBlockNum) = 0) then
    return ((← iLen) : Int) - (((← iTail) : Int) - (← iHead))
  else if (← iHead) > (← iTail) then
    return ((← iHead) : Int) - (← iTail)
  else return 0

/-- `saveIndex` and `tailRightSpace` after the block head. -/
def saveHeadCode (saveIndex : Nat) (tailRightSpace : Int) (blockHeader : Bytes) :
    Access (Nat × Int) := do
  if tailRightSpace ≥ sizeofDateBlockHead then
    memcpyTo saveIndex blockHeader
    return ((saveIndex + sizeofDateBlockHead) % (← iLen), tailRightSpace - sizeofDateBlockHead)
  else
    let k := tailRightSpace.toNat
    memcpyTo saveIndex (blockHeader.take k)
    memcpyTo 0 (blockHeader.drop k)
    let saveIndex := (0 + sizeofDateBlockHead - k) % (← iLen)
    return (saveIndex, ((← iHead) : Int) - saveIndex)

def saveBodyCode (saveIndex : Nat) (tailRightSpace : Int) (ipDate : Bytes) :
    Access (Nat × Int) := do
  if tailRightSpace ≥ ipDate.length then
    memcpyTo saveIndex ipDate
    return ((saveIndex + ipDate.length) % (← iLen), tailRightSpace - ipDate.length)
  else
    let k := tailRightSpace.toNat
    memcpyTo saveIndex (ipDate.take k)
    memcpyTo 0 (ipDate.drop k)
    let saveIndex := (0 + ipDate.length - k) % (← iLen)
    return (saveIndex, ((← iHead) : Int) - saveIndex)

def saveTailCode (saveIndex : Nat) (tailRightSpace : Int) : Access Unit := do
  if tailRightSpace ≥ pTail.length then
    memcpyTo saveIndex pTail
  else
    let k := tailRightSpace.toNat
    memcpyTo saveIndex (pTail.take k)
    memcpyTo 0 (pTail.drop k)

def saveBlockCode (ipDate : Bytes) : Access Unit := do
  let saveIndex ← iTail
  let blockHeader := (DateBlockHead.mk (← iTail) ipDate.length).bytes
  let tailRightSpace : Int := ((← iLen) : Int) - (← iTail)
  if (← iTail) < (← iHead) ∨
      tailRightSpace ≥ ipDate.length + sizeofDateBlockHead + pTail.length then
    memcpyTo saveIndex blockHeader
    memcpyTo (saveIndex + sizeofDateBlockHead) ipDate
    memcpyTo (saveIndex + sizeofDateBlockHead + ipDate.length) pTail
  else
    let (saveIndex, tailRightSpace) ← saveHeadCode saveIndex tailRightSpace blockHeader
    let (saveIndex, tailRightSpace) ← saveBodyCode saveIndex tailRightSpace ipDate
    saveTailCode saveIndex tailRightSpace

def enqueueCode (ipDate : Bytes) : Access Answer := do
  let freeSpaceSize ← freeSpaceSizeCode
  if freeSpaceSize < sizeofDateBlockHead + ipDate.length + pTail.length then
    return ⟨errShmQueueFull, 0, []⟩
  else
    saveBlockCode ipDate
    setTail (((← iTail) + ipDate.length + sizeofDateBlockHead + pTail.length) % (← iLen))
    setBlockNum ((← iBlockNum) + 1)
    return ⟨success, 0, []⟩

section

variable (q : ShmQueue)

@[simp] theorem eval_freeSpaceSizeCode :
    freeSpaceSizeCode.eval q = some (freeSpaceSize q.queueHead, q) := by
  simp only [freeSpaceSizeCode, freeSpaceSize, Code.eval_bind, eval_iHead, eval_iTail, eval_iLen,
    eval_iBlockNum, Option.bind_some, Code.eval_ite, Code.eval_pure]
  split
  · rfl
  · split <;> rfl

theorem eval_saveHeadCode (blockHeader : Bytes) :
    let s := saveHead q.queueHead q.memAddr blockHeader
    (saveHeadCode q.queueHead.tail ((q.queueHead.len : Int) - q.queueHead.tail)
      blockHeader).eval q = some ((s.saveIndex, s.tailRightSpace), q.setMem s.mem) := by
  simp only [saveHeadCode, saveHead, Code.eval_ite]
  split <;> simp

theorem eval_saveBodyCode (s : Save) (ipDate : Bytes) :
    let r := saveBody q.queueHead s ipDate
    (saveBodyCode s.saveIndex s.tailRightSpace ipDate).eval (q.setMem s.mem) =
      some ((r.saveIndex, r.tailRightSpace), q.setMem r.mem) := by
  simp only [saveBodyCode, saveBody, Code.eval_ite]
  split <;> simp

theorem eval_saveTailCode (s : Save) :
    (saveTailCode s.saveIndex s.tailRightSpace).eval (q.setMem s.mem) =
      some ((), q.setMem (saveTail s)) := by
  simp only [saveTailCode, saveTail, Code.eval_ite]
  split <;> simp

@[simp] theorem eval_saveBlockCode (ipDate : Bytes) :
    (saveBlockCode ipDate).eval q =
      some ((), q.setMem (saveBlock q.queueHead q.memAddr ipDate)) := by
  simp only [saveBlockCode, saveBlock, Code.eval_bind, eval_iTail, eval_iLen, eval_iHead,
    Option.bind_some, Code.eval_ite]
  split
  · simp
  · rw [eval_saveHeadCode, Option.bind_some, eval_saveBodyCode, Option.bind_some, eval_saveTailCode]

theorem eval_enqueueCode (ipDate : Bytes) :
    (enqueueCode ipDate).eval q = some (⟨(q.enqueue ipDate).1, 0, []⟩, (q.enqueue ipDate).2) := by
  simp only [enqueueCode, enqueue, Code.eval_bind, eval_freeSpaceSizeCode, Option.bind_some,
    Code.eval_ite]
  split <;> simp [setMem]

end

/-! ## Dequeue -/

def readBlockHeadCode : Access (DateBlockHead × Nat) := do
  let readIndex ← iHead
  let headRightSpace : Int := ((← iLen) : Int) - (← iHead)
  if headRightSpace ≥ sizeofDateBlockHead then
    let blockHeader ← memcpyFrom readIndex sizeofDateBlockHead
    return (.ofBytes blockHeader, (readIndex + sizeofDateBlockHead) % (← iLen))
  else
    let k := headRightSpace.toNat
    let left ← memcpyFrom readIndex k
    let right ← memcpyFrom 0 (sizeofDateBlockHead - k)
    return (.ofBytes (left ++ right), (0 + sizeofDateBlockHead - k) % (← iLen))

def readBodyCode (readIndex iDateLen : Nat) : Access (Bytes × Nat × Int) := do
  let headRightSpace : Int := ((← iLen) : Int) - readIndex
  if headRightSpace ≥ iDateLen then
    let date ← memcpyFrom readIndex iDateLen
    return (date, (readIndex + iDateLen) % (← iLen), headRightSpace - iDateLen)
  else
    let k := headRightSpace.toNat
    let left ← memcpyFrom readIndex k
    let right ← memcpyFrom 0 (iDateLen - k)
    let next := (0 + iDateLen - k) % (← iLen)
    return (left ++ right, next, ((← iLen) : Int) - next)

def readTailCode (readIndex : Nat) (headRightSpace : Int) : Access Bytes := do
  if headRightSpace ≥ pTail.length then memcpyFrom readIndex pTail.length
  else
    let k := headRightSpace.toNat
    let left ← memcpyFrom readIndex k
    let right ← memcpyFrom 0 (pTail.length - k)
    return left ++ right

/-- The queue emptied after an inconsistent head. -/
def clearCode : Access Unit := do
  setHead 0
  setTail 0
  setBlockNum 0
  setLen (← Code.read fun q => q.queueSize)

/-- One turn of the loop that looks for six flag bytes. -/
def scanCode (k : Scan) : Access Answer := do
  let c ← Code.read fun q => q.memAddr k.readIndex
  let tailFlagCount := if c = tailFlag then k.tailFlagCount + 1 else 0
  let readIndex := (k.readIndex + 1) % (← iLen)
  if tailFlagCount = 6 then
    setHead readIndex
    setBlockNum ((← iBlockNum) - 1)
    return ⟨errShmQueueDateReset, k.iopBufLen, []⟩
  else .jump ⟨readIndex, tailFlagCount, k.iopBufLen⟩

def dequeueCode (iopBufLen : Int) : Access Answer := do
  if (← iBlockNum) > 0 ∨ (← iHead) ≠ (← iTail) then
    let (blockHeader, readIndex) ← readBlockHeadCode
    if iopBufLen < blockHeader.dateLen then
      return ⟨errShmQueueBufSmall, blockHeader.dateLen, []⟩
    else if blockHeader.index ≠ (← iHead) then
      if (← iBlockNum) > 0 then .jump ⟨readIndex, 0, iopBufLen⟩
      else
        clearCode
        return ⟨errShmQueueEmpty, iopBufLen, []⟩
    else if blockHeader.dateLen < 0 then
      clearCode
      return ⟨errShmQueueEmpty, iopBufLen, []⟩
    else
      let iDateLen := blockHeader.dateLen.toNat
      let (date, readIndex, headRightSpace) ← readBodyCode readIndex iDateLen
      let pReadDate ← readTailCode readIndex headRightSpace
      setHead (((← iHead) + sizeofDateBlockHead + iDateLen + pTail.length) % (← iLen))
      setBlockNum ((← iBlockNum) - 1)
      return ⟨if pReadDate ≠ pTail then errShmQueueDateTail else success, blockHeader.dateLen, date⟩
  else return ⟨errShmQueueEmpty, iopBufLen, []⟩

section

variable (q : ShmQueue)

@[simp] theorem eval_readBlockHeadCode :
    readBlockHeadCode.eval q = some (q.readBlockHead, q) := by
  simp only [readBlockHeadCode, readBlockHead, Code.eval_bind, eval_iHead, eval_iLen,
    Option.bind_some, Code.eval_ite]
  split <;> simp

@[simp] theorem eval_readBodyCode (readIndex iDateLen : Nat) :
    (readBodyCode readIndex iDateLen).eval q = some (q.readBody readIndex iDateLen, q) := by
  simp only [readBodyCode, readBody, Code.eval_bind, eval_iLen, Option.bind_some, Code.eval_ite]
  split <;> simp

@[simp] theorem eval_readTailCode (readIndex : Nat) (headRightSpace : Int) :
    (readTailCode readIndex headRightSpace).eval q =
      some (q.readTail readIndex headRightSpace, q) := by
  simp only [readTailCode, readTail, Code.eval_ite]
  split <;> simp

@[simp] theorem eval_clearCode : clearCode.eval q = some ((), q.clear) := rfl

end

/-! ### The search for the flags -/

/-- `tailFlagCount` after the byte at `readIndex`. -/
def flagCount (q : ShmQueue) (readIndex tailFlagCount : Nat) : Nat :=
  if q.memAddr readIndex = tailFlag then tailFlagCount + 1 else 0

theorem scanTail_succ (q : ShmQueue) (n r c : Nat) :
    q.scanTail (n + 1) r c =
      if q.flagCount r c = 6 then some ((r + 1) % q.queueHead.len)
      else q.scanTail n ((r + 1) % q.queueHead.len) (q.flagCount r c) := rfl

theorem evalWith_scanCode (f : Scan → ShmQueue → Option (Answer × ShmQueue)) (q : ShmQueue)
    (k : Scan) :
    (scanCode k).evalWith f q =
      if q.flagCount k.readIndex k.tailFlagCount = 6 then
        some (⟨errShmQueueDateReset, k.iopBufLen, []⟩,
          q.skipTo ((k.readIndex + 1) % q.queueHead.len))
      else f ⟨(k.readIndex + 1) % q.queueHead.len, q.flagCount k.readIndex k.tailFlagCount,
        k.iopBufLen⟩ q := by
  change Code.evalWith f (if q.flagCount k.readIndex k.tailFlagCount = 6 then _ else _) q = _
  split <;> rfl

theorem turns_scanCode (q : ShmQueue) (n : Nat) (k : Scan) :
    turns scanCode n k q = (q.scanTail n k.readIndex k.tailFlagCount).map fun next =>
      (⟨errShmQueueDateReset, k.iopBufLen, []⟩, q.skipTo next) := by
  induction n generalizing k with
  | zero => rfl
  | succ n ih =>
    rw [turns, evalWith_scanCode, scanTail_succ]
    split
    · rfl
    · exact ih _

/-- The loop ends exactly when it ends within some number of turns. -/
theorem ends_scan_iff (q : ShmQueue) {k : Scan} {a : Answer} {q' : ShmQueue} :
    Ends scanCode (.jump k) q a q' ↔
      ∃ next, (∃ n, q.scanTail n k.readIndex k.tailFlagCount = some next) ∧
        a = ⟨errShmQueueDateReset, k.iopBufLen, []⟩ ∧ q' = q.skipTo next := by
  rw [ends_iff_turns]
  change (∃ n, turns scanCode n k q = _) ↔ _
  simp only [turns_scanCode, Option.map_eq_some_iff, Prod.mk.injEq]
  constructor
  · rintro ⟨n, next, hn, ha, hq⟩
    exact ⟨next, ⟨n, hn⟩, ha.symm, hq.symm⟩
  · rintro ⟨next, ⟨n, hn⟩, ha, hq⟩
    exact ⟨n, next, hn, ha.symm, hq.symm⟩

/-- Six flag bytes in a row from position `a` on. -/
def FlagsAt (q : ShmQueue) (a : Nat) : Prop := get q.memAddr q.queueHead.len a 6 = pTail

theorem scanTail_mono {q : ShmQueue} {n n' r c next : Nat} (h : q.scanTail n r c = some next)
    (hle : n ≤ n') : q.scanTail n' r c = some next := by
  induction n generalizing n' r c with
  | zero => cases h
  | succ n ih =>
    obtain ⟨n', rfl⟩ := Nat.exists_eq_succ_of_ne_zero (Nat.ne_of_gt (Nat.zero_lt_of_lt hle))
    rw [scanTail_succ] at h ⊢
    split at h
    · next hend => rw [if_pos hend, h]
    · next hmore => rw [if_neg hmore, ih h (Nat.le_of_succ_le_succ hle)]

/-- The last six bytes that the loop has seen are flags. -/
theorem scanTail_flags {q : ShmQueue} {n r c next : Nat} (hr : r < q.queueHead.len)
    (h : q.scanTail n r c = some next) :
    ∃ k, 6 ≤ k + 1 + c ∧
      ∀ m < 6, m ≤ k → q.memAddr ((r + (k - m)) % q.queueHead.len) = tailFlag := by
  induction n generalizing r c with
  | zero => cases h
  | succ n ih =>
    rw [scanTail_succ] at h
    have hcount : q.memAddr r ≠ tailFlag → q.flagCount r c = 0 := fun hno => if_neg hno
    have hle : q.flagCount r c ≤ c + 1 := by
      unfold flagCount
      split <;> omega
    split at h
    · next hend =>
      have hflag : q.memAddr r = tailFlag := by
        by_contra hno
        have := hcount hno
        omega
      refine ⟨0, by omega, fun m _ _ => ?_⟩
      rw [Nat.zero_sub, Nat.add_zero, Nat.mod_eq_of_lt hr, hflag]
    · obtain ⟨k, hk, hflags⟩ := ih (wrap_lt _ (by omega)) h
      refine ⟨k + 1, by omega, fun m hm hmk => ?_⟩
      rcases Nat.lt_or_eq_of_le hmk with hlt | rfl
      · have hstep := hflags m hm (by omega)
        rwa [Nat.mod_add_mod, Nat.add_assoc, show 1 + (k - m) = k + 1 - m by omega] at hstep
      · have hflag : q.memAddr r = tailFlag := by
          by_contra hno
          have := hcount hno
          omega
        rw [Nat.sub_self, Nat.add_zero, Nat.mod_eq_of_lt hr, hflag]

theorem flagsAt_of_scanTail {q : ShmQueue} {n r next : Nat} (hr : r < q.queueHead.len)
    (h : q.scanTail n r 0 = some next) : ∃ a < q.queueHead.len, q.FlagsAt a := by
  obtain ⟨k, hk, hflags⟩ := scanTail_flags hr h
  refine ⟨(r + (k - 5)) % q.queueHead.len, wrap_lt _ (by omega), ?_⟩
  refine List.eq_replicate_iff.mpr ⟨get_length .., fun b hb => ?_⟩
  obtain ⟨i, hi, rfl⟩ := List.mem_map.mp hb
  rw [List.mem_range] at hi
  rw [Nat.mod_add_mod, Nat.add_assoc, show k - 5 + i = k - (5 - i) by omega]
  exact hflags (5 - i) (by omega) (by omega)

/-- With six flags somewhere in the circle, once around and six bytes more are enough. -/
theorem scanTail_of_flagsAt {q : ShmQueue} {r a : Nat} (hr : r < q.queueHead.len)
    (ha : a < q.queueHead.len) (h : q.FlagsAt a) :
    ∃ next, q.scanTail (q.queueHead.len + 6) r 0 = some next := by
  have hoff := offset_lt hr ha
  have hsix : 0 < 6 := by decide
  obtain ⟨k, _, hk⟩ := @markersEnd_append _ _ tailFlag 6 0 hsix
    (get q.memAddr q.queueHead.len r (offset q.queueHead.len r a))
  have hwrap : (r + offset q.queueHead.len r a) % q.queueHead.len = a := by
    rw [wrap_eq hr (by omega)]
    unfold offset
    split <;> split <;> omega
  have hend : markersEnd tailFlag 6 0
      (get q.memAddr q.queueHead.len r (offset q.queueHead.len r a + 6)) = some k := by
    rw [get_append, hwrap, h]
    exact hk
  exact ⟨_, scanTail_of_markersEnd rfl hr (by omega) hend⟩

/-- Fuel `m_iLen + 6` is enough: without it the loop never ends. -/
theorem scanTail_fuel_iff {q : ShmQueue} {r next : Nat} (hr : r < q.queueHead.len) :
    (∃ n, q.scanTail n r 0 = some next) ↔ q.scanTail (q.queueHead.len + 6) r 0 = some next := by
  constructor
  · rintro ⟨n, hn⟩
    obtain ⟨a, ha, hflags⟩ := flagsAt_of_scanTail hr hn
    obtain ⟨next', hnext⟩ := scanTail_of_flagsAt hr ha hflags
    have h₁ := scanTail_mono hn (Nat.le_max_left n (q.queueHead.len + 6))
    have h₂ := scanTail_mono hnext (Nat.le_max_right n (q.queueHead.len + 6))
    rw [hnext, ← h₂, h₁]
  · exact fun h => ⟨_, h⟩

/-! ## Whole calls -/

def callCode : Call → Access Answer
  | .enqueue ipDate => enqueueCode ipDate
  | .dequeue iopBufLen => dequeueCode iopBufLen

/-- The answer of `Dequeue` with the queue it leaves. -/
def answer (r : DequeueResult) : Answer × ShmQueue := (⟨r.ret, r.iopBufLen, r.opBuf⟩, r.queue)

section

variable {q : ShmQueue} {a : Answer} {q' : ShmQueue}

theorem ends_enqueue_iff {ipDate : Bytes} :
    Ends scanCode (enqueueCode ipDate) q a q' ↔ q.call (.enqueue ipDate) = some (a, q') := by
  rw [ends_of_eval (eval_enqueueCode q ipDate), call, Option.some.injEq, Prod.mk.injEq, eq_comm,
    @eq_comm _ q']

theorem readIndex_lt (hlen : 0 < q.queueHead.len) : q.readBlockHead.2 < q.queueHead.len := by
  unfold readBlockHead
  dsimp only
  split <;> exact wrap_lt _ hlen

/-- The search begins behind the block head. -/
theorem ends_search_iff (hlen : 0 < q.queueHead.len) {n : Int} :
    Ends scanCode (.jump ⟨q.readBlockHead.2, 0, n⟩) q a q' ↔
      ((q.scanTail (q.queueHead.len + 6) q.readBlockHead.2 0).map fun next =>
        answer ⟨errShmQueueDateReset, n, [], q.skipTo next⟩) = some (a, q') := by
  rw [ends_scan_iff, Option.map_eq_some_iff]
  refine exists_congr fun next => ?_
  rw [scanTail_fuel_iff (readIndex_lt hlen), answer, Prod.mk.injEq]
  exact and_congr_right fun _ => and_congr eq_comm eq_comm

@[simp] theorem ends_read_bind {α : Type} (f : ShmQueue → α) (g : α → Access Answer) :
    Ends scanCode (Code.read f >>= g) q a q' ↔ Ends scanCode (g (f q)) q a q' := ends_bind rfl

theorem ends_pure {b : Answer} :
    Ends scanCode (pure b) q a q' ↔ some (b, q) = some (a, q') := by
  rw [ends_of_eval rfl, Option.some.injEq, Prod.mk.injEq]
  exact and_congr eq_comm eq_comm

theorem ends_dequeue_iff (hlen : 0 < q.queueHead.len) {n : Int} :
    Ends scanCode (dequeueCode n) q a q' ↔ q.call (.dequeue n) = some (a, q') := by
  unfold dequeueCode call dequeue
  simp only [iBlockNum, iHead, iTail, ends_read_bind]
  split
  · rw [ends_bind (eval_readBlockHeadCode q)]
    split
    · exact ends_pure
    · rw [ends_read_bind]
      by_cases hindex : q.IndexMismatch
      · have hne : q.readBlockHead.1.index ≠ q.queueHead.head := hindex
        rw [if_pos hindex, if_pos hne, ends_read_bind]
        split
        · rw [ends_search_iff hlen, Option.map_map]
          rfl
        · rw [ends_bind (eval_clearCode q)]
          exact ends_pure
      · have heq : ¬ q.readBlockHead.1.index ≠ q.queueHead.head := hindex
        rw [if_neg hindex, if_neg heq]
        by_cases hneg : q.NegativeLength
        · have hlt : q.readBlockHead.1.dateLen < 0 := hneg
          rw [if_pos hneg, if_pos hlt, ends_bind (eval_clearCode q)]
          exact ends_pure
        · have hge : ¬ q.readBlockHead.1.dateLen < 0 := hneg
          rw [if_neg hneg, if_neg hge, ends_bind (eval_readBodyCode q _ _),
            ends_bind (eval_readTailCode q _ _), ends_read_bind, ends_bind (eval_iLen q),
            ends_bind (eval_setHead q _), ends_read_bind, ends_bind (eval_setBlockNum _ _)]
          exact ends_pure
  · exact ends_pure

/-- One access after the other, undisturbed, is the call in one step. -/
theorem call_ends_iff (hlen : 0 < q.queueHead.len) {c : Call} :
    Ends scanCode (callCode c) q a q' ↔ q.call c = some (a, q') := by
  cases c with
  | enqueue ipDate => exact ends_enqueue_iff
  | dequeue n => exact ends_dequeue_iff hlen

end

instance (q : ShmQueue) (a : Nat) : Decidable (q.FlagsAt a) := inferInstanceAs (Decidable (_ = _))

end Wsmq.ShmQueue
