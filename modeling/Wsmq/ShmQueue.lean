import Wsmq.Lib.RingMemory
import Wsmq.ComDef

/-!
# The shared-memory queue (`shm_queue/shm_queue.cpp`)

`enqueue` and `dequeue` follow the source copy by copy.  One call is one step:
the source takes the `m_iUsedNum` spin lock around the whole body, so the lock
word is left out, and so are the error texts, which only the log reads.
Positions are natural numbers; the remaining spaces that the source keeps in
`int` variables are integers.
-/

namespace Wsmq
open Lib.ByteString

/-! ## Data model -/

namespace ShmQueue

def success : Int := 0
def errShmQueueFull : Int := -205
def errShmQueueEmpty : Int := -206
def errShmQueueBufSmall : Int := -207
def errShmQueueDateReset : Int := -208
def errShmQueueDateTail : Int := -208

structure QueueHead where
  len : Nat
  head : Nat
  tail : Nat
  blockNum : Int

structure DateBlockHead where
  index : Int
  dateLen : Int
  deriving DecidableEq

def sizeofDateBlockHead : Nat := 8

/-- Memory image of a block head: two little-endian `int`s. -/
def DateBlockHead.bytes (h : DateBlockHead) : Bytes :=
  (beInt 4 h.index).reverse ++ (beInt 4 h.dateLen).reverse

def DateBlockHead.ofBytes (bs : Bytes) : DateBlockHead :=
  ⟨ofBeInt (bs.take 4).reverse, ofBeInt (bs.drop 4).reverse⟩

def tailFlag : UInt8 := 0xDD

/-- The six flag bytes that end every block. -/
def pTail : Bytes := List.replicate 6 tailFlag

end ShmQueue

open ShmQueue

structure ShmQueue where
  queueHead : QueueHead
  queueSize : Nat
  memAddr : Mem

namespace ShmQueue

/-- `Init` on a new memory segment. -/
def init (iQueueSize : Nat) : ShmQueue :=
  { queueHead := ⟨iQueueSize, 0, 0, 0⟩, queueSize := iQueueSize, memAddr := fun _ => 0 }

/-! ## Enqueue -/

def freeSpaceSize (h : QueueHead) : Int :=
  if h.head < h.tail ∨ (h.head = h.tail ∧ h.blockNum = 0) then
    (h.len : Int) - ((h.tail : Int) - h.head)
  else if h.head > h.tail then (h.head : Int) - h.tail
  else 0

/-- Where the writer stands: memory, `saveIndex` and `tailRightSpace`. -/
structure Save where
  mem : Mem
  saveIndex : Nat
  tailRightSpace : Int

def saveHead (h : QueueHead) (mem : Mem) (blockHeader : Bytes) : Save :=
  let tailRightSpace : Int := (h.len : Int) - h.tail
  if tailRightSpace ≥ sizeofDateBlockHead then
    ⟨mem.write h.tail blockHeader, (h.tail + sizeofDateBlockHead) % h.len,
      tailRightSpace - sizeofDateBlockHead⟩
  else
    let k := tailRightSpace.toNat
    let saveIndex := (0 + sizeofDateBlockHead - k) % h.len
    ⟨(mem.write h.tail (blockHeader.take k)).write 0 (blockHeader.drop k), saveIndex,
      (h.head : Int) - saveIndex⟩

def saveBody (h : QueueHead) (s : Save) (ipDate : Bytes) : Save :=
  if s.tailRightSpace ≥ ipDate.length then
    ⟨s.mem.write s.saveIndex ipDate, (s.saveIndex + ipDate.length) % h.len,
      s.tailRightSpace - ipDate.length⟩
  else
    let k := s.tailRightSpace.toNat
    let saveIndex := (0 + ipDate.length - k) % h.len
    ⟨(s.mem.write s.saveIndex (ipDate.take k)).write 0 (ipDate.drop k), saveIndex,
      (h.head : Int) - saveIndex⟩

def saveTail (s : Save) : Mem :=
  if s.tailRightSpace ≥ pTail.length then s.mem.write s.saveIndex pTail
  else
    let k := s.tailRightSpace.toNat
    (s.mem.write s.saveIndex (pTail.take k)).write 0 (pTail.drop k)

/-- The memory after the copies of one block. -/
def saveBlock (h : QueueHead) (mem : Mem) (ipDate : Bytes) : Mem :=
  let blockHeader := (DateBlockHead.mk h.tail ipDate.length).bytes
  let tailRightSpace : Int := (h.len : Int) - h.tail
  if h.tail < h.head ∨
      tailRightSpace ≥ ipDate.length + sizeofDateBlockHead + pTail.length then
    let mem := mem.write h.tail blockHeader
    let mem := mem.write (h.tail + sizeofDateBlockHead) ipDate
    mem.write (h.tail + sizeofDateBlockHead + ipDate.length) pTail
  else saveTail (saveBody h (saveHead h mem blockHeader) ipDate)

/-- Return code and queue after the call. -/
def enqueue (q : ShmQueue) (ipDate : Bytes) : Int × ShmQueue :=
  let h := q.queueHead
  if freeSpaceSize h < sizeofDateBlockHead + ipDate.length + pTail.length then
    (errShmQueueFull, q)
  else
    (success,
      { q with
        memAddr := saveBlock h q.memAddr ipDate
        queueHead :=
          { h with
            tail := (h.tail + ipDate.length + sizeofDateBlockHead + pTail.length) % h.len
            blockNum := h.blockNum + 1 } })

/-! ## Dequeue -/

/-- The block head at `m_iHead`, and the position after it. -/
def readBlockHead (q : ShmQueue) : DateBlockHead × Nat :=
  let h := q.queueHead
  let headRightSpace : Int := (h.len : Int) - h.head
  if headRightSpace ≥ sizeofDateBlockHead then
    (.ofBytes (q.memAddr.read h.head sizeofDateBlockHead),
      (h.head + sizeofDateBlockHead) % h.len)
  else
    let k := headRightSpace.toNat
    (.ofBytes (q.memAddr.read h.head k ++ q.memAddr.read 0 (sizeofDateBlockHead - k)),
      (0 + sizeofDateBlockHead - k) % h.len)

/-- `iDateLen` payload bytes from `readIndex` on, the position after them and
the space to the right of it. -/
def readBody (q : ShmQueue) (readIndex iDateLen : Nat) : Bytes × Nat × Int :=
  let len := q.queueHead.len
  let headRightSpace : Int := (len : Int) - readIndex
  if headRightSpace ≥ iDateLen then
    (q.memAddr.read readIndex iDateLen, (readIndex + iDateLen) % len, headRightSpace - iDateLen)
  else
    let k := headRightSpace.toNat
    let next := (0 + iDateLen - k) % len
    (q.memAddr.read readIndex k ++ q.memAddr.read 0 (iDateLen - k), next, (len : Int) - next)

def readTail (q : ShmQueue) (readIndex : Nat) (headRightSpace : Int) : Bytes :=
  if headRightSpace ≥ pTail.length then q.memAddr.read readIndex pTail.length
  else
    let k := headRightSpace.toNat
    q.memAddr.read readIndex k ++ q.memAddr.read 0 (pTail.length - k)

/-- The search for six flag bytes in a row.  A circle is scanned without a hit
forever once it has been scanned once with the last five bytes repeated, so
running out of fuel `len + 6` means that the source loop never ends. -/
def scanTail (q : ShmQueue) : Nat → Nat → Nat → Option Nat
  | 0, _, _ => none
  | fuel + 1, readIndex, tailFlagCount =>
    let tailFlagCount := if q.memAddr readIndex = tailFlag then tailFlagCount + 1 else 0
    let readIndex := (readIndex + 1) % q.queueHead.len
    if tailFlagCount = 6 then some readIndex else q.scanTail fuel readIndex tailFlagCount

/-- The queue emptied after an inconsistent head. -/
def clear (q : ShmQueue) : ShmQueue := { q with queueHead := ⟨q.queueSize, 0, 0, 0⟩ }

/-- The first block does not say that it starts at `m_iHead`. -/
def IndexMismatch (q : ShmQueue) : Prop := q.readBlockHead.1.index ≠ q.queueHead.head

def NegativeLength (q : ShmQueue) : Prop := q.readBlockHead.1.dateLen < 0

/-- Payload and end flags of the first block. -/
def readBlock (q : ShmQueue) : Bytes × Bytes :=
  let (blockHeader, readIndex) := q.readBlockHead
  let (date, readIndex, headRightSpace) := q.readBody readIndex blockHeader.dateLen.toNat
  (date, q.readTail readIndex headRightSpace)

def TailMismatch (q : ShmQueue) : Prop := q.readBlock.2 ≠ pTail

instance (q : ShmQueue) : Decidable q.IndexMismatch := inferInstanceAs (Decidable (_ ≠ _))
instance (q : ShmQueue) : Decidable q.NegativeLength := inferInstanceAs (Decidable (_ < _))
instance (q : ShmQueue) : Decidable q.TailMismatch := inferInstanceAs (Decidable (_ ≠ _))

/-- Return code, `*iopBufLen`, the bytes copied to `opBuf` and the queue after
the call. -/
structure DequeueResult where
  ret : Int
  iopBufLen : Int
  opBuf : Bytes
  queue : ShmQueue

/-- No result means that the call never returns. -/
def dequeue (q : ShmQueue) (iopBufLen : Int) : Option DequeueResult :=
  let h := q.queueHead
  if h.blockNum > 0 ∨ h.head ≠ h.tail then
    let (blockHeader, readIndex) := q.readBlockHead
    if iopBufLen < blockHeader.dateLen then
      some ⟨errShmQueueBufSmall, blockHeader.dateLen, [], q⟩
    else if q.IndexMismatch then
      if h.blockNum > 0 then
        (q.scanTail (h.len + 6) readIndex 0).map fun next =>
          ⟨errShmQueueDateReset, iopBufLen, [],
            { q with queueHead := { h with head := next, blockNum := h.blockNum - 1 } }⟩
      else some ⟨errShmQueueEmpty, iopBufLen, [], q.clear⟩
    else if q.NegativeLength then some ⟨errShmQueueEmpty, iopBufLen, [], q.clear⟩
    else
      let iDateLen := blockHeader.dateLen.toNat
      let next := (h.head + sizeofDateBlockHead + iDateLen + pTail.length) % h.len
      some ⟨if q.TailMismatch then errShmQueueDateTail else success, blockHeader.dateLen,
        q.readBlock.1,
        { q with queueHead := { h with head := next, blockNum := h.blockNum - 1 } }⟩
  else some ⟨errShmQueueEmpty, iopBufLen, [], q⟩

end ShmQueue

end Wsmq
