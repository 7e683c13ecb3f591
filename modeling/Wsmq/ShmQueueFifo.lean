import Wsmq.Lib.BoundedFifo
import Wsmq.ShmQueue

/-!
# The shared-memory queue is a bounded FIFO

`Represents L q ds`: the ring `q` of capacity `L` stores the byte strings `ds`,
oldest first.  Each call keeps it (`enqueue_represents`, `dequeue_represents`),
so every run from `init` answers as a `BoundedFifo` does in which a byte string
costs its block size.
-/

namespace Wsmq.ShmQueue
open Lib.ByteString Lib.RingMemory Lib.Fifo

/-- Ring space taken by a stored byte string. -/
def blockCost (d : Bytes) : Nat := sizeofDateBlockHead + d.length + pTail.length

theorem blockCost_eq (d : Bytes) : blockCost d = 14 + d.length := by
  simp [blockCost, sizeofDateBlockHead, pTail]
  omega

/-- The block stored at position `a`. -/
def block (a : Nat) (d : Bytes) : Bytes := (DateBlockHead.mk a d.length).bytes ++ (d ++ pTail)

/-- Consecutive blocks from position `a` of a ring of capacity `L` on. -/
def layout (L : Nat) : Nat → List Bytes → Bytes
  | _, [] => []
  | a, d :: ds => block a d ++ layout L ((a + blockCost d) % L) ds

structure Represents (L : Nat) (q : ShmQueue) (ds : List Bytes) : Prop where
  len : q.queueHead.len = L
  head_lt : q.queueHead.head < L
  room : total blockCost ds ≤ L
  blockNum : q.queueHead.blockNum = ds.length
  tail : q.queueHead.tail = (q.queueHead.head + total blockCost ds) % L
  image : get q.memAddr L q.queueHead.head (total blockCost ds) = layout L q.queueHead.head ds

/-! ## Block images -/

@[simp] theorem pTail_length : pTail.length = 6 := rfl

@[simp] theorem bytes_length (h : DateBlockHead) : h.bytes.length = 8 := by
  simp [DateBlockHead.bytes]

theorem ofBytes_bytes {h : DateBlockHead} (hi : FitsInt 4 h.index) (hd : FitsInt 4 h.dateLen) :
    DateBlockHead.ofBytes h.bytes = h := by
  have ht : h.bytes.take 4 = (beInt 4 h.index).reverse :=
    List.take_left' (by simp)
  have hr : h.bytes.drop 4 = (beInt 4 h.dateLen).reverse :=
    List.drop_left' (by simp)
  simp only [DateBlockHead.ofBytes, ht, hr, List.reverse_reverse, ofBeInt_beInt hi,
    ofBeInt_beInt hd]

@[simp] theorem block_length (a : Nat) (d : Bytes) : (block a d).length = blockCost d := by
  simp [block, blockCost, sizeofDateBlockHead]
  omega

@[simp] theorem layout_length (L a : Nat) (ds : List Bytes) :
    (layout L a ds).length = total blockCost ds := by
  induction ds generalizing a with
  | nil => rfl
  | cons d ds ih => simp [layout, ih]

theorem layout_snoc (L a : Nat) (ds : List Bytes) (d : Bytes) (ha : a < L) :
    layout L a (ds ++ [d]) = layout L a ds ++ block ((a + total blockCost ds) % L) d := by
  induction ds generalizing a with
  | nil => simp [layout, Nat.mod_eq_of_lt ha]
  | cons e ds ih =>
    have hw : (a + blockCost e) % L < L := wrap_lt _ (by omega)
    simp only [List.cons_append, layout, ih _ hw, List.append_assoc, total_cons, Nat.mod_add_mod,
      Nat.add_assoc]

theorem total_eq_zero_iff (ds : List Bytes) : total blockCost ds = 0 ↔ ds = [] := by
  cases ds with
  | nil => simp
  | cons d ds => simp [blockCost_eq]

/-! ## Enqueue -/

section Enqueue

variable {L : Nat} {q : ShmQueue} {ds : List Bytes}

theorem freeSpaceSize_eq (h : Represents L q ds) :
    freeSpaceSize q.queueHead = (L : Int) - total blockCost ds := by
  have hz := total_eq_zero_iff ds
  have ht := h.tail
  rw [wrap_eq h.head_lt h.room] at ht
  have hroom := h.room
  have hlt := h.head_lt
  unfold freeSpaceSize
  rw [h.len, h.blockNum]
  by_cases he : ds = []
  · have h0 := hz.mpr he
    simp only [h0, Nat.add_zero, hlt, ↓reduceIte] at ht
    rw [if_pos (Or.inr ⟨ht.symm, by simp [he]⟩), h0, ht]
    omega
  · have h0 : 0 < total blockCost ds := Nat.pos_of_ne_zero fun e => he (hz.mp e)
    have hl : (ds.length : Int) ≠ 0 := by simpa using he
    by_cases hw : q.queueHead.head + total blockCost ds < L
    · simp only [hw, ↓reduceIte] at ht
      rw [if_pos (Or.inl (by omega))]
      omega
    · simp only [hw, ↓reduceIte] at ht
      rw [if_neg (by omega)]
      split <;> omega

/-- The writer after storing `done`: memory, next position and the space up to
the end of the circle, or up to the reader once the writer has wrapped. -/
structure SavePoint (h : QueueHead) (mem : Mem) (done : Bytes) (s : Save) : Prop where
  mem_eq : s.mem = put mem h.len h.tail done
  index : s.saveIndex = (h.tail + done.length) % h.len
  space : s.tailRightSpace =
    if h.tail + done.length ≤ h.len then (h.len : Int) - h.tail - done.length
    else (h.head : Int) - s.saveIndex

/-- One piece of a block, copied whole or in two parts. -/
theorem copy_piece {h : QueueHead} {mem : Mem} {done bs : Bytes} {s : Save}
    (hs : SavePoint h mem done s) (htail : h.tail < h.len)
    (hroom : done.length + bs.length ≤ h.len)
    (hfree : h.len < h.tail + done.length → h.tail + done.length + bs.length ≤ h.len + h.head) :
    (if s.tailRightSpace ≥ bs.length then s.mem.write s.saveIndex bs
      else (s.mem.write s.saveIndex (bs.take s.tailRightSpace.toNat)).write 0
        (bs.drop s.tailRightSpace.toNat)) =
      put mem h.len h.tail (done ++ bs) := by
  have hsp := hs.space
  have hi := hs.index
  rw [← put_put mem done bs htail hroom, ← hs.mem_eq, ← hi]
  rw [wrap_eq htail (by omega)] at hi
  split
  · next hge =>
    apply write_eq_put
    split at hsp <;> split at hi <;> omega
  · next hlt =>
    by_cases hend : h.tail + done.length ≤ h.len
    · simp only [hend, ↓reduceIte] at hsp
      by_cases hex : h.tail + done.length = h.len
      · -- the circle ended exactly here: the first part is empty
        have hk : s.tailRightSpace.toNat = 0 := by omega
        have h0 : s.saveIndex = 0 := by split at hi <;> omega
        rw [hk, h0, List.take_zero, List.drop_zero, Mem.write_nil]
        exact write_eq_put _ _ (by omega)
      · apply write_split_eq_put <;> split at hi <;> omega
    · simp only [hend, ↓reduceIte] at hsp
      split at hi <;> omega

theorem saveHead_point {h : QueueHead} (mem : Mem) {bs : Bytes} (hb : bs.length = 8)
    (htail : h.tail < h.len) (hlen : 8 ≤ h.len) : SavePoint h mem bs (saveHead h mem bs) := by
  have hw := wrap_eq htail hlen
  unfold saveHead
  simp only [sizeofDateBlockHead, Nat.zero_add]
  split
  · next hge =>
    refine ⟨write_eq_put _ _ (by omega), by rw [hb], ?_⟩
    rw [if_pos (by omega), hb]
  · next hlt =>
    have hmod : (8 - ((h.len : Int) - h.tail).toNat) % h.len = (h.tail + 8) % h.len := by
      rw [hw, if_neg (by omega), Nat.mod_eq_of_lt (by omega)]
      omega
    refine ⟨write_split_eq_put _ _ (by omega) (by omega) (by omega), by rw [hb, hmod], ?_⟩
    rw [if_neg (by omega)]

theorem saveBody_point {h : QueueHead} {mem : Mem} {done : Bytes} {s : Save} (bs : Bytes)
    (hs : SavePoint h mem done s) (htail : h.tail < h.len)
    (hroom : done.length + bs.length ≤ h.len)
    (hfree : h.len < h.tail + done.length → h.tail + done.length + bs.length ≤ h.len + h.head) :
    SavePoint h mem (done ++ bs) (saveBody h s bs) := by
  have hcopy := copy_piece hs htail hroom hfree
  have hsp := hs.space
  have hi := hs.index
  have hadd : (s.saveIndex + bs.length) % h.len = (h.tail + (done ++ bs).length) % h.len := by
    rw [hi, Nat.mod_add_mod, List.length_append, Nat.add_assoc]
  have hw := wrap_eq htail hroom
  rw [wrap_eq htail (show done.length ≤ h.len by omega)] at hi
  unfold saveBody
  split
  · next hge =>
    rw [if_pos hge] at hcopy
    refine ⟨hcopy, hadd, ?_⟩
    dsimp only
    rw [hadd, List.length_append]
    split
    · split at hsp <;> omega
    · rw [hw, if_neg (by omega)]
      split at hsp <;> split at hi <;> omega
  · next hlt =>
    rw [if_neg hlt] at hcopy
    have hend : h.tail + done.length ≤ h.len := by
      by_contra hc
      rw [if_neg hc] at hsp
      split at hi <;> omega
    rw [if_pos hend] at hsp
    have hmod : (0 + bs.length - s.tailRightSpace.toNat) % h.len =
        (h.tail + (done ++ bs).length) % h.len := by
      rw [List.length_append, hw, if_neg (by omega), Nat.mod_eq_of_lt (by omega)]
      omega
    refine ⟨hcopy, hmod, ?_⟩
    rw [if_neg (by rw [List.length_append]; omega)]

theorem saveTail_eq {h : QueueHead} {mem : Mem} {done : Bytes} {s : Save}
    (hs : SavePoint h mem done s) (htail : h.tail < h.len) (hroom : done.length + 6 ≤ h.len)
    (hfree : h.len < h.tail + done.length → h.tail + done.length + 6 ≤ h.len + h.head) :
    saveTail s = put mem h.len h.tail (done ++ pTail) :=
  copy_piece hs htail hroom hfree

/-- Whatever way a block is cut, the copies store it at the tail. -/
theorem saveBlock_eq (h : QueueHead) (mem : Mem) (d : Bytes) (htail : h.tail < h.len)
    (hcost : blockCost d ≤ h.len)
    (hfree : h.head ≤ h.tail → h.tail + blockCost d ≤ h.len + h.head)
    (hgap : h.tail < h.head → h.tail + blockCost d ≤ h.head) (hhead : h.head < h.len) :
    saveBlock h mem d = put mem h.len h.tail (block h.tail d) := by
  have hc := blockCost_eq d
  have h6 := pTail_length
  have h8 : sizeofDateBlockHead = 8 := rfl
  unfold saveBlock
  dsimp only
  split
  · next hdirect =>
    have hend : h.tail + blockCost d ≤ h.len := by
      rcases hdirect with hg | hg
      · have := hgap hg; omega
      · omega
    rw [h8, write_eq_put mem _ (show h.tail + _ ≤ h.len by simp; omega)]
    rw [write_eq_put _ d (show h.tail + 8 + d.length ≤ h.len by omega)]
    rw [write_eq_put _ pTail (show h.tail + 8 + d.length + _ ≤ h.len by simp; omega)]
    have hb : (h.tail + 8) % h.len = h.tail + 8 := Nat.mod_eq_of_lt (by omega)
    have hd : (h.tail + 8 + d.length) % h.len = h.tail + 8 + d.length :=
      Nat.mod_eq_of_lt (by omega)
    rw [block, ← put_put mem _ _ htail (by simp; omega), bytes_length, hb,
      ← put_put _ d pTail (by omega) (by simp; omega), hd]
  · next hwrap =>
    have hle : h.head ≤ h.tail := by omega
    have h1 := saveHead_point mem
      (bytes_length (DateBlockHead.mk h.tail d.length)) htail (by omega)
    have h2 := saveBody_point d h1 htail (by simp; omega) (by simp; omega)
    rw [saveTail_eq h2 htail (by simp; omega) (by simp; omega), block, List.append_assoc]

/-- A byte string that fits is appended. -/
theorem enqueue_fits (h : Represents L q ds) {d : Bytes}
    (hfit : total blockCost ds + blockCost d ≤ L) :
    (q.enqueue d).1 = success ∧ Represents L (q.enqueue d).2 (ds ++ [d]) := by
  have hfree := freeSpaceSize_eq h
  have hc := blockCost_eq d
  have hlt := h.head_lt
  have htail : q.queueHead.tail < q.queueHead.len := by
    rw [h.tail, h.len]
    exact wrap_lt _ (by omega)
  have ht := h.tail
  rw [wrap_eq hlt h.room] at ht
  have hsave : saveBlock q.queueHead q.memAddr d =
      put q.memAddr L q.queueHead.tail (block q.queueHead.tail d) := by
    rw [← h.len]
    have hlen := h.len
    apply saveBlock_eq _ _ _ htail
    · omega
    · split at ht <;> omega
    · split at ht <;> omega
    · omega
  have hno : ¬ freeSpaceSize q.queueHead < sizeofDateBlockHead + d.length + pTail.length := by
    rw [hfree, sizeofDateBlockHead, pTail_length]
    omega
  unfold enqueue
  simp only [hno, ↓reduceIte, true_and]
  refine ⟨h.len, hlt, by simpa using hfit, by simp [h.blockNum], ?_, ?_⟩
  · simp only [h.len, h.tail, total_append, total_cons, total_nil, blockCost, Nat.add_assoc,
      Nat.mod_add_mod]
    congr 1
    omega
  · simp only [hsave, total_append, total_cons, total_nil, Nat.add_zero]
    rw [get_append, layout_snoc L _ _ _ hlt, h.tail,
      get_put_before _ hlt (by simpa using hfit), h.image]
    congr 1
    have hlt' : (q.queueHead.head + total blockCost ds) % L < L := wrap_lt _ (by omega)
    have hsame := get_put_same q.memAddr hlt'
      (show (block ((q.queueHead.head + total blockCost ds) % L) d).length ≤ L by simp; omega)
    rwa [block_length] at hsame

/-- A byte string that does not fit changes nothing. -/
theorem enqueue_full (h : Represents L q ds) {d : Bytes}
    (hfull : ¬ total blockCost ds + blockCost d ≤ L) : q.enqueue d = (errShmQueueFull, q) := by
  have hfree := freeSpaceSize_eq h
  have hc := blockCost_eq d
  have hyes : freeSpaceSize q.queueHead < sizeofDateBlockHead + d.length + pTail.length := by
    rw [hfree, sizeofDateBlockHead, pTail_length]
    omega
  simp only [enqueue, hyes, ↓reduceIte]

end Enqueue

/-! ## Dequeue -/

section Dequeue

variable {L : Nat} {q : ShmQueue} {d : Bytes} {ds : List Bytes}

/-- The parts of the first block as they stand in the ring. -/
structure Front (L : Nat) (q : ShmQueue) (d : Bytes) (ds : List Bytes) : Prop where
  header : get q.memAddr L q.queueHead.head 8 = (DateBlockHead.mk q.queueHead.head d.length).bytes
  body : get q.memAddr L ((q.queueHead.head + 8) % L) d.length = d
  flags : get q.memAddr L (((q.queueHead.head + 8) % L + d.length) % L) 6 = pTail
  rest : get q.memAddr L ((q.queueHead.head + blockCost d) % L) (total blockCost ds) =
    layout L ((q.queueHead.head + blockCost d) % L) ds

theorem front (h : Represents L q (d :: ds)) : Front L q d ds := by
  have himage : get q.memAddr L q.queueHead.head
      ((block q.queueHead.head d).length +
        (layout L ((q.queueHead.head + blockCost d) % L) ds).length) =
      block q.queueHead.head d ++ layout L ((q.queueHead.head + blockCost d) % L) ds := by
    rw [block_length, layout_length, ← total_cons, h.image, layout]
  obtain ⟨hblock, hrest⟩ := get_eq_append himage
  rw [block_length, layout_length] at hrest
  unfold block at hblock
  rw [List.length_append] at hblock
  obtain ⟨hheader, hdata⟩ := get_eq_append hblock
  rw [List.length_append] at hdata
  obtain ⟨hbody, hflags⟩ := get_eq_append hdata
  exact ⟨hheader, hbody, hflags, hrest⟩

/-- A block head is read whole or in two parts. -/
theorem readBlockHead_get (hlen : q.queueHead.len = L) (hlt : q.queueHead.head < L) (h8 : 8 ≤ L) :
    q.readBlockHead =
      (.ofBytes (get q.memAddr L q.queueHead.head 8), (q.queueHead.head + 8) % L) := by
  unfold readBlockHead
  simp only [hlen, sizeofDateBlockHead, Nat.zero_add]
  split
  · rw [← get_eq_read (L := L) _ (by omega)]
  · next hsplit =>
    rw [read_split_eq_get (L := L) _ (by omega) (by omega) (by omega),
      wrap_eq hlt (by omega), if_neg (by omega), Nat.mod_eq_of_lt (by omega)]
    congr 1
    omega

theorem readBlockHead_eq (h : Represents L q (d :: ds)) (hL : L < 2 ^ 31) :
    q.readBlockHead = (⟨q.queueHead.head, d.length⟩, (q.queueHead.head + 8) % L) := by
  have hlt := h.head_lt
  have hroom := h.room
  have hc := blockCost_eq d
  rw [total_cons] at hroom
  rw [readBlockHead_get h.len hlt (by omega), (front h).header]
  congr 1
  apply ofBytes_bytes <;> constructor <;> norm_num <;> omega

/-- The body is read as it stands; the reader then is `p` bytes into the circle. -/
theorem readBody_eq {r n : Nat} (hr : r < q.queueHead.len) (hn : n ≤ q.queueHead.len) :
    ∃ p ≤ q.queueHead.len, p % q.queueHead.len = (r + n) % q.queueHead.len ∧
      q.readBody r n = (get q.memAddr q.queueHead.len r n, p % q.queueHead.len,
        (q.queueHead.len : Int) - p) := by
  unfold readBody
  dsimp only
  split
  · next hge =>
    refine ⟨r + n, by omega, rfl, ?_⟩
    rw [get_eq_read _ (by omega)]
    congr 2
    push_cast
    omega
  · next hsplit =>
    have hmod : (0 + n - ((q.queueHead.len : Int) - r).toNat) % q.queueHead.len =
        (r + n) % q.queueHead.len := by
      rw [wrap_eq hr hn, if_neg (by omega), Nat.mod_eq_of_lt (by omega)]
      omega
    refine ⟨(r + n) % q.queueHead.len, Nat.le_of_lt (wrap_lt _ (by omega)), Nat.mod_mod _ _, ?_⟩
    rw [read_split_eq_get (L := q.queueHead.len) _ (by omega) (by omega) (by omega), hmod,
      Nat.mod_mod]

theorem readTail_eq {p : Nat} (hp : p ≤ q.queueHead.len) (hlen : 6 ≤ q.queueHead.len) :
    q.readTail (p % q.queueHead.len) ((q.queueHead.len : Int) - p) =
      get q.memAddr q.queueHead.len (p % q.queueHead.len) 6 := by
  unfold readTail
  rw [pTail_length]
  rcases Nat.lt_or_eq_of_le hp with hlt | heq
  · rw [Nat.mod_eq_of_lt hlt]
    split
    · rw [get_eq_read _ (by omega)]
    · exact read_split_eq_get _ (by omega) (by omega) hlen
  · -- the circle ended with the body: nothing is read before address zero
    rw [heq, Nat.mod_self, if_neg (by omega), get_eq_read _ (by omega)]
    simp

theorem readBlock_eq (h : Represents L q (d :: ds)) (hL : L < 2 ^ 31) :
    q.readBlock = (d, pTail) := by
  have hroom := h.room
  have hlt := h.head_lt
  have hlen := h.len
  have hc := blockCost_eq d
  rw [total_cons] at hroom
  have hr : (q.queueHead.head + 8) % L < q.queueHead.len := by
    rw [hlen]
    exact wrap_lt _ (by omega)
  obtain ⟨p, hp, hmod, hbody⟩ := readBody_eq (n := d.length) hr (by omega)
  have hflags := readTail_eq (q := q) hp (by omega)
  rw [hmod] at hbody hflags
  rw [hlen, (front h).flags] at hflags
  rw [hlen, (front h).body] at hbody
  simp only [readBlock, readBlockHead_eq h hL, Int.toNat_natCast, hbody, hflags]

/-- The three branches for an inconsistent ring are not taken. -/
structure Consistent (q : ShmQueue) : Prop where
  index : ¬ q.IndexMismatch
  dateLen : ¬ q.NegativeLength
  tail : ¬ q.TailMismatch

theorem consistent (h : Represents L q (d :: ds)) (hL : L < 2 ^ 31) : Consistent q := by
  have hhead := readBlockHead_eq h hL
  refine ⟨?_, ?_, ?_⟩
  · simp [IndexMismatch, hhead]
  · simp [NegativeLength, hhead]
  · simp [TailMismatch, readBlock_eq h hL]

theorem dequeue_empty (h : Represents L q []) (n : Int) :
    q.dequeue n = some ⟨errShmQueueEmpty, n, [], q⟩ := by
  have ht := h.tail
  rw [total_nil, Nat.add_zero, Nat.mod_eq_of_lt h.head_lt] at ht
  have hb : q.queueHead.blockNum = 0 := h.blockNum
  simp [dequeue, hb, ht]

theorem dequeue_small (h : Represents L q (d :: ds)) (hL : L < 2 ^ 31) {n : Int}
    (hn : n < d.length) : q.dequeue n = some ⟨errShmQueueBufSmall, d.length, [], q⟩ := by
  have hb : q.queueHead.blockNum > 0 := by
    rw [h.blockNum, List.length_cons]
    omega
  simp [dequeue, hb, readBlockHead_eq h hL, hn]

/-- The first byte string is returned and its block removed. -/
theorem dequeue_front (h : Represents L q (d :: ds)) (hL : L < 2 ^ 31) {n : Int}
    (hn : ¬ n < d.length) :
    ∃ q', q.dequeue n = some ⟨success, d.length, d, q'⟩ ∧ Represents L q' ds := by
  have hb : q.queueHead.blockNum > 0 := by
    rw [h.blockNum, List.length_cons]
    omega
  have hc := consistent h hL
  have hnext : q.queueHead.head + sizeofDateBlockHead + d.length + pTail.length =
      q.queueHead.head + blockCost d := by
    rw [blockCost]
    omega
  refine ⟨{ q with queueHead := { q.queueHead with
    head := (q.queueHead.head + blockCost d) % q.queueHead.len
    blockNum := q.queueHead.blockNum - 1 } }, ?_, ?_⟩
  · simp only [dequeue, hb, true_or, ↓reduceIte, readBlockHead_eq h hL, hn, hc.index, hc.dateLen,
      hc.tail, readBlock_eq h hL, Int.toNat_natCast, hnext]
  · have hroom := h.room
    have htail := h.tail
    have hblock := h.blockNum
    rw [total_cons] at hroom htail
    refine ⟨h.len, ?_, by omega, ?_, ?_, ?_⟩
    · rw [h.len]
      exact wrap_lt _ (by have := h.head_lt; omega)
    · simp [hblock]
    · rw [htail, h.len, Nat.mod_add_mod, Nat.add_assoc]
    · simpa [h.len] using (front h).rest

end Dequeue

/-! ## Calls and runs -/

inductive Call
  | enqueue (ipDate : Bytes)
  | dequeue (iopBufLen : Int)
  deriving DecidableEq

/-- Return code, `*iopBufLen` and `opBuf` after a call; `Enqueue` leaves the last
two to the caller. -/
structure Answer where
  ret : Int
  iopBufLen : Int
  opBuf : Bytes
  deriving DecidableEq

def call (q : ShmQueue) : Call → Option (Answer × ShmQueue)
  | .enqueue ipDate => some (⟨(q.enqueue ipDate).1, 0, []⟩, (q.enqueue ipDate).2)
  | .dequeue n => (q.dequeue n).map fun r => (⟨r.ret, r.iopBufLen, r.opBuf⟩, r.queue)

/-- A list of calls on one ring, one after the other. -/
def calls (q : ShmQueue) : List Call → Option (List Answer × ShmQueue)
  | [] => some ([], q)
  | c :: cs =>
    (q.call c).bind fun r => (calls r.2 cs).map fun rs => (r.1 :: rs.1, rs.2)

/-- What the ring is for: a list of byte strings with a bound on their cost. -/
abbrev Fifo := BoundedFifo Bytes blockCost

def Fifo.call (f : Fifo) : Call → Answer × Fifo
  | .enqueue ipDate =>
    match f.enqueue ipDate with
    | some f' => (⟨success, 0, []⟩, f')
    | none => (⟨errShmQueueFull, 0, []⟩, f)
  | .dequeue n =>
    match f.dequeue with
    | some (d, f') =>
      if n < d.length then (⟨errShmQueueBufSmall, d.length, []⟩, f)
      else (⟨success, d.length, d⟩, f')
    | none => (⟨errShmQueueEmpty, n, []⟩, f)

theorem Fifo.call_enqueue_cap (f : Fifo) (ipDate : Bytes) :
    (f.call (.enqueue ipDate)).2.cap = f.cap := by
  unfold Fifo.call
  dsimp only
  split
  · next h => exact (BoundedFifo.enqueue_some h).1
  · rfl

theorem Fifo.call_enqueue_ret {f : Fifo} (h : f.cap = none) (ipDate : Bytes) :
    (f.call (.enqueue ipDate)).1.ret = success := by
  obtain ⟨f', hf, _⟩ := BoundedFifo.enqueue_of_fits (q := f) (a := ipDate) (by simp [h])
  simp only [Fifo.call, hf]

theorem Fifo.call_enqueue_of_fits {f : Fifo} {ipDate : Bytes}
    (h : Fits f.cap (total blockCost f.items + blockCost ipDate)) :
    (f.call (.enqueue ipDate)).1.ret = success ∧ (f.call (.enqueue ipDate)).2.cap = f.cap ∧
      (f.call (.enqueue ipDate)).2.items = f.items ++ [ipDate] := by
  obtain ⟨f', hf, hcap, hitems⟩ := BoundedFifo.enqueue_of_fits h
  unfold Fifo.call
  dsimp only
  rw [hf]
  exact ⟨rfl, hcap, hitems⟩

theorem Fifo.call_enqueue_of_not_fits {f : Fifo} {ipDate : Bytes}
    (h : ¬ Fits f.cap (total blockCost f.items + blockCost ipDate)) :
    (f.call (.enqueue ipDate)).1.ret = errShmQueueFull ∧ (f.call (.enqueue ipDate)).2 = f := by
  unfold Fifo.call
  dsimp only
  rw [BoundedFifo.enqueue_eq_none_iff.mpr h]
  exact ⟨rfl, rfl⟩

theorem Fifo.call_dequeue_nil {f : Fifo} (h : f.items = []) (n : Int) :
    (f.call (.dequeue n)).1.ret = errShmQueueEmpty := by
  unfold Fifo.call
  dsimp only
  rw [BoundedFifo.dequeue_eq_none_iff.mpr h]

theorem Fifo.call_dequeue_cons {f : Fifo} {d : Bytes} {ds : List Bytes} {n : Int}
    (h : f.items = d :: ds) (hn : (d.length : Int) ≤ n) :
    (f.call (.dequeue n)).1.ret = success ∧ (f.call (.dequeue n)).2.cap = f.cap ∧
      (f.call (.dequeue n)).2.items = ds := by
  obtain ⟨f', hf, hcap, hitems⟩ := BoundedFifo.dequeue_cons h
  unfold Fifo.call
  dsimp only
  rw [hf]
  dsimp only
  rw [if_neg (Int.not_lt.mpr hn)]
  exact ⟨rfl, hcap, hitems⟩

theorem Fifo.call_dequeue_small {f : Fifo} {d : Bytes} {ds : List Bytes} {n : Int}
    (h : f.items = d :: ds) (hn : n < d.length) :
    (f.call (.dequeue n)).1.ret = errShmQueueBufSmall := by
  obtain ⟨f', hf, _⟩ := BoundedFifo.dequeue_cons h
  unfold Fifo.call
  dsimp only
  rw [hf]
  dsimp only
  rw [if_pos hn]

def Fifo.calls (f : Fifo) : List Call → List Answer × Fifo
  | [] => ([], f)
  | c :: cs => ((f.call c).1 :: (calls (f.call c).2 cs).1, (calls (f.call c).2 cs).2)

/-- The ring of capacity `L` stores what the list `f` holds. -/
structure Refines (L : Nat) (q : ShmQueue) (f : Fifo) : Prop where
  cap : f.cap = some L
  items : Represents L q f.items

theorem init_refines {L : Nat} (hL : 1 ≤ L) : Refines L (init L) (.empty (some L)) :=
  ⟨rfl, rfl, hL, Nat.zero_le _, rfl, by simp [init, BoundedFifo.empty], rfl⟩

section Runs

variable {L : Nat} {q : ShmQueue} {f : Fifo}

theorem call_enqueue_refines (h : Refines L q f) (d : Bytes) :
    ∃ q', q.call (.enqueue d) = some ((f.call (.enqueue d)).1, q') ∧
      Refines L q' (f.call (.enqueue d)).2 ∧
      ((f.call (.enqueue d)).1.ret ≠ success → q' = q) := by
  by_cases hfit : total blockCost f.items + blockCost d ≤ L
  · obtain ⟨hret, hrep⟩ := enqueue_fits h.items hfit
    obtain ⟨f', hf, hcap, hitems⟩ := BoundedFifo.enqueue_of_fits (q := f) (a := d)
      (by rw [h.cap]; simpa using hfit)
    refine ⟨(q.enqueue d).2, ?_, ?_, ?_⟩
    · simp [call, Fifo.call, hret, hf]
    · simp only [Fifo.call, hf]
      exact ⟨hcap.trans h.cap, hitems ▸ hrep⟩
    · simp [Fifo.call, hf]
  · have hfull := enqueue_full h.items hfit
    have hf : f.enqueue d = none := BoundedFifo.enqueue_eq_none_iff.mpr
      (by rw [h.cap]; simpa using hfit)
    refine ⟨q, ?_, ?_, fun _ => rfl⟩
    · simp [call, Fifo.call, hfull, hf]
    · simpa only [Fifo.call, hf] using h

theorem call_dequeue_refines (h : Refines L q f) (hL : L < 2 ^ 31) (n : Int) :
    ∃ q', q.call (.dequeue n) = some ((f.call (.dequeue n)).1, q') ∧
      Refines L q' (f.call (.dequeue n)).2 ∧
      ((f.call (.dequeue n)).1.ret ≠ success → q' = q) := by
  rcases hi : f.items with _ | ⟨d, ds⟩
  · have hrep : Represents L q [] := hi ▸ h.items
    have hf : f.dequeue = none := BoundedFifo.dequeue_eq_none_iff.mpr hi
    refine ⟨q, ?_, ?_, fun _ => rfl⟩
    · simp [call, Fifo.call, dequeue_empty hrep, hf]
    · simpa only [Fifo.call, hf] using h
  · have hrep : Represents L q (d :: ds) := hi ▸ h.items
    obtain ⟨f', hf, hcap, hitems⟩ := BoundedFifo.dequeue_cons hi
    by_cases hn : n < d.length
    · refine ⟨q, ?_, ?_, fun _ => rfl⟩
      · simp [call, Fifo.call, dequeue_small hrep hL hn, hf, hn]
      · simpa only [Fifo.call, hf, hn, ↓reduceIte] using h
    · obtain ⟨q', hq, hrep'⟩ := dequeue_front hrep hL hn
      refine ⟨q', ?_, ?_, ?_⟩
      · simp [call, Fifo.call, hq, hf, hn]
      · simp only [Fifo.call, hf, hn, ↓reduceIte]
        exact ⟨hcap.trans h.cap, hitems ▸ hrep'⟩
      · simp [Fifo.call, hf, hn]

theorem call_refines (h : Refines L q f) (hL : L < 2 ^ 31) (c : Call) :
    ∃ q', q.call c = some ((f.call c).1, q') ∧ Refines L q' (f.call c).2 ∧
      ((f.call c).1.ret ≠ success → q' = q) := by
  cases c with
  | enqueue d => exact call_enqueue_refines h d
  | dequeue n => exact call_dequeue_refines h hL n

theorem calls_refine (hL : L < 2 ^ 31) (cs : List Call) (h : Refines L q f) :
    ∃ q', q.calls cs = some ((f.calls cs).1, q') ∧ Refines L q' (f.calls cs).2 := by
  induction cs generalizing q f with
  | nil => exact ⟨q, rfl, h⟩
  | cons c cs ih =>
    obtain ⟨q₁, hcall, h₁, _⟩ := call_refines h hL c
    obtain ⟨q₂, hcalls, h₂⟩ := ih h₁
    exact ⟨q₂, by simp [calls, hcall, hcalls, Fifo.calls], h₂⟩

end Runs

/-- Every run of the new ring answers as the list does; the next call on the ring
it leaves finds consistent blocks and changes nothing unless it succeeds. -/
theorem runs_refine_fifo {L : Nat} (hpos : 1 ≤ L) (hL : L < 2 ^ 31) (cs : List Call) :
    ∃ q, (init L).calls cs = some ((Fifo.calls (.empty (some L)) cs).1, q) ∧
      Represents L q (Fifo.calls (.empty (some L)) cs).2.items ∧
      ((Fifo.calls (.empty (some L)) cs).2.items ≠ [] → Consistent q) ∧
      ∀ c a q', q.call c = some (a, q') → a.ret ≠ success → q' = q := by
  obtain ⟨q, hcalls, h⟩ := calls_refine hL cs (init_refines hpos)
  refine ⟨q, hcalls, h.items, ?_, ?_⟩
  · intro hne
    obtain ⟨d, ds, hi⟩ := List.exists_cons_of_ne_nil hne
    exact consistent (hi ▸ h.items) hL
  · intro c a q' hcall hret
    obtain ⟨q₁, hc, _, hsame⟩ := call_refines h hL c
    obtain ⟨ha, hq⟩ := Prod.mk.inj (Option.some.inj (hcall.symm.trans hc))
    exact hq.trans (hsame (ha ▸ hret))

theorem runs_refine_fifo_of_capacity_40 :
    ∃ q, (init 40).calls [.enqueue [1, 2, 3], .dequeue 2, .dequeue 3, .dequeue 3] =
        some ([⟨success, 0, []⟩, ⟨errShmQueueBufSmall, 3, []⟩, ⟨success, 3, [1, 2, 3]⟩,
          ⟨errShmQueueEmpty, 3, []⟩], q) := by
  obtain ⟨q, hq, _⟩ := runs_refine_fifo (L := 40) (by decide) (by decide)
    [.enqueue [1, 2, 3], .dequeue 2, .dequeue 3, .dequeue 3]
  exact ⟨q, hq⟩

end Wsmq.ShmQueue
