import Wsmq.Lib.MarkerScan
import Wsmq.ShmQueueFifo

/-!
# A damaged block head

When the first block does not say that it starts at `m_iHead`, `Dequeue` looks for six flag bytes
behind the block head.  The payload of the block comes first, and its bytes are arbitrary.
-/

namespace Wsmq.ShmQueue
open Lib.ByteString Lib.RingMemory Lib.Fifo Lib.MarkerScan

/-- The field `m_iIndex` of the block at `m_iHead` gets another value. -/
def overwriteIndex (q : ShmQueue) (iIndex : Int) : ShmQueue :=
  { q with memAddr := put q.memAddr q.queueHead.len q.queueHead.head (beInt 4 iIndex).reverse }

/-- One `Dequeue` skips the block of `d`, and the next ones return `ds`. -/
structure Recovers (q : ShmQueue) (n : Int) (d : Bytes) (ds : List Bytes) : Prop where
  skips : ∃ r, q.dequeue n = some r ∧ r.ret = errShmQueueDateReset ∧
    r.queue.queueHead.head = (q.queueHead.head + blockCost d) % q.queueHead.len ∧
    r.queue.queueHead.blockNum = q.queueHead.blockNum - 1
  follows : ∀ r, q.dequeue n = some r → ∀ ns : List Int,
    List.Forall₂ (fun e iopBufLen => (e.length : Int) ≤ iopBufLen) ds ns →
      ∃ q', r.queue.calls (ns.map Call.dequeue) =
        some (ds.map fun e => ⟨success, e.length, e⟩, q')

section Scan

variable {L : Nat} {q : ShmQueue} {d : Bytes} {ds : List Bytes}

/-- The scan over the ring is the search in the bytes that lie there. -/
theorem scanTail_of_markersEnd (hlen : q.queueHead.len = L) {n fuel readIndex count k : Nat}
    (hlt : readIndex < L) (hfuel : n ≤ fuel)
    (hend : markersEnd tailFlag 6 count (get q.memAddr L readIndex n) = some k) :
    q.scanTail fuel readIndex count = some ((readIndex + k) % L) := by
  induction n generalizing fuel readIndex count k with
  | zero => cases hend
  | succ n ih =>
    obtain ⟨fuel, rfl⟩ := Nat.exists_eq_succ_of_ne_zero (Nat.ne_of_gt (Nat.zero_lt_of_lt hfuel))
    rw [get_succ _ hlt, markersEnd] at hend
    rw [scanTail, hlen]
    generalize (if q.memAddr readIndex = tailFlag then count + 1 else 0) = count at hend ⊢
    split at hend
    · next hsix =>
      cases hend
      rw [if_pos hsix]
    · next hmore =>
      obtain ⟨k, hrest, rfl⟩ := Option.map_eq_some_iff.mp hend
      rw [if_neg hmore, ih (wrap_lt _ (by omega)) (Nat.le_of_succ_le_succ hfuel) hrest,
        Nat.mod_add_mod, Nat.add_assoc, Nat.add_comm 1]

/-- The later `Dequeue` calls with buffers that are large enough. -/
theorem calls_dequeue (h : Represents L q ds) (hL : L < 2 ^ 31) {ns : List Int}
    (hns : List.Forall₂ (fun e iopBufLen => (e.length : Int) ≤ iopBufLen) ds ns) :
    ∃ q', q.calls (ns.map Call.dequeue) = some (ds.map fun e => ⟨success, e.length, e⟩, q') := by
  induction hns generalizing q with
  | nil => exact ⟨q, rfl⟩
  | cons hn _ ih =>
    obtain ⟨q₁, hfirst, h₁⟩ := dequeue_front h hL (Int.not_lt.mpr hn)
    obtain ⟨q₂, hrest⟩ := ih h₁
    exact ⟨q₂, by simp [calls, call, hfirst, hrest]⟩

end Scan

/-! ## The damaged ring -/

section Damaged

variable {L : Nat} {q : ShmQueue} {d : Bytes} {ds : List Bytes} {iIndex : Int}

/-- The ring with the reader behind its first block. -/
def skipTo (q : ShmQueue) (next : Nat) : ShmQueue :=
  { q with queueHead := { q.queueHead with head := next, blockNum := q.queueHead.blockNum - 1 } }

theorem overwriteIndex_head : (q.overwriteIndex iIndex).queueHead = q.queueHead := rfl

theorem room_cons (h : Represents L q (d :: ds)) : 14 + d.length + total blockCost ds ≤ L := by
  have hroom := h.room
  rwa [total_cons, blockCost_eq] at hroom

theorem overwriteIndex_behind (h : Represents L q (d :: ds)) {k n : Nat} (hk : 4 ≤ k)
    (hn : k + n ≤ L) :
    get (q.overwriteIndex iIndex).memAddr L ((q.queueHead.head + k) % L) n =
      get q.memAddr L ((q.queueHead.head + k) % L) n := by
  have hlength : (beInt 4 iIndex).reverse.length = 4 := by simp
  simp only [overwriteIndex, h.len]
  exact get_put_behind _ h.head_lt (by omega) hn

/-- The block head after the damage: the length is still right. -/
theorem overwriteIndex_readBlockHead (h : Represents L q (d :: ds)) (hL : L < 2 ^ 31)
    (hfits : FitsInt 4 iIndex) : (q.overwriteIndex iIndex).readBlockHead =
      (⟨iIndex, d.length⟩, (q.queueHead.head + 8) % L) := by
  have hroom := room_cons h
  have hlt := h.head_lt
  have hbytes : get (q.overwriteIndex iIndex).memAddr L q.queueHead.head (4 + 4) =
      (DateBlockHead.mk iIndex d.length).bytes := by
    have hlength : (beInt 4 iIndex).reverse.length = 4 := by simp
    have hheader := (front h).header
    rw [show 8 = 4 + 4 from rfl, get_append, DateBlockHead.bytes] at hheader
    have hsecond := (List.append_inj hheader (by simp)).2
    rw [get_append, DateBlockHead.bytes, overwriteIndex_behind h (Nat.le_refl 4) (by omega),
      hsecond]
    congr 1
    have hsame := get_put_same q.memAddr hlt
      (show (beInt 4 iIndex).reverse.length ≤ L by omega)
    rw [hlength] at hsame
    rw [overwriteIndex, h.len]
    exact hsame
  have hread := readBlockHead_get (q := q.overwriteIndex iIndex) h.len hlt (by omega)
  rw [hread, overwriteIndex_head, show 8 = 4 + 4 from rfl, hbytes]
  congr 1
  apply ofBytes_bytes hfits
  constructor
  · norm_num
  · norm_num
    omega

/-- What `Dequeue` scans: payload, then flags. -/
theorem overwriteIndex_scanned (h : Represents L q (d :: ds)) :
    get (q.overwriteIndex iIndex).memAddr L ((q.queueHead.head + 8) % L) (d.length + 6) =
      d ++ pTail := by
  have hroom := room_cons h
  rw [overwriteIndex_behind h (by omega) (by omega), get_append, (front h).body, (front h).flags]

/-- Without its first block the damaged ring is sound. -/
theorem skipTo_represents (h : Represents L q (d :: ds)) :
    Represents L ((q.overwriteIndex iIndex).skipTo ((q.queueHead.head + blockCost d) % L)) ds := by
  have hroom := room_cons h
  have hlt := h.head_lt
  have htail := h.tail
  have hblock := h.blockNum
  have hcost := blockCost_eq d
  rw [total_cons] at htail
  refine ⟨h.len, wrap_lt _ (by omega), by omega, ?_, ?_, ?_⟩
  · show q.queueHead.blockNum - 1 = ds.length
    rw [hblock, List.length_cons]
    omega
  · show q.queueHead.tail = ((q.queueHead.head + blockCost d) % L + total blockCost ds) % L
    rw [htail, Nat.mod_add_mod, Nat.add_assoc]
  · show get (q.overwriteIndex iIndex).memAddr L ((q.queueHead.head + blockCost d) % L)
      (total blockCost ds) = _
    rw [overwriteIndex_behind h (by omega) (by omega), (front h).rest]
    rfl

/-- `Dequeue` on the damaged ring moves the reader behind the first six flags in a row. -/
theorem dequeue_overwritten (h : Represents L q (d :: ds)) (hL : L < 2 ^ 31)
    (hfits : FitsInt 4 iIndex) (hother : iIndex ≠ q.queueHead.head) {n : Int}
    (hn : (d.length : Int) ≤ n) {k : Nat}
    (hend : markersEnd tailFlag 6 0 (d ++ pTail) = some k) :
    (q.overwriteIndex iIndex).dequeue n = some ⟨errShmQueueDateReset, n, [],
      (q.overwriteIndex iIndex).skipTo ((q.queueHead.head + (8 + k)) % L)⟩ := by
  have hroom := room_cons h
  have hhead := overwriteIndex_readBlockHead h hL hfits
  have hblocks : (q.overwriteIndex iIndex).queueHead.blockNum > 0 := by
    show q.queueHead.blockNum > 0
    rw [h.blockNum, List.length_cons]
    omega
  have hmismatch : (q.overwriteIndex iIndex).IndexMismatch := by
    rw [IndexMismatch, hhead]
    exact hother
  have hlen : (q.overwriteIndex iIndex).queueHead.len = L := h.len
  rw [← @overwriteIndex_scanned _ _ _ _ iIndex h] at hend
  have hscan : (q.overwriteIndex iIndex).scanTail ((q.overwriteIndex iIndex).queueHead.len + 6)
      ((q.queueHead.head + 8) % L) 0 = some ((q.queueHead.head + (8 + k)) % L) := by
    rw [scanTail_of_markersEnd hlen (wrap_lt _ (by omega)) (by omega) hend, Nat.mod_add_mod,
      Nat.add_assoc]
  rw [dequeue]
  dsimp only
  rw [if_pos (Or.inl hblocks), hhead]
  dsimp only
  rw [if_neg (Int.not_lt.mpr hn), if_pos hmismatch, if_pos hblocks, hscan]
  rfl

/-- The damage costs the first block alone unless the flags in its payload are taken for the
end. -/
theorem recovers_iff (h : Represents L q (d :: ds)) (hL : L < 2 ^ 31)
    (hfits : FitsInt 4 iIndex) (hother : iIndex ≠ q.queueHead.head) {n : Int}
    (hn : (d.length : Int) ≤ n) : Recovers (q.overwriteIndex iIndex) n d ds ↔
      ¬ pTail <:+: d ∧ d.getLast? ≠ some tailFlag := by
  obtain ⟨k, hle, hend⟩ := markersEnd_append (a := tailFlag) (show 0 < 6 by omega) d
  have hiff := markersEnd_append_iff (a := tailFlag) (show 0 < 6 by omega) d
  have hdequeue := dequeue_overwritten h hL hfits hother hn hend
  have hroom := room_cons h
  have hcost := blockCost_eq d
  rw [List.replicate_zero, List.nil_append, hend, Option.some.injEq] at hiff
  rw [show pTail = List.replicate 6 tailFlag from rfl, ← hiff]
  constructor
  · intro hrecovers
    obtain ⟨r, hr, -, hmoved, -⟩ := hrecovers.skips
    rw [hdequeue] at hr
    cases hr
    rw [overwriteIndex_head, h.len] at hmoved
    have hsame : (q.queueHead.head + (8 + k)) % L = (q.queueHead.head + blockCost d) % L := hmoved
    rw [wrap_eq h.head_lt (by omega), wrap_eq h.head_lt (by omega)] at hsame
    split at hsame <;> split at hsame <;> omega
  · intro hlate
    have hmove : 8 + k = blockCost d := by omega
    rw [hmove] at hdequeue
    refine ⟨⟨_, hdequeue, rfl, ?_, rfl⟩, ?_⟩
    · rw [overwriteIndex_head, h.len]
      rfl
    · intro r hr ns hns
      rw [hdequeue] at hr
      cases hr
      exact calls_dequeue (skipTo_represents h) hL hns

end Damaged

/-! ## Runs -/

/-- A ring that any calls have filled, and the index of its first block overwritten. -/
theorem run_recovers_iff {L : Nat} (hpos : 1 ≤ L) (hL : L < 2 ^ 31) {cs : List Call}
    {answers : List Answer} {q : ShmQueue} (hrun : (init L).calls cs = some (answers, q))
    {d : Bytes} {ds : List Bytes}
    (hblocks : (Fifo.calls (.empty (some L)) cs).2.items = d :: ds) {iIndex : Int}
    (hfits : FitsInt 4 iIndex) (hother : iIndex ≠ q.queueHead.head) {n : Int}
    (hn : (d.length : Int) ≤ n) : Recovers (q.overwriteIndex iIndex) n d ds ↔
      ¬ pTail <:+: d ∧ d.getLast? ≠ some tailFlag := by
  obtain ⟨q', hcalls, hrepresents, -⟩ := runs_refine_fifo hpos hL cs
  obtain ⟨-, rfl⟩ := Prod.mk.inj (Option.some.inj (hcalls.symm.trans hrun))
  rw [hblocks] at hrepresents
  exact recovers_iff hrepresents hL hfits hother hn

theorem head_of_calls {q q' : ShmQueue} {cs : List Call} {answers : List Answer} {x : Nat}
    (hcalls : q.calls cs = some (answers, q'))
    (hx : (q.calls cs).map (fun r => r.2.queueHead.head) = some x) : q'.queueHead.head = x := by
  rw [hcalls] at hx
  exact Option.some.inj hx

/-- Two blocks in a ring of 60 bytes, and the index of the first one becomes 7. -/
theorem run_recovers_of_capacity_60 : ∃ q answers,
    (init 60).calls [.enqueue [1, 0xDD, 2], .enqueue [3]] = some (answers, q) ∧
      Recovers (q.overwriteIndex 7) 10 [1, 0xDD, 2] [[3]] := by
  obtain ⟨q, hcalls, -⟩ := runs_refine_fifo (L := 60) (by decide) (by decide)
    [.enqueue [1, 0xDD, 2], .enqueue [3]]
  have hother : (7 : Int) ≠ q.queueHead.head := by
    rw [head_of_calls hcalls rfl]
    decide
  exact ⟨q, _, hcalls, (run_recovers_iff (by decide) (by decide) hcalls rfl
    (by constructor <;> decide) hother (by decide)).mpr (by decide)⟩

/-- The last byte of the payload is `0xDD`: the reader stops one byte before the second block. -/
theorem flagged_end_not_recovered : ∃ q answers,
    (init 60).calls [.enqueue [1, 0xDD], .enqueue [3]] = some (answers, q) ∧
      ¬ Recovers (q.overwriteIndex 7) 10 [1, 0xDD] [[3]] := by
  obtain ⟨q, hcalls, hrepresents, -⟩ := runs_refine_fifo (L := 60) (by decide) (by decide)
    [.enqueue [1, 0xDD], .enqueue [3]]
  have hother : (7 : Int) ≠ q.queueHead.head := by
    rw [head_of_calls hcalls rfl]
    decide
  refine ⟨q, _, hcalls, ?_⟩
  have hiff := recovers_iff (show Represents 60 q ([1, 0xDD] :: [[3]]) from hrepresents)
    (by decide) (show FitsInt 4 7 by constructor <;> decide) hother (show (2 : Int) ≤ 10 by decide)
  rw [hiff]
  decide

end Wsmq.ShmQueue
