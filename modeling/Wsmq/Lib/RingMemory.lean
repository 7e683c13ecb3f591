import Wsmq.Lib.ByteString

/-! Memory of `L` bytes used as a circle: byte strings are stored from a
position on and continue at address zero after address `L - 1`. -/

namespace Lib.RingMemory
open Lib.ByteString

/-- The `n` bytes from position `a` on. -/
def get (m : Mem) (L a n : Nat) : Bytes := (List.range n).map fun i => m ((a + i) % L)

/-- Distance from position `a` forward to address `x`. -/
def offset (L a x : Nat) : Nat := if a ≤ x then x - a else x + L - a

/-- Memory with `bs` stored from position `a` on. -/
def put (m : Mem) (L a : Nat) (bs : Bytes) : Mem :=
  fun x => if x < L ∧ offset L a x < bs.length then bs.getD (offset L a x) 0 else m x

theorem wrap_eq {L a i : Nat} (ha : a < L) (hi : i ≤ L) :
    (a + i) % L = if a + i < L then a + i else a + i - L := by
  split
  · next h => exact Nat.mod_eq_of_lt h
  · next h =>
    rw [Nat.mod_eq_sub_mod (by omega)]
    exact Nat.mod_eq_of_lt (by omega)

theorem wrap_lt {L : Nat} (a : Nat) (hL : 0 < L) : a % L < L := Nat.mod_lt _ hL

theorem offset_wrap {L a i : Nat} (ha : a < L) (hi : i < L) : offset L a ((a + i) % L) = i := by
  rw [wrap_eq ha (Nat.le_of_lt hi)]
  unfold offset
  split <;> split <;> omega

theorem offset_of_le {L a x : Nat} (h : a ≤ x) : offset L a x = x - a := if_pos h

theorem offset_of_lt {L a x : Nat} (h : x < a) : offset L a x = x + L - a := if_neg (by omega)

theorem offset_lt {L a x : Nat} (ha : a < L) (hx : x < L) : offset L a x < L := by
  unfold offset
  split <;> omega

/-- Distance from a position that lies `n` bytes further on. -/
theorem offset_step {L a n x : Nat} (ha : a < L) (hn : n ≤ L) (hx : x < L) :
    offset L ((a + n) % L) x =
      if offset L a x < n then offset L a x + L - n else offset L a x - n := by
  rw [wrap_eq ha hn]
  unfold offset
  by_cases hw : a + n < L
  · simp only [hw, ↓reduceIte]
    split <;> split <;> split <;> omega
  · simp only [hw, ↓reduceIte]
    split <;> split <;> split <;> omega

/-! ## Storing -/

theorem put_at (m : Mem) {L a i : Nat} {bs : Bytes} (ha : a < L) (hL : bs.length ≤ L)
    (hi : i < bs.length) : put m L a bs ((a + i) % L) = bs[i] := by
  have hw := wrap_lt (a + i) (show 0 < L by omega)
  simp only [put, offset_wrap ha (show i < L by omega)]
  rw [if_pos ⟨hw, hi⟩, List.getD_eq_getElem _ _ hi]

theorem put_off (m : Mem) {L a i : Nat} {bs : Bytes} (ha : a < L) (hi : i < L)
    (hb : bs.length ≤ i) : put m L a bs ((a + i) % L) = m ((a + i) % L) := by
  simp only [put, offset_wrap ha hi]
  rw [if_neg (by omega)]

theorem put_outside (m : Mem) {L a x : Nat} (bs : Bytes) (hx : L ≤ x) : put m L a bs x = m x := by
  simp only [put]
  rw [if_neg (by omega)]

/-- A block copy that does not reach the end of the circle. -/
theorem write_eq_put (m : Mem) {L a : Nat} (bs : Bytes) (h : a + bs.length ≤ L) :
    m.write a bs = put m L a bs := by
  funext x
  by_cases hx : a ≤ x
  · simp only [Mem.write, put, offset_of_le hx]
    by_cases hb : x < a + bs.length
    · rw [if_pos ⟨hx, hb⟩, if_pos (by omega)]
    · rw [if_neg (by omega), if_neg (by omega)]
  · simp only [Mem.write, put, offset_of_lt (show x < a by omega)]
    rw [if_neg (by omega), if_neg (by omega)]

/-- A block copy made in two pieces, the second one at address zero. -/
theorem write_split_eq_put (m : Mem) {L a k : Nat} (bs : Bytes) (hk : a + k = L)
    (hb : k ≤ bs.length) (hL : bs.length ≤ L) :
    (m.write a (bs.take k)).write 0 (bs.drop k) = put m L a bs := by
  funext x
  have ht : (bs.take k).length = k := by simp [hb]
  by_cases hx : a ≤ x
  · rw [Mem.write_of_ge _ _ (by simp only [List.length_drop]; omega)]
    simp only [Mem.write, put, offset_of_le hx, ht, List.getD_eq_getElem?_getD]
    by_cases hl : x < L
    · rw [if_pos (by omega), if_pos (by omega), List.getElem?_take_of_lt (by omega)]
    · rw [if_neg (by omega), if_neg (by omega)]
  · simp only [Mem.write, put, offset_of_lt (show x < a by omega), ht,
      List.length_drop, List.getD_eq_getElem?_getD, List.getElem?_drop, Nat.sub_zero]
    by_cases hb' : x < bs.length - k
    · rw [if_pos (by omega), if_pos (by omega), show k + x = x + L - a by omega]
    · rw [if_neg (by omega), if_neg (by omega), if_neg (by omega)]

theorem put_put (m : Mem) {L a : Nat} (bs cs : Bytes) (ha : a < L)
    (hL : bs.length + cs.length ≤ L) :
    put (put m L a bs) L ((a + bs.length) % L) cs = put m L a (bs ++ cs) := by
  funext x
  by_cases hx : x < L
  swap
  · rw [put_outside _ _ (by omega), put_outside _ _ (by omega), put_outside _ _ (by omega)]
  have ho := offset_lt ha hx
  simp only [put, hx, true_and, List.length_append, List.getD_eq_getElem?_getD,
    offset_step ha (show bs.length ≤ L by omega) hx]
  by_cases hin : offset L a x < bs.length
  · -- the address belongs to the first string, so the second one misses it
    simp only [hin, ↓reduceIte]
    rw [if_neg (by omega), if_pos (by omega), List.getElem?_append_left hin]
  · simp only [hin, ↓reduceIte]
    by_cases hc : offset L a x - bs.length < cs.length
    · rw [if_pos hc, if_pos (by omega), List.getElem?_append_right (by omega)]
    · rw [if_neg hc, if_neg (by omega)]

/-! ## Reading -/

@[simp] theorem get_length (m : Mem) (L a n : Nat) : (get m L a n).length = n := by simp [get]

theorem get_getElem (m : Mem) (L a n i : Nat) (h : i < (get m L a n).length) :
    (get m L a n)[i] = m ((a + i) % L) := by simp [get]

theorem get_congr {m m' : Mem} {L a n : Nat}
    (h : ∀ i < n, m ((a + i) % L) = m' ((a + i) % L)) : get m L a n = get m' L a n :=
  List.map_congr_left fun i hi => h i (List.mem_range.mp hi)

theorem get_append (m : Mem) (L a n k : Nat) :
    get m L a (n + k) = get m L a n ++ get m L ((a + n) % L) k := by
  simp [get, List.range_add, Nat.add_assoc]

theorem get_eq_read (m : Mem) {L a n : Nat} (h : a + n ≤ L) : get m L a n = m.read a n := by
  apply List.map_congr_left
  intro i hi
  have := List.mem_range.mp hi
  rw [Nat.mod_eq_of_lt (by omega)]

/-- A read made in two pieces, the second one from address zero. -/
theorem read_split_eq_get (m : Mem) {L a n k : Nat} (hk : a + k = L) (hn : k ≤ n)
    (hL : n ≤ L) : m.read a k ++ m.read 0 (n - k) = get m L a n := by
  obtain ⟨r, rfl⟩ : ∃ r, n = k + r := ⟨n - k, by omega⟩
  rw [get_append, hk, Nat.mod_self, Nat.add_sub_cancel_left, get_eq_read m (by omega),
    get_eq_read m (by omega)]

/-- The two halves of what is read from position `a` on. -/
theorem get_eq_append {m : Mem} {L a : Nat} {bs cs : Bytes}
    (h : get m L a (bs.length + cs.length) = bs ++ cs) :
    get m L a bs.length = bs ∧ get m L ((a + bs.length) % L) cs.length = cs := by
  rw [get_append] at h
  exact List.append_inj h (by simp)

theorem get_put_same (m : Mem) {L a : Nat} {bs : Bytes} (ha : a < L) (hL : bs.length ≤ L) :
    get (put m L a bs) L a bs.length = bs := by
  apply List.ext_getElem (by simp)
  intro i h1 h2
  rw [get_getElem, put_at m ha hL h2]

theorem get_succ (m : Mem) {L a : Nat} (ha : a < L) (n : Nat) :
    get m L a (n + 1) = m a :: get m L ((a + 1) % L) n := by
  rw [Nat.add_comm, get_append]
  simp [get, Nat.mod_eq_of_lt ha]

/-- What lies behind `bs` survives when `bs` is stored. -/
theorem get_put_behind (m : Mem) {L a k n : Nat} {bs : Bytes} (ha : a < L) (hk : bs.length ≤ k)
    (hL : k + n ≤ L) : get (put m L a bs) L ((a + k) % L) n = get m L ((a + k) % L) n := by
  apply get_congr
  intro i hi
  rw [Nat.mod_add_mod, Nat.add_assoc]
  exact put_off m ha (by omega) (by omega)

/-- The `u` bytes from `h` on survive when `bs` is stored right after them. -/
theorem get_put_before (m : Mem) {L h u : Nat} {bs : Bytes} (hh : h < L)
    (hL : u + bs.length ≤ L) : get (put m L ((h + u) % L) bs) L h u = get m L h u := by
  apply get_congr
  intro i hi
  have hw : (h + i) % L < L := wrap_lt _ (by omega)
  simp only [put, offset_step hh (show u ≤ L by omega) hw, offset_wrap hh (show i < L by omega)]
  rw [if_neg (by simp only [hi, ↓reduceIte]; omega)]

end Lib.RingMemory
