import Mathlib.Data.List.GetD
import Mathlib.Data.List.TakeWhile
import Mathlib.Tactic.Ring

/-! Byte strings: fixed-width big-endian numbers, two's complement, strings
that end at their first zero byte, and byte-addressed memory with block copies. -/

namespace Lib.ByteString

abbrev Bytes := List UInt8

/-! ## Big-endian numbers -/

/-- The `w` big-endian bytes of `n`; higher bits are dropped. -/
def be : Nat → Nat → Bytes
  | 0, _ => []
  | w + 1, n => UInt8.ofNat (n / 256 ^ w) :: be w n

def ofBe : Bytes → Nat
  | [] => 0
  | b :: bs => b.toNat * 256 ^ bs.length + ofBe bs

@[simp] theorem be_length (w n : Nat) : (be w n).length = w := by
  induction w with
  | zero => rfl
  | succ w ih => simp [be, ih]

theorem ofBe_be (w n : Nat) : ofBe (be w n) = n % 256 ^ w := by
  induction w with
  | zero => simp [be, ofBe, Nat.mod_one]
  | succ w ih =>
    have hb : (UInt8.ofNat (n / 256 ^ w)).toNat = n / 256 ^ w % 256 := by simp
    rw [be, ofBe, ih, hb, be_length, pow_succ, Nat.mod_mul, Nat.mul_comm, Nat.add_comm]

theorem ofBe_be_of_lt {w n : Nat} (h : n < 256 ^ w) : ofBe (be w n) = n := by
  rw [ofBe_be, Nat.mod_eq_of_lt h]

theorem ofBe_lt (bs : Bytes) : ofBe bs < 256 ^ bs.length := by
  induction bs with
  | nil => exact Nat.one_pos
  | cons b bs ih =>
    have hb := b.toNat_lt
    have hle : b.toNat * 256 ^ bs.length ≤ 255 * 256 ^ bs.length :=
      Nat.mul_le_mul_right _ (by omega)
    rw [ofBe, List.length_cons, pow_succ]
    omega

/-- A string of bytes is determined by its length and its value. -/
theorem ofBe_inj {bs cs : Bytes} (hlen : bs.length = cs.length) (h : ofBe bs = ofBe cs) :
    bs = cs := by
  induction bs generalizing cs with
  | nil => exact (List.length_eq_zero_iff.mp hlen.symm).symm
  | cons b bs ih =>
    cases cs with
    | nil => cases hlen
    | cons c cs =>
      have hlen : bs.length = cs.length := Nat.succ.inj hlen
      have hpos : 0 < 256 ^ cs.length := Nat.pow_pos (by decide)
      rw [ofBe, ofBe, hlen] at h
      have hb := congrArg (· / 256 ^ cs.length) h
      have hrest := congrArg (· % 256 ^ cs.length) h
      simp only [Nat.mul_add_mod_self_right, Nat.mod_eq_of_lt (ofBe_lt cs),
        Nat.mod_eq_of_lt (hlen ▸ ofBe_lt bs)] at hrest
      simp only [Nat.mul_comm _ (256 ^ cs.length), Nat.mul_add_div hpos,
        Nat.div_eq_of_lt (ofBe_lt cs), Nat.div_eq_of_lt (hlen ▸ ofBe_lt bs), Nat.add_zero] at hb
      rw [UInt8.toNat_inj.mp hb, ih hlen hrest]

theorem be_ofBe {w : Nat} {bs : Bytes} (h : bs.length = w) : be w (ofBe bs) = bs := by
  refine ofBe_inj ((be_length _ _).trans h.symm) (ofBe_be_of_lt ?_)
  rw [← h]
  exact ofBe_lt bs

/-! ## Two's complement -/

/-- The `w` big-endian bytes of a signed number. -/
def beInt (w : Nat) (v : Int) : Bytes := be w (v % (256 ^ w : Nat)).toNat

def ofBeInt (bs : Bytes) : Int := (ofBe bs : Int).bmod (256 ^ bs.length)

@[simp] theorem beInt_length (w : Nat) (v : Int) : (beInt w v).length = w := be_length _ _

/-- `v` is a signed number of `w` bytes. -/
def FitsInt (w : Nat) (v : Int) : Prop :=
  -((256 ^ w / 2 : Nat) : Int) ≤ v ∧ v < ((256 ^ w / 2 : Nat) : Int)

instance (w : Nat) (v : Int) : Decidable (FitsInt w v) :=
  inferInstanceAs (Decidable (_ ∧ _))

theorem bmod_pow_of_fits {w : Nat} {v : Int} (h : FitsInt w v) : v.bmod (256 ^ w) = v := by
  obtain ⟨h1, h2⟩ := h
  have hp : 0 < 256 ^ w := Nat.pow_pos (by decide)
  apply Int.bmod_eq_of_le <;> omega

theorem ofBeInt_beInt_bmod (w : Nat) (v : Int) : ofBeInt (beInt w v) = v.bmod (256 ^ w) := by
  have hp : (0 : Int) < (256 ^ w : Nat) := by exact_mod_cast Nat.pow_pos (by decide)
  have hn : 0 ≤ v % (256 ^ w : Nat) := Int.emod_nonneg _ (by omega)
  have hlt : v % (256 ^ w : Nat) < (256 ^ w : Nat) := Int.emod_lt_of_pos _ hp
  have hb : (v % (256 ^ w : Nat)).toNat < 256 ^ w := by omega
  rw [ofBeInt, beInt_length, beInt, ofBe_be_of_lt hb, Int.toNat_of_nonneg hn]
  exact Int.emod_bmod _ _

theorem ofBeInt_beInt {w : Nat} {v : Int} (h : FitsInt w v) : ofBeInt (beInt w v) = v := by
  rw [ofBeInt_beInt_bmod, bmod_pow_of_fits h]

theorem beInt_ofBeInt {w : Nat} {bs : Bytes} (h : bs.length = w) : beInt w (ofBeInt bs) = bs := by
  rw [beInt, ofBeInt, h, Int.bmod_emod, Int.emod_eq_of_lt (Int.natCast_nonneg _), Int.toNat_natCast,
    be_ofBe h]
  have hlt := ofBe_lt bs
  rw [h] at hlt
  exact_mod_cast hlt

/-- What is read from `w` bytes is a signed number of `w` bytes. -/
theorem fitsInt_ofBeInt {w : Nat} {bs : Bytes} (hw : 0 < w) (h : bs.length = w) :
    FitsInt w (ofBeInt bs) := by
  obtain ⟨k, rfl⟩ : ∃ k, w = k + 1 := ⟨w - 1, by omega⟩
  have hp : 0 < 256 ^ (k + 1) := Nat.pow_pos (by decide)
  have heven : 256 ^ (k + 1) = 2 * (256 ^ k * 128) := by rw [pow_succ]; omega
  have hlow := Int.le_bmod (x := (ofBe bs : Int)) hp
  have hhigh := Int.bmod_lt (x := (ofBe bs : Int)) hp
  rw [FitsInt, ofBeInt, h]
  omega

/-! ## Zero-terminated strings -/

/-- The string held by a buffer: the bytes before the first zero byte.  A buffer
with no zero byte holds no string. -/
def cstr (bs : Bytes) : Option Bytes :=
  if 0 ∈ bs then some (bs.takeWhile (· ≠ 0)) else none

/-- A string stored in a zeroed buffer of `n` bytes. -/
def pad (n : Nat) (s : Bytes) : Bytes := s ++ List.replicate (n - s.length) 0

theorem pad_length {n : Nat} {s : Bytes} (h : s.length ≤ n) : (pad n s).length = n := by
  simp only [pad, List.length_append, List.length_replicate]
  omega

theorem takeWhile_append_zero {s : Bytes} (h : 0 ∉ s) (t : Bytes) :
    (s ++ 0 :: t).takeWhile (· ≠ 0) = s := by
  induction s with
  | nil => simp
  | cons b s ih =>
    simp only [List.mem_cons, not_or] at h
    have hb : b ≠ 0 := fun e => h.1 e.symm
    rw [List.cons_append, List.takeWhile_cons_of_pos (by simpa using hb), ih h.2]

theorem cstr_append_zero {s : Bytes} (h : 0 ∉ s) (t : Bytes) :
    cstr (s ++ 0 :: t) = some s := by
  rw [cstr, if_pos (by simp), takeWhile_append_zero h]

theorem cstr_pad {n : Nat} {s : Bytes} (h : 0 ∉ s) (hn : s.length < n) :
    cstr (pad n s) = some s := by
  obtain ⟨k, hk⟩ : ∃ k, n - s.length = k + 1 := ⟨n - s.length - 1, by omega⟩
  rw [pad, hk, List.replicate_succ]
  exact cstr_append_zero h _

/-- The terminator is not part of the string. -/
theorem cstr_length {bs s : Bytes} (h : cstr bs = some s) : s.length < bs.length := by
  unfold cstr at h
  split at h
  · next hzero =>
    cases h
    have hpre : bs.takeWhile (· ≠ 0) <+: bs := List.takeWhile_prefix _
    refine Nat.lt_of_le_of_ne hpre.length_le fun hlen => ?_
    rw [← hpre.eq_of_length hlen] at hzero
    simpa using List.mem_takeWhile_imp hzero
  · cases h

theorem cstr_no_zero {bs s : Bytes} (h : cstr bs = some s) : 0 ∉ s := by
  unfold cstr at h
  split at h
  · cases h
    intro hm
    simpa using List.mem_takeWhile_imp hm
  · cases h

/-- A string comes back from a buffer exactly when a zero byte follows it. -/
theorem cstr_append_iff {s t : Bytes} : cstr (s ++ t) = some s ↔ 0 ∉ s ∧ t.head? = some 0 := by
  constructor
  · intro h
    refine ⟨cstr_no_zero h, ?_⟩
    cases t with
    | nil =>
      rw [List.append_nil] at h
      exact absurd (cstr_length h) (Nat.lt_irrefl _)
    | cons b t =>
      by_contra hb
      have hb : b ≠ 0 := fun heq => hb (congrArg some heq)
      have hs : ∀ x ∈ s, decide (x ≠ 0) = true := by
        intro x hx
        exact decide_eq_true fun heq => cstr_no_zero h (heq ▸ hx)
      unfold cstr at h
      split at h
      · have hlen := congrArg List.length (Option.some.inj h)
        rw [List.takeWhile_append_of_pos hs, List.takeWhile_cons_of_pos (by simpa using hb),
          List.length_append, List.length_cons] at hlen
        omega
      · cases h
  · rintro ⟨hzero, hnext⟩
    obtain ⟨t, rfl⟩ := List.head?_eq_some_iff.mp hnext
    exact cstr_append_zero hzero t

/-! ## Memory -/

/-- Byte-addressed memory; addresses are offsets from the base of one object. -/
abbrev Mem := Nat → UInt8

def Mem.read (m : Mem) (a n : Nat) : Bytes := (List.range n).map fun i => m (a + i)

/-- Block copy of `bs` to address `a`. -/
def Mem.write (m : Mem) (a : Nat) (bs : Bytes) : Mem :=
  fun x => if a ≤ x ∧ x < a + bs.length then bs.getD (x - a) 0 else m x

/-- Memory holding `bs` from address zero on, and zeros after it. -/
def Mem.ofBytes (bs : Bytes) : Mem := fun x => bs.getD x 0

@[simp] theorem Mem.read_length (m : Mem) (a n : Nat) : (m.read a n).length = n := by
  simp [Mem.read]

@[simp] theorem Mem.read_zero (m : Mem) (a : Nat) : m.read a 0 = [] := rfl

theorem Mem.read_getElem (m : Mem) (a n i : Nat) (h : i < (m.read a n).length) :
    (m.read a n)[i] = m (a + i) := by simp [Mem.read]

theorem Mem.read_append (m : Mem) (a n k : Nat) :
    m.read a (n + k) = m.read a n ++ m.read (a + n) k := by
  simp [Mem.read, List.range_add, Nat.add_assoc]

theorem Mem.read_eq_iff (m : Mem) (a : Nat) (bs : Bytes) :
    m.read a bs.length = bs ↔ ∀ i (h : i < bs.length), m (a + i) = bs[i] := by
  constructor
  · intro h i hi
    have hi' : i < (m.read a bs.length).length := by simpa using hi
    rw [← m.read_getElem a bs.length i hi']
    simp only [h]
  · intro h
    apply List.ext_getElem (by simp)
    intro i h1 h2
    rw [Mem.read_getElem, h i h2]

theorem Mem.read_congr {m m' : Mem} {a n : Nat} (h : ∀ i < n, m (a + i) = m' (a + i)) :
    m.read a n = m'.read a n :=
  List.map_congr_left fun i hi => h i (List.mem_range.mp hi)

theorem Mem.write_of_lt (m : Mem) {a x : Nat} (bs : Bytes) (h : x < a) : m.write a bs x = m x := by
  simp only [Mem.write]
  rw [if_neg]
  omega

theorem Mem.write_of_ge (m : Mem) {a x : Nat} (bs : Bytes) (h : a + bs.length ≤ x) :
    m.write a bs x = m x := by
  simp only [Mem.write]
  rw [if_neg]
  omega

theorem Mem.write_at (m : Mem) (a : Nat) (bs : Bytes) (i : Nat) (h : i < bs.length) :
    m.write a bs (a + i) = bs[i] := by
  simp only [Mem.write]
  rw [if_pos (by omega), Nat.add_sub_cancel_left, List.getD_eq_getElem _ _ h]

@[simp] theorem Mem.write_nil (m : Mem) (a : Nat) : m.write a [] = m := by
  funext x
  by_cases hx : x < a
  · exact m.write_of_lt _ hx
  · exact m.write_of_ge _ (by simp only [List.length_nil]; omega)

theorem Mem.read_write_same (m : Mem) (a : Nat) (bs : Bytes) :
    (m.write a bs).read a bs.length = bs :=
  (Mem.read_eq_iff _ _ _).mpr fun i hi => m.write_at a bs i hi

theorem Mem.ofBytes_append_left {bs : Bytes} {x : Nat} (h : x < bs.length) (cs : Bytes) :
    Mem.ofBytes (bs ++ cs) x = Mem.ofBytes bs x := by
  simp only [Mem.ofBytes, List.getD_eq_getElem?_getD, List.getElem?_append_left h]

theorem Mem.ofBytes_append_right (bs cs : Bytes) (x : Nat) :
    Mem.ofBytes (bs ++ cs) (bs.length + x) = Mem.ofBytes cs x := by
  simp only [Mem.ofBytes, List.getD_eq_getElem?_getD,
    List.getElem?_append_right (Nat.le_add_right _ _), Nat.add_sub_cancel_left]

/-- Reading inside the first part. -/
theorem Mem.read_ofBytes_left {bs : Bytes} {a n : Nat} (h : a + n ≤ bs.length) (cs : Bytes) :
    (Mem.ofBytes (bs ++ cs)).read a n = (Mem.ofBytes bs).read a n :=
  Mem.read_congr fun i hi => Mem.ofBytes_append_left (by omega) cs

/-- Reading inside the second part. -/
theorem Mem.read_ofBytes_right (bs cs : Bytes) (a n : Nat) :
    (Mem.ofBytes (bs ++ cs)).read (bs.length + a) n = (Mem.ofBytes cs).read a n := by
  refine List.map_congr_left fun i _ => ?_
  rw [Nat.add_assoc, Mem.ofBytes_append_right]

theorem Mem.read_ofBytes_append (pre bs post : Bytes) :
    (Mem.ofBytes (pre ++ bs ++ post)).read pre.length bs.length = bs := by
  rw [Mem.read_eq_iff]
  intro i hi
  simp only [Mem.ofBytes, List.getD_eq_getElem?_getD, List.append_assoc]
  rw [List.getElem?_append_right (by omega), Nat.add_sub_cancel_left,
    List.getElem?_append_left hi, List.getElem?_eq_getElem hi, Option.getD_some]

/-- Reading from a copy. -/
theorem Mem.read_ofBytes_read (m : Mem) (a : Nat) {n i k : Nat} (h : i + k ≤ n) :
    (Mem.ofBytes (m.read a n)).read i k = m.read (a + i) k := by
  refine List.map_congr_left fun j hj => ?_
  have hj := List.mem_range.mp hj
  have hin : i + j < (m.read a n).length := by
    rw [Mem.read_length]
    omega
  simp only [Mem.ofBytes, List.getD_eq_getElem _ _ hin, Mem.read_getElem, Nat.add_assoc]

end Lib.ByteString
