import Mathlib.Data.Nat.Digits.Lemmas
import Wsmq.Lib.ByteString

/-! Decimal numerals as byte strings: of two numerals of one length, the smaller
number comes first in the lexicographic order. -/

namespace Lib.Decimal
open Lib.ByteString

def IsDigit (b : UInt8) : Prop := 48 ≤ b.toNat ∧ b.toNat ≤ 57

/-- The number that a numeral stands for. -/
def value : Bytes → Nat
  | [] => 0
  | b :: bs => (b.toNat - 48) * 10 ^ bs.length + value bs

theorem value_lt {bs : Bytes} (h : ∀ b ∈ bs, IsDigit b) : value bs < 10 ^ bs.length := by
  induction bs with
  | nil => exact Nat.one_pos
  | cons b bs ih =>
    have hb := h b List.mem_cons_self
    have hbs := ih fun c hc => h c (List.mem_cons_of_mem b hc)
    have hdigit : b.toNat - 48 ≤ 9 := by
      have hle := hb.2
      omega
    have hmul := Nat.mul_le_mul_right (10 ^ bs.length) hdigit
    rw [value, List.length_cons, pow_succ]
    omega

/-- Comparing the texts compares the numbers. -/
theorem lt_of_value_lt {as bs : Bytes} (hlen : as.length = bs.length)
    (has : ∀ b ∈ as, IsDigit b) (hbs : ∀ b ∈ bs, IsDigit b) (h : value as < value bs) :
    as < bs := by
  induction as generalizing bs with
  | nil =>
    obtain rfl := List.length_eq_zero_iff.mp hlen.symm
    exact absurd h (lt_irrefl _)
  | cons a as ih =>
    cases bs with
    | nil => cases hlen
    | cons b bs =>
      have hlen : as.length = bs.length := Nat.succ.inj hlen
      have ha := has a List.mem_cons_self
      have hb := hbs b List.mem_cons_self
      have has : ∀ c ∈ as, IsDigit c := fun c hc => has c (List.mem_cons_of_mem a hc)
      have hbs : ∀ c ∈ bs, IsDigit c := fun c hc => hbs c (List.mem_cons_of_mem b hc)
      rw [List.cons_lt_cons_iff, UInt8.lt_iff_toNat_lt]
      rw [value, value, hlen] at h
      rcases Nat.lt_trichotomy a.toNat b.toNat with hlt | heq | hgt
      · exact Or.inl hlt
      · rw [heq] at h
        exact Or.inr ⟨UInt8.toNat_inj.mp heq, ih hlen has hbs (by omega)⟩
      · -- a larger first digit outweighs what follows
        have hrest := value_lt hbs
        have hstep : b.toNat - 48 + 1 ≤ a.toNat - 48 := by
          have hlow := hb.1
          omega
        have hmul := Nat.mul_le_mul_right (10 ^ bs.length) hstep
        rw [Nat.add_mul, Nat.one_mul] at hmul
        omega

theorem value_replicate_zero (k : Nat) (bs : Bytes) :
    value (List.replicate k 48 ++ bs) = value bs := by
  induction k with
  | zero => rfl
  | succ k ih =>
    rw [List.replicate_succ, List.cons_append, value, ih]
    exact (congrArg (· + value bs) (Nat.zero_mul _)).trans (Nat.zero_add _)

theorem value_snoc (bs : Bytes) (b : UInt8) : value (bs ++ [b]) = value bs * 10 + (b.toNat - 48) := by
  induction bs with
  | nil => simp [value]
  | cons c bs ih =>
    rw [List.cons_append, value, ih, value, List.length_append, List.length_singleton, pow_succ]
    ring

/-- The digit byte of a number below ten. -/
def digit (d : Nat) : UInt8 := UInt8.ofNat (48 + d)

theorem toNat_digit {d : Nat} (h : d < 10) : (digit d).toNat = 48 + d := by
  have hmod : (48 + d) % 256 = 48 + d := Nat.mod_eq_of_lt (by omega)
  simpa [digit] using hmod

theorem isDigit_digit {d : Nat} (h : d < 10) : IsDigit (digit d) := by
  rw [IsDigit, toNat_digit h]
  omega

/-- Least significant digit first in `ds`. -/
theorem value_reverse {ds : List Nat} (h : ∀ d ∈ ds, d < 10) :
    value (ds.map digit).reverse = Nat.ofDigits 10 ds := by
  induction ds with
  | nil => rfl
  | cons d ds ih =>
    have hd := h d List.mem_cons_self
    have hds := ih fun e he => h e (List.mem_cons_of_mem d he)
    rw [List.map_cons, List.reverse_cons, value_snoc, hds, toNat_digit hd, Nat.ofDigits_cons,
      Nat.add_sub_cancel_left]
    ring

end Lib.Decimal
