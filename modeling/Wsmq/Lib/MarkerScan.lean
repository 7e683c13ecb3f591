import Mathlib.Data.List.Basic

/-! Search for the first `m` copies of a marker in a row. -/

namespace Lib.MarkerScan

variable {α : Type} [DecidableEq α]

/-- Letters read until `m` markers in a row were seen, when `count` of them stand before. -/
def markersEnd (a : α) (m : Nat) : Nat → List α → Option Nat
  | _, [] => none
  | count, b :: l =>
    let count := if b = a then count + 1 else 0
    if count = m then some 1 else (markersEnd a m count l).map (· + 1)

variable {a b : α} {m count : Nat} {l : List α}

theorem markersEnd_marker_full (h : count + 1 = m) : markersEnd a m count (a :: l) = some 1 := by
  simp [markersEnd, h]

theorem markersEnd_marker (h : count + 1 ≠ m) :
    markersEnd a m count (a :: l) = (markersEnd a m (count + 1) l).map (· + 1) := by
  simp [markersEnd, h]

theorem markersEnd_other (hb : b ≠ a) (hm : m ≠ 0) :
    markersEnd a m count (b :: l) = (markersEnd a m 0 l).map (· + 1) := by
  simp [markersEnd, hb, hm.symm]

theorem markersEnd_replicate (h : count < m) (n : Nat) :
    markersEnd a m count (List.replicate (m - count + n) a) = some (m - count) := by
  induction hk : m - count generalizing count with
  | zero => omega
  | succ k ih =>
    rw [Nat.add_right_comm, List.replicate_succ]
    by_cases hfull : count + 1 = m
    · rw [markersEnd_marker_full hfull, show k = 0 by omega]
    · rw [markersEnd_marker hfull, ih (by omega) (by omega)]
      rfl

/-- With `m` markers at its end every text has an end. -/
theorem markersEnd_append (h : count < m) (l : List α) :
    ∃ k ≤ l.length + m, markersEnd a m count (l ++ List.replicate m a) = some k := by
  induction l generalizing count with
  | nil =>
    have hend := markersEnd_replicate (a := a) h count
    rw [Nat.sub_add_cancel (Nat.le_of_lt h)] at hend
    exact ⟨m - count, by simp, hend⟩
  | cons b l ih =>
    rw [List.cons_append, List.length_cons]
    by_cases hb : b = a
    · subst hb
      by_cases hfull : count + 1 = m
      · exact ⟨1, by omega, markersEnd_marker_full hfull⟩
      · obtain ⟨k, hle, hk⟩ := ih (show count + 1 < m by omega)
        exact ⟨k + 1, by omega, by rw [markersEnd_marker hfull, hk]; rfl⟩
    · obtain ⟨k, hle, hk⟩ := ih (show 0 < m by omega)
      exact ⟨k + 1, by omega, by rw [markersEnd_other hb (by omega), hk]; rfl⟩

/-! ## Markers inside the text -/

omit [DecidableEq α] in
theorem not_prefix_of_replicate (hb : b ≠ a) (h : count < m) :
    ¬ List.replicate m a <+: List.replicate count a ++ b :: l := by
  induction count generalizing m with
  | zero =>
    obtain ⟨m, rfl⟩ := Nat.exists_eq_succ_of_ne_zero (Nat.ne_of_gt h)
    intro hpre
    rw [List.replicate_succ, List.replicate_zero, List.nil_append, List.cons_prefix_cons] at hpre
    exact hb hpre.1.symm
  | succ count ih =>
    obtain ⟨m, rfl⟩ := Nat.exists_eq_succ_of_ne_zero (Nat.ne_of_gt (Nat.zero_lt_of_lt h))
    intro hpre
    rw [List.replicate_succ, List.replicate_succ, List.cons_append, List.cons_prefix_cons] at hpre
    exact ih (by omega) hpre.2

omit [DecidableEq α] in
/-- Fewer markers than asked for do not help across another letter. -/
theorem replicate_infix_iff (hb : b ≠ a) (h : count < m) :
    List.replicate m a <:+: List.replicate count a ++ b :: l ↔ List.replicate m a <:+: l := by
  induction count with
  | zero =>
    rw [List.replicate_zero, List.nil_append, List.infix_cons_iff]
    exact or_iff_right (not_prefix_of_replicate (l := l) hb h)
  | succ count ih =>
    have hnot := not_prefix_of_replicate (l := l) hb h
    rw [List.replicate_succ, List.cons_append] at hnot ⊢
    rw [List.infix_cons_iff, or_iff_right hnot]
    exact ih (by omega)

theorem map_succ_eq_some_iff {o : Option Nat} {n : Nat} :
    o.map (· + 1) = some (n + 1) ↔ o = some n := by
  cases o <;> simp

/-- The markers at the end of the text are found where they stand, unless the text has as many
in a row or ends with one. -/
theorem markersEnd_append_iff (h : count < m) (l : List α) :
    markersEnd a m count (l ++ List.replicate m a) = some (l.length + m) ↔
      ¬ List.replicate m a <:+: List.replicate count a ++ l ∧
        (List.replicate count a ++ l).getLast? ≠ some a := by
  induction l generalizing count with
  | nil =>
    have hend := markersEnd_replicate (a := a) h count
    rw [Nat.sub_add_cancel (Nat.le_of_lt h)] at hend
    have hshort : ¬ List.replicate m a <:+: List.replicate count a := by
      intro hin
      have hle := hin.length_le
      simp only [List.length_replicate] at hle
      omega
    rw [List.nil_append, hend, List.append_nil, and_iff_right hshort, List.getLast?_replicate]
    simp only [List.length_nil, Option.some.injEq]
    split <;> simp <;> omega
  | cons b l ih =>
    rw [List.cons_append, List.length_cons, Nat.add_right_comm]
    by_cases hb : b = a
    · subst hb
      have hsame : List.replicate count b ++ b :: l = List.replicate (count + 1) b ++ l := by
        rw [List.replicate_succ', List.append_assoc]
        rfl
      rw [hsame]
      by_cases hfull : count + 1 = m
      · rw [markersEnd_marker_full hfull, hfull]
        refine iff_of_false (fun heq => ?_) (fun hnot => ?_)
        · have := Option.some.inj heq
          omega
        · exact hnot.1 (List.prefix_append _ _).isInfix
      · rw [markersEnd_marker hfull, map_succ_eq_some_iff]
        exact ih (by omega)
    · rw [markersEnd_other hb (by omega), replicate_infix_iff hb h]
      have hlast : (List.replicate count a ++ b :: l).getLast? = some a ↔ l.getLast? = some a := by
        rw [List.getLast?_append, List.getLast?_cons]
        cases l.getLast? <;> simp [hb]
      have hrest := ih (show 0 < m by omega)
      rw [List.replicate_zero, List.nil_append] at hrest
      rw [ne_eq, hlast, ← ne_eq, map_succ_eq_some_iff]
      exact hrest

end Lib.MarkerScan
