import Mathlib.Data.List.Basic

/-! Search for the places where a word occurs in a text, and loops that try one place after the
other and go on behind it. -/

namespace Lib.Search

section Find

variable {α : Type} [DecidableEq α] {pat text : List α} {t p k : Nat}

/-- Where the word first occurs. -/
def find (pat : List α) : List α → Option Nat
  | [] => if pat = [] then some 0 else none
  | a :: text => if pat <+: a :: text then some 0 else (find pat text).map (· + 1)

def Occurs (text pat : List α) (p : Nat) : Prop := pat <+: text.drop p

instance (text pat : List α) (p : Nat) : Decidable (Occurs text pat p) :=
  inferInstanceAs (Decidable (_ <+: _))

omit [DecidableEq α] in
theorem Occurs.fits (h : Occurs text pat p) (hpat : pat ≠ []) :
    p + pat.length ≤ text.length := by
  have hle := h.length_le
  have hpos := List.length_pos_iff.mpr hpat
  rw [List.length_drop] at hle
  omega

omit [DecidableEq α] in
/-- The letters of the word are in the text. -/
theorem Occurs.getElem? (h : Occurs text pat p) (hk : k < pat.length) :
    text[p + k]? = pat[k]? := by
  obtain ⟨rest, hrest⟩ := h
  have hdrop : (text.drop p)[k]? = text[p + k]? := List.getElem?_drop
  rw [← hdrop, ← hrest, List.getElem?_append_left hk]

omit [DecidableEq α] in
theorem Occurs.mem (h : Occurs text pat p) (hle : p ≤ k) (hlt : k < p + pat.length) {a : α}
    (ha : text[k]? = some a) : a ∈ pat := by
  obtain ⟨i, rfl⟩ := Nat.exists_eq_add_of_le hle
  rw [h.getElem? (by omega)] at ha
  exact List.mem_of_getElem? ha

omit [DecidableEq α] in
theorem occurs_cons {a : α} :
    Occurs text (a :: pat) p ↔ text[p]? = some a ∧ Occurs text pat (p + 1) := by
  rw [Occurs, Occurs, ← List.tail_drop, ← List.head?_drop]
  cases text.drop p with
  | nil => simp
  | cons b rest => rw [List.cons_prefix_cons, List.head?_cons, Option.some_inj, List.tail_cons,
      eq_comm]

omit [DecidableEq α] in
theorem occurs_singleton {a : α} : Occurs text [a] p ↔ text[p]? = some a := by
  rw [occurs_cons]
  exact and_iff_left List.nil_prefix

omit [DecidableEq α] in
theorem occurs_append {pat' : List α} :
    Occurs text (pat ++ pat') p ↔ Occurs text pat p ∧ Occurs text pat' (p + pat.length) := by
  induction pat generalizing p with
  | nil => exact (and_iff_right List.nil_prefix).symm
  | cons a pat ih =>
    rw [List.cons_append, occurs_cons, occurs_cons, ih, and_assoc, List.length_cons,
      Nat.add_right_comm, Nat.add_assoc p]

/-- `p` is the first of the places from `t` on. -/
structure IsNext (place : Nat → Prop) (t p : Nat) : Prop where
  le : t ≤ p
  here : place p
  first : ∀ q, t ≤ q → q < p → ¬ place q

theorem find_spec (pat text : List α) : match find pat text with
    | some p => IsNext (Occurs text pat) 0 p
    | none => ∀ p, ¬ Occurs text pat p := by
  induction text with
  | nil =>
    rw [find]
    split
    · next p hp =>
      split at hp
      · next hnil =>
        cases hp
        exact ⟨Nat.le_refl _, hnil ▸ List.nil_prefix, fun q _ hq => absurd hq (Nat.not_lt_zero q)⟩
      · cases hp
    · next hp =>
      split at hp
      · cases hp
      · next hne =>
        intro p hocc
        rw [Occurs, List.drop_nil] at hocc
        exact hne (List.prefix_nil.mp hocc)
  | cons a text ih =>
    rw [find]
    by_cases hpre : pat <+: a :: text
    · rw [if_pos hpre]
      exact ⟨Nat.le_refl _, hpre, fun q _ hq => absurd hq (Nat.not_lt_zero q)⟩
    rw [if_neg hpre]
    cases hfind : find pat text with
    | none =>
      rw [hfind] at ih
      intro p hocc
      cases p with
      | zero => exact hpre hocc
      | succ p => exact ih p hocc
    | some p =>
      rw [hfind] at ih
      refine ⟨Nat.zero_le _, ih.here, fun q _ hq hocc => ?_⟩
      cases q with
      | zero => exact hpre hocc
      | succ q => exact ih.first q (Nat.zero_le q) (Nat.lt_of_succ_lt_succ hq) hocc

/-- The search from `t` on. -/
def findFrom (pat text : List α) (t : Nat) : Option Nat := (find pat (text.drop t)).map (t + ·)

omit [DecidableEq α] in
theorem occurs_drop : Occurs (text.drop t) pat k ↔ Occurs text pat (t + k) := by
  rw [Occurs, Occurs, List.drop_drop]

theorem findFrom_some (h : findFrom pat text t = some p) : IsNext (Occurs text pat) t p := by
  obtain ⟨k, hk, rfl⟩ := Option.map_eq_some_iff.mp h
  have hspec := find_spec pat (text.drop t)
  rw [hk] at hspec
  refine ⟨Nat.le_add_right _ _, occurs_drop.mp hspec.here, fun q hle hlt hocc => ?_⟩
  obtain ⟨j, rfl⟩ := Nat.exists_eq_add_of_le hle
  exact hspec.first j (Nat.zero_le j) (by omega) (occurs_drop.mpr hocc)

theorem findFrom_none (h : findFrom pat text t = none) (hp : t ≤ p) : ¬ Occurs text pat p := by
  have hspec := find_spec pat (text.drop t)
  rw [Option.map_eq_none_iff.mp h] at hspec
  obtain ⟨k, rfl⟩ := Nat.exists_eq_add_of_le hp
  exact fun hocc => hspec k (occurs_drop.mpr hocc)

end Find

/-! ## Searching loops -/

inductive Located
  /-- There is no further place, or one at which the loop gives up. -/
  | failed
  /-- The end of the text is reached behind a place. -/
  | ranOut (t : Nat)
  | found (p : Nat)
  deriving DecidableEq

section Loop

/-- Places of `len` letters in a text of `size` letters are tried until one is right.  Without a
result there are more than so many rounds. -/
def locate (next : Nat → Option Nat) (size len : Nat) (gives right : Nat → Prop)
    [DecidablePred gives] [DecidablePred right] : Nat → Nat → Option Located
  | 0, _ => none
  | n + 1, t =>
    if t < size then
      match next t with
      | none => some .failed
      | some p =>
        if gives p then some .failed
        else if right p then some (.found p)
        else locate next size len gives right n (p + len)
    else some (.ranOut t)

/-- The places that are found one behind the other do not overlap, and the last one ends with the
text. -/
inductive RunsOut (place : Nat → Prop) (size len : Nat) : Nat → Prop
  | last {t p : Nat} (h : IsNext place t p) (hend : p + len = size) : RunsOut place size len t
  | skip {t p : Nat} (h : IsNext place t p) (hmore : RunsOut place size len (p + len)) :
      RunsOut place size len t

theorem IsNext.unique {place : Nat → Prop} {t p p' : Nat} (h : IsNext place t p)
    (h' : IsNext place t p') : p = p' := by
  rcases Nat.lt_trichotomy p p' with hlt | heq | hgt
  · exact absurd h.here (h'.first p h.le hlt)
  · exact heq
  · exact absurd h'.here (h.first p' h'.le hgt)

/-- What the end of the loop says about the places from `t` on. -/
inductive LocatedFrom (place : Nat → Prop) (size len : Nat) (gives right : Nat → Prop) (t : Nat) :
    Located → Prop
  | gaveUp {p : Nat} (hle : t ≤ p) (hplace : place p) (hgives : gives p)
      (hnone : ∀ q, t ≤ q → q < p → place q → ¬ right q) :
      LocatedFrom place size len gives right t .failed
  | failed (hnone : ∀ q, t ≤ q → place q → ¬ right q) (hruns : ¬ RunsOut place size len t) :
      LocatedFrom place size len gives right t .failed
  | ranOut {p : Nat} (hlast : place p) (hend : p + len = size) (hgo : ¬ gives p)
      (hnone : ∀ q, t ≤ q → place q → ¬ right q) (hruns : RunsOut place size len t) :
      LocatedFrom place size len gives right t (.ranOut size)
  | found {p : Nat} (hplace : IsNext (fun q => place q ∧ right q) t p) (hgo : ¬ gives p) :
      LocatedFrom place size len gives right t (.found p)

section Places

variable {place gives right : Nat → Prop} {size len t p : Nat}

/-- Up to the end of a place that is not right there is no right one. -/
theorem IsNext.skip (hp : IsNext place t p) (hright : ¬ right p)
    (hapart : ∀ p q, place p → place q → ¬ right p → p < q → q < p + len → ¬ right q) :
    ∀ q, t ≤ q → q < p + len → place q → ¬ right q := by
  intro q hq hlt hplace
  rcases Nat.lt_trichotomy q p with hbefore | rfl | hbehind
  · exact absurd hplace (hp.first q hq hbefore)
  · exact hright
  · exact hapart p q hp.here hplace hright hbehind hlt

/-- What holds from the end of a place on, holds from before it. -/
theorem LocatedFrom.of_behind {r : Located} (hp : IsNext place t p) (hend : p + len ≠ size)
    (hskip : ∀ q, t ≤ q → q < p + len → place q → ¬ right q)
    (h : LocatedFrom place size len gives right (p + len) r) :
    LocatedFrom place size len gives right t r := by
  have hpos := hp.le
  have hall : ∀ q, t ≤ q → (p + len ≤ q → place q → ¬ right q) → place q → ¬ right q := by
    intro q hq hbehind hplace
    rcases Nat.lt_or_ge q (p + len) with hlt | hge
    · exact hskip q hq hlt hplace
    · exact hbehind hge hplace
  cases h with
  | gaveUp hle hplace hgives hnone =>
    exact .gaveUp (by omega) hplace hgives fun q hq hlt => hall q hq fun hge => hnone q hge hlt
  | failed hnone hruns =>
    refine .failed (fun q hq => hall q hq (hnone q)) fun hruns' => hruns ?_
    cases hruns' with
    | last h hend' => exact absurd hend' (h.unique hp ▸ hend)
    | skip h hmore => exact h.unique hp ▸ hmore
  | ranOut hlast hend' hgo hnone hruns =>
    exact .ranOut hlast hend' hgo (fun q hq => hall q hq (hnone q)) (.skip hp hruns)
  | found hplace hgo =>
    have hge := hplace.le
    refine .found ⟨by omega, hplace.here, fun q hq hlt hboth => ?_⟩ hgo
    exact hall q hq (fun hge hq' hr' => hplace.first q hge hlt ⟨hq', hr'⟩) hboth.1 hboth.2

end Places

variable {next : Nat → Option Nat} {place gives right : Nat → Prop} {size len t n : Nat}
  [DecidablePred gives] [DecidablePred right]

/-- Where a right place never overlaps one that is not, none is missed. -/
theorem locate_spec (hlen : 0 < len)
    (hsome : ∀ t p, next t = some p → IsNext place t p)
    (hnone : ∀ t, next t = none → ∀ p, t ≤ p → ¬ place p)
    (hfits : ∀ p, place p → p + len ≤ size)
    (hapart : ∀ p q, place p → place q → ¬ right p → p < q → q < p + len → ¬ right q)
    (ht : t < size) (hn : size < t + n) :
    ∃ r, locate next size len gives right n t = some r ∧
      LocatedFrom place size len gives right t r := by
  induction n generalizing t with
  | zero => omega
  | succ n ih =>
    rw [locate, if_pos ht]
    cases hnext : next t with
    | none =>
      refine ⟨_, rfl, .failed (fun q hle hq => absurd hq (hnone t hnext q hle)) fun hruns => ?_⟩
      cases hruns with
      | last h hend => exact hnone t hnext _ h.le h.here
      | skip h hmore => exact hnone t hnext _ h.le h.here
    | some p =>
      have hp := hsome t p hnext
      have hfit := hfits p hp.here
      have hle := hp.le
      dsimp only
      by_cases hgives : gives p
      · rw [if_pos hgives]
        exact ⟨_, rfl, .gaveUp hp.le hp.here hgives fun q hq hlt hplace =>
          absurd hplace (hp.first q hq hlt)⟩
      rw [if_neg hgives]
      by_cases hright : right p
      · rw [if_pos hright]
        exact ⟨_, rfl, .found ⟨hp.le, ⟨hp.here, hright⟩, fun q hq hlt hplace =>
          hp.first q hq hlt hplace.1⟩ hgives⟩
      rw [if_neg hright]
      have hskip := hp.skip hright hapart
      by_cases hend : p + len = size
      · refine ⟨.ranOut size, ?_, .ranOut hp.here hend hgives (fun q hq hplace => ?_)
          (.last hp hend)⟩
        · cases n with
          | zero => omega
          | succ n => rw [locate, if_neg (by omega), hend]
        · have hfit' := hfits q hplace
          exact hskip q hq (by omega) hplace
      · obtain ⟨r, hr, hlocated⟩ := ih (t := p + len) (by omega) (by omega)
        exact ⟨r, hr, hlocated.of_behind hp hend hskip⟩

end Loop

end Lib.Search
