import Mathlib.Data.List.AList

/-! Association lists in which an entry is replaced. -/

namespace Lib.AssocTables
open List

variable {α : Type} {β : α → Type} [DecidableEq α] {a a' : α} {b : β a}

theorem kreplace_cons_eq (l : List (Sigma β)) (c : β a) :
    kreplace a b (⟨a, c⟩ :: l) = ⟨a, b⟩ :: l := by
  rw [kreplace, lookmap_cons_some]
  exact if_pos rfl

theorem kreplace_cons_ne {l : List (Sigma β)} {e : Sigma β} (h : a ≠ e.1) :
    kreplace a b (e :: l) = e :: kreplace a b l := by
  have hnone : (if a = e.1 then some (⟨a, b⟩ : Sigma β) else none) = none := if_neg h
  rw [kreplace]
  exact lookmap_cons_none _ _ hnone

theorem dlookup_kreplace_self (l : List (Sigma β)) (h : a ∈ l.keys) :
    dlookup a (kreplace a b l) = some b := by
  induction l with
  | nil => cases h
  | cons e l ih =>
    obtain ⟨c, v⟩ := e
    by_cases hc : a = c
    · subst hc
      rw [kreplace_cons_eq, dlookup_cons_eq]
    · have hin : a ∈ l.keys := (List.mem_cons.mp h).resolve_left hc
      rw [kreplace_cons_ne hc, dlookup_cons_ne _ _ hc, ih hin]

theorem dlookup_kreplace_ne (h : a' ≠ a) (l : List (Sigma β)) :
    dlookup a' (kreplace a b l) = dlookup a' l := by
  induction l with
  | nil => rfl
  | cons e l ih =>
    obtain ⟨c, v⟩ := e
    by_cases hc : a = c
    · subst hc
      rw [kreplace_cons_eq, dlookup_cons_ne _ _ h, dlookup_cons_ne _ _ h]
    · rw [kreplace_cons_ne hc]
      by_cases hc' : a' = c
      · subst hc'
        rw [dlookup_cons_eq, dlookup_cons_eq]
      · rw [dlookup_cons_ne _ _ hc', dlookup_cons_ne _ _ hc', ih]

theorem lookup_replace_self {s : AList β} (h : a ∈ s) : (s.replace a b).lookup a = some b :=
  dlookup_kreplace_self s.entries h

theorem lookup_replace_ne {s : AList β} (h : a' ≠ a) : (s.replace a b).lookup a' = s.lookup a' :=
  dlookup_kreplace_ne h s.entries

/-- Nothing changes when an entry is replaced by itself. -/
theorem replace_of_lookup {s : AList β} (h : s.lookup a = some b) : s.replace a b = s :=
  AList.ext (kreplace_self s.nodupKeys (of_mem_dlookup h))

/-! ## Entries of a changed table -/

theorem lookup_erase_some {s : AList β} {v : β a'} (h : (s.erase a).lookup a' = some v) :
    a' ≠ a ∧ s.lookup a' = some v := by
  by_cases hk : a' = a
  · subst hk
    rw [AList.lookup_erase] at h
    cases h
  · rw [AList.lookup_erase_ne hk] at h
    exact ⟨hk, h⟩

section Plain

variable {V : Type} {s : AList fun _ : α => V} {v w : V}

theorem lookup_insert_some (h : (s.insert a v).lookup a' = some w) :
    (a' = a ∧ w = v) ∨ (a' ≠ a ∧ s.lookup a' = some w) := by
  by_cases hk : a' = a
  · subst hk
    rw [AList.lookup_insert] at h
    exact Or.inl ⟨rfl, (Option.some.inj h).symm⟩
  · rw [AList.lookup_insert_ne hk] at h
    exact Or.inr ⟨hk, h⟩

theorem lookup_replace_some (hin : a ∈ s) (h : (s.replace a v).lookup a' = some w) :
    (a' = a ∧ w = v) ∨ (a' ≠ a ∧ s.lookup a' = some w) := by
  by_cases hk : a' = a
  · subst hk
    rw [lookup_replace_self hin] at h
    exact Or.inl ⟨rfl, (Option.some.inj h).symm⟩
  · rw [lookup_replace_ne hk] at h
    exact Or.inr ⟨hk, h⟩

/-- Erasing the keys of some entries, one after the other. -/
theorem lookup_foldl_erase (p : (Σ _ : α, V) → Prop) [DecidablePred p] (es : List (Σ _ : α, V))
    (h : (es.foldl (fun m e => if p e then m.erase e.1 else m) s).lookup a = some v) :
    s.lookup a = some v ∧ ∀ e ∈ es, e.1 = a → ¬ p e := by
  induction es generalizing s with
  | nil => exact ⟨h, fun _ he => nomatch he⟩
  | cons e es ih =>
    obtain ⟨hrest, hkept⟩ := ih h
    dsimp only at hrest
    by_cases hp : p e
    · rw [if_pos hp] at hrest
      obtain ⟨hne, hlookup⟩ := lookup_erase_some hrest
      refine ⟨hlookup, fun e' he' hkey => ?_⟩
      rcases List.mem_cons.mp he' with rfl | he'
      · exact absurd hkey.symm hne
      · exact hkept e' he' hkey
    · rw [if_neg hp] at hrest
      refine ⟨hrest, fun e' he' hkey => ?_⟩
      rcases List.mem_cons.mp he' with rfl | he'
      · exact hp
      · exact hkept e' he' hkey

/-- What none of the entries takes away stays. -/
theorem lookup_foldl_erase_of (p : (Σ _ : α, V) → Prop) [DecidablePred p] (es : List (Σ _ : α, V))
    (h : s.lookup a = some v) (hkept : ∀ e ∈ es, e.1 = a → ¬ p e) :
    (es.foldl (fun m e => if p e then m.erase e.1 else m) s).lookup a = some v := by
  induction es generalizing s with
  | nil => exact h
  | cons e es ih =>
    refine ih ?_ fun e' he' => hkept e' (List.mem_cons_of_mem _ he')
    dsimp only
    by_cases hp : p e
    · have hne : a ≠ e.1 := fun ha => hkept e List.mem_cons_self ha.symm hp
      rw [if_pos hp, AList.lookup_erase_ne hne]
      exact h
    · rw [if_neg hp]
      exact h

/-- A key stands for one entry. -/
theorem filter_key (l : List (Σ _ : α, V)) (h : l.NodupKeys) (a : α) :
    (l.filter fun e => e.1 = a) = ((dlookup a l).map fun v => (⟨a, v⟩ : Σ _ : α, V)).toList := by
  induction l with
  | nil => rfl
  | cons e l ih =>
    obtain ⟨c, v⟩ := e
    obtain ⟨hc, hl⟩ := nodupKeys_cons.mp h
    by_cases hca : c = a
    · subst hca
      have hself : decide ((⟨c, v⟩ : Σ _ : α, V).1 = c) = true := decide_eq_true rfl
      rw [List.filter_cons, if_pos hself, ih hl, dlookup_eq_none.mpr hc, dlookup_cons_eq]
      rfl
    · have hother : ¬ decide ((⟨c, v⟩ : Σ _ : α, V).1 = a) = true := by simpa using hca
      rw [List.filter_cons, if_neg hother, ih hl, dlookup_cons_ne _ _ (Ne.symm hca)]

end Plain

end Lib.AssocTables
