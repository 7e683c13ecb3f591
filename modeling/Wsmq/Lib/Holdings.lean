import Mathlib.Data.Multiset.UnionInter

/-!
# Items kept in places

`h p` are the items that the place `p` keeps.  `Transfer` lists what may happen to one item or
to one place: items are taken one by one from the places in `source`, all at once from any
place, and only a `fresh` item that is kept nowhere comes in.  So no item gets into two places
(`Single`), and what has left does not come back (`held_of_transfer`).
-/

namespace Lib.Holdings

variable {P M : Type} [DecidableEq P] {h h' : P → Multiset M} {p p' : P} {m m' : M}
  {s : Multiset M} {fresh : M → Prop} {source : P → Prop}

def Held (h : P → Multiset M) (m : M) : Prop := ∃ p, m ∈ h p

/-- No item is kept twice, be it in one place or in two. -/
structure Single (h : P → Multiset M) : Prop where
  nodup : ∀ p, (h p).Nodup
  disjoint : ∀ p p' m, m ∈ h p → m ∈ h p' → p = p'

inductive Transfer (fresh : M → Prop) (source : P → Prop) (h : P → Multiset M) :
    (P → Multiset M) → Prop
  | stay : Transfer fresh source h h
  /-- An item leaves. -/
  | take (p : P) (m : M) (s : Multiset M) (hsource : source p) (hp : h p = m ::ₘ s) :
      Transfer fresh source h (Function.update h p s)
  /-- An item changes its place. -/
  | move (p p' : P) (m : M) (s : Multiset M) (hsource : source p) (hp : h p = m ::ₘ s)
      (hne : p' ≠ p) :
      Transfer fresh source h (Function.update (Function.update h p s) p' (m ::ₘ h p'))
  /-- All items of a place leave. -/
  | empty (p : P) : Transfer fresh source h (Function.update h p 0)
  /-- A new item comes in. -/
  | put (p : P) (m : M) (hfresh : fresh m) (hnew : ¬ Held h m) :
      Transfer fresh source h (Function.update h p (m ::ₘ h p))

/-! ## Smaller and larger places -/

theorem mem_update (h : P → Multiset M) :
    m ∈ Function.update h p s p' ↔ (p' = p ∧ m ∈ s) ∨ (p' ≠ p ∧ m ∈ h p') := by
  by_cases hp : p' = p
  · subst hp
    simp
  · simp [hp]

theorem Single.shrink (hs : Single h) (hle : s ≤ h p) : Single (Function.update h p s) := by
  have hsub : ∀ q x, x ∈ Function.update h p s q → x ∈ h q := by
    intro q x hx
    rcases (mem_update h).mp hx with ⟨rfl, hin⟩ | ⟨_, hin⟩
    · exact Multiset.mem_of_le hle hin
    · exact hin
  refine ⟨fun q => ?_, fun q q' x hx hx' => hs.disjoint q q' x (hsub q x hx) (hsub q' x hx')⟩
  by_cases hq : q = p
  · subst hq
    rw [Function.update_self]
    exact Multiset.nodup_of_le hle (hs.nodup q)
  · rw [Function.update_of_ne hq]
    exact hs.nodup q

theorem Single.put (hs : Single h) (hnew : ¬ Held h m) :
    Single (Function.update h p (m ::ₘ h p)) := by
  have hold : ∀ q x, x ∈ Function.update h p (m ::ₘ h p) q → x ≠ m → x ∈ h q := by
    intro q x hx hne
    rcases (mem_update h).mp hx with ⟨rfl, hin⟩ | ⟨_, hin⟩
    · exact (Multiset.mem_cons.mp hin).resolve_left hne
    · exact hin
  have honly : ∀ q, m ∈ Function.update h p (m ::ₘ h p) q → q = p := by
    intro q hx
    rcases (mem_update h).mp hx with ⟨hq, _⟩ | ⟨_, hx⟩
    · exact hq
    · exact absurd ⟨q, hx⟩ hnew
  refine ⟨fun q => ?_, fun q q' x hx hx' => ?_⟩
  · by_cases hq : q = p
    · subst hq
      rw [Function.update_self]
      exact Multiset.nodup_cons.mpr ⟨fun hm => hnew ⟨q, hm⟩, hs.nodup q⟩
    · rw [Function.update_of_ne hq]
      exact hs.nodup q
  · by_cases hm : x = m
    · subst hm
      exact (honly q hx).trans (honly q' hx').symm
    · exact hs.disjoint q q' x (hold q x hx hm) (hold q' x hx' hm)

/-- An item that is taken from its only place is kept nowhere. -/
theorem Single.not_held_take (hs : Single h) (hp : h p = m ::ₘ s) :
    ¬ Held (Function.update h p s) m := by
  rintro ⟨q, hm⟩
  have hnodup := hs.nodup p
  rw [hp] at hnodup
  rcases (mem_update h).mp hm with ⟨_, hm⟩ | ⟨hne, hm⟩
  · exact (Multiset.nodup_cons.mp hnodup).1 hm
  · refine hne (hs.disjoint q p m hm ?_)
    rw [hp]
    exact Multiset.mem_cons_self m s

theorem Single.not_held_empty (hs : Single h) (hm : m ∈ h p) :
    ¬ Held (Function.update h p 0) m := by
  rintro ⟨q, hq⟩
  rcases (mem_update h).mp hq with ⟨_, hq⟩ | ⟨hne, hq⟩
  · exact Multiset.notMem_zero m hq
  · exact hne (hs.disjoint q p m hq hm)

/-! ## What transfers preserve -/

theorem single_of_transfer (hs : Single h) (ht : Transfer fresh source h h') : Single h' := by
  cases ht with
  | stay => exact hs
  | take p m s _ hp => exact hs.shrink (hp ▸ Multiset.le_cons_self s m)
  | move p p' m s _ hp hne =>
    have htaken : Single (Function.update h p s) := hs.shrink (hp ▸ Multiset.le_cons_self s m)
    have hput := htaken.put (p := p') (hs.not_held_take hp)
    rwa [Function.update_of_ne hne] at hput
  | empty p => exact hs.shrink (Multiset.zero_le _)
  | put p m _ hnew => exact hs.put hnew

/-- What is kept after a transfer was kept before or is fresh. -/
theorem held_of_transfer (ht : Transfer fresh source h h') (hm : Held h' m') :
    Held h m' ∨ fresh m' := by
  obtain ⟨q, hq⟩ := hm
  cases ht with
  | stay => exact Or.inl ⟨q, hq⟩
  | take p m s _ hp =>
    rcases (mem_update h).mp hq with ⟨rfl, hin⟩ | ⟨_, hin⟩
    · exact Or.inl ⟨q, hp ▸ Multiset.mem_cons_of_mem hin⟩
    · exact Or.inl ⟨q, hin⟩
  | move p p' m s _ hp hne =>
    rcases (mem_update _).mp hq with ⟨rfl, hin⟩ | ⟨_, hin⟩
    · rcases Multiset.mem_cons.mp hin with rfl | hin
      · exact Or.inl ⟨p, hp ▸ Multiset.mem_cons_self m' s⟩
      · exact Or.inl ⟨q, hin⟩
    · rcases (mem_update h).mp hin with ⟨rfl, hold⟩ | ⟨_, hold⟩
      · exact Or.inl ⟨q, hp ▸ Multiset.mem_cons_of_mem hold⟩
      · exact Or.inl ⟨q, hold⟩
  | empty p =>
    rcases (mem_update h).mp hq with ⟨_, hin⟩ | ⟨_, hin⟩
    · exact absurd hin (Multiset.notMem_zero m')
    · exact Or.inl ⟨q, hin⟩
  | put p m hfresh _ =>
    rcases (mem_update h).mp hq with ⟨rfl, hin⟩ | ⟨_, hin⟩
    · rcases Multiset.mem_cons.mp hin with rfl | hin
      · exact Or.inr hfresh
      · exact Or.inl ⟨q, hin⟩
    · exact Or.inl ⟨q, hin⟩

/-- Where items are not taken one by one, an item stays or is kept nowhere any more. -/
theorem mem_or_gone (hs : Single h) (ht : Transfer fresh source h h') (hm : m ∈ h p)
    (hp : ¬ source p) : m ∈ h' p ∨ ¬ Held h' m := by
  have hother : ∀ q s, source q → m ∈ Function.update h q s p := by
    intro q s hq
    refine (mem_update h).mpr (Or.inr ⟨?_, hm⟩)
    rintro rfl
    exact hp hq
  cases ht with
  | stay => exact Or.inl hm
  | take q x s hsource _ => exact Or.inl (hother q s hsource)
  | move q q' x s hsource _ _ =>
    refine Or.inl ((mem_update _).mpr ?_)
    by_cases hq : p = q'
    · subst hq
      exact Or.inl ⟨rfl, Multiset.mem_cons_of_mem hm⟩
    · exact Or.inr ⟨hq, hother q s hsource⟩
  | empty q =>
    by_cases hq : p = q
    · subst hq
      exact Or.inr (hs.not_held_empty hm)
    · exact Or.inl ((mem_update h).mpr (Or.inr ⟨hq, hm⟩))
  | put q x _ _ =>
    refine Or.inl ((mem_update h).mpr ?_)
    by_cases hq : p = q
    · subst hq
      exact Or.inl ⟨rfl, Multiset.mem_cons_of_mem hm⟩
    · exact Or.inr ⟨hq, hm⟩

end Lib.Holdings
