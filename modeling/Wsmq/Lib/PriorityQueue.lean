import Mathlib.Data.List.Perm.Basic

/-! Priority queues as a language library promises them: what leaves is stored
and of maximal key; which of several such items it is, is left open. -/

namespace Lib

structure PriorityQueue (α : Type) (key : α → Int) where
  /-- The contents, with whatever order the library keeps. -/
  Heap : Type
  items : Heap → List α
  empty : Heap
  push : Heap → α → Heap
  pop : Heap → Option (α × Heap)
  items_empty : items empty = []
  items_push (h : Heap) (a : α) : (items (push h a)).Perm (a :: items h)
  pop_none (h : Heap) : pop h = none ↔ items h = []
  pop_some {h t : Heap} {a : α} (e : pop h = some (a, t)) :
    (items h).Perm (a :: items t) ∧ ∀ b ∈ items h, key b ≤ key a

namespace PriorityQueue

variable {α : Type} {key : α → Int}

/-- Take the first item of maximal key out of a list. -/
def takeMax (key : α → Int) : List α → Option (α × List α)
  | [] => none
  | a :: as =>
    match takeMax key as with
    | none => some (a, [])
    | some (b, bs) => if key b ≤ key a then some (a, as) else some (b, a :: bs)

theorem takeMax_none (l : List α) : takeMax key l = none ↔ l = [] := by
  cases l with
  | nil => simp [takeMax]
  | cons a as =>
    simp only [takeMax, reduceCtorEq, iff_false]
    split
    · simp
    · split <;> simp

theorem takeMax_some {l t : List α} {a : α} (e : takeMax key l = some (a, t)) :
    l.Perm (a :: t) ∧ ∀ b ∈ l, key b ≤ key a := by
  induction l generalizing a t with
  | nil => cases e
  | cons c cs ih =>
    simp only [takeMax] at e
    split at e
    · next hn =>
      cases e
      rw [(takeMax_none cs).mp hn]
      simp
    · next b bs hs =>
      obtain ⟨hperm, hmax⟩ := ih hs
      split at e
      · next hle =>
        cases e
        refine ⟨.refl _, fun x hx => ?_⟩
        rcases List.mem_cons.mp hx with rfl | hx
        · exact Int.le_refl _
        · exact Int.le_trans (hmax x hx) hle
      · next hle =>
        cases e
        refine ⟨(hperm.cons c).trans (.swap _ _ _), fun x hx => ?_⟩
        rcases List.mem_cons.mp hx with rfl | hx
        · omega
        · exact hmax x hx

/-- A list searched at every `pop`. -/
def ofList (α : Type) (key : α → Int) : PriorityQueue α key where
  Heap := List α
  items := id
  empty := []
  push l a := a :: l
  pop := takeMax key
  items_empty := rfl
  items_push _ _ := .refl _
  pop_none := takeMax_none
  pop_some := takeMax_some

end PriorityQueue

end Lib
