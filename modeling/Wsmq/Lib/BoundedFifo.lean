import Mathlib.Algebra.GroupWithZero.Nat
import Mathlib.Algebra.Order.BigOperators.Group.List
import Mathlib.Data.List.Basic

/-! First-in-first-out queues with a bound on the total cost of their items. -/

namespace Lib.Fifo

/-- `n` cost units fit into capacity `cap`; no capacity means no bound. -/
def Fits (cap : Option Nat) (n : Nat) : Prop := ∀ c, cap = some c → n ≤ c

instance (cap : Option Nat) (n : Nat) : Decidable (Fits cap n) :=
  match cap with
  | none => isTrue fun _ h => nomatch h
  | some c => decidable_of_iff (n ≤ c) ⟨fun h _ e => Option.some.inj e ▸ h, fun h => h c rfl⟩

@[simp] theorem fits_some (c n : Nat) : Fits (some c) n ↔ n ≤ c :=
  ⟨fun h => h c rfl, fun h _ e => Option.some.inj e ▸ h⟩

@[simp] theorem fits_none (n : Nat) : Fits none n := fun _ h => nomatch h

theorem Fits.mono {cap : Option Nat} {m n : Nat} (h : Fits cap n) (hle : m ≤ n) : Fits cap m :=
  fun c hc => hle.trans (h c hc)

variable {α : Type} {cost : α → Nat}

/-- Total cost of a list of items. -/
def total (cost : α → Nat) (items : List α) : Nat := (items.map cost).sum

@[simp] theorem total_nil : total cost ([] : List α) = 0 := rfl

@[simp] theorem total_cons (a : α) (as : List α) :
    total cost (a :: as) = cost a + total cost as := by simp [total]

@[simp] theorem total_append (as bs : List α) :
    total cost (as ++ bs) = total cost as + total cost bs := by simp [total]

/-- The items are the oldest first; what is stored always fits. -/
structure BoundedFifo (α : Type) (cost : α → Nat) where
  cap : Option Nat
  items : List α
  fits : Fits cap (total cost items)

namespace BoundedFifo

def empty (cap : Option Nat) : BoundedFifo α cost := ⟨cap, [], fun _ _ => Nat.zero_le _⟩

/-- Append `a`, or nothing when it does not fit. -/
def enqueue (q : BoundedFifo α cost) (a : α) : Option (BoundedFifo α cost) :=
  if h : Fits q.cap (total cost q.items + cost a) then
    some ⟨q.cap, q.items ++ [a], by simpa using h⟩
  else none

theorem Fits.tail {cap : Option Nat} {a : α} {as : List α}
    (h : Fits cap (total cost (a :: as))) : Fits cap (total cost as) := by
  refine h.mono ?_
  rw [total_cons]
  exact Nat.le_add_left _ _

/-- Remove the oldest item. -/
def dequeue (q : BoundedFifo α cost) : Option (α × BoundedFifo α cost) :=
  match q.items, q.fits with
  | [], _ => none
  | a :: as, h => some (a, ⟨q.cap, as, Fits.tail h⟩)

@[ext] theorem ext {p q : BoundedFifo α cost} (hc : p.cap = q.cap) (hi : p.items = q.items) :
    p = q := by
  cases p; cases q; simp_all

theorem enqueue_of_fits {q : BoundedFifo α cost} {a : α}
    (h : Fits q.cap (total cost q.items + cost a)) :
    ∃ q', q.enqueue a = some q' ∧ q'.cap = q.cap ∧ q'.items = q.items ++ [a] :=
  ⟨_, dif_pos h, rfl, rfl⟩

theorem enqueue_eq_none_iff {q : BoundedFifo α cost} {a : α} :
    q.enqueue a = none ↔ ¬ Fits q.cap (total cost q.items + cost a) := by
  unfold enqueue
  split <;> simp_all

theorem enqueue_some {q q' : BoundedFifo α cost} {a : α} (h : q.enqueue a = some q') :
    q'.cap = q.cap ∧ q'.items = q.items ++ [a] ∧
      Fits q.cap (total cost q.items + cost a) := by
  unfold enqueue at h
  split at h
  · next hf => cases h; exact ⟨rfl, rfl, hf⟩
  · cases h

theorem dequeue_cons {q : BoundedFifo α cost} {a : α} {as : List α} (h : q.items = a :: as) :
    ∃ q', q.dequeue = some (a, q') ∧ q'.cap = q.cap ∧ q'.items = as := by
  obtain ⟨cap, items, fits⟩ := q
  cases h
  exact ⟨_, rfl, rfl, rfl⟩

theorem dequeue_some {q q' : BoundedFifo α cost} {a : α} (h : q.dequeue = some (a, q')) :
    q.items = a :: q'.items := by
  obtain ⟨cap, items, fits⟩ := q
  cases items <;> cases h
  rfl

theorem dequeue_cap {q q' : BoundedFifo α cost} {a : α} (h : q.dequeue = some (a, q')) :
    q'.cap = q.cap := by
  obtain ⟨cap, items, fits⟩ := q
  cases items <;> cases h
  rfl

theorem dequeue_eq_none_iff {q : BoundedFifo α cost} : q.dequeue = none ↔ q.items = [] := by
  obtain ⟨cap, items, fits⟩ := q
  cases items <;> simp [dequeue]

end BoundedFifo

end Lib.Fifo
