import Mathlib.Data.List.Forall2

/-!
# A copy that follows through a channel

One side changes and puts orders about it into a channel; the other side takes them out and
applies them to its copy.  The copy is always as far behind as the orders in the channel.
-/

namespace Lib.Outbox

variable {α β ω ι : Type*} {carries : ι → ω → Prop} {follow : β → ω → β} {R : α → β → Prop}
  {a a' : α} {b : β} {items : List ι} {i : ι}

/-- `R` holds as soon as the items are applied. -/
def Follows (carries : ι → ω → Prop) (follow : β → ω → β) (R : α → β → Prop) (a : α)
    (items : List ι) (b : β) : Prop :=
  ∃ os, List.Forall₂ carries items os ∧ R a (os.foldl follow b)

theorem Follows.drained (h : Follows carries follow R a [] b) : R a b := by
  obtain ⟨os, hitems, hR⟩ := h
  cases hitems
  exact hR

/-- One side has changed, and has told of it. -/
theorem Follows.tell {out : List ι} {os : List ω} (h : Follows carries follow R a items b)
    (hout : List.Forall₂ carries out os) (hstep : ∀ b, R a b → R a' (os.foldl follow b)) :
    Follows carries follow R a' (items ++ out) b := by
  obtain ⟨pending, hitems, hR⟩ := h
  refine ⟨pending ++ os, List.rel_append hitems hout, ?_⟩
  rw [List.foldl_append]
  exact hstep _ hR

/-- The other side has applied the oldest order. -/
theorem Follows.taken (h : Follows carries follow R a (i :: items) b) :
    ∃ o, carries i o ∧ Follows carries follow R a items (follow b o) := by
  obtain ⟨os, hitems, hR⟩ := h
  cases hitems with
  | cons hfirst hrest => exact ⟨_, hfirst, _, hrest, hR⟩

end Lib.Outbox
