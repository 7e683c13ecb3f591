import Wsmq.Lib.BoundedFifo

/-! Two parties with a bounded queue in each direction.  A party puts its items into its
queue in order; an item that does not fit is either tried again or given up.  As long as a
party has items to put it takes none out of the other queue. -/

namespace Lib.CircularWait
open Lib.Fifo Lib.Fifo.BoundedFifo

variable {α : Type} {cost : α → Nat} {q q' : BoundedFifo α cost} {items : List (α × Bool)}

/-- One attempt to put the first item; the flag says whether it is tried again. -/
def put (q : BoundedFifo α cost) : List (α × Bool) → BoundedFifo α cost × List (α × Bool)
  | [] => (q, [])
  | (a, again) :: rest =>
    match q.enqueue a with
    | some q' => (q', rest)
    | none => if again then (q, (a, again) :: rest) else (q, rest)

def puts : Nat → BoundedFifo α cost × List (α × Bool) → BoundedFifo α cost × List (α × Bool)
  | 0, x => x
  | n + 1, x => puts n (put x.1 x.2)

/-- All items get through without waiting. -/
def Passes : BoundedFifo α cost → List (α × Bool) → Prop
  | _, [] => True
  | q, (a, again) :: rest =>
    match q.enqueue a with
    | some q' => Passes q' rest
    | none => again = false ∧ Passes q rest

/-- The first item does not fit and is tried again. -/
def Blocked (q : BoundedFifo α cost) (items : List (α × Bool)) : Prop :=
  ∃ a rest, items = (a, true) :: rest ∧ q.enqueue a = none

instance (q : BoundedFifo α cost) (items : List (α × Bool)) : Decidable (Blocked q items) :=
  decidable_of_iff (∃ e ∈ items.head?, e.2 = true ∧ q.enqueue e.1 = none) <| by
    cases items with
    | nil => simp [Blocked]
    | cons e rest => obtain ⟨a, again⟩ := e; simp [Blocked]

theorem Passes.put (h : Passes q items) : Passes (put q items).1 (put q items).2 := by
  cases items with
  | nil => trivial
  | cons e rest =>
    obtain ⟨a, again⟩ := e
    rw [Passes] at h
    rw [CircularWait.put]
    cases hq : q.enqueue a with
    | some q' =>
      rw [hq] at h
      exact h
    | none =>
      rw [hq] at h
      dsimp only
      rw [h.1]
      exact h.2

theorem Passes.not_blocked (h : Passes q items) : ¬ Blocked q items := by
  rintro ⟨a, rest, rfl, hfull⟩
  rw [Passes, hfull] at h
  exact Bool.noConfusion h.1

/-- What does not get through ends up waiting. -/
theorem exists_blocked (h : ¬ Passes q items) :
    ∃ n, Blocked (puts n (q, items)).1 (puts n (q, items)).2 := by
  induction items generalizing q with
  | nil => exact absurd trivial h
  | cons e rest ih =>
    obtain ⟨a, again⟩ := e
    rw [Passes] at h
    cases hq : q.enqueue a with
    | some q' =>
      rw [hq] at h
      obtain ⟨n, hn⟩ := ih h
      refine ⟨n + 1, ?_⟩
      rw [puts, CircularWait.put, hq]
      exact hn
    | none =>
      rw [hq] at h
      cases again with
      | true => exact ⟨0, a, rest, rfl, hq⟩
      | false =>
        obtain ⟨n, hn⟩ := ih fun hrest => h ⟨rfl, hrest⟩
        refine ⟨n + 1, ?_⟩
        rw [puts, CircularWait.put, hq]
        exact hn

/-! ## Both directions -/

structure Link (α : Type) (cost : α → Nat) where
  forth : BoundedFifo α cost
  back : BoundedFifo α cost
  /-- What the first party has to put into `forth`. -/
  left : List (α × Bool)
  /-- What the second party has to put into `back`. -/
  right : List (α × Bool)

namespace Link

variable {l : Link α cost}

def putLeft (l : Link α cost) : Link α cost :=
  { l with forth := (put l.forth l.left).1, left := (put l.forth l.left).2 }

def putRight (l : Link α cost) : Link α cost :=
  { l with back := (put l.back l.right).1, right := (put l.back l.right).2 }

/-- Neither party can go on before the other does. -/
def Waits (l : Link α cost) : Prop := Blocked l.forth l.left ∧ Blocked l.back l.right

instance (l : Link α cost) : Decidable l.Waits := inferInstanceAs (Decidable (_ ∧ _))

/-- One of the parties gets through. -/
def Safe (l : Link α cost) : Prop := Passes l.forth l.left ∨ Passes l.back l.right

theorem Safe.not_waits (h : l.Safe) : ¬ l.Waits :=
  fun hw => h.elim (fun hl => hl.not_blocked hw.1) fun hr => hr.not_blocked hw.2

theorem Safe.putLeft (h : l.Safe) : l.putLeft.Safe := h.imp Passes.put id

theorem Safe.putRight (h : l.Safe) : l.putRight.Safe := h.imp id Passes.put

/-- The parties go on putting: `true` stands for the first. -/
def goOn : Link α cost → List Bool → Link α cost
  | l, [] => l
  | l, true :: turns => goOn l.putLeft turns
  | l, false :: turns => goOn l.putRight turns

theorem goOn_append (l : Link α cost) (turns turns' : List Bool) :
    l.goOn (turns ++ turns') = (l.goOn turns).goOn turns' := by
  induction turns generalizing l with
  | nil => rfl
  | cons b turns ih =>
    cases b with
    | true => exact ih _
    | false => exact ih _

theorem Safe.goOn (h : l.Safe) (turns : List Bool) : (l.goOn turns).Safe := by
  induction turns generalizing l with
  | nil => exact h
  | cons b turns ih =>
    cases b with
    | true => exact ih h.putLeft
    | false => exact ih h.putRight

theorem goOn_left (l : Link α cost) (n : Nat) :
    l.goOn (List.replicate n true) =
      { l with
        forth := (puts n (l.forth, l.left)).1
        left := (puts n (l.forth, l.left)).2 } := by
  induction n generalizing l with
  | zero => rfl
  | succ n ih => exact ih l.putLeft

theorem goOn_right (l : Link α cost) (n : Nat) :
    l.goOn (List.replicate n false) =
      { l with
        back := (puts n (l.back, l.right)).1
        right := (puts n (l.back, l.right)).2 } := by
  induction n generalizing l with
  | zero => rfl
  | succ n ih => exact ih l.putRight

/-- The parties come to wait for each other exactly when neither gets through. -/
theorem safe_iff : l.Safe ↔ ∀ turns, ¬ (l.goOn turns).Waits := by
  constructor
  · exact fun h turns => (h.goOn turns).not_waits
  · intro h
    by_contra hsafe
    obtain ⟨hleft, hright⟩ := not_or.mp hsafe
    obtain ⟨m, hm⟩ := exists_blocked hleft
    obtain ⟨n, hn⟩ := exists_blocked hright
    refine h (List.replicate m true ++ List.replicate n false) ?_
    rw [goOn_append, goOn_left, goOn_right]
    exact ⟨hm, hn⟩

end Link

end Lib.CircularWait
