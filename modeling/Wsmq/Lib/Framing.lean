import Mathlib.Data.List.Basic

/-! Cutting a stream into frames.  A framer says how long the frame is that the
stream begins with; more of the stream does not change its answer. -/

namespace Lib.Framing

structure Framer (α : Type) where
  size : List α → Option Nat
  bound : ∀ {bs n}, size bs = some n → 0 < n ∧ n ≤ bs.length
  stable : ∀ {bs n}, size bs = some n → ∀ cs, size (bs ++ cs) = some n

variable {α : Type} (f : Framer α)

namespace Framer

/-- The complete frames and what remains. -/
def drain (bs : List α) : List (List α) × List α :=
  match _h : f.size bs with
  | none => ([], bs)
  | some n => (bs.take n :: (drain (bs.drop n)).1, (drain (bs.drop n)).2)
termination_by bs.length
decreasing_by
  all_goals
    have hb := f.bound _h
    rw [List.length_drop]
    omega

def IsFrame (p : List α) : Prop := f.size p = some p.length

variable {f} {bs p : List α}

theorem drain_none (h : f.size bs = none) : f.drain bs = ([], bs) := by
  rw [drain]
  split
  · rfl
  · next hsome => cases h.symm.trans hsome

theorem drain_some {n : Nat} (h : f.size bs = some n) :
    f.drain bs = (bs.take n :: (f.drain (bs.drop n)).1, (f.drain (bs.drop n)).2) := by
  rw [drain]
  split
  · next hnone => cases h.symm.trans hnone
  · next hsome =>
    cases h.symm.trans hsome
    rfl

theorem drain_frame (h : f.IsFrame p) (bs : List α) :
    f.drain (p ++ bs) = (p :: (f.drain bs).1, (f.drain bs).2) := by
  rw [drain_some (f.stable h bs), List.take_left, List.drop_left]

theorem size_nil : f.size [] = none := by
  cases hsize : f.size ([] : List α) with
  | none => rfl
  | some n =>
    have hb := f.bound hsize
    rw [List.length_nil] at hb
    omega

theorem drain_single (h : f.IsFrame p) : f.drain p = ([p], []) := by
  have hframe := drain_frame h []
  rwa [drain_none size_nil, List.append_nil] at hframe

/-- A stream that ends inside its first frame. -/
theorem drain_of_short (h : f.IsFrame p) (hbs : bs <+: p) (hlen : bs.length < p.length) :
    f.drain bs = ([], bs) := by
  refine drain_none ?_
  cases hsize : f.size bs with
  | none => rfl
  | some n =>
    obtain ⟨cs, rfl⟩ := hbs
    have hsame : (bs ++ cs).length = n := Option.some.inj (h.symm.trans (f.stable hsize cs))
    have hle := (f.bound hsize).2
    omega

theorem drain_snd (bs : List α) : f.size (f.drain bs).2 = none := by
  induction hn : bs.length using Nat.strongRecOn generalizing bs with
  | ind n ih =>
    cases hsize : f.size bs with
    | none =>
      rw [drain_none hsize]
      exact hsize
    | some k =>
      have hb := f.bound hsize
      rw [drain_some hsize]
      exact ih (bs.drop k).length (by rw [List.length_drop]; omega) _ rfl

theorem drain_suffix (bs : List α) : (f.drain bs).2 <:+ bs := by
  induction hn : bs.length using Nat.strongRecOn generalizing bs with
  | ind n ih =>
    cases hsize : f.size bs with
    | none =>
      exact ⟨[], by rw [drain_none hsize, List.nil_append]⟩
    | some k =>
      have hb := f.bound hsize
      rw [drain_some hsize]
      exact (ih (bs.drop k).length (by rw [List.length_drop]; omega) _ rfl).trans
        (List.drop_suffix k bs)

/-- What remains of the first part is continued with the second. -/
theorem drain_append (xs ys : List α) : f.drain (xs ++ ys) =
    ((f.drain xs).1 ++ (f.drain ((f.drain xs).2 ++ ys)).1,
      (f.drain ((f.drain xs).2 ++ ys)).2) := by
  induction hn : xs.length using Nat.strongRecOn generalizing xs with
  | ind n ih =>
    cases hsize : f.size xs with
    | none => rw [drain_none hsize, List.nil_append]
    | some k =>
      have hb := f.bound hsize
      have hrest := ih (xs.drop k).length (by rw [List.length_drop]; omega) (xs.drop k) rfl
      rw [drain_some (f.stable hsize ys), drain_some hsize, List.take_append_of_le_length hb.2,
        List.drop_append_of_le_length hb.2, hrest, List.cons_append]

/-! ## Streams of frames -/

/-- The frames that `n` elements of the stream complete. -/
def complete : List (List α) → Nat → List (List α)
  | [], _ => []
  | p :: ps, n => if p.length ≤ n then p :: complete ps (n - p.length) else []

/-- A part of a stream of frames is cut into the frames that it completes. -/
theorem drain_prefix {ps : List (List α)} (hps : ∀ p ∈ ps, f.IsFrame p)
    (hbs : bs <+: ps.flatten) :
    f.drain bs = (complete ps bs.length, bs.drop (complete ps bs.length).flatten.length) := by
  induction ps generalizing bs with
  | nil =>
    obtain rfl := List.prefix_nil.mp hbs
    rw [drain_none size_nil]
    rfl
  | cons p ps ih =>
    have hp := hps p List.mem_cons_self
    rw [List.flatten_cons] at hbs
    rw [complete]
    split
    · next hle =>
      obtain ⟨cs, rfl⟩ := List.prefix_of_prefix_length_le (List.prefix_append p ps.flatten) hbs hle
      have hcs : cs <+: ps.flatten := (List.prefix_append_right_inj p).mp hbs
      have hrest := ih (fun q hq => hps q (List.mem_cons_of_mem p hq)) hcs
      have hlen : (p ++ cs).length - p.length = cs.length := by
        rw [List.length_append, Nat.add_sub_cancel_left]
      rw [drain_frame hp, hrest, hlen, List.flatten_cons, List.length_append,
        ← List.drop_drop, List.drop_left]
    · next hlt =>
      have hshort : bs <+: p :=
        List.prefix_of_prefix_length_le hbs (List.prefix_append p ps.flatten) (by omega)
      rw [drain_of_short hp hshort (Nat.lt_of_not_le hlt)]
      rfl

end Framer

end Lib.Framing
