/-! Programs over a shared memory, one access after the other.  A loop without a bound is a
jump to a label of a table of programs; a jump does not come back. -/

namespace Lib.Accesses

/-- A program over memories `σ` with labels `κ` and results `β`. -/
inductive Code (σ κ β : Type) where
  | done (b : β)
  | access (upd : σ → σ) (next : σ → Code σ κ β)
  | jump (k : κ)

variable {σ κ α β γ : Type}

namespace Code

/-- The result and the memory of a program that runs undisturbed and does not jump. -/
def eval : Code σ κ β → σ → Option (β × σ)
  | done b, s => some (b, s)
  | access upd next, s => (next s).eval (upd s)
  | jump _, _ => none

/-- The same where `f` answers for the jumps. -/
def evalWith (f : κ → σ → Option (β × σ)) : Code σ κ β → σ → Option (β × σ)
  | done b, s => some (b, s)
  | access upd next, s => (next s).evalWith f (upd s)
  | jump k, s => f k s

def bind : Code σ κ α → (α → Code σ κ β) → Code σ κ β
  | done a, f => f a
  | access upd next, f => access upd fun s => (next s).bind f
  | jump k, _ => jump k

instance : Monad (Code σ κ) where
  pure := done
  bind := bind

/-- One access that reads. -/
def read (f : σ → α) : Code σ κ α := access id fun s => done (f s)

/-- One access that writes. -/
def write (upd : σ → σ) : Code σ κ Unit := access upd fun _ => done ()

@[simp] theorem eval_pure (a : α) (s : σ) : (pure a : Code σ κ α).eval s = some (a, s) := rfl

@[simp] theorem eval_read (f : σ → α) (s : σ) : (read f : Code σ κ α).eval s = some (f s, s) := rfl

@[simp] theorem eval_write (upd : σ → σ) (s : σ) :
    (write upd : Code σ κ Unit).eval s = some ((), upd s) := rfl

@[simp] theorem eval_bind (c : Code σ κ α) (f : α → Code σ κ β) (s : σ) :
    (c >>= f).eval s = (c.eval s).bind fun r => (f r.1).eval r.2 := by
  change (c.bind f).eval s = _
  induction c generalizing s with
  | done a => rfl
  | access upd next ih => exact ih s (upd s)
  | jump k => rfl

@[simp] theorem eval_ite (p : Prop) [Decidable p] (c d : Code σ κ β) (s : σ) :
    (if p then c else d).eval s = if p then c.eval s else d.eval s := by
  split <;> rfl

end Code

open Code

/-- The program ends with `b` and memory `t` when it runs undisturbed from memory `s` on. -/
inductive Ends (body : κ → Code σ κ β) : Code σ κ β → σ → β → σ → Prop
  | done (b : β) (s : σ) : Ends body (.done b) s b s
  | access {upd : σ → σ} {next : σ → Code σ κ β} {s t : σ} {b : β}
      (h : Ends body (next s) (upd s) b t) : Ends body (.access upd next) s b t
  | jump {k : κ} {s t : σ} {b : β} (h : Ends body (body k) s b t) : Ends body (.jump k) s b t

section

variable {body : κ → Code σ κ β} {s t t' : σ} {b b' : β}

@[simp] theorem ends_done : Ends body (.done b') s b t ↔ b = b' ∧ t = s := by
  constructor
  · intro h
    cases h
    exact ⟨rfl, rfl⟩
  · rintro ⟨rfl, rfl⟩
    exact .done _ _

theorem ends_access {upd : σ → σ} {next : σ → Code σ κ β} :
    Ends body (.access upd next) s b t ↔ Ends body (next s) (upd s) b t := by
  constructor
  · intro h
    cases h with
    | access h => exact h
  · exact .access

theorem ends_jump {k : κ} : Ends body (.jump k) s b t ↔ Ends body (body k) s b t := by
  constructor
  · intro h
    cases h with
    | jump h => exact h
  · exact .jump

/-- What runs without a jump runs the same inside a longer program. -/
theorem ends_bind {c : Code σ κ α} {a : α} {r : σ} {f : α → Code σ κ β}
    (h : c.eval s = some (a, r)) : Ends body (c >>= f) s b t ↔ Ends body (f a) r b t := by
  change Ends body (c.bind f) s b t ↔ _
  induction c generalizing s with
  | done a' =>
    cases h
    exact Iff.rfl
  | access upd next ih =>
    rw [Code.bind, ends_access]
    exact ih s h
  | jump k => cases h

theorem ends_of_eval {c : Code σ κ β} {b₀ : β} {r : σ} (h : c.eval s = some (b₀, r)) :
    Ends body c s b t ↔ b = b₀ ∧ t = r := by
  induction c generalizing s with
  | done b' =>
    cases h
    exact ends_done
  | access upd next ih =>
    rw [ends_access]
    exact ih s h
  | jump k => cases h

/-- What a label leads to within `n` jumps. -/
def turns (body : κ → Code σ κ β) : Nat → κ → σ → Option (β × σ)
  | 0, _, _ => none
  | n + 1, k, s => (body k).evalWith (turns body n) s

theorem ends_of_turns {n : Nat} {c : Code σ κ β}
    (h : c.evalWith (turns body n) s = some (b, t)) : Ends body c s b t := by
  induction n generalizing c s with
  | zero =>
    induction c generalizing s with
    | done b' =>
      cases h
      exact .done _ _
    | access upd next ih => exact .access (ih s h)
    | jump k => cases h
  | succ n ihn =>
    induction c generalizing s with
    | done b' =>
      cases h
      exact .done _ _
    | access upd next ih => exact .access (ih s h)
    | jump k => exact .jump (ihn h)

/-- A program ends exactly when it ends within some number of jumps. -/
theorem ends_iff_turns {c : Code σ κ β} :
    Ends body c s b t ↔ ∃ n, c.evalWith (turns body n) s = some (b, t) := by
  constructor
  · intro h
    induction h with
    | done b s => exact ⟨0, rfl⟩
    | access _ ih => exact ih
    | jump _ ih =>
      obtain ⟨n, hn⟩ := ih
      exact ⟨n + 1, hn⟩
  · rintro ⟨n, hn⟩
    exact ends_of_turns hn

end

end Lib.Accesses
