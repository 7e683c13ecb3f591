import Mathlib.Data.List.Nodup

/-! Tables that are loaded from a list of sources, one entry a source. -/

namespace Lib.Loading

variable {Name Item State : Type}

/-- Each source is read and registered; one that cannot be read stops everything. -/
def load (read : Name → Option Item) (register : State → Item → State) :
    List Name → State → Option State
  | [], st => some st
  | d :: rest, st => (read d).bind fun o => load read register rest (register st o)

/-- `lists st d o` says that `o` stands under the name `d`.  An item that fits its name gets there
and leaves the other names alone. -/
structure Registers (register : State → Item → State) (fits : Name → Item → Prop)
    (lists : State → Name → Item → Prop) (vacant : Item) : Prop where
  own : ∀ {st d o}, fits d o → lists st d vacant → lists (register st o) d o
  other : ∀ {st d e o o'}, e ≠ d → fits d o → lists st e o' → lists (register st o) e o'

variable {read : Name → Option Item} {register : State → Item → State}
  {fits : Name → Item → Prop} {lists : State → Name → Item → Prop} {vacant : Item}
  {names : List Name} {st st' : State}

theorem load_reads (h : load read register names st = some st') :
    ∀ d ∈ names, (read d).isSome := by
  induction names generalizing st with
  | nil =>
    intro d hd
    cases hd
  | cons d₀ names ih =>
    obtain ⟨o, ho, hrest⟩ := Option.bind_eq_some_iff.mp h
    intro d hd
    rcases List.mem_cons.mp hd with rfl | hd
    · rw [ho]
      rfl
    · exact ih hrest d hd

/-- What no entry changes stays. -/
theorem load_keeps {inv : State → Prop} (hkeeps : ∀ st o, inv st → inv (register st o))
    (hst : inv st) (h : load read register names st = some st') : inv st' := by
  induction names generalizing st with
  | nil =>
    cases h
    exact hst
  | cons d names ih =>
    obtain ⟨o, -, hrest⟩ := Option.bind_eq_some_iff.mp h
    exact ih (hkeeps st o hst) hrest

/-- Every source has its entry in the end. -/
theorem load_lists (hregisters : Registers register fits lists vacant) (hnodup : names.Nodup)
    (hread : ∀ d ∈ names, ∃ o, read d = some o ∧ fits d o)
    (hvacant : ∀ d ∈ names, lists st d vacant) :
    ∃ st', load read register names st = some st' ∧
      (∀ d ∈ names, ∀ o, read d = some o → lists st' d o) ∧
      ∀ e ∉ names, ∀ o, lists st e o → lists st' e o := by
  induction names generalizing st with
  | nil => exact ⟨st, rfl, fun d hd => absurd hd List.not_mem_nil, fun _ _ _ h => h⟩
  | cons d names ih =>
    obtain ⟨hnew, hnodup⟩ := List.nodup_cons.mp hnodup
    obtain ⟨o, ho, hfits⟩ := hread d List.mem_cons_self
    have hfirst := hregisters.own hfits (hvacant d List.mem_cons_self)
    obtain ⟨st', hrest, hnames, hothers⟩ := @ih (register st o) hnodup
      (fun e he => hread e (List.mem_cons_of_mem _ he)) fun e he =>
        hregisters.other (ne_of_mem_of_not_mem he hnew) hfits
          (hvacant e (List.mem_cons_of_mem _ he))
    refine ⟨st', ?_, ?_, ?_⟩
    · rw [load, ho]
      exact hrest
    · intro e he o' ho'
      rcases List.mem_cons.mp he with rfl | he
      · rw [ho] at ho'
        cases ho'
        exact hothers _ hnew _ hfirst
      · exact hnames e he o' ho'
    · intro e he o' h
      exact hothers e (List.not_mem_of_not_mem_cons he) o'
        (hregisters.other (List.ne_of_not_mem_cons he) hfits h)

end Lib.Loading
