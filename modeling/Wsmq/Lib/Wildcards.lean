import Mathlib.Data.List.Count
import Mathlib.Data.List.Forall2

/-! Patterns of words in which one word stands for any single word and another for any number
of words, and the table that decides whether a pattern matches. -/

namespace Lib.Wildcards

variable {α : Type} [DecidableEq α] {one many : α}

/-- The words that one word of a pattern may stand for. -/
def Covers (one many p : α) (block : List α) : Prop :=
  if p = many then True else if p = one then block.length = 1 else block = [p]

/-- The text is made of blocks, one for each word of the pattern. -/
def Matches (one many : α) (pattern text : List α) : Prop :=
  ∃ blocks, List.Forall₂ (Covers one many) pattern blocks ∧ blocks.flatten = text

theorem matches_nil {text : List α} : Matches one many [] text ↔ text = [] := by
  constructor
  · rintro ⟨blocks, hcover, rfl⟩
    cases hcover
    rfl
  · rintro rfl
    exact ⟨[], .nil, rfl⟩

theorem matches_cons {pattern text : List α} {p : α} :
    Matches one many (p :: pattern) text ↔
      ∃ block rest, Covers one many p block ∧ Matches one many pattern rest ∧
        text = block ++ rest := by
  constructor
  · rintro ⟨blocks, hcover, rfl⟩
    cases hcover with
    | cons hfirst hrest => exact ⟨_, _, hfirst, ⟨_, hrest, rfl⟩, rfl⟩
  · rintro ⟨block, _, hfirst, ⟨blocks, hrest, rfl⟩, rfl⟩
    exact ⟨block :: blocks, .cons hfirst hrest, rfl⟩

/-- The last word of the pattern stands for the last block. -/
theorem matches_snoc {pattern text : List α} {p : α} :
    Matches one many (pattern ++ [p]) text ↔
      ∃ front block, Matches one many pattern front ∧ Covers one many p block ∧
        text = front ++ block := by
  constructor
  · rintro ⟨blocks, hcover, rfl⟩
    rcases List.eq_nil_or_concat' blocks with rfl | ⟨init, last, rfl⟩
    · simpa using hcover.length_eq
    · have hrev := List.forall₂_reverse_iff.mpr hcover
      rw [List.reverse_append, List.reverse_append] at hrev
      cases hrev with
      | cons hlast hinit =>
        refine ⟨init.flatten, last, ⟨init, List.forall₂_reverse_iff.mp hinit, rfl⟩, hlast, ?_⟩
        rw [List.flatten_append, List.flatten_singleton]
  · rintro ⟨front, block, ⟨blocks, hcover, rfl⟩, hlast, rfl⟩
    refine ⟨blocks ++ [block], List.rel_append hcover (.cons hlast .nil), ?_⟩
    rw [List.flatten_append, List.flatten_singleton]

/-- Without wildcards a pattern matches only itself. -/
theorem matches_of_plain {pattern text : List α} (hone : one ∉ pattern) (hmany : many ∉ pattern) :
    Matches one many pattern text ↔ text = pattern := by
  induction pattern generalizing text with
  | nil => exact matches_nil
  | cons p pattern ih =>
    rw [List.mem_cons, not_or] at hone hmany
    have hcover : ∀ block, Covers one many p block ↔ block = [p] := by
      intro block
      rw [Covers, if_neg (Ne.symm hmany.1), if_neg (Ne.symm hone.1)]
    rw [matches_cons]
    constructor
    · rintro ⟨block, rest, hblock, hrest, rfl⟩
      rw [(hcover block).mp hblock, (ih hone.2 hmany.2).mp hrest]
      rfl
    · rintro rfl
      exact ⟨[p], pattern, (hcover _).mpr rfl, (ih hone.2 hmany.2).mpr rfl, rfl⟩

/-! ## Both with a last word -/

theorem matches_many_snoc {pattern text : List α} {w : α} :
    Matches one many (pattern ++ [many]) (text ++ [w]) ↔
      Matches one many pattern (text ++ [w]) ∨ Matches one many (pattern ++ [many]) text := by
  have hcover : ∀ block, Covers one many many block := by
    intro block
    rw [Covers, if_pos rfl]
    trivial
  constructor
  · intro h
    obtain ⟨front, block, hfront, _, htext⟩ := matches_snoc.mp h
    rcases List.eq_nil_or_concat' block with rfl | ⟨init, last, rfl⟩
    · rw [List.append_nil] at htext
      exact Or.inl (htext ▸ hfront)
    · rw [← List.append_assoc] at htext
      have hinit := (List.append_inj' htext rfl).1
      exact Or.inr (matches_snoc.mpr ⟨front, init, hfront, hcover init, hinit⟩)
  · rintro (h | h)
    · exact matches_snoc.mpr ⟨_, [], h, hcover [], (List.append_nil _).symm⟩
    · obtain ⟨front, block, hfront, _, rfl⟩ := matches_snoc.mp h
      exact matches_snoc.mpr ⟨front, block ++ [w], hfront, hcover _, List.append_assoc _ _ _⟩

theorem matches_word_snoc {pattern text : List α} {p w : α} (hp : p ≠ many) :
    Matches one many (pattern ++ [p]) (text ++ [w]) ↔
      (p = one ∨ w = p) ∧ Matches one many pattern text := by
  have hcover : ∀ block, Covers one many p block ↔ ∃ v, block = [v] ∧ (p = one ∨ v = p) := by
    intro block
    rw [Covers, if_neg hp]
    split
    · next hone =>
      rw [List.length_eq_one_iff]
      exact ⟨fun ⟨v, hv⟩ => ⟨v, hv, Or.inl hone⟩, fun ⟨v, hv, _⟩ => ⟨v, hv⟩⟩
    · next hone =>
      constructor
      · rintro rfl
        exact ⟨p, rfl, Or.inr rfl⟩
      · rintro ⟨v, rfl, h | rfl⟩
        · exact absurd h hone
        · rfl
  rw [matches_snoc]
  constructor
  · rintro ⟨front, block, hfront, hblock, htext⟩
    obtain ⟨v, rfl, hv⟩ := (hcover block).mp hblock
    obtain ⟨rfl, hw⟩ := List.append_inj' htext rfl
    cases hw
    exact ⟨hv, hfront⟩
  · rintro ⟨hv, h⟩
    exact ⟨text, [w], h, (hcover _).mpr ⟨w, rfl, hv⟩, rfl⟩

theorem not_matches_word_nil {pattern : List α} {p : α} (hp : p ≠ many) (hmem : p ∈ pattern) :
    ¬ Matches one many pattern [] := by
  induction pattern with
  | nil => cases hmem
  | cons q pattern ih =>
    rw [matches_cons]
    rintro ⟨block, rest, hblock, hrest, htext⟩
    obtain ⟨rfl, rfl⟩ := List.nil_eq_append_iff.mp htext
    rcases List.mem_cons.mp hmem with rfl | hmem
    · rw [Covers, if_neg hp] at hblock
      split at hblock <;> cases hblock
    · exact ih hmem hrest

/-! ## Words that stand for themselves -/

def IsPlain (one many w : α) : Bool := w ≠ one ∧ w ≠ many

/-- The words of a pattern that are not wildcards. -/
def plainWords (one many : α) (ws : List α) : List α := ws.filter (IsPlain one many)

/-- The runs of wildcards before, between and behind the plain words. -/
def runs (one many : α) (ws : List α) : List (List α) := ws.splitOnP (IsPlain one many)

/-- A run of wildcards stands for any `n` words. -/
def Stands (one many : α) (run : List α) (n : Nat) : Prop :=
  if many ∈ run then run.count one ≤ n else run.length = n

instance (one many : α) (run : List α) (n : Nat) : Decidable (Stands one many run n) :=
  inferInstanceAs (Decidable (ite _ _ _))

/-- The words `ws` with the `gaps` before, between and behind them. -/
def weave : List (List α) → List α → List α
  | gap :: gaps, w :: ws => gap ++ w :: weave gaps ws
  | gap :: _, [] => gap
  | [], _ => []

/-- The plain words of the pattern have places in the text between which each run of wildcards
stands for the words that are there. -/
def Placed (one many : α) (pattern text : List α) : Prop :=
  ∃ gaps, weave gaps (plainWords one many pattern) = text ∧
    List.Forall₂ (fun run gap => Stands one many run gap.length) (runs one many pattern) gaps

section Plain

variable {pattern pattern' text text' block : List α} {p w : α} {n : Nat}

theorem matches_append : Matches one many (pattern ++ pattern') text ↔
    ∃ front back, text = front ++ back ∧ Matches one many pattern front ∧
      Matches one many pattern' back := by
  induction pattern generalizing text with
  | nil =>
    constructor
    · exact fun h => ⟨[], text, rfl, matches_nil.mpr rfl, h⟩
    · rintro ⟨front, back, rfl, hfront, hback⟩
      rw [matches_nil.mp hfront]
      exact hback
  | cons p pattern ih =>
    rw [List.cons_append, matches_cons]
    constructor
    · rintro ⟨block, rest, hblock, hrest, rfl⟩
      obtain ⟨front, back, rfl, hfront, hback⟩ := ih.mp hrest
      exact ⟨block ++ front, back, (List.append_assoc _ _ _).symm,
        matches_cons.mpr ⟨block, front, hblock, hfront, rfl⟩, hback⟩
    · rintro ⟨front, back, rfl, hfront, hback⟩
      obtain ⟨block, rest, hblock, hrest, rfl⟩ := matches_cons.mp hfront
      exact ⟨block, rest ++ back, hblock, ih.mpr ⟨rest, back, rfl, hrest, hback⟩,
        List.append_assoc _ _ _⟩

theorem isPlain_iff : IsPlain one many w = true ↔ w ≠ one ∧ w ≠ many := decide_eq_true_iff

theorem covers_plain (hp : IsPlain one many p = true) : Covers one many p block ↔ block = [p] := by
  obtain ⟨hone, hmany⟩ := isPlain_iff.mp hp
  rw [Covers, if_neg hmany, if_neg hone]

/-- A plain word of the pattern stands for itself, so the text has it too. -/
theorem plainWords_sublist (h : Matches one many pattern text) :
    (plainWords one many pattern).Sublist (plainWords one many text) := by
  induction pattern generalizing text with
  | nil => exact List.nil_sublist _
  | cons p pattern ih =>
    obtain ⟨block, rest, hblock, hrest, rfl⟩ := matches_cons.mp h
    rw [plainWords, plainWords, List.filter_append]
    by_cases hp : IsPlain one many p = true
    · rw [(covers_plain hp).mp hblock, List.filter_cons_of_pos hp, List.filter_cons_of_pos hp]
      exact (ih hrest).cons_cons p
    · rw [List.filter_cons_of_neg hp]
      exact (ih hrest).trans (List.sublist_append_right _ _)

theorem stands_nil : Stands one many [] n ↔ n = 0 := by
  rw [Stands, if_neg List.not_mem_nil]
  exact eq_comm

/-- A pattern of wildcards matches by the number of the words alone. -/
theorem matches_wildcards (hne : one ≠ many) (h : ∀ w ∈ pattern, ¬ IsPlain one many w = true) :
    Matches one many pattern text ↔ Stands one many pattern text.length := by
  induction pattern generalizing text with
  | nil => rw [matches_nil, stands_nil, List.length_eq_zero_iff]
  | cons p pattern ih =>
    have hrest : ∀ w ∈ pattern, ¬ IsPlain one many w = true := fun w hw =>
      h w (List.mem_cons_of_mem p hw)
    have hp : p = one ∨ p = many := by
      by_contra hp
      exact h p List.mem_cons_self (isPlain_iff.mpr (not_or.mp hp))
    rw [matches_cons]
    rcases hp with rfl | rfl
    · have hmem : many ∈ p :: pattern ↔ many ∈ pattern := by
        rw [List.mem_cons, or_iff_right hne.symm]
      have hblock : ∀ block, Covers p many p block ↔ block.length = 1 := by
        intro block
        rw [Covers, if_neg hne, if_pos rfl]
      have hstands : Stands p many (p :: pattern) text.length ↔
          0 < text.length ∧ Stands p many pattern (text.length - 1) := by
        rw [Stands, Stands, if_congr hmem rfl rfl, List.count_cons_self, List.length_cons]
        split <;> omega
      rw [hstands]
      constructor
      · rintro ⟨block, rest, hone, hmatch, rfl⟩
        have hlen := (hblock block).mp hone
        rw [List.length_append, hlen, Nat.add_sub_cancel_left]
        exact ⟨by omega, (ih hrest).mp hmatch⟩
      · rintro ⟨hpos, hstands⟩
        obtain ⟨w, text, rfl⟩ := List.exists_cons_of_length_pos hpos
        exact ⟨[w], text, (hblock _).mpr rfl, (ih hrest).mpr hstands, rfl⟩
    · have hstands : Stands one p (p :: pattern) text.length ↔
          pattern.count one ≤ text.length := by
        rw [Stands, if_pos List.mem_cons_self, List.count_cons_of_ne hne.symm]
      have hblock : ∀ block, Covers one p p block := by
        intro block
        rw [Covers, if_pos rfl]
        trivial
      rw [hstands]
      constructor
      · rintro ⟨block, rest, -, hmatch, rfl⟩
        have hrest := (ih hrest).mp hmatch
        have hcount : pattern.count one ≤ rest.length := by
          rw [Stands] at hrest
          split at hrest
          · exact hrest
          · exact hrest ▸ List.count_le_length
        rw [List.length_append]
        omega
      · intro hcount
        -- without another wildcard for any number of words, the rest takes the last words
        refine ⟨text.take (text.length - pattern.count one),
          text.drop (text.length - pattern.count one), hblock _, (ih hrest).mpr ?_,
          (List.take_append_drop _ _).symm⟩
        have hlen : (text.drop (text.length - pattern.count one)).length = pattern.count one := by
          rw [List.length_drop]
          omega
        rw [hlen, Stands]
        split
        · exact Nat.le_refl _
        · next hmany =>
          refine (List.count_eq_length.mpr fun w hw => ?_).symm
          by_contra hw'
          exact hrest w hw (isPlain_iff.mpr ⟨Ne.symm hw', fun heq => hmany (heq ▸ hw)⟩)

theorem runs_cons {front back : List α} (hfront : ∀ x ∈ front, ¬ IsPlain one many x = true)
    (hw : IsPlain one many w = true) :
    runs one many (front ++ w :: back) = front :: runs one many back :=
  List.splitOnP_append_cons_of_forall_mem (by simpa using hfront) w hw back

theorem runs_wildcards (h : ∀ x ∈ pattern, ¬ IsPlain one many x = true) :
    runs one many pattern = [pattern] := List.splitOnP_eq_singleton (by simpa using h)

/-- The first plain word of the pattern takes a word of the text. -/
theorem matches_plain_cons (hw : IsPlain one many w = true) :
    Matches one many (pattern ++ w :: pattern') text ↔
      ∃ front back, text = front ++ w :: back ∧ Matches one many pattern front ∧
        Matches one many pattern' back := by
  rw [matches_append]
  constructor
  · rintro ⟨front, _, rfl, hfront, hback⟩
    obtain ⟨block, rest, hblock, hrest, rfl⟩ := matches_cons.mp hback
    rw [(covers_plain hw).mp hblock]
    exact ⟨front, rest, rfl, hfront, hrest⟩
  · rintro ⟨front, back, rfl, hfront, hback⟩
    exact ⟨front, w :: back, rfl, hfront,
      matches_cons.mpr ⟨[w], back, (covers_plain hw).mpr rfl, hback, rfl⟩⟩

/-- A pattern matches when its plain words have their places in the text. -/
theorem matches_iff_placed (hne : one ≠ many) :
    Matches one many pattern text ↔ Placed one many pattern text := by
  induction hplain : plainWords one many pattern generalizing pattern text with
  | nil =>
    have hpattern := List.filter_eq_nil_iff.mp hplain
    rw [matches_wildcards hne hpattern, Placed, hplain, runs_wildcards hpattern]
    constructor
    · exact fun h => ⟨[text], rfl, .cons h .nil⟩
    · rintro ⟨gaps, rfl, hstands⟩
      cases hstands with
      | cons hstands hrest =>
        cases hrest
        exact hstands
  | cons w plain ih =>
    obtain ⟨front, pattern, rfl, hfront, hw, hrest⟩ := List.filter_eq_cons_iff.mp hplain
    have hrest : plainWords one many pattern = plain := hrest
    rw [matches_plain_cons hw, Placed, hplain, runs_cons hfront hw]
    constructor
    · rintro ⟨gap, back, rfl, hgap, hback⟩
      obtain ⟨gaps, hweave, hstands⟩ := (ih hrest).mp hback
      rw [hrest] at hweave
      exact ⟨gap :: gaps, congrArg (gap ++ w :: ·) hweave,
        .cons ((matches_wildcards hne hfront).mp hgap) hstands⟩
    · rintro ⟨_, rfl, hstands⟩
      cases hstands with
      | cons hgap hstands =>
        refine ⟨_, _, rfl, (matches_wildcards hne hfront).mpr hgap, (ih hrest).mpr ?_⟩
        exact ⟨_, by rw [hrest], hstands⟩

/-- Where the first plain word stands is known. -/
theorem first_plain_unique {front front' back back' : List α} {w' : α}
    (hfront : ∀ x ∈ front, ¬ IsPlain one many x = true)
    (hfront' : ∀ x ∈ front', ¬ IsPlain one many x = true) (hw : IsPlain one many w = true)
    (hw' : IsPlain one many w' = true) (h : front ++ w :: back = front' ++ w' :: back') :
    front = front' ∧ w = w' ∧ back = back' := by
  induction front generalizing front' with
  | nil =>
    cases front' with
    | nil =>
      obtain ⟨rfl, rfl⟩ := List.cons.inj h
      exact ⟨rfl, rfl, rfl⟩
    | cons x front' =>
      obtain ⟨rfl, -⟩ := List.cons.inj h
      exact absurd hw (hfront' w List.mem_cons_self)
  | cons x front ih =>
    cases front' with
    | nil =>
      obtain ⟨rfl, -⟩ := List.cons.inj h
      exact absurd hw' (hfront x List.mem_cons_self)
    | cons x' front' =>
      obtain ⟨rfl, htail⟩ := List.cons.inj h
      obtain ⟨rfl, hrest⟩ := ih (fun x hx => hfront x (List.mem_cons_of_mem _ hx))
        (fun x hx => hfront' x (List.mem_cons_of_mem _ hx)) htail
      exact ⟨rfl, hrest⟩

/-- With the same plain words the first of the pattern stands for the first of the text. -/
theorem matches_first_plain {front front' : List α}
    (hfront' : ∀ x ∈ front', ¬ IsPlain one many x = true) (hw : IsPlain one many w = true)
    (hsame : plainWords one many pattern = plainWords one many text) :
    Matches one many (front ++ w :: pattern) (front' ++ w :: text) ↔
      Matches one many front front' ∧ Matches one many pattern text := by
  rw [matches_plain_cons hw]
  constructor
  · rintro ⟨taken, rest, htext, htaken, hrest⟩
    have hplain : plainWords one many (front' ++ w :: text) = w :: plainWords one many text := by
      rw [plainWords, List.filter_append, List.filter_eq_nil_iff.mpr hfront', List.nil_append,
        List.filter_cons_of_pos hw, plainWords]
    have hplain' : plainWords one many (taken ++ w :: rest) =
        plainWords one many taken ++ w :: plainWords one many rest := by
      rw [plainWords, List.filter_append, List.filter_cons_of_pos hw, plainWords, plainWords]
    -- the plain words of the text are all needed behind this one
    have htaken_plain : plainWords one many taken = [] := by
      have hsub := (plainWords_sublist hrest).length_le
      have hlen := congrArg List.length (hplain.symm.trans ((congrArg _ htext).trans hplain'))
      rw [hsame] at hsub
      rw [List.length_append, List.length_cons, List.length_cons] at hlen
      exact List.length_eq_zero_iff.mp (by omega)
    obtain ⟨rfl, -, rfl⟩ :=
      first_plain_unique hfront' (List.filter_eq_nil_iff.mp htaken_plain) hw hw htext
    exact ⟨htaken, hrest⟩
  · rintro ⟨hleft, hright⟩
    exact ⟨front', text, rfl, hleft, hright⟩

/-- With the same plain words a pattern matches when each of its runs of wildcards stands for
the words at its place. -/
theorem matches_iff_runs (hne : one ≠ many)
    (hsame : plainWords one many pattern = plainWords one many text) :
    Matches one many pattern text ↔
      List.Forall₂ (fun run words => Stands one many run words.length)
        (runs one many pattern) (runs one many text) := by
  induction hplain : plainWords one many pattern generalizing pattern text with
  | nil =>
    have hpattern := List.filter_eq_nil_iff.mp hplain
    have htext := List.filter_eq_nil_iff.mp (hsame.symm.trans hplain)
    rw [runs_wildcards hpattern, runs_wildcards htext, List.forall₂_cons,
      and_iff_left List.Forall₂.nil]
    exact matches_wildcards hne hpattern
  | cons w plain ih =>
    obtain ⟨front, pattern, rfl, hfront, hw, hrest⟩ := List.filter_eq_cons_iff.mp hplain
    obtain ⟨front', text, rfl, hfront', -, hrest'⟩ :=
      List.filter_eq_cons_iff.mp (hsame.symm.trans hplain)
    have hsame' := hrest.trans hrest'.symm
    rw [matches_first_plain hfront' hw hsame', matches_wildcards hne hfront, ih hsame' hrest,
      runs_cons hfront hw, runs_cons hfront' hw, List.forall₂_cons]

end Plain

end Lib.Wildcards
