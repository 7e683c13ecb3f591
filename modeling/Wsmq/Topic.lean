import Wsmq.Exchange
import Wsmq.Lib.Wildcards

/-!
# Topic keys

`IsFit` looks for the wildcards in the routing key, and its table has no entries for a
wildcard that stands for nothing before the first word.
-/

namespace Wsmq.Exchange
open Lib.ByteString Lib.Wildcards

/-- `*` stands for one word. -/
def star : Bytes := ascii "*"

/-- `#` stands for any number of words. -/
def hash : Bytes := ascii "#"

def dot : UInt8 := 46

/-- The words of a key that are not empty. -/
def keyWords (key : Name) : List Bytes := (key.splitOn dot).filter (· ≠ [])

/-- The words of the binding key match those of the routing key. -/
def TopicMatches (strRoutingKey strBindingKey : Name) : Prop :=
  Matches star hash (keyWords strBindingKey) (keyWords strRoutingKey)

/-! ## Words -/

theorem splitKey_eq {key : Bytes} (hzero : 0 ∉ key) (current : Bytes) :
    splitKey current key =
      ((key.splitOn dot).modifyHead (current ++ ·)).filter (· ≠ []) := by
  induction key generalizing current with
  | nil =>
    rw [splitKey, List.splitOn_nil]
    by_cases hcurrent : current = []
    · simp [hcurrent]
    · simp [hcurrent]
  | cons c key ih =>
    rw [List.mem_cons, not_or] at hzero
    have hfirst := ih hzero.2
    have hid : ∀ l : List Bytes, l.modifyHead ([] ++ ·) = l := by
      intro l
      cases l <;> rfl
    have hdot : '.'.toNat.toUInt8 = dot := by decide
    rw [splitKey, List.splitOn_cons_eq_if_modifyHead, hdot]
    by_cases hc : c = dot
    · have hbeq : (c == dot) = true := beq_iff_eq.mpr hc
      rw [if_pos (Or.inl hc), hfirst [], hid]
      by_cases hcurrent : current = []
      · simp [hbeq, hcurrent]
      · simp [hbeq, hcurrent]
    · have hbeq : ¬ (c == dot) = true := fun h => hc (beq_iff_eq.mp h)
      have hmove : ∀ l : List Bytes,
          (l.modifyHead (List.cons c)).modifyHead (current ++ ·) =
            l.modifyHead (current ++ [c] ++ ·) := by
        intro l
        cases l with
        | nil => rfl
        | cons x l => simp
      rw [if_neg (not_or.mpr ⟨hc, Ne.symm hzero.1⟩), hfirst, if_neg hbeq, hmove]

theorem splitKey_keyWords {key : Name} (hzero : 0 ∉ key) : splitKey [] key = keyWords key := by
  rw [splitKey_eq hzero, keyWords]
  cases key.splitOn dot <;> rfl

/-! ## The table -/

/-- What the table holds for the first words of both keys. -/
def Fits (routing binding : List Bytes) : Prop :=
  Matches star hash routing binding ∧ routing.head? ≠ some hash

/-- A row of the table after the words `done` of the routing key, up to `words`. -/
def IsRow (binding done words : List Bytes) (row : List Bool) : Prop :=
  List.Forall₂ (fun v front => v = true ↔ Fits (done ++ front) binding) row words.inits

/-- How an entry of the table depends on its neighbours. -/
theorem fits_snoc_hash {done binding : List Bytes} {b : Bytes} :
    Fits (done ++ [hash]) (binding ++ [b]) ↔
      Fits (done ++ [hash]) binding ∨ Fits done (binding ++ [b]) := by
  cases done with
  | nil =>
    have hnone : ¬ Fits [] (binding ++ [b]) := by
      rintro ⟨h, _⟩
      cases List.append_eq_nil_iff.mp (matches_nil.mp h) |>.2
    have hhash : ∀ bs, ¬ Fits ([] ++ [hash]) bs := fun bs h => h.2 rfl
    exact iff_of_false (hhash _) (not_or.mpr ⟨hhash _, hnone⟩)
  | cons word done =>
    have hhead : (word :: done ++ [hash]).head? = (word :: done).head? := rfl
    rw [Fits, Fits, Fits, hhead, matches_many_snoc]
    tauto

theorem fits_snoc_word {done binding : List Bytes} {word b : Bytes} (hword : word ≠ hash) :
    Fits (done ++ [word]) (binding ++ [b]) ↔ (word = star ∨ b = word) ∧ Fits done binding := by
  have hhead : (done ++ [word]).head? ≠ some hash ↔ done.head? ≠ some hash := by
    cases done with
    | nil => simpa using hword
    | cons w done => exact Iff.rfl
  rw [Fits, Fits, hhead, matches_word_snoc hword, and_assoc]

theorem isRow_cons {binding done words : List Bytes} {word : Bytes} {row : List Bool} :
    IsRow binding done (word :: words) row ↔
      ∃ v rest, row = v :: rest ∧ (v = true ↔ Fits done binding) ∧
        IsRow binding (done ++ [word]) words rest := by
  rw [IsRow, List.inits, List.forall₂_cons_right_iff]
  have hrest : ∀ rest, List.Forall₂ (fun v front => v = true ↔ Fits (done ++ front) binding) rest
      (words.inits.map fun front => word :: front) ↔
        IsRow binding (done ++ [word]) words rest := by
    intro rest
    simp only [List.forall₂_map_right_iff, IsRow, List.append_assoc, List.singleton_append]
  constructor
  · rintro ⟨v, rest, hv, hin, rfl⟩
    rw [List.append_nil] at hv
    exact ⟨v, rest, rfl, hv, (hrest rest).mp hin⟩
  · rintro ⟨v, rest, rfl, hv, hin⟩
    refine ⟨v, rest, ?_, (hrest rest).mpr hin, rfl⟩
    rw [List.append_nil]
    exact hv

theorem IsRow.head {binding done words : List Bytes} {row : List Bool}
    (h : IsRow binding done words row) :
    ∃ v rest, row = v :: rest ∧ (v = true ↔ Fits done binding) := by
  cases words with
  | nil =>
    obtain ⟨v, rest, hv, _, rfl⟩ := List.forall₂_cons_right_iff.mp h
    rw [List.append_nil] at hv
    exact ⟨v, rest, rfl, hv⟩
  | cons word words =>
    obtain ⟨v, rest, rfl, hv, _⟩ := isRow_cons.mp h
    exact ⟨v, rest, rfl, hv⟩

theorem dpRow_isRow {b : Bytes} {binding : List Bytes} (words done : List Bytes) {up : List Bool}
    {left : Bool} (hup : IsRow binding done words up)
    (hleft : left = true ↔ Fits done (binding ++ [b])) :
    IsRow (binding ++ [b]) done words (left :: dpRow b words up left) := by
  induction words generalizing done up left with
  | nil =>
    refine .cons ?_ .nil
    rw [List.append_nil]
    exact hleft
  | cons word words ih =>
    obtain ⟨diag, rest, rfl, hdiag, hrest⟩ := isRow_cons.mp hup
    obtain ⟨above, up, rfl, habove⟩ := hrest.head
    refine isRow_cons.mpr ⟨left, _, rfl, hleft, ?_⟩
    rw [dpRow]
    refine ih (done ++ [word]) hrest ?_
    show (if word = hash then above || left else if word = star ∨ b = word then diag else false) =
      true ↔ _
    by_cases hword : word = hash
    · subst hword
      rw [if_pos rfl, Bool.or_eq_true, fits_snoc_hash, habove, hleft]
    · rw [if_neg hword, fits_snoc_word hword]
      split
      · next hb => rw [hdiag, and_iff_right hb]
      · next hb => simp [hb]

/-- The table before its first row: only the empty key fits no words. -/
theorem firstRow_isRow (words : List Bytes) :
    IsRow [] [] words (true :: List.replicate words.length false) := by
  have hempty : Fits [] [] := ⟨matches_nil.mpr rfl, nofun⟩
  have hnone : ∀ front : List Bytes, front ≠ [] → ¬ Fits front [] := by
    intro front hfront hfits
    cases front with
    | nil => exact hfront rfl
    | cons word front =>
      have hword : word ≠ hash := fun h => hfits.2 (congrArg some h)
      exact not_matches_word_nil hword List.mem_cons_self hfits.1
  have hzero : ∀ (words done : List Bytes), done ≠ [] →
      IsRow [] done words (List.replicate (words.length + 1) false) := by
    intro words
    induction words with
    | nil =>
      intro done hdone
      refine .cons ?_ .nil
      rw [List.append_nil]
      exact iff_of_false nofun (hnone done hdone)
    | cons word words ih =>
      intro done hdone
      refine isRow_cons.mpr ⟨false, _, rfl, iff_of_false nofun (hnone done hdone), ?_⟩
      exact ih _ (List.append_ne_nil_of_right_ne_nil _ (List.cons_ne_nil _ _))
  cases words with
  | nil => exact .cons (iff_of_true rfl hempty) .nil
  | cons word words =>
    exact isRow_cons.mpr ⟨true, _, rfl, iff_of_true rfl hempty,
      hzero words [word] (List.cons_ne_nil _ _)⟩

/-- The rows that the words of the binding key give. -/
theorem rows_isRow (routing rest binding : List Bytes) {row : List Bool}
    (hrow : IsRow binding [] routing row) : IsRow (binding ++ rest) [] routing
      (rest.foldl (fun row word => false :: dpRow word routing row false) row) := by
  induction rest generalizing binding row with
  | nil =>
    rw [List.append_nil]
    exact hrow
  | cons b rest ih =>
    have hleft : false = true ↔ Fits [] (binding ++ [b]) := by
      refine iff_of_false nofun fun h => ?_
      cases (List.append_eq_nil_iff.mp (matches_nil.mp h.1)).2
    have hnext := ih (binding ++ [b]) (dpRow_isRow routing [] hrow hleft)
    rwa [List.append_assoc] at hnext

theorem IsRow.last {binding words done : List Bytes} {row : List Bool}
    (h : IsRow binding done words row) :
    row.getD words.length false = true ↔ Fits (done ++ words) binding := by
  induction words generalizing done row with
  | nil =>
    obtain ⟨v, rest, rfl, hv⟩ := h.head
    rw [List.append_nil]
    exact hv
  | cons word words ih =>
    obtain ⟨v, rest, rfl, _, hrest⟩ := isRow_cons.mp h
    have hlast := ih hrest
    rw [List.append_assoc] at hlast
    exact hlast

/-- The table matches the binding key against the routing key. -/
theorem isFit_iff {strRoutingKey strBindingKey : Name} (hr : 0 ∉ strRoutingKey)
    (hb : 0 ∉ strBindingKey) : isFit strRoutingKey strBindingKey = true ↔
      Fits (keyWords strRoutingKey) (keyWords strBindingKey) := by
  have hrows := rows_isRow (keyWords strRoutingKey) (keyWords strBindingKey) []
    (firstRow_isRow _)
  rw [isFit, splitKey_keyWords hr, splitKey_keyWords hb]
  exact hrows.last

/-! ## What is matched -/

/-- Each run of wildcards in the pattern stands for the words at its place. -/
def RunsStand (pattern words : List Bytes) : Prop :=
  List.Forall₂ (fun run words => Stands star hash run words.length) (runs star hash pattern)
    (runs star hash words)

instance (pattern words : List Bytes) : Decidable (RunsStand pattern words) :=
  inferInstanceAs (Decidable (List.Forall₂ _ _ _))

/-- When it does not matter that the wildcards are looked for in the wrong key.  With the same
plain words in both keys the runs of wildcards decide.  A routing key with more plain words is
always refused, and one with fewer should be; there the places of the plain words decide. -/
def KeysAgree (routing binding : List Bytes) : Prop :=
  if plainWords star hash routing = plainWords star hash binding then
    RunsStand binding routing ↔ RunsStand routing binding ∧ routing.head? ≠ some hash
  else if (plainWords star hash binding).Sublist (plainWords star hash routing) then
    ¬ Placed star hash binding routing
  else if (plainWords star hash routing).Sublist (plainWords star hash binding) then
    routing.head? = some hash ∨ ¬ Placed star hash routing binding
  else True

/-- `IsFit` is right where it does not matter which of the keys has the wildcards, by the words
of both. -/
theorem isFit_right_iff (strRoutingKey strBindingKey : Name) (hr : 0 ∉ strRoutingKey)
    (hb : 0 ∉ strBindingKey) :
    (isFit strRoutingKey strBindingKey = true ↔ TopicMatches strRoutingKey strBindingKey) ↔
      KeysAgree (keyWords strRoutingKey) (keyWords strBindingKey) := by
  rw [isFit_iff hr hb, TopicMatches, Fits, KeysAgree]
  generalize keyWords strRoutingKey = routing
  generalize keyWords strBindingKey = binding
  have hne : star ≠ hash := by decide
  rw [← matches_iff_placed hne, ← matches_iff_placed hne]
  by_cases hsame : plainWords star hash routing = plainWords star hash binding
  · rw [if_pos hsame, matches_iff_runs hne hsame, matches_iff_runs hne hsame.symm]
    exact iff_comm
  rw [if_neg hsame]
  by_cases hmore : (plainWords star hash binding).Sublist (plainWords star hash routing)
  · -- the routing key has a word that nothing in the binding key stands for
    have hrefused : ¬ Matches star hash routing binding := fun h =>
      hsame ((plainWords_sublist h).antisymm hmore)
    rw [if_pos hmore]
    tauto
  rw [if_neg hmore]
  have hunfit : ¬ Matches star hash binding routing := fun h => hmore (plainWords_sublist h)
  by_cases hfewer : (plainWords star hash routing).Sublist (plainWords star hash binding)
  · rw [if_pos hfewer]
    tauto
  · have hrefused : ¬ Matches star hash routing binding := fun h => hfewer (plainWords_sublist h)
    rw [if_neg hfewer]
    tauto

/-- Between keys without wildcards only equal words fit. -/
theorem isFit_of_plain {strRoutingKey strBindingKey : Name} (hr : 0 ∉ strRoutingKey)
    (hb : 0 ∉ strBindingKey) (hstar : star ∉ keyWords strRoutingKey)
    (hhash : hash ∉ keyWords strRoutingKey) :
    isFit strRoutingKey strBindingKey = true ↔
      keyWords strRoutingKey = keyWords strBindingKey := by
  have hhead : (keyWords strRoutingKey).head? ≠ some hash := by
    intro h
    exact hhash (List.mem_of_head? h)
  rw [isFit_iff hr hb, Fits, matches_of_plain hstar hhash, and_iff_left hhead, eq_comm]

/-- A routing key without wildcards is matched rightly by the binding keys without wildcards, and
by those whose plain words have no places in it. -/
theorem isFit_plain_right_iff {strRoutingKey strBindingKey : Name} (hr : 0 ∉ strRoutingKey)
    (hb : 0 ∉ strBindingKey) (hstar : star ∉ keyWords strRoutingKey)
    (hhash : hash ∉ keyWords strRoutingKey) :
    (isFit strRoutingKey strBindingKey = true ↔ TopicMatches strRoutingKey strBindingKey) ↔
      star ∉ keyWords strBindingKey ∧ hash ∉ keyWords strBindingKey ∨
        ¬ Placed star hash (keyWords strBindingKey) (keyWords strRoutingKey) := by
  rw [← matches_iff_placed (by decide), isFit_of_plain hr hb hstar hhash]
  by_cases hplain : star ∉ keyWords strBindingKey ∧ hash ∉ keyWords strBindingKey
  · rw [TopicMatches, matches_of_plain hplain.1 hplain.2]
    exact iff_of_true Iff.rfl (Or.inl hplain)
  · have hother : keyWords strRoutingKey ≠ keyWords strBindingKey := fun heq =>
      hplain ⟨heq ▸ hstar, heq ▸ hhash⟩
    rw [or_iff_right hplain, iff_false_left hother, TopicMatches]

/-- With "#" in one key where the other has "*" it does not matter. -/
theorem isFit_right_words :
    (isFit (ascii "a.#.b") (ascii "a.*.b") = true ↔
      TopicMatches (ascii "a.#.b") (ascii "a.*.b")) ∧
      isFit (ascii "a.#.b") (ascii "a.*.b") = true := by
  have hiff := isFit_right_iff (ascii "a.#.b") (ascii "a.*.b") (by decide) (by decide)
  refine ⟨hiff.mpr ?_, by decide⟩
  have hrouting : keyWords (ascii "a.#.b") = [ascii "a", hash, ascii "b"] := by decide
  have hbinding : keyWords (ascii "a.*.b") = [ascii "a", star, ascii "b"] := by decide
  rw [hrouting, hbinding, KeysAgree, if_pos (by decide)]
  decide

/-- The word "a" matches the binding key "*" and is not found to. -/
theorem star_not_found : isFit (ascii "a") star = false ∧ TopicMatches (ascii "a") star := by
  have hrouting : keyWords (ascii "a") = [ascii "a"] := by decide
  have hbinding : keyWords star = [star] := by decide
  refine ⟨by decide, ?_⟩
  rw [TopicMatches, hrouting, hbinding]
  refine ⟨[[ascii "a"]], .cons ?_ .nil, rfl⟩
  rw [Covers, if_neg (by decide), if_pos rfl]
  rfl

end Wsmq.Exchange
