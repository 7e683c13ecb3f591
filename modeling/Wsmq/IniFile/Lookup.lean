import Wsmq.IniFile

/-! Which value is looked up (`CIniFile::GetString`, `CIniFile::GetInt`), and when this is what
the lines of the text say. -/

namespace Wsmq
open Lib.ByteString Lib.Search

namespace CIniFile

/-! ## The lines of a text -/

def IsBreak (c : UInt8) : Prop := c = carriageReturn ∨ c = newline

instance (c : UInt8) : Decidable (IsBreak c) := inferInstanceAs (Decidable (_ ∨ _))

/-- A name of a section or an item. -/
structure KeyName (name : Bytes) : Prop where
  nonempty : name ≠ []
  plain : ∀ c ∈ name, c ≠ 0 ∧ c ≠ leftBracket ∧ c ≠ rightBracket ∧ c ≠ equalSign ∧ ¬ IsBreak c

def LineStart (text : Bytes) (p : Nat) : Prop := p = 0 ∨ text[p - 1]? = some newline

instance (text : Bytes) (p : Nat) : Decidable (LineStart text p) :=
  inferInstanceAs (Decidable (_ ∨ _))

/-- A line that starts with `[`. -/
def BracketLine (text : Bytes) (p : Nat) : Prop :=
  LineStart text p ∧ text[p]? = some leftBracket

instance (text : Bytes) (p : Nat) : Decidable (BracketLine text p) :=
  inferInstanceAs (Decidable (_ ∧ _))

/-- A line that starts with the section in brackets. -/
def Heading (text szSection : Bytes) (s : Nat) : Prop :=
  LineStart text s ∧ Occurs text (leftBracket :: szSection ++ [rightBracket]) s

/-- A line that is the section in brackets. -/
def SectionLine (text szSection : Bytes) (s : Nat) : Prop :=
  Heading text szSection s ∧ ∀ c, text[s + szSection.length + 2]? = some c → IsBreak c

/-- No line that starts with `[` comes between. -/
def InSection (text : Bytes) (s p : Nat) : Prop :=
  s < p ∧ ∀ l, s < l → l ≤ p → ¬ BracketLine text l

/-- A line that begins with the item, blanks, and `=` at `q`. -/
structure ItemLine (text szItem : Bytes) (p q : Nat) : Prop where
  start : LineStart text p
  item : Occurs text szItem p
  blanks : ∀ k, p + szItem.length ≤ k → k < q → ∃ c, text[k]? = some c ∧ IsBlank c
  le : p + szItem.length ≤ q
  equals : text[q]? = some equalSign

/-- The item stands at `p` below the section at `s`, and its `=` at `q`. -/
structure Entry (text szSection szItem : Bytes) (s p q : Nat) : Prop where
  heading : SectionLine text szSection s
  inSection : InSection text s p
  item : ItemLine text szItem p q

def Present (text szSection szItem : Bytes) : Prop :=
  ∃ s p q, Entry text szSection szItem s p q

/-- What comes before the line ends. -/
def line (rest : Bytes) : Bytes := rest.takeWhile fun c => ¬ IsBreak c

/-- The line behind `q`. -/
def restOfLine (text : Bytes) (q : Nat) : Bytes := line (text.drop (q + 1))

/-- What comes before the first single `;`, where `;;` stands for `;`. -/
def uncomment : Bytes → Bytes
  | [] => []
  | c :: line =>
    if c = semicolon then
      match line with
      | [] => []
      | c' :: line => if c' = semicolon then semicolon :: uncomment line else []
    else c :: uncomment line

/-- The value that a line has behind its `=`, in a buffer. -/
def lineValue (iValueLen : Nat) (line : Bytes) : Bytes :=
  trimString ((uncomment (line.dropWhile fun c => IsBlank c)).take (iValueLen - 1))

/-- `GetString` succeeds for the items that are there, with their values; for others it returns
the error and leaves the default, and so does `GetInt`. -/
def LooksUp (text szSection szItem szDefault : Bytes) (iValueLen : Nat) : Prop :=
  let f := ofFile (some text)
  (Present text szSection szItem → ∃ s p q, Entry text szSection szItem s p q ∧
    f.getString szSection szItem szDefault iValueLen =
      some (success, lineValue iValueLen (restOfLine text q))) ∧
  (¬ Present text szSection szItem →
    f.getString szSection szItem szDefault iValueLen =
      some (eIniFile, defaultValue szDefault iValueLen) ∧
    ∀ iDefault piValue, f.getInt szSection szItem iDefault piValue = some (eIniFile, iDefault))

/-! ## What is looked up -/

/-- An item of the section at `s` as the third loop accepts it, with a blank or `=` behind it. -/
structure Candidate (text szItem : Bytes) (s p : Nat) : Prop where
  inSection : InSection text s p
  start : LineStart text p
  item : Occurs text szItem p
  next : ∃ c, text[p + szItem.length]? = some c ∧ (IsBlank c ∨ c = equalSign)

/-- The section whose items are searched. -/
structure FirstSection (text szSection : Bytes) (s : Nat) : Prop where
  start : ¬ Occurs text szSection 0
  heading : IsNext (Heading text szSection) 0 s

/-- The item whose value is read. -/
structure FirstItem (text szSection szItem : Bytes) (s p : Nat) : Prop where
  firstSection : FirstSection text szSection s
  candidate : IsNext (Candidate text szItem s) s p

/-- When the lookup follows the lines of the text. -/
structure Findable (text szSection szItem : Bytes) (iValueLen : Nat) : Prop where
  nonempty : text ≠ []
  /-- An item that is there is missed when the name of the section begins the text. -/
  start : Occurs text szSection 0 → ¬ Present text szSection szItem
  /-- The search for the section does not run out where there is none. -/
  noSection : ¬ Occurs text szSection 0 → (∀ s, ¬ Heading text szSection s) →
    ¬ RunsOut (Occurs text szSection) text.length szSection.length 0
  /-- Where the first section has no such item, no other one has it, and when the section is the
  last one, the search for the item does not run out. -/
  noItem : ∀ s, FirstSection text szSection s → (∀ p, ¬ Candidate text szItem s p) →
    ¬ Present text szSection szItem ∧ ((∀ l, s < l → ¬ BracketLine text l) →
      ¬ RunsOut (Occurs text szItem) text.length szItem.length (s + 1))
  /-- The next `=` is the last byte, or there is none, only where no item is there. -/
  noValue : ∀ s p, FirstItem text szSection szItem s p →
    (∀ q, IsNext (Occurs text [equalSign]) p q → text.length ≤ q + 1) →
    ¬ Present text szSection szItem
  /-- An item that is there has the same value as the line behind the next `=`. -/
  value : ∀ s p q, FirstItem text szSection szItem s p →
    IsNext (Occurs text [equalSign]) p q → q + 1 < text.length →
    ¬ [semicolon, semicolon] <+: restOfLine text q →
    ∃ s' p' q', Entry text szSection szItem s' p' q' ∧
      lineValue iValueLen (restOfLine text q') = lineValue iValueLen (restOfLine text q)
  /-- Where `;;` stands at once behind it, an item that is there has no value. -/
  double : ∀ s p q, FirstItem text szSection szItem s p →
    IsNext (Occurs text [equalSign]) p q → q + 1 < text.length →
    [semicolon, semicolon] <+: restOfLine text q →
    ∃ s' p' q', Entry text szSection szItem s' p' q' ∧
      lineValue iValueLen (restOfLine text q') = []

/-- How a lookup goes: it fails, it runs over the end of the text, or it finds a `=`. -/
inductive Lookup (text szSection szItem : Bytes) : Located → Prop
  | atStart (hstart : Occurs text szSection 0) : Lookup text szSection szItem .failed
  | noSection (hstart : ¬ Occurs text szSection 0) (hnone : ∀ s, ¬ Heading text szSection s)
      (hruns : ¬ RunsOut (Occurs text szSection) text.length szSection.length 0) :
      Lookup text szSection szItem .failed
  | sectionRanOut (hstart : ¬ Occurs text szSection 0) (hnone : ∀ s, ¬ Heading text szSection s)
      (hruns : RunsOut (Occurs text szSection) text.length szSection.length 0) :
      Lookup text szSection szItem (.ranOut text.length)
  | noItem {s : Nat} (hs : FirstSection text szSection s)
      (hnone : ∀ p, ¬ Candidate text szItem s p)
      (hruns : (∀ l, s < l → ¬ BracketLine text l) →
        ¬ RunsOut (Occurs text szItem) text.length szItem.length (s + 1)) :
      Lookup text szSection szItem .failed
  | itemRanOut {s : Nat} (hs : FirstSection text szSection s)
      (hnone : ∀ p, ¬ Candidate text szItem s p) (hlast : ∀ l, s < l → ¬ BracketLine text l)
      (hruns : RunsOut (Occurs text szItem) text.length szItem.length (s + 1)) :
      Lookup text szSection szItem (.ranOut text.length)
  | noValue {s p : Nat} (hp : FirstItem text szSection szItem s p)
      (hnone : ∀ q, IsNext (Occurs text [equalSign]) p q → text.length ≤ q + 1) :
      Lookup text szSection szItem .failed
  | value {s p q : Nat} (hp : FirstItem text szSection szItem s p)
      (hq : IsNext (Occurs text [equalSign]) p q) (hlt : q + 1 < text.length) :
      Lookup text szSection szItem (.found q)

/-- What `GetString` returns then. -/
def answer (text szDefault : Bytes) (iValueLen : Nat) : Located → Option (Int × Bytes)
  | .failed => some (eIniFile, defaultValue szDefault iValueLen)
  | .ranOut _ =>
    if szDefault.length < iValueLen then
      some (success, trimString (defaultValue szDefault iValueLen))
    else none
  | .found q => some (success, trimString (copyValue iValueLen true [] (text.drop (q + 1))))

/-! ## What the loops find -/

section Loops

variable {text szSection szItem : Bytes} {p q s l : Nat}

theorem strstr_eq (htext : 0 ∉ text) (pat : Bytes) (t : Nat) :
    strstr text t pat = findFrom pat text t := by
  have hall : (text.drop t).takeWhile (· ≠ 0) = text.drop t := by
    rw [List.takeWhile_eq_self_iff]
    intro c hc
    exact decide_eq_true fun hzero => htext (hzero ▸ List.mem_of_mem_drop hc)
  rw [strstr, hall, findFrom]

theorem charAt_iff {c : UInt8} (hc : c ≠ 0) : charAt text p = c ↔ text[p]? = some c := by
  rw [charAt, List.getD_eq_getElem?_getD]
  cases text[p]? with
  | none => simpa using hc.symm
  | some d => simp

theorem KeyName.length_pos (h : KeyName szItem) : 0 < szItem.length :=
  List.length_pos_iff.mpr h.nonempty

theorem heading_iff : Heading text szSection s ↔ LineStart text s ∧
    text[s]? = some leftBracket ∧ Occurs text szSection (s + 1) ∧
      text[s + 1 + szSection.length]? = some rightBracket := by
  rw [Heading, List.cons_append, occurs_cons, occurs_append, occurs_singleton]

theorem Heading.bracketLine (h : Heading text szSection s) : BracketLine text s :=
  ⟨h.1, (heading_iff.mp h).2.1⟩

theorem heading_iff_sectionAt :
    Heading text szSection s ↔
      Occurs text szSection (s + 1) ∧ SectionAt text szSection (s + 1) := by
  rw [heading_iff, SectionAt, charAt_iff (by decide), charAt_iff (by decide),
    charAt_iff (by decide), LineStart]
  simp only [Nat.add_sub_cancel, Nat.lt_add_left_iff_pos, Nat.reduceSubDiff]
  constructor
  · rintro ⟨hline, hleft, hocc, hright⟩
    exact ⟨hocc, hleft, hright, fun hpos => hline.resolve_left (Nat.ne_of_gt hpos)⟩
  · rintro ⟨hocc, hleft, hright, hline⟩
    exact ⟨(Nat.eq_zero_or_pos s).imp_right hline, hleft, hocc, hright⟩

theorem strstr_some (htext : 0 ∉ text) (pat : Bytes) (t p : Nat)
    (h : strstr text t pat = some p) : IsNext (Occurs text pat) t p := by
  rw [strstr_eq htext] at h
  exact findFrom_some h

theorem strstr_none (htext : 0 ∉ text) (pat : Bytes) (t : Nat) (h : strstr text t pat = none)
    (p : Nat) (hp : t ≤ p) : ¬ Occurs text pat p := by
  rw [strstr_eq htext] at h
  exact findFrom_none h hp

/-- A name has no bracket, so a section does not begin inside another place of its name. -/
theorem locateSection_spec (htext : 0 ∉ text) (hne : text ≠ []) (hsec : KeyName szSection) :
    ∃ r, locateSection text szSection = some r ∧
      LocatedFrom (Occurs text szSection) text.length szSection.length (fun p => p = 0)
        (SectionAt text szSection) 0 r := by
  refine locate_spec hsec.length_pos (strstr_some htext szSection) (strstr_none htext szSection)
    (fun p hp => hp.fits hsec.nonempty) ?_ (List.length_pos_iff.mpr hne) (by omega)
  intro p q hp _ _ hlt hle hright
  have hleft := (charAt_iff (by decide)).mp hright.1
  exact (hsec.plain _ (hp.mem (by omega) (by omega) hleft)).2.1 rfl

/-- A name has no line break, so an item does not begin inside another place of its name. -/
theorem locateItem_spec (htext : 0 ∉ text) (hitem : KeyName szItem) (pszNextSection t : Nat)
    (ht : t < text.length) :
    ∃ r, locateItem text szItem pszNextSection t = some r ∧
      LocatedFrom (Occurs text szItem) text.length szItem.length
        (fun p => pszNextSection ≤ p) (ItemAt text szItem) t r := by
  refine locate_spec hitem.length_pos (strstr_some htext szItem) (strstr_none htext szItem)
    (fun p hp => hp.fits hitem.nonempty) ?_ ht (by omega)
  intro p q hp _ _ hlt hle hright
  have hbreak := (charAt_iff (by decide)).mp hright.1
  exact (hitem.plain _ (hp.mem (by omega) (by omega) hbreak)).2.2.2.2 (.inr rfl)

theorem bracketLine_succ :
    BracketLine text (l + 1) ↔ text[l]? = some newline ∧ text[l + 1]? = some leftBracket := by
  rw [BracketLine, LineStart, Nat.add_sub_cancel, or_iff_right (Nat.succ_ne_zero l)]

/-- The second loop ends at the first line with a bracket, or at the end of the text. -/
theorem nextSection_spec (htext : 0 ∉ text) (n t : Nat) (ht : t < text.length)
    (hn : text.length < t + n) :
    ∃ r, nextSection text n (t + 1) = some r ∧
      ∀ p, p < text.length → (p < r ↔ ∀ l, t < l → l ≤ p → ¬ BracketLine text l) := by
  induction n generalizing t with
  | zero => omega
  | succ n ih =>
    rw [nextSection]
    cases hnext : strstr text (t + 1) [leftBracket] with
    | none =>
      refine ⟨_, rfl, fun p hp => iff_of_true hp fun l hlt _ hline => ?_⟩
      exact strstr_none htext _ _ hnext l hlt (occurs_singleton.mpr hline.2)
    | some q =>
      have hq := strstr_some htext _ _ _ hnext
      have hfit := hq.here.fits (List.cons_ne_nil _ _)
      have hbefore : ∀ l, t < l → l < q → ¬ BracketLine text l := fun l hlt hle hline =>
        hq.first l hlt hle (occurs_singleton.mpr hline.2)
      have hle := hq.le
      rw [List.length_singleton] at hfit
      obtain ⟨k, rfl⟩ : ∃ k, q = k + 1 := ⟨q - 1, by omega⟩
      have hline : BracketLine text (k + 1) ↔ _ := bracketLine_succ
      dsimp only
      rw [Nat.add_sub_cancel]
      by_cases hstart : charAt text k = newline
      · rw [if_pos hstart]
        refine ⟨_, rfl, fun p hp => ⟨fun hlt l hl hle' => hbefore l hl (by omega), fun hfree => ?_⟩⟩
        by_contra hge
        exact hfree (k + 1) (by omega) (by omega)
          (hline.mpr ⟨(charAt_iff (by decide)).mp hstart, occurs_singleton.mp hq.here⟩)
      · rw [if_neg hstart]
        have hno : ¬ BracketLine text (k + 1) := fun h =>
          hstart ((charAt_iff (by decide)).mpr (hline.mp h).1)
        obtain ⟨r, hr, hspec⟩ := ih (k + 1) hfit (by omega)
        refine ⟨r, hr, fun p hp => (hspec p hp).trans ⟨fun hfree l hl hle' => ?_, fun hfree l hl =>
          hfree l (by omega)⟩⟩
        rcases Nat.lt_trichotomy l (k + 1) with hlt | rfl | hgt
        · exact hbefore l hl hlt
        · exact hno
        · exact hfree l hgt hle'

theorem itemAt_iff (hp : 0 < p) : ItemAt text szItem p ↔ LineStart text p ∧
    ∃ c, text[p + szItem.length]? = some c ∧ (IsBlank c ∨ c = equalSign) := by
  rw [ItemAt, charAt_iff (by decide), charAt_iff (by decide), LineStart,
    or_iff_right (Nat.ne_of_gt hp), IsBlank, charAt_iff (by decide), charAt_iff (by decide)]
  refine and_congr_right fun _ => ⟨?_, ?_⟩
  · rintro ((h | h) | h)
    · exact ⟨_, h, .inl (.inl rfl)⟩
    · exact ⟨_, h, .inl (.inr rfl)⟩
    · exact ⟨_, h, .inr rfl⟩
  · rintro ⟨c, h, (rfl | rfl) | rfl⟩
    · exact .inl (.inl h)
    · exact .inl (.inr h)
    · exact .inr h

/-- An item of the section is a candidate. -/
theorem Entry.candidate (h : Entry text szSection szItem s p q) : Candidate text szItem s p where
  inSection := h.inSection
  start := h.item.start
  item := h.item.item
  next := by
    rcases Nat.eq_or_lt_of_le h.item.le with heq | hlt
    · exact ⟨_, heq ▸ h.item.equals, .inr rfl⟩
    · obtain ⟨c, hc, hblank⟩ := h.item.blanks _ (Nat.le_refl _) hlt
      exact ⟨c, hc, .inl hblank⟩

end Loops

section Lookups

variable {text szSection szItem szDefault : Bytes} {iValueLen p q s t : Nat}

/-- What is searched behind the section. -/
def answerBehind (text szItem szDefault : Bytes) (iValueLen t : Nat) : Option (Int × Bytes) :=
  (nextSection text (text.length + 1) t).bind fun pszNextSection =>
    (locateItem text szItem pszNextSection t).bind fun located =>
      match located with
      | .failed => answer text szDefault iValueLen .failed
      | .ranOut t => answer text szDefault iValueLen (.ranOut t)
      | .found pszItem =>
        match strstr text pszItem [equalSign] with
        | none => answer text szDefault iValueLen .failed
        | some pszValue =>
          if text.length ≤ pszValue + 1 then answer text szDefault iValueLen .failed
          else answer text szDefault iValueLen (.found pszValue)

theorem getString_ofFile (hne : text ≠ []) :
    (ofFile (some text)).getString szSection szItem szDefault iValueLen =
      (locateSection text szSection).bind fun located =>
        match located with
        | .failed => answer text szDefault iValueLen .failed
        | .ranOut t | .found t => answerBehind text szItem szDefault iValueLen t := by
  rw [ofFile, if_neg hne]
  exact if_neg (List.length_pos_iff.mpr hne).ne'

/-- The loop over the sections gives up at once. -/
theorem locateSection_start (htext : 0 ∉ text) (hne : text ≠ [])
    (hstart : Occurs text szSection 0) : locateSection text szSection = some .failed := by
  rw [locateSection, locate, if_pos (List.length_pos_iff.mpr hne)]
  cases hnext : strstr text 0 szSection with
  | none => exact absurd hstart (strstr_none htext _ _ hnext 0 (Nat.le_refl 0))
  | some p =>
    have hp := strstr_some htext _ _ _ hnext
    have hzero : IsNext (Occurs text szSection) 0 0 :=
      ⟨Nat.le_refl 0, hstart, fun q _ hlt => absurd hlt (Nat.not_lt_zero q)⟩
    exact if_pos (hp.unique hzero)

/-- At the end of the text there is neither a section nor an item. -/
theorem answerBehind_end :
    answerBehind text szItem szDefault iValueLen text.length =
      answer text szDefault iValueLen (.ranOut text.length) := by
  have hnext : nextSection text (text.length + 1) text.length = some text.length := by
    rw [nextSection, strstr, List.drop_length]
    rfl
  rw [answerBehind, hnext, Option.bind_some, locateItem, locate, if_neg (Nat.lt_irrefl _)]
  rfl

theorem Heading.lt (h : Heading text szSection s) : s + 1 < text.length := by
  have hfit := h.2.fits (List.cons_ne_nil _ _)
  rw [List.length_append, List.length_cons, List.length_singleton] at hfit
  omega

/-- Before the next section, the places that the third loop accepts are the candidates. -/
theorem candidate_iff {r : Nat} (hitem : KeyName szItem)
    (hnext : ∀ p, p < text.length → (p < r ↔ ∀ l, s < l → l ≤ p → ¬ BracketLine text l)) :
    Candidate text szItem s p ↔
      s + 1 ≤ p ∧ p < r ∧ Occurs text szItem p ∧ ItemAt text szItem p := by
  have hlen := hitem.length_pos
  constructor
  · intro h
    have hfit := h.item.fits hitem.nonempty
    have hlt := h.inSection.1
    exact ⟨hlt, (hnext p (by omega)).mpr h.inSection.2, h.item,
      (itemAt_iff (by omega)).mpr ⟨h.start, h.next⟩⟩
  · rintro ⟨hle, hlt, hocc, hright⟩
    have hfit := hocc.fits hitem.nonempty
    obtain ⟨hstart, hnext'⟩ := (itemAt_iff (by omega)).mp hright
    exact ⟨⟨hle, (hnext p (by omega)).mp hlt⟩, hstart, hocc, hnext'⟩

theorem answerBehind_lookup (htext : 0 ∉ text) (hitem : KeyName szItem)
    (hs : FirstSection text szSection s) :
    ∃ r, Lookup text szSection szItem r ∧ ∀ szDefault iValueLen,
      answerBehind text szItem szDefault iValueLen (s + 1) = answer text szDefault iValueLen r := by
  have hlt := hs.heading.here.lt
  have hlen := hitem.length_pos
  obtain ⟨r, hr, hnext⟩ := nextSection_spec htext (text.length + 1) s (by omega) (by omega)
  have hcand := fun p => candidate_iff (p := p) hitem hnext
  obtain ⟨located, hlocated, hspec⟩ := locateItem_spec htext hitem r (s + 1) hlt
  simp only [answerBehind, hr, hlocated, Option.bind_some]
  cases hspec with
  | gaveUp hle hplace hgives hfree =>
    refine ⟨_, .noItem hs (fun c hc => ?_) fun hlast => ?_, fun _ _ => rfl⟩
    · obtain ⟨hle', hlt', hocc, hright⟩ := (hcand c).mp hc
      exact hfree c hle' (Nat.lt_of_lt_of_le hlt' hgives) hocc hright
    · have hfit := hplace.fits hitem.nonempty
      exact absurd ((hnext _ (by omega)).mpr fun l hl _ => hlast l hl) (Nat.not_lt.mpr hgives)
  | failed hfree hruns =>
    refine ⟨_, .noItem hs (fun c hc => ?_) fun _ => hruns, fun _ _ => rfl⟩
    obtain ⟨hle', _, hocc, hright⟩ := (hcand c).mp hc
    exact hfree c hle' hocc hright
  | ranOut hlast hend hgo hfree hruns =>
    refine ⟨_, .itemRanOut hs (fun c hc => ?_) (fun l hl hline => ?_) hruns, fun _ _ => rfl⟩
    · obtain ⟨hle', _, hocc, hright⟩ := (hcand c).mp hc
      exact hfree c hle' hocc hright
    · -- no bracket stands in the item, with which the text ends
      have hbefore := (hnext _ (by omega)).mp (Nat.not_le.mp hgo)
      rcases Nat.lt_or_ge _ l with hin | hle
      · have hfit := (List.getElem?_eq_some_iff.mp hline.2).1
        exact (hitem.plain _ (hlast.mem (Nat.le_of_lt hin) (by omega) hline.2)).2.1 rfl
      · exact hbefore l hl hle hline
  | found hplace hgo =>
    rename_i p
    have hp : FirstItem text szSection szItem s p := by
      refine ⟨hs, ⟨Nat.le_of_succ_le hplace.le, ?_, fun c _ hlt' hc => ?_⟩⟩
      · exact (hcand p).mpr ⟨hplace.le, Nat.not_le.mp hgo, hplace.here⟩
      · obtain ⟨hle, _, hboth⟩ := (hcand c).mp hc
        exact hplace.first c hle hlt' hboth
    cases hvalue : strstr text p [equalSign] with
    | none =>
      refine ⟨_, .noValue hp fun q hq => ?_, fun _ _ => by simp only [hvalue]⟩
      exact absurd hq.here (strstr_none htext _ _ hvalue q hq.le)
    | some q =>
      have hq := strstr_some htext _ _ _ hvalue
      by_cases hend : text.length ≤ q + 1
      · exact ⟨_, .noValue hp fun q' hq' => hq.unique hq' ▸ hend, fun _ _ => by
          simp only [hvalue, if_pos hend]⟩
      · exact ⟨_, .value hp hq (Nat.not_le.mp hend), fun _ _ => by
          simp only [hvalue, if_neg hend]⟩

theorem getString_lookup (htext : 0 ∉ text) (hne : text ≠ []) (hsec : KeyName szSection)
    (hitem : KeyName szItem) :
    ∃ r, Lookup text szSection szItem r ∧ ∀ szDefault iValueLen,
      (ofFile (some text)).getString szSection szItem szDefault iValueLen =
        answer text szDefault iValueLen r := by
  by_cases hstart : Occurs text szSection 0
  · refine ⟨_, .atStart hstart, fun _ _ => ?_⟩
    rw [getString_ofFile hne, locateSection_start htext hne hstart]
    rfl
  obtain ⟨located, hlocated, hspec⟩ := locateSection_spec htext hne hsec
  have hheading : ∀ s, Heading text szSection s ↔
      Occurs text szSection (s + 1) ∧ SectionAt text szSection (s + 1) :=
    fun s => heading_iff_sectionAt
  simp only [getString_ofFile hne, hlocated, Option.bind_some]
  cases hspec with
  | gaveUp _ hplace hgives _ => exact absurd (hgives ▸ hplace) hstart
  | failed hfree hruns =>
    refine ⟨_, .noSection hstart (fun s hs => ?_) hruns, fun _ _ => rfl⟩
    obtain ⟨hocc, hright⟩ := (hheading s).mp hs
    exact hfree _ (Nat.zero_le _) hocc hright
  | ranOut _ _ _ hfree hruns =>
    refine ⟨_, .sectionRanOut hstart (fun s hs => ?_) hruns, fun _ _ => answerBehind_end⟩
    obtain ⟨hocc, hright⟩ := (hheading s).mp hs
    exact hfree _ (Nat.zero_le _) hocc hright
  | found hplace hgo =>
    rename_i p
    obtain ⟨s, rfl⟩ := Nat.exists_eq_succ_of_ne_zero hgo
    have hs : FirstSection text szSection s := by
      refine ⟨hstart, ⟨Nat.zero_le s, (hheading s).mpr hplace.here, fun s' _ hlt hs' => ?_⟩⟩
      exact hplace.first (s' + 1) (Nat.zero_le _) (Nat.succ_lt_succ hlt) ((hheading s').mp hs')
    exact answerBehind_lookup htext hitem hs

end Lookups

/-! ## What is copied -/

section Values

variable {iValueLen : Nat} {c : UInt8} {szValue rest : Bytes}

theorem uncomment_double (line : Bytes) :
    uncomment (semicolon :: semicolon :: line) = semicolon :: uncomment line := by
  rw [uncomment.eq_def]
  exact if_pos rfl

theorem uncomment_single (hsingle : rest.head? ≠ some semicolon) :
    uncomment (semicolon :: rest) = [] := by
  rw [uncomment.eq_def]
  cases rest with
  | nil => rfl
  | cons c rest => exact if_neg fun h => hsingle (congrArg some h)

theorem uncomment_cons (hc : c ≠ semicolon) (line : Bytes) :
    uncomment (c :: line) = c :: uncomment line := by
  rw [uncomment.eq_def]
  exact if_neg hc

theorem copyValue_cons (bStart : Bool) (szValue : Bytes) (c : UInt8) (pszValue : Bytes) :
    copyValue iValueLen bStart szValue (c :: pszValue) =
      if ¬ szValue.length < iValueLen - 1 ∨ c = carriageReturn ∨ c = newline ∨ c = 0 then szValue
      else if IsBlank c ∧ szValue = [] then copyValue iValueLen false szValue pszValue
      else if c = semicolon then
        if bStart then szValue
        else
          match pszValue with
          | [] => szValue
          | c' :: pszValue =>
            if c' = semicolon then copyValue iValueLen false (szValue ++ [c]) pszValue else szValue
      else copyValue iValueLen false (szValue ++ [c]) pszValue := by
  rw [copyValue.eq_def]
  rfl

theorem copyValue_full (hfull : ¬ szValue.length < iValueLen - 1) (bStart : Bool) (rest : Bytes) :
    copyValue iValueLen bStart szValue rest = szValue := by
  cases rest with
  | nil => rfl
  | cons c rest =>
    rw [copyValue_cons]
    exact if_pos (.inl hfull)

theorem copyValue_break (hc : IsBreak c) (bStart : Bool) :
    copyValue iValueLen bStart szValue (c :: rest) = szValue := by
  rw [copyValue_cons]
  exact if_pos (.inr (hc.imp_right .inl))

theorem copyValue_start : copyValue iValueLen true szValue (semicolon :: rest) = szValue := by
  rw [copyValue_cons]
  simp [show ¬ IsBlank semicolon by decide]

section Steps

variable (hroom : szValue.length < iValueLen - 1)
include hroom

/-- The loop goes on behind `c`. -/
theorem copyValue_go (hc : ¬ IsBreak c) (hzero : c ≠ 0) :
    ¬ (¬ szValue.length < iValueLen - 1 ∨ c = carriageReturn ∨ c = newline ∨ c = 0) := by
  rintro (hfull | hreturn | hline | hnul)
  · exact hfull hroom
  · exact hc (.inl hreturn)
  · exact hc (.inr hline)
  · exact hzero hnul

theorem copyValue_push (hc : ¬ IsBreak c) (hzero : c ≠ 0) (hsemicolon : c ≠ semicolon)
    (hblank : szValue ≠ [] ∨ ¬ IsBlank c) (bStart : Bool) :
    copyValue iValueLen bStart szValue (c :: rest) =
      copyValue iValueLen false (szValue ++ [c]) rest := by
  rw [copyValue_cons]
  rw [if_neg (copyValue_go hroom hc hzero), if_neg, if_neg hsemicolon]
  exact fun h => hblank.elim (fun hne => hne h.2) fun hno => hno h.1

theorem copyValue_double : copyValue iValueLen false szValue (semicolon :: semicolon :: rest) =
    copyValue iValueLen false (szValue ++ [semicolon]) rest := by
  rw [copyValue_cons]
  rw [if_neg (copyValue_go hroom (by decide) (by decide)), if_neg (fun h => absurd h.1 (by decide)),
    if_pos rfl]
  rfl

theorem copyValue_single (hsingle : rest.head? ≠ some semicolon) :
    copyValue iValueLen false szValue (semicolon :: rest) = szValue := by
  rw [copyValue_cons]
  rw [if_neg (copyValue_go hroom (by decide) (by decide)), if_neg (fun h => absurd h.1 (by decide)),
    if_pos rfl]
  cases rest with
  | nil => rfl
  | cons c rest => exact if_neg fun h => hsingle (congrArg some h)

end Steps

theorem line_break (hc : IsBreak c) : line (c :: rest) = [] :=
  List.takeWhile_cons_of_neg (by simpa using hc)

theorem line_cons (hc : ¬ IsBreak c) : line (c :: rest) = c :: line rest :=
  List.takeWhile_cons_of_pos (by simpa using hc)

theorem line_head (hc : ¬ IsBreak c) : (line rest).head? = some c ↔ rest.head? = some c := by
  cases rest with
  | nil => rfl
  | cons c' rest =>
    by_cases hbreak : IsBreak c'
    · rw [line_break hbreak, List.head?_cons, Option.some_inj]
      exact iff_of_false (fun h => nomatch h) fun h => hc (h ▸ hbreak)
    · rw [line_cons hbreak, List.head?_cons, List.head?_cons]

theorem take_full (hfull : ¬ szValue.length < iValueLen - 1) (bytes : Bytes) :
    szValue ++ bytes.take (iValueLen - 1 - szValue.length) = szValue := by
  rw [Nat.sub_eq_zero_of_le (Nat.not_lt.mp hfull), List.take_zero, List.append_nil]

theorem take_push (hroom : szValue.length < iValueLen - 1) (c : UInt8) (bytes : Bytes) :
    szValue ++ (c :: bytes).take (iValueLen - 1 - szValue.length) =
      szValue ++ [c] ++ bytes.take (iValueLen - 1 - (szValue ++ [c]).length) := by
  have hsub : iValueLen - 1 - szValue.length = iValueLen - 1 - (szValue ++ [c]).length + 1 := by
    rw [List.length_append, List.length_singleton]
    omega
  rw [hsub, List.take_succ_cons, List.append_assoc, List.singleton_append]

theorem copyValue_append_single (hsingle : rest.head? ≠ some semicolon) :
    copyValue iValueLen false szValue (semicolon :: rest) = szValue ++
      (uncomment (line (semicolon :: rest))).take (iValueLen - 1 - szValue.length) := by
  have hsemicolon : ¬ IsBreak semicolon := by decide
  rw [line_cons hsemicolon, uncomment_single (mt (line_head hsemicolon).mp hsingle), List.take_nil,
    List.append_nil]
  by_cases hroom : szValue.length < iValueLen - 1
  · exact copyValue_single hroom hsingle
  · exact copyValue_full hroom _ _

/-- Behind the blanks, what is copied is the line up to its comment. -/
theorem copyValue_append (hrest : 0 ∉ rest)
    (hblank : szValue ≠ [] ∨ ∀ c, rest.head? = some c → ¬ IsBlank c) :
    copyValue iValueLen false szValue rest =
      szValue ++ (uncomment (line rest)).take (iValueLen - 1 - szValue.length) := by
  have hne : ∀ (szValue : Bytes) (c : UInt8), szValue ++ [c] ≠ [] := fun _ c =>
    List.append_ne_nil_of_right_ne_nil _ (List.cons_ne_nil c [])
  induction rest using uncomment.induct generalizing szValue with
  | case1 => rw [copyValue, line, List.takeWhile_nil, uncomment, List.take_nil, List.append_nil]
  | case2 => exact copyValue_append_single fun h => nomatch h
  | case3 rest ih =>
    by_cases hroom : szValue.length < iValueLen - 1
    · rw [copyValue_double hroom, ih (fun h => hrest (by simp [h])) (.inl (hne _ _)),
        line_cons (by decide), line_cons (by decide), uncomment_double, take_push hroom]
    · rw [copyValue_full hroom, take_full hroom]
  | case4 c rest hc => exact copyValue_append_single fun h => hc (Option.some_inj.mp h)
  | case5 c rest hc ih =>
    by_cases hbreak : IsBreak c
    · rw [copyValue_break hbreak, line_break hbreak, uncomment, List.take_nil, List.append_nil]
    by_cases hroom : szValue.length < iValueLen - 1
    · have hzero : c ≠ 0 := fun h => hrest (h ▸ List.mem_cons_self)
      have hgo : szValue ≠ [] ∨ ¬ IsBlank c := hblank.imp_right fun h => h c rfl
      rw [copyValue_push hroom hbreak hzero hc hgo, ih (fun h => hrest (List.mem_cons_of_mem c h))
        (.inl (hne _ c)), line_cons hbreak, uncomment_cons hc, take_push hroom]
    · rw [copyValue_full hroom, take_full hroom]

theorem copyValue_blank (hc : IsBlank c) (bStart : Bool) :
    copyValue iValueLen bStart [] (c :: rest) = copyValue iValueLen false [] rest := by
  by_cases hroom : ([] : Bytes).length < iValueLen - 1
  · have hgo : ¬ IsBreak c ∧ c ≠ 0 := by rcases hc with rfl | rfl <;> decide
    rw [copyValue_cons, if_neg (copyValue_go hroom hgo.1 hgo.2), if_pos ⟨hc, rfl⟩]
  · rw [copyValue_full hroom, copyValue_full hroom]

/-- The blanks before the value are left out. -/
theorem copyValue_blanks (hrest : 0 ∉ rest) : copyValue iValueLen false [] rest =
    (uncomment ((line rest).dropWhile fun c => IsBlank c)).take (iValueLen - 1) := by
  induction rest with
  | nil => rw [copyValue, line, List.takeWhile_nil, List.dropWhile_nil, uncomment, List.take_nil]
  | cons c rest ih =>
    by_cases hblank : IsBlank c
    · have hbreak : ¬ IsBreak c := by rcases hblank with rfl | rfl <;> decide
      rw [copyValue_blank hblank, line_cons hbreak,
        List.dropWhile_cons_of_pos (by simpa using hblank),
        ih fun h => hrest (List.mem_cons_of_mem c h)]
    · have hfirst : ∀ c', (c :: rest).head? = some c' → ¬ IsBlank c' :=
        fun c' hc' => Option.some_inj.mp hc' ▸ hblank
      rw [copyValue_append hrest (.inr hfirst), List.nil_append]
      by_cases hbreak : IsBreak c
      · rw [line_break hbreak]
        rfl
      · rw [line_cons hbreak, List.dropWhile_cons_of_neg (by simpa using hblank)]
        rfl

/-- Only a `;` at once behind the `=` is always the start of a comment. -/
theorem copyValue_true (hrest : 0 ∉ rest) (hfirst : rest.head? ≠ some semicolon) :
    copyValue iValueLen true [] rest = copyValue iValueLen false [] rest := by
  cases rest with
  | nil => rw [copyValue, copyValue]
  | cons c rest =>
    by_cases hbreak : IsBreak c
    · rw [copyValue_break hbreak, copyValue_break hbreak]
    by_cases hblank : IsBlank c
    · rw [copyValue_blank hblank, copyValue_blank hblank]
    by_cases hroom : ([] : Bytes).length < iValueLen - 1
    · have hzero : c ≠ 0 := fun h => hrest (h ▸ List.mem_cons_self)
      have hc : c ≠ semicolon := fun h => hfirst (congrArg some h)
      rw [copyValue_push hroom hbreak hzero hc (.inr hblank),
        copyValue_push hroom hbreak hzero hc (.inr hblank)]
    · rw [copyValue_full hroom, copyValue_full hroom]

/-- What is read of a line behind a `=`: at once behind it, `;;` is no `;`. -/
def valueBehind (iValueLen : Nat) (line : Bytes) : Bytes :=
  if [semicolon, semicolon] <+: line then [] else lineValue iValueLen line

theorem trimString_copyValue (hrest : 0 ∉ rest) :
    trimString (copyValue iValueLen true [] rest) = valueBehind iValueLen (line rest) := by
  have hsemicolon : ¬ IsBreak semicolon := by decide
  rw [valueBehind]
  by_cases hfirst : rest.head? = some semicolon
  · obtain ⟨rest, rfl⟩ := List.head?_eq_some_iff.mp hfirst
    rw [copyValue_start]
    split
    · rfl
    next hdouble =>
    have hsingle : (line rest).head? ≠ some semicolon := by
      intro h
      obtain ⟨tail, htail⟩ := List.head?_eq_some_iff.mp h
      exact hdouble ⟨tail, by rw [line_cons hsemicolon, htail]; rfl⟩
    rw [lineValue, line_cons hsemicolon, List.dropWhile_cons_of_neg (by decide),
      uncomment_single hsingle, List.take_nil]
  · have hdouble : ¬ [semicolon, semicolon] <+: line rest := by
      rintro ⟨tail, htail⟩
      exact hfirst ((line_head hsemicolon).mp (by rw [← htail]; rfl))
    rw [if_neg hdouble, copyValue_true hrest hfirst, copyValue_blanks hrest, lineValue]

end Values

/-! ## When the lookup is right -/

section Lookup

variable {text szSection szItem szDefault : Bytes} {iValueLen s : Nat} {r : Located}

theorem FirstSection.unique {s' : Nat} (h : FirstSection text szSection s)
    (h' : FirstSection text szSection s') : s = s' :=
  h.heading.unique h'.heading

theorem FirstItem.unique {p s' p' : Nat} (h : FirstItem text szSection szItem s p)
    (h' : FirstItem text szSection szItem s' p') : s = s' ∧ p = p' := by
  obtain rfl := h.firstSection.unique h'.firstSection
  exact ⟨rfl, h.candidate.unique h'.candidate⟩

/-- What the lines have to say after a lookup. -/
def Agrees (text szSection szItem : Bytes) (iValueLen : Nat) : Located → Prop
  | .failed => ¬ Present text szSection szItem
  | .ranOut _ => False
  | .found q => ∃ s' p' q', Entry text szSection szItem s' p' q' ∧
      lineValue iValueLen (restOfLine text q') = valueBehind iValueLen (restOfLine text q)

theorem not_present_of_no_heading (hnone : ∀ s, ¬ Heading text szSection s) :
    ¬ Present text szSection szItem :=
  fun ⟨s, _, _, hentry⟩ => hnone s hentry.heading.1

/-- The last section of the text is the only one of its name behind the first. -/
theorem not_present_of_last (hs : FirstSection text szSection s)
    (hnone : ∀ p, ¬ Candidate text szItem s p) (hlast : ∀ l, s < l → ¬ BracketLine text l) :
    ¬ Present text szSection szItem := by
  rintro ⟨s', p, q, hentry⟩
  have hheading := hentry.heading.1
  rcases Nat.lt_trichotomy s' s with hlt | rfl | hgt
  · exact hs.heading.first s' (Nat.zero_le _) hlt hheading
  · exact hnone p hentry.candidate
  · exact hlast s' hgt hheading.bracketLine

theorem Lookup.not_present_of_ranOut {t : Nat} (h : Lookup text szSection szItem (.ranOut t)) :
    ¬ Present text szSection szItem := by
  cases h with
  | sectionRanOut _ hnone _ => exact not_present_of_no_heading hnone
  | itemRanOut hs hnone hlast _ => exact not_present_of_last hs hnone hlast

theorem Findable.agrees (h : Lookup text szSection szItem r)
    (hfind : Findable text szSection szItem iValueLen) :
    Agrees text szSection szItem iValueLen r := by
  cases h with
  | atStart hstart => exact hfind.start hstart
  | noSection _ hnone _ => exact not_present_of_no_heading hnone
  | sectionRanOut hstart hnone hruns => exact hfind.noSection hstart hnone hruns
  | noItem hs hnone _ => exact (hfind.noItem _ hs hnone).1
  | itemRanOut hs hnone hlast hruns => exact (hfind.noItem _ hs hnone).2 hlast hruns
  | noValue hp hnone => exact hfind.noValue _ _ hp hnone
  | value hp hq hlt =>
    rw [Agrees, valueBehind]
    split
    · next hdouble => exact hfind.double _ _ _ hp hq hlt hdouble
    · next hdouble => exact hfind.value _ _ _ hp hq hlt hdouble

theorem Agrees.findable (hne : text ≠ []) (h : Lookup text szSection szItem r)
    (hagrees : Agrees text szSection szItem iValueLen r) :
    Findable text szSection szItem iValueLen := by
  cases h with
  | atStart hstart =>
    exact {
      nonempty := hne
      start := fun _ => hagrees
      noSection := fun hno => absurd hstart hno
      noItem := fun _ hs => absurd hstart hs.start
      noValue := fun _ _ hp => absurd hstart hp.firstSection.start
      value := fun _ _ _ hp => absurd hstart hp.firstSection.start
      double := fun _ _ _ hp => absurd hstart hp.firstSection.start }
  | noSection hstart hnone hruns =>
    exact {
      nonempty := hne
      start := fun hocc => absurd hocc hstart
      noSection := fun _ _ => hruns
      noItem := fun s hs => absurd hs.heading.here (hnone s)
      noValue := fun s _ hp => absurd hp.firstSection.heading.here (hnone s)
      value := fun s _ _ hp => absurd hp.firstSection.heading.here (hnone s)
      double := fun s _ _ hp => absurd hp.firstSection.heading.here (hnone s) }
  | sectionRanOut => exact hagrees.elim
  | @noItem s hs hnone hruns =>
    exact {
      nonempty := hne
      start := fun hocc => absurd hocc hs.start
      noSection := fun _ hno => absurd hs.heading.here (hno s)
      noItem := fun s' hs' _ => hs.unique hs' ▸ ⟨hagrees, hruns⟩
      noValue := fun _ p hp => absurd (hs.unique hp.firstSection ▸ hp.candidate.here) (hnone p)
      value := fun _ p _ hp => absurd (hs.unique hp.firstSection ▸ hp.candidate.here) (hnone p)
      double := fun _ p _ hp => absurd (hs.unique hp.firstSection ▸ hp.candidate.here) (hnone p) }
  | itemRanOut => exact hagrees.elim
  | @noValue s p hp hnone =>
    have hs := hp.firstSection
    exact {
      nonempty := hne
      start := fun hocc => absurd hocc hs.start
      noSection := fun _ hno => absurd hs.heading.here (hno s)
      noItem := fun s' hs' hno => absurd hp.candidate.here (hs'.unique hs ▸ hno p)
      noValue := fun _ _ _ _ => hagrees
      value := fun s' p' q hp' hq hlt =>
        absurd (hnone q ((hp.unique hp').2 ▸ hq)) (Nat.not_le.mpr hlt)
      double := fun s' p' q hp' hq hlt =>
        absurd (hnone q ((hp.unique hp').2 ▸ hq)) (Nat.not_le.mpr hlt) }
  | @value s p q hp hq hlt =>
    have hs := hp.firstSection
    rw [Agrees, valueBehind] at hagrees
    exact {
      nonempty := hne
      start := fun hocc => absurd hocc hs.start
      noSection := fun _ hno => absurd hs.heading.here (hno s)
      noItem := fun s' hs' hno => absurd hp.candidate.here (hs'.unique hs ▸ hno p)
      noValue := fun s' p' hp' hno =>
        absurd (hno q ((hp.unique hp').2 ▸ hq)) (Nat.not_le.mpr hlt)
      value := fun s' p' q' hp' hq' _ hno => by
        obtain ⟨rfl, rfl⟩ := hp.unique hp'
        obtain rfl := hq.unique hq'
        rwa [if_neg hno] at hagrees
      double := fun s' p' q' hp' hq' _ hdouble => by
        obtain ⟨rfl, rfl⟩ := hp.unique hp'
        obtain rfl := hq.unique hq'
        rwa [if_pos hdouble] at hagrees }

/-- Proper lines, a value behind the `=`, and no `;;` at once. -/
theorem FirstItem.findable {p q : Nat} (hp : FirstItem text szSection szItem s p)
    (hentry : Entry text szSection szItem s p q) (hq : IsNext (Occurs text [equalSign]) p q)
    (hlt : q + 1 < text.length) (hdouble : ¬ [semicolon, semicolon] <+: restOfLine text q) :
    Findable text szSection szItem iValueLen := by
  have hne : text ≠ [] := List.ne_nil_of_length_pos (Nat.zero_lt_of_lt hlt)
  refine Agrees.findable hne (.value hp hq hlt) ⟨s, p, q, hentry, ?_⟩
  rw [valueBehind, if_neg hdouble]

/-- The integer is the default where the string is. -/
theorem getInt_failed (hne : text ≠ []) (iDefault piValue : Int)
    (h : (ofFile (some text)).getString szSection szItem [] 32 =
      some (eIniFile, defaultValue [] 32)) :
    (ofFile (some text)).getInt szSection szItem iDefault piValue = some (eIniFile, iDefault) := by
  have hvalid : (ofFile (some text)).isValid = true := by
    rw [ofFile, if_neg hne]
    exact decide_eq_true (List.length_pos_iff.mpr hne)
  rw [getInt, if_neg (not_not_intro hvalid), h]
  rfl

theorem not_present_nil : ¬ Present [] szSection szItem := by
  rintro ⟨s, _, _, hentry⟩
  exact absurd hentry.heading.1.lt (Nat.not_lt_zero _)

theorem answer_ranOut {t : Nat} {szValue : Bytes} :
    answer text szDefault iValueLen (.ranOut t) ≠ some (eIniFile, szValue) := by
  rw [answer]
  split
  · exact fun h => absurd (Prod.mk.inj (Option.some_inj.mp h)).1 (by decide)
  · exact fun h => nomatch h

theorem answer_found (htext : 0 ∉ text) (q : Nat) :
    answer text szDefault iValueLen (.found q) =
      some (success, valueBehind iValueLen (restOfLine text q)) := by
  rw [answer, trimString_copyValue fun h => htext (List.mem_of_mem_drop h), restOfLine]

theorem looksUp_iff_agrees (htext : 0 ∉ text) (hne : text ≠ [])
    (hlookup : Lookup text szSection szItem r)
    (hanswer : ∀ szDefault iValueLen,
      (ofFile (some text)).getString szSection szItem szDefault iValueLen =
        answer text szDefault iValueLen r) :
    LooksUp text szSection szItem szDefault iValueLen ↔
      Agrees text szSection szItem iValueLen r := by
  rw [LooksUp]
  simp only [hanswer]
  cases r with
  | failed =>
    constructor
    · intro hlooks hpresent
      obtain ⟨_, _, _, _, hvalue⟩ := hlooks.1 hpresent
      exact absurd (Prod.mk.inj (Option.some_inj.mp hvalue)).1 (by decide)
    · intro hno
      exact ⟨fun hpresent => absurd hpresent hno, fun _ => ⟨rfl, fun iDefault piValue =>
        getInt_failed hne iDefault piValue (hanswer [] 32)⟩⟩
  | ranOut t =>
    refine iff_of_false (fun hlooks => ?_) not_false
    exact answer_ranOut (hlooks.2 hlookup.not_present_of_ranOut).1
  | found q =>
    rw [answer_found htext]
    constructor
    · intro hlooks
      by_cases hpresent : Present text szSection szItem
      · obtain ⟨s', p', q', hentry, hvalue⟩ := hlooks.1 hpresent
        exact ⟨s', p', q', hentry, (Prod.mk.inj (Option.some_inj.mp hvalue)).2.symm⟩
      · have herror := (hlooks.2 hpresent).1
        exact absurd (Prod.mk.inj (Option.some_inj.mp herror)).1 (by decide)
    · rintro ⟨s', p', q', hentry, hvalue⟩
      exact ⟨fun _ => ⟨s', p', q', hentry, by rw [hvalue]⟩,
        fun hno => absurd ⟨s', p', q', hentry⟩ hno⟩

/-- The loops search the whole text for the names, so that what they find need not be a line of
the section. -/
theorem looksUp_iff_findable (htext : 0 ∉ text) (hsec : KeyName szSection)
    (hitem : KeyName szItem) :
    LooksUp text szSection szItem szDefault iValueLen ↔
      Findable text szSection szItem iValueLen := by
  by_cases hne : text = []
  · subst hne
    refine iff_of_false (fun hlooks => ?_) fun hfind => hfind.nonempty rfl
    -- an empty file is not loaded, and `GetInt` then assigns nothing
    have hint : some (eIniFile, (1 : Int)) = some (eIniFile, 0) :=
      (hlooks.2 not_present_nil).2 0 1
    exact absurd hint (by decide)
  obtain ⟨r, hlookup, hanswer⟩ := getString_lookup htext hne hsec hitem
  exact (looksUp_iff_agrees htext hne hlookup hanswer).trans
    ⟨Agrees.findable hne hlookup, Findable.agrees hlookup⟩

/-- The text is `[a]`, `k=5`. -/
theorem looksUp_key : LooksUp [91, 97, 93, 10, 107, 61, 53, 10] [97] [107] [] 32 := by
  have hfree : ∀ l, l < 5 → 0 < l → ¬ BracketLine [91, 97, 93, 10, 107, 61, 53, 10] l := by decide
  have hbefore : ∀ p, p < 4 → ¬ Occurs ([91, 97, 93, 10, 107, 61, 53, 10] : Bytes) [107] p := by
    decide
  have hvalue : ∀ q, q < 5 → 4 ≤ q →
      ¬ Occurs [91, 97, 93, 10, 107, 61, 53, 10] [equalSign] q := by
    decide
  have hentry : Entry [91, 97, 93, 10, 107, 61, 53, 10] [97] [107] 0 4 5 := by
    refine ⟨⟨⟨.inl rfl, by decide⟩, fun c hc => .inr (Option.some_inj.mp hc).symm⟩,
      ⟨by decide, fun l hl hle => hfree l (Nat.lt_succ_of_le hle) hl⟩, ?_⟩
    exact ⟨.inr rfl, by decide, fun k hk hlt => absurd hk (Nat.not_le.mpr hlt), by decide, rfl⟩
  have hs : FirstSection [91, 97, 93, 10, 107, 61, 53, 10] [97] 0 :=
    ⟨by decide, Nat.le_refl 0, hentry.heading.1, fun _ _ hlt => absurd hlt (Nat.not_lt_zero _)⟩
  have hp : FirstItem [91, 97, 93, 10, 107, 61, 53, 10] [97] [107] 0 4 :=
    ⟨hs, Nat.zero_le 4, hentry.candidate, fun p _ hlt hp => hbefore p hlt hp.item⟩
  have hq : IsNext (Occurs [91, 97, 93, 10, 107, 61, 53, 10] [equalSign]) 4 5 :=
    ⟨by decide, by decide, fun q hle hlt => hvalue q hlt hle⟩
  have hsec : KeyName [97] := ⟨by decide, List.forall_mem_singleton.mpr (by decide)⟩
  have hitem : KeyName [107] := ⟨by decide, List.forall_mem_singleton.mpr (by decide)⟩
  exact (looksUp_iff_findable (by decide) hsec hitem).mpr
    (hp.findable hentry hq (by decide) (by decide))

/-- The text is `x=a`: the search for the section `a` ends with it. -/
theorem not_looksUp_last : ¬ LooksUp [120, 61, 97] [97] [107] [] 32 := by
  have hno : ¬ Present [120, 61, 97] [97] [107] := by
    refine not_present_of_no_heading fun s hs => ?_
    exact absurd (List.mem_of_getElem? hs.bracketLine.2) (by decide)
  intro hlooks
  exact absurd (hlooks.2 hno).1 (by decide)

end Lookup

end CIniFile

end Wsmq
