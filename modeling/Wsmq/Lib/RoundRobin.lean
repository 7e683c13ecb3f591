import Mathlib.Data.List.Nodup

/-! Taking turns: members join at the end, and leave before they had their turn.  Between two
turns of a member everybody else who stays has one. -/

namespace Lib.RoundRobin

variable {α : Type}

/-- Who had a turn in this round, and who is still to come, both in order. -/
structure Rota (α : Type) where
  done : List α
  todo : List α

namespace Rota

def members (r : Rota α) : List α := r.done ++ r.todo

/-- The next turn; a new round begins when everybody has had one. -/
def serve : Rota α → Option (α × Rota α)
  | ⟨done, a :: todo⟩ => some (a, ⟨done ++ [a], todo⟩)
  | ⟨a :: done, []⟩ => some (a, ⟨[a], done⟩)
  | ⟨[], []⟩ => none

end Rota

/-- What may happen, with the member that is served. -/
inductive Move [DecidableEq α] (r : Rota α) : Option α → Rota α → Prop
  | serve (a : α) (r' : Rota α) (h : r.serve = some (a, r')) : Move r (some a) r'
  | join (a : α) (h : a ∉ r.members) : Move r none ⟨r.done, r.todo ++ [a]⟩
  | leave (a : α) (h : a ∈ r.todo) : Move r none ⟨r.done, r.todo.erase a⟩
  | idle : Move r none r

/-- The moves from `r` on in which `d` is always a member, with those who are served. -/
inductive Course [DecidableEq α] (d : α) : Rota α → List α → Rota α → Prop
  | nil (r : Rota α) (hd : d ∈ r.members) : Course d r [] r
  | cons {r r' r'' : Rota α} {o : Option α} {l : List α} (hd : d ∈ r.members)
      (hmove : Move r o r') (hrest : Course d r' l r'') : Course d r (o.toList ++ l) r''

variable [DecidableEq α] {r r' : Rota α} {o : Option α} {a c d : α}

omit [DecidableEq α] in
theorem serve_perm (h : r.serve = some (a, r')) : r'.members.Perm r.members := by
  obtain ⟨done, todo⟩ := r
  cases todo with
  | cons b rest =>
    cases h
    simp only [Rota.members, List.append_assoc]
    exact .refl _
  | nil =>
    cases done with
    | nil => cases h
    | cons b rest =>
      cases h
      simp only [Rota.members, List.append_nil]
      exact .refl _

theorem Move.nodup (h : Move r o r') (hr : r.members.Nodup) : r'.members.Nodup := by
  cases h with
  | serve a r' h => exact (serve_perm h).nodup_iff.mpr hr
  | join a h =>
    rw [Rota.members, ← List.append_assoc]
    exact List.nodup_append.mpr ⟨hr, List.nodup_singleton a, fun x hx y hy => by
      rw [List.mem_singleton.mp hy]
      rintro rfl
      exact h hx⟩
  | leave a _ => exact hr.sublist ((List.erase_sublist).append_left _)
  | idle => exact hr

/-- The turn of `d` comes before that of `c`. -/
def Ahead (d c : α) (r : Rota α) : Prop :=
  (d ∈ r.todo ∧ (c ∈ r.todo → [d, c].Sublist r.todo)) ∨ [d, c].Sublist r.done

omit [DecidableEq α] in
/-- Who has just been served waits for all the others. -/
theorem ahead_of_serve (h : r.serve = some (c, r')) (hr : r.members.Nodup) (hd : d ∈ r'.members)
    (hne : d ≠ c) : Ahead d c r' := by
  obtain ⟨done, todo⟩ := r
  cases todo with
  | cons b rest =>
    cases h
    have hout : c ∉ rest := by
      have hnodup := (List.nodup_append.mp hr).2.1
      exact (List.nodup_cons.mp hnodup).1
    rcases List.mem_append.mp hd with hd | hd
    · rcases List.mem_append.mp hd with hd | hd
      · exact Or.inr ((List.singleton_sublist.mpr hd).append (.refl [c]))
      · exact absurd (List.mem_singleton.mp hd) hne
    · exact Or.inl ⟨hd, fun hc => absurd hc hout⟩
  | nil =>
    cases done with
    | nil => cases h
    | cons b rest =>
      cases h
      simp only [Rota.members, List.append_nil] at hr
      have hout := (List.nodup_cons.mp hr).1
      rcases List.mem_append.mp hd with hd | hd
      · exact absurd (List.mem_singleton.mp hd) hne
      · exact Or.inl ⟨hd, fun hc => absurd hc hout⟩

/-- As long as `d` stays, it is served before `c` is. -/
theorem Ahead.move (h : Ahead d c r) (hmove : Move r o r') (hr : r.members.Nodup)
    (hne : d ≠ c) (hd : d ∈ r'.members) : o = some d ∨ o ≠ some c ∧ Ahead d c r' := by
  obtain ⟨hdone, htodo, hapart⟩ := List.nodup_append.mp hr
  cases hmove with
  | serve b r' hserve =>
    obtain ⟨done, todo⟩ := r
    by_cases hb : b = d
    · exact Or.inl (congrArg some hb)
    refine Or.inr ?_
    cases todo with
    | cons x rest =>
      cases hserve
      have hout := (List.nodup_cons.mp htodo).1
      rcases h with ⟨hd, hc⟩ | hbefore
      · have hd : d ∈ rest := (List.mem_cons.mp hd).resolve_left (Ne.symm hb)
        have hrest : c ∈ b :: rest → [d, c].Sublist rest := fun hin => by
          have hsub := hc hin
          cases hsub with
          | cons _ hsub => exact hsub
          | cons_cons => exact absurd rfl hb
        refine ⟨?_, Or.inl ⟨hd, fun hin => hrest (List.mem_cons_of_mem _ hin)⟩⟩
        rintro ⟨⟩
        exact hout ((hrest List.mem_cons_self).subset (by simp))
      · refine ⟨?_, Or.inr (hbefore.trans (List.sublist_append_left _ _))⟩
        rintro ⟨⟩
        have hc : c ∈ done := hbefore.subset (by simp)
        exact hapart c hc c List.mem_cons_self rfl
    | nil =>
      cases done with
      | nil => cases hserve
      | cons x rest =>
        cases hserve
        have hout := (List.nodup_cons.mp hdone).1
        rcases h with ⟨hd, _⟩ | hbefore
        · cases hd
        · have hrest : [d, c].Sublist rest := by
            cases hbefore with
            | cons _ hsub => exact hsub
            | cons_cons => exact absurd rfl hb
          refine ⟨?_, Or.inl ⟨hrest.subset (by simp), fun _ => hrest⟩⟩
          rintro ⟨⟩
          exact hout (hrest.subset (by simp))
  | join b hb =>
    refine Or.inr ⟨nofun, ?_⟩
    rcases h with ⟨hd, hc⟩ | hbefore
    · refine Or.inl ⟨List.mem_append_left _ hd, fun hin => ?_⟩
      rcases List.mem_append.mp hin with hin | hin
      · exact (hc hin).trans (List.sublist_append_left _ _)
      · rw [← List.mem_singleton.mp hin]
        exact (List.singleton_sublist.mpr hd).append (.refl [c])
    · exact Or.inr hbefore
  | leave b hb =>
    refine Or.inr ⟨nofun, ?_⟩
    rcases h with ⟨hin, hc⟩ | hbefore
    · have hleft : d ∈ r.todo.erase b := by
        refine (List.mem_append.mp hd).resolve_left fun hdone => ?_
        exact hapart d hdone d hin rfl
      refine Or.inl ⟨hleft, fun hc' => ?_⟩
      have hbd : b ∉ [d, c] := by
        have hb₁ : b ≠ d := by
          rintro rfl
          exact htodo.not_mem_erase hleft
        have hb₂ : b ≠ c := by
          rintro rfl
          exact htodo.not_mem_erase hc'
        simp [hb₁, hb₂]
      have hsub := (hc (List.mem_of_mem_erase hc')).erase b
      rwa [List.erase_of_not_mem hbd] at hsub
    · exact Or.inr hbefore
  | idle => exact Or.inr ⟨nofun, h⟩

theorem Course.mem_start {l : List α} (h : Course d r l r') : d ∈ r.members := by
  cases h with
  | nil _ hd => exact hd
  | cons hd => exact hd

/-- When `c` has its turn again, `d` has been served. -/
theorem Course.mem_of_served {l : List α} (h : Course d r l r') (hr : r.members.Nodup)
    (hne : d ≠ c) (hahead : Ahead d c r) (hc : c ∉ l) {r'' : Rota α}
    (hagain : r'.serve = some (c, r'')) : d ∈ l := by
  induction h with
  | nil r hd =>
    have hd' : d ∈ r''.members := (serve_perm hagain).mem_iff.mpr hd
    rcases hahead.move (.serve c r'' hagain) hr hne hd' with hsame | ⟨hother, _⟩
    · exact absurd (Option.some.inj hsame).symm hne
    · exact absurd rfl hother
  | cons hd hmove hrest ih =>
    rcases hahead.move hmove hr hne hrest.mem_start with rfl | ⟨_, hnext⟩
    · exact List.mem_append_left _ (by simp)
    · have hin := ih (hmove.nodup hr) hnext (fun hin => hc (List.mem_append_right _ hin)) hagain
      exact List.mem_append_right _ hin

end Lib.RoundRobin
