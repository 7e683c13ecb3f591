import Mathlib.Data.List.ModifyLast
import Mathlib.Data.List.Nodup
import Mathlib.Data.List.Pairwise
import Mathlib.Order.Lattice

/-! Logs cut into named segments.  Keys increase from entry to entry; an entry is
consumed once, in any order; a segment is live until its last entry is consumed. -/

namespace Lib.SegmentedLog

structure Segment (N K V : Type) where
  name : N
  entries : List (K × V)

structure Log (N K V : Type) where
  segments : List (Segment N K V) := []
  consumed : List K := []

variable {N K V : Type}

namespace Segment

def keys (g : Segment N K V) : List K := g.entries.map Prod.fst

/-- An entry is left. -/
def Live (consumed : List K) (g : Segment N K V) : Prop := ∃ k ∈ g.keys, k ∉ consumed

instance [DecidableEq K] (consumed : List K) : DecidablePred (Live (N := N) (V := V) consumed) :=
  fun _ => inferInstanceAs (Decidable (∃ k ∈ _, _))

def add (g : Segment N K V) (k : K) (v : V) : Segment N K V :=
  { g with entries := g.entries ++ [(k, v)] }

@[simp] theorem keys_add (g : Segment N K V) (k : K) (v : V) :
    (g.add k v).keys = g.keys ++ [k] := List.map_append

end Segment

namespace Log

def entries (l : Log N K V) : List (K × V) := l.segments.flatMap fun g => g.entries

def keys (l : Log N K V) : List K := l.entries.map Prod.fst

def unconsumed [DecidableEq K] (l : Log N K V) : List (K × V) :=
  l.entries.filter fun e => e.1 ∉ l.consumed

theorem mem_keys {l : Log N K V} {k : K} : k ∈ l.keys ↔ ∃ g ∈ l.segments, k ∈ g.keys := by
  simp only [keys, entries, Segment.keys, List.mem_map, List.mem_flatMap]
  constructor
  · rintro ⟨e, ⟨g, hg, he⟩, rfl⟩
    exact ⟨g, hg, e, he, rfl⟩
  · rintro ⟨g, hg, e, he, rfl⟩
    exact ⟨e, ⟨g, hg, he⟩, rfl⟩

/-! ## Operations -/

/-- A new segment at the end. -/
def openSegment (l : Log N K V) (name : N) (k : K) (v : V) : Log N K V :=
  { l with segments := l.segments ++ [⟨name, [(k, v)]⟩] }

/-- The last segment takes the entry. -/
def extendLast (l : Log N K V) (k : K) (v : V) : Log N K V :=
  { l with segments := l.segments.modifyLast fun g => g.add k v }

def consume (l : Log N K V) (k : K) : Log N K V := { l with consumed := l.consumed ++ [k] }

theorem segments_extendLast {l : Log N K V} {gs : List (Segment N K V)} {g : Segment N K V}
    (h : l.segments = gs ++ [g]) (k : K) (v : V) :
    (l.extendLast k v).segments = gs ++ [g.add k v] := by
  rw [extendLast, h]
  exact List.modifyLast_concat _ _ _

theorem entries_openSegment (l : Log N K V) (name : N) (k : K) (v : V) :
    (l.openSegment name k v).entries = l.entries ++ [(k, v)] := by
  simp [openSegment, entries]

theorem entries_extendLast {l : Log N K V} {gs : List (Segment N K V)} {g : Segment N K V}
    (h : l.segments = gs ++ [g]) (k : K) (v : V) :
    (l.extendLast k v).entries = l.entries ++ [(k, v)] := by
  simp [entries, segments_extendLast h, h, Segment.add]

/-! ## Well-formed logs -/

structure WellFormed [LinearOrder K] (l : Log N K V) : Prop where
  nonempty : ∀ g ∈ l.segments, g.entries ≠ []
  increasing : l.keys.Pairwise (· < ·)
  known : ∀ k ∈ l.consumed, k ∈ l.keys
  once : l.consumed.Nodup

variable [LinearOrder K] {l : Log N K V}

theorem WellFormed.nil : WellFormed ({} : Log N K V) where
  nonempty := fun _ h => nomatch h
  increasing := List.Pairwise.nil
  known := fun _ h => nomatch h
  once := List.nodup_nil

theorem WellFormed.not_consumed (h : l.WellFormed) {k : K} (hk : ∀ j ∈ l.keys, j < k) :
    k ∉ l.consumed := fun hmem => lt_irrefl k (hk k (h.known k hmem))

theorem increasing_append (h : l.WellFormed) {k : K} (hk : ∀ j ∈ l.keys, j < k) :
    (l.keys ++ [k]).Pairwise (· < ·) := by
  refine List.pairwise_append.mpr ⟨h.increasing, List.pairwise_singleton _ _, ?_⟩
  intro j hj k' hk'
  rw [List.mem_singleton.mp hk']
  exact hk j hj

/-- What appending does, however the segments are cut. -/
theorem WellFormed.append (h : l.WellFormed) {l' : Log N K V} {k : K} {v : V}
    (hk : ∀ j ∈ l.keys, j < k) (hentries : l'.entries = l.entries ++ [(k, v)])
    (hconsumed : l'.consumed = l.consumed) (hnonempty : ∀ g ∈ l'.segments, g.entries ≠ []) :
    l'.WellFormed ∧ l'.unconsumed = l.unconsumed ++ [(k, v)] := by
  have hkeys : l'.keys = l.keys ++ [k] := by rw [keys, hentries, List.map_append]; rfl
  refine ⟨⟨hnonempty, ?_, ?_, ?_⟩, ?_⟩
  · rw [hkeys]
    exact increasing_append h hk
  · intro j hj
    rw [hconsumed] at hj
    rw [hkeys]
    exact List.mem_append_left _ (h.known j hj)
  · rw [hconsumed]
    exact h.once
  · have hnew : k ∉ l.consumed := h.not_consumed hk
    rw [unconsumed, hentries, hconsumed, List.filter_append, unconsumed]
    simp [hnew]

theorem WellFormed.openSegment (h : l.WellFormed) {name : N} {k : K} {v : V}
    (hk : ∀ j ∈ l.keys, j < k) : (l.openSegment name k v).WellFormed ∧
      (l.openSegment name k v).unconsumed = l.unconsumed ++ [(k, v)] := by
  refine h.append hk (entries_openSegment l name k v) rfl ?_
  intro g hg
  rcases List.mem_append.mp hg with hg | hg
  · exact h.nonempty g hg
  · rw [List.mem_singleton.mp hg]
    exact List.cons_ne_nil _ _

theorem WellFormed.extendLast (h : l.WellFormed) {gs : List (Segment N K V)} {g : Segment N K V}
    (hlast : l.segments = gs ++ [g]) {k : K} {v : V} (hk : ∀ j ∈ l.keys, j < k) :
    (l.extendLast k v).WellFormed ∧
      (l.extendLast k v).unconsumed = l.unconsumed ++ [(k, v)] := by
  refine h.append hk (entries_extendLast hlast k v) rfl ?_
  intro g' hg'
  rw [segments_extendLast hlast] at hg'
  rcases List.mem_append.mp hg' with hg' | hg'
  · exact h.nonempty g' (by rw [hlast]; exact List.mem_append_left _ hg')
  · rw [List.mem_singleton.mp hg']
    exact List.append_ne_nil_of_right_ne_nil _ (List.cons_ne_nil _ _)

theorem WellFormed.consume (h : l.WellFormed) {k : K} (hk : k ∈ l.keys) (hnew : k ∉ l.consumed) :
    (l.consume k).WellFormed ∧
      (l.consume k).unconsumed = l.unconsumed.filter fun e => e.1 ≠ k := by
  refine ⟨⟨h.nonempty, h.increasing, ?_, ?_⟩, ?_⟩
  · intro j hj
    rcases List.mem_append.mp hj with hj | hj
    · exact h.known j hj
    · rw [List.mem_singleton.mp hj]
      exact hk
  · refine List.nodup_append'.mpr ⟨h.once, List.nodup_singleton k, ?_⟩
    intro j hj hj'
    exact hnew (List.mem_singleton.mp hj' ▸ hj)
  · rw [unconsumed, unconsumed, List.filter_filter]
    refine List.filter_congr fun e _ => ?_
    simp [Log.consume, and_comm]

/-! ## Live segments -/

omit [LinearOrder K] in
theorem live_of_append {consumed : List K} {k : K} {g : Segment N K V}
    (h : g.Live (consumed ++ [k])) : g.Live consumed := by
  obtain ⟨j, hj, hnot⟩ := h
  exact ⟨j, hj, fun hin => hnot (List.mem_append_left _ hin)⟩

omit [LinearOrder K] in
/-- A key of another segment decides nothing. -/
theorem live_append_iff {consumed : List K} {k : K} {g : Segment N K V} (hk : k ∉ g.keys) :
    g.Live (consumed ++ [k]) ↔ g.Live consumed := by
  refine ⟨live_of_append, ?_⟩
  rintro ⟨j, hj, hnot⟩
  refine ⟨j, hj, fun hin => ?_⟩
  rcases List.mem_append.mp hin with hin | hin
  · exact hnot hin
  · exact hk (List.mem_singleton.mp hin ▸ hj)

omit [LinearOrder K] in
/-- Nothing of a segment that is not live is unconsumed. -/
theorem filter_of_not_live [DecidableEq K] {consumed : List K} {g : Segment N K V}
    (h : ¬ g.Live consumed) : (g.entries.filter fun e => e.1 ∉ consumed) = [] := by
  refine List.filter_eq_nil_iff.mpr fun e he => ?_
  have hmem : e.1 ∈ consumed := by
    by_contra hno
    exact h ⟨e.1, List.mem_map_of_mem he, hno⟩
  simpa using hmem

omit [LinearOrder K] in
/-- Only live segments need to be read. -/
theorem unconsumed_eq_live [DecidableEq K] (l : Log N K V) :
    l.unconsumed = (l.segments.filter fun g => g.Live l.consumed).flatMap fun g =>
      g.entries.filter fun e => e.1 ∉ l.consumed := by
  rw [unconsumed, entries]
  induction l.segments with
  | nil => rfl
  | cons g gs ih =>
    rw [List.flatMap_cons, List.filter_append, ih, List.filter_cons]
    by_cases hlive : g.Live l.consumed
    · rw [if_pos (by simpa using hlive), List.flatMap_cons]
    · rw [if_neg (by simpa using hlive), filter_of_not_live hlive, List.nil_append]

theorem WellFormed.separate (h : l.WellFormed) :
    l.segments.Pairwise fun a b => ∀ i ∈ a.keys, ∀ j ∈ b.keys, i < j := by
  have hinc := h.increasing
  rw [keys, entries, List.map_flatMap, List.pairwise_flatMap] at hinc
  exact hinc.2

/-- A key stands in one segment only. -/
theorem WellFormed.segment_unique (h : l.WellFormed) {k : K} {g g' : Segment N K V}
    (hg : g ∈ l.segments) (hg' : g' ∈ l.segments) (hk : k ∈ g.keys) (hk' : k ∈ g'.keys) :
    g = g' := by
  have hdisjoint : l.segments.Pairwise fun a b => k ∈ a.keys → k ∉ b.keys :=
    h.separate.imp fun hlt hi hj => lt_irrefl k (hlt k hi k hj)
  have : Std.Symm fun a b : Segment N K V => k ∈ a.keys → k ∉ b.keys :=
    ⟨fun _ _ hab hi hj => hab hj hi⟩
  by_contra hne
  exact hdisjoint.forall hg hg' hne hk hk'

end Log

end Lib.SegmentedLog
