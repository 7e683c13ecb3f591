import Wsmq.Lib.Runs
import Wsmq.PersistenceServer.GroupFiles

/-!
# The message groups of a queue are a log

A group is a segment.  Its files are there while a message of it is not consumed; the
maps in memory know the group of every such message.
-/

namespace Wsmq.PersistenceServer
open Lib Lib.ByteString Lib.Packing Lib.Files Lib.SegmentedLog

abbrev DurableLog := Log Name Int Bytes

/-- `m_mMsgQueueIndexFile[q][k]`. -/
def fileOf (s : PersistenceServer) (q : Name) (k : Int) : Option Name :=
  (s.msgQueueIndexFile.lookup q).bind fun m => m.lookup k

/-- Not the name of a file of a group, nor taken for one. -/
def NoGroupFile (f : Name) : Prop :=
  beforeFirst extIndex f = none ∧ ∀ g ext, GroupName g → IsExt ext → f ≠ g ++ ext

/-- Files and maps of the queue are those of the log. -/
structure Stores (s : PersistenceServer) (q : Name) (l : DurableLog) : Prop where
  ready : Ready s.files q
  wellFormed : l.WellFormed
  indices : ∀ k ∈ l.keys, IsIndex k
  named : ∀ g ∈ l.segments, ∃ k r rest, g.entries = (k, r) :: rest ∧
    g.name = convertIndexToString k
  live : ∀ g ∈ l.segments, g.Live l.consumed →
    ∃ data index, GroupFiles s.files q l.consumed g data index
  dead : ∀ g ∈ l.segments, ¬ g.Live l.consumed → ∀ ext, IsExt ext →
    bytesAt s.files (fileNode q (g.name ++ ext)) = none
  other : ∀ f, bytesAt s.files (fileNode q f) ≠ none →
    (∃ g ∈ l.segments, ∃ ext, IsExt ext ∧ f = g.name ++ ext) ∨ NoGroupFile f
  tail : ∀ f, s.msgQueueTailFile.lookup q = some f →
    ∃ gs g, l.segments = gs ++ [g] ∧ g.name = f ∧ g.Live l.consumed
  known : ∀ k f, s.fileOf q k = some f → ∃ g ∈ l.segments, f = g.name ∧ k ∈ g.keys
  found : ∀ g ∈ l.segments, g.Live l.consumed → ∀ k ∈ g.keys, s.fileOf q k = some g.name
  history : ∀ k r f, .published q k r f ∈ s.history ↔
    ∃ g ∈ l.segments, g.name = f ∧ (k, r) ∈ g.entries

/-- What a step of the queue `q` leaves as it is. -/
structure Elsewhere (q : Name) (s s' : PersistenceServer) : Prop where
  inQueue : InQueue q s.files s'.files
  tail : ∀ q', q' ≠ q → s'.msgQueueTailFile.lookup q' = s.msgQueueTailFile.lookup q'
  fileOf : ∀ q', q' ≠ q → ∀ k, s'.fileOf q' k = s.fileOf q' k
  history : ∀ q', q' ≠ q → ∀ k r f,
    .published q' k r f ∈ s'.history ↔ .published q' k r f ∈ s.history

variable {s s' : PersistenceServer} {q q' : Name} {l : DurableLog} {k : Int} {r : Bytes}

namespace Elsewhere

theorem refl (q : Name) (s : PersistenceServer) : Elsewhere q s s :=
  ⟨InQueue.refl q s.files, fun _ _ => rfl, fun _ _ _ => rfl, fun _ _ _ _ _ => Iff.rfl⟩

theorem bytesAt_eq (h : Elsewhere q s s') (hq : q' ≠ q) (f : Name) :
    bytesAt s'.files (fileNode q' f) = bytesAt s.files (fileNode q' f) :=
  h.inQueue.other _ fun _ hsame => hq (fileNode_inj hsame).1

end Elsewhere

theorem Stores.elsewhere (h : Stores s q' l) (he : Elsewhere q s s') (hq : q' ≠ q) :
    Stores s' q' l where
  ready := h.ready.congr he.inQueue.dirs
  wellFormed := h.wellFormed
  indices := h.indices
  named := h.named
  live g hg hlive := by
    obtain ⟨data, index, hfiles⟩ := h.live g hg hlive
    exact ⟨data, index, hfiles.congr fun ext _ => he.bytesAt_eq hq _⟩
  dead g hg hdead ext hext := (he.bytesAt_eq hq _).trans (h.dead g hg hdead ext hext)
  other f hf := h.other f (he.bytesAt_eq hq f ▸ hf)
  tail f hf := h.tail f (he.tail q' hq ▸ hf)
  known k f hf := h.known k f (he.fileOf q' hq k ▸ hf)
  found g hg hlive k hk := (he.fileOf q' hq k).trans (h.found g hg hlive k hk)
  history k r f := (he.history q' hq k r f).trans (h.history k r f)

/-! ## Names -/

namespace Stores

theorem index (h : Stores s q l) {g : Group} (hg : g ∈ l.segments) (hk : k ∈ g.keys) :
    IsIndex k := h.indices k (Log.mem_keys.mpr ⟨g, hg, hk⟩)

theorem groupName (h : Stores s q l) {g : Group} (hg : g ∈ l.segments) : GroupName g.name := by
  obtain ⟨k, r, rest, hentries, hname⟩ := h.named g hg
  have hk : k ∈ g.keys := by
    rw [Segment.keys, hentries]
    exact List.mem_cons_self
  rw [hname]
  exact groupName_convert (h.index hg hk)

/-- A name stands for one group. -/
theorem eq_of_name (h : Stores s q l) {g g' : Group} (hg : g ∈ l.segments)
    (hg' : g' ∈ l.segments) (hname : g.name = g'.name) : g = g' := by
  obtain ⟨k, r, rest, hentries, hk⟩ := h.named g hg
  obtain ⟨k', r', rest', hentries', hk'⟩ := h.named g' hg'
  have hin : k ∈ g.keys := by
    rw [Segment.keys, hentries]
    exact List.mem_cons_self
  have hin' : k' ∈ g'.keys := by
    rw [Segment.keys, hentries']
    exact List.mem_cons_self
  have hsame := convert_inj (h.index hg hin) (h.index hg' hin')
    (hk.symm.trans (hname.trans hk'))
  exact h.wellFormed.segment_unique hg hg' hin (hsame ▸ hin')

/-- The name of a new group is new, and so are its files. -/
theorem name_fresh (h : Stores s q l) (hk : IsIndex k) (hlast : ∀ j ∈ l.keys, j < k) :
    (∀ g ∈ l.segments, g.name ≠ convertIndexToString k) ∧
      ∀ ext, IsExt ext → bytesAt s.files (fileNode q (convertIndexToString k ++ ext)) = none := by
  have hnames : ∀ g ∈ l.segments, g.name ≠ convertIndexToString k := by
    intro g hg hsame
    obtain ⟨j, r, rest, hentries, hname⟩ := h.named g hg
    have hin : j ∈ g.keys := by
      rw [Segment.keys, hentries]
      exact List.mem_cons_self
    have hj : j ∈ l.keys := Log.mem_keys.mpr ⟨g, hg, hin⟩
    have heq := convert_inj (h.indices j hj) hk (hname.symm.trans hsame)
    exact lt_irrefl k (heq ▸ hlast j hj)
  refine ⟨hnames, fun ext hext => ?_⟩
  by_contra hfile
  rcases h.other _ hfile with ⟨g, hg, ext', hext', hsame⟩ | ⟨_, hno⟩
  · exact hnames g hg (ext_eq_of_append_eq (groupName_convert hk) (h.groupName hg) hsame).1.symm
  · exact hno _ ext (groupName_convert hk) hext rfl

theorem keys_nodup (h : Stores s q l) {g : Group} (hg : g ∈ l.segments) : g.keys.Nodup := by
  have hinc := h.wellFormed.increasing
  rw [Log.keys, Log.entries, List.map_flatMap, List.pairwise_flatMap] at hinc
  exact (hinc.1 g hg).imp ne_of_lt

end Stores

/-! ## Publishing -/

theorem fileOf_insertIndex (s : PersistenceServer) (q q' f : Name) (i k : Int) :
    (s.insertIndex q i f).fileOf q' k =
      if q' = q ∧ k = i ∧ s.fileOf q i = none then some f else s.fileOf q' k := by
  unfold fileOf insertIndex
  dsimp only
  by_cases hq : q' = q
  · subst hq
    rw [AList.lookup_insert, Option.bind_some, insertNew]
    have hold : ∀ j, ((s.msgQueueIndexFile.lookup q').getD ∅).lookup j =
        (s.msgQueueIndexFile.lookup q').bind fun m => m.lookup j := by
      intro j
      cases s.msgQueueIndexFile.lookup q' with
      | none => rfl
      | some m => rfl
    split
    · next hmem =>
      have hsome := AList.lookup_isSome.mpr hmem
      rw [hold] at hsome
      rw [hold, if_neg]
      rintro ⟨_, rfl, hnone⟩
      rw [hnone] at hsome
      cases hsome
    · next hmem =>
      have hnone := AList.lookup_eq_none.mpr hmem
      rw [hold] at hnone
      by_cases hk : k = i
      · subst hk
        rw [AList.lookup_insert, if_pos ⟨rfl, rfl, hnone⟩]
      · rw [AList.lookup_insert_ne hk, hold, if_neg fun h => hk h.2.1]
  · rw [AList.lookup_insert_ne hq, if_neg fun h => hq h.1]

/-- The record has been added to the group `f`, which is the tail now. -/
structure Published (q f : Name) (k : Int) (r : Bytes) (iWritePos : Int)
    (s s' : PersistenceServer) : Prop where
  files : Appended q f r k iWritePos s.files s'.files
  tail : s'.msgQueueTailFile.lookup q = some f
  otherTail : ∀ q', q' ≠ q → s'.msgQueueTailFile.lookup q' = s.msgQueueTailFile.lookup q'
  fileOf : ∀ q' j, s'.fileOf q' j =
    if q' = q ∧ j = k ∧ s.fileOf q k = none then some f else s.fileOf q' j
  history : s'.history = s.history ++ [.published q k r f]

theorem createGroup_published (h : Ready s.files q) (hk : Stem (convertIndexToString k))
    (r : Bytes) :
    ∃ s', (s.createGroup q k).appendRecord r q k (convertIndexToString k) 0 = (success, s') ∧
      Published q (convertIndexToString k) k r 0 s s' ∧
        s'.msgQueueList = (s.pushFile q (convertIndexToString k)).msgQueueList := by
  obtain ⟨files, happ, hrun⟩ := appendRecord_ready (s := s.createGroup q k) h hk r k 0
  refine ⟨_, hrun, ⟨happ, AList.lookup_insert _, fun _ hq => AList.lookup_insert_ne hq, ?_, rfl⟩,
    rfl⟩
  exact fun q' j => fileOf_insertIndex s q q' _ k j

theorem insertIndex_published {f : Name} (h : Ready s.files q) (hf : Stem f)
    (htail : s.msgQueueTailFile.lookup q = some f) (k : Int) (r : Bytes) (iWritePos : Int) :
    ∃ s', (s.insertIndex q k f).appendRecord r q k f iWritePos = (success, s') ∧
      Published q f k r iWritePos s s' ∧ s'.msgQueueList = s.msgQueueList := by
  obtain ⟨files, happ, hrun⟩ := appendRecord_ready (s := s.insertIndex q k f) h hf r k iWritePos
  refine ⟨_, hrun, ⟨happ, htail, fun _ _ => rfl, ?_, rfl⟩, rfl⟩
  exact fun q' j => fileOf_insertIndex s q q' f k j

namespace Published

variable {f : Name} {iWritePos : Int}

theorem elsewhere (h : Published q f k r iWritePos s s') : Elsewhere q s s' := by
  refine ⟨h.files.inQueue, h.otherTail, fun q' hq j => ?_, fun q' hq j r' f' => ?_⟩
  · rw [h.fileOf, if_neg fun hc => hq hc.1]
  · rw [h.history, List.mem_append, List.mem_singleton]
    constructor
    · rintro (hin | hsame)
      · exact hin
      · cases hsame
        exact absurd rfl hq
    · exact Or.inl

theorem fileOf_ne (h : Published q f k r iWritePos s s') {j : Int} (hj : j ≠ k) :
    s'.fileOf q j = s.fileOf q j := by
  rw [h.fileOf, if_neg fun hc => hj hc.2.1]

theorem fileOf_new (h : Published q f k r iWritePos s s') (hnone : s.fileOf q k = none) :
    s'.fileOf q k = some f := by
  rw [h.fileOf, if_pos ⟨rfl, rfl, hnone⟩]

theorem mem_history (h : Published q f k r iWritePos s s') {j : Int} {r' : Bytes} {f' : Name} :
    .published q j r' f' ∈ s'.history ↔
      .published q j r' f' ∈ s.history ∨ (j = k ∧ r' = r ∧ f' = f) := by
  rw [h.history, List.mem_append, List.mem_singleton]
  refine or_congr_right ⟨fun hsame => ?_, ?_⟩
  · cases hsame
    exact ⟨rfl, rfl, rfl⟩
  · rintro ⟨rfl, rfl, rfl⟩
    rfl

/-- The files of another group are not touched. -/
theorem other_group (h : Published q f k r iWritePos s s') {g ext : Name} (hg : GroupName g)
    (hf : GroupName f) (hne : g ≠ f) :
    bytesAt s'.files (fileNode q (g ++ ext)) = bytesAt s.files (fileNode q (g ++ ext)) :=
  h.files.other _ (fun hsame => hne (ext_eq_of_append_eq hg hf hsame).1)
    (fun hsame => hne (ext_eq_of_append_eq hg hf hsame).1) (groupFile_ne_offset hg ext)

/-- What is there now was there before or belongs to the group. -/
theorem other_file (h : Published q f k r iWritePos s s') {f' : Name}
    (hf' : bytesAt s'.files (fileNode q f') ≠ none) :
    bytesAt s.files (fileNode q f') ≠ none ∨ (∃ ext, IsExt ext ∧ f' = f ++ ext) ∨
      f' = offsetFile := by
  by_cases hdata : f' = f ++ extData
  · exact Or.inr (Or.inl ⟨_, Or.inl rfl, hdata⟩)
  by_cases hindex : f' = f ++ extIndex
  · exact Or.inr (Or.inl ⟨_, Or.inr (Or.inl rfl), hindex⟩)
  by_cases hoffset : f' = offsetFile
  · exact Or.inr (Or.inr hoffset)
  · rw [h.files.other f' hdata hindex hoffset] at hf'
    exact Or.inl hf'

end Published

theorem noGroupFile_offset : NoGroupFile offsetFile :=
  ⟨by decide, fun _ ext hg _ hsame => groupFile_ne_offset hg ext hsame.symm⟩

/-- No index is known that is larger than all published. -/
theorem Stores.fileOf_none (h : Stores s q l) (hk : k ∉ l.keys) : s.fileOf q k = none := by
  by_contra hsome
  obtain ⟨f, hf⟩ := Option.ne_none_iff_exists'.mp hsome
  obtain ⟨g, hg, _, hin⟩ := h.known k f hf
  exact hk (Log.mem_keys.mpr ⟨g, hg, hin⟩)

/-- The log has got the record in its last group, which is new or was the last group before. -/
structure Grows (l l' : DurableLog) (gs : List Group) (grp : Group) (k : Int) (r : Bytes) :
    Prop where
  segments : l'.segments = gs ++ [grp]
  consumed : l'.consumed = l.consumed
  wellFormed : l'.WellFormed
  old : ∀ g ∈ gs, g ∈ l.segments ∧ g.name ≠ grp.name
  kept : ∀ g ∈ l.segments, g ∈ gs ∨ g.name = grp.name ∧ ∀ e ∈ g.entries, e ∈ grp.entries
  named : ∃ j r' rest, grp.entries = (j, r') :: rest ∧ grp.name = convertIndexToString j
  new : (k, r) ∈ grp.entries
  entries : ∀ e ∈ grp.entries, e = (k, r) ∨
    ∃ g ∈ l.segments, g.Live l.consumed ∧ g.name = grp.name ∧ e ∈ g.entries

section Grows

variable {l' : DurableLog} {gs : List Group} {grp : Group}

theorem Grows.index (hgrow : Grows l l' gs grp k r) (h : Stores s q l) (hk : IsIndex k) {j : Int}
    (hj : j ∈ grp.keys) : IsIndex j := by
  obtain ⟨e, he, rfl⟩ := List.mem_map.mp hj
  rcases hgrow.entries e he with rfl | ⟨g, hg, -, -, hin⟩
  · exact hk
  · exact h.index hg (List.mem_map_of_mem hin)

theorem Grows.groupName (hgrow : Grows l l' gs grp k r) (h : Stores s q l) (hk : IsIndex k) :
    GroupName grp.name := by
  obtain ⟨j, r', rest, hentries, hname⟩ := hgrow.named
  rw [hname]
  refine groupName_convert (hgrow.index h hk ?_)
  rw [Segment.keys, hentries]
  exact List.mem_cons_self

theorem Stores.publish_last (h : Stores s q l) (hgrow : Grows l l' gs grp k r) (hk : IsIndex k)
    (hlast : ∀ j ∈ l.keys, j < k)
    (hfiles : ∃ data index, GroupFiles s'.files q l.consumed grp data index) {iWritePos : Int}
    (hpub : Published q grp.name k r iWritePos s s') : Stores s' q l' := by
  have hname := hgrow.groupName h hk
  have hkeys : k ∉ l.keys := fun hin => lt_irrefl k (hlast k hin)
  have hmem : ∀ {g : Group}, g ∈ l'.segments ↔ g ∈ gs ∨ g = grp := by
    intro g
    rw [hgrow.segments, List.mem_append, List.mem_singleton]
  have hother : ∀ g ∈ gs, ∀ ext, IsExt ext → bytesAt s'.files (fileNode q (g.name ++ ext)) =
      bytesAt s.files (fileNode q (g.name ++ ext)) := fun g hg _ _ =>
    hpub.other_group (h.groupName (hgrow.old g hg).1) hname (hgrow.old g hg).2
  have hlive : grp.Live l.consumed :=
    ⟨k, List.mem_map_of_mem hgrow.new, h.wellFormed.not_consumed hlast⟩
  have hfound : ∀ g ∈ l.segments, g.Live l.consumed → ∀ j ∈ g.keys,
      s'.fileOf q j = some g.name := by
    intro g hg hg' j hj
    have hne : j ≠ k := fun hsame => hkeys (Log.mem_keys.mpr ⟨g, hg, hsame ▸ hj⟩)
    exact (hpub.fileOf_ne hne).trans (h.found g hg hg' j hj)
  refine ⟨h.ready.congr hpub.files.inQueue.dirs, hgrow.wellFormed, ?_, ?_, ?_, ?_, ?_, ?_, ?_, ?_,
    ?_⟩
  · intro j hj
    obtain ⟨g, hg, hj⟩ := Log.mem_keys.mp hj
    rcases hmem.mp hg with hg | rfl
    · exact h.index (hgrow.old g hg).1 hj
    · exact hgrow.index h hk hj
  · intro g hg
    rcases hmem.mp hg with hg | rfl
    · exact h.named g (hgrow.old g hg).1
    · exact hgrow.named
  · intro g hg hg'
    rw [hgrow.consumed] at hg' ⊢
    rcases hmem.mp hg with hg | rfl
    · obtain ⟨data, index, hfiles'⟩ := h.live g (hgrow.old g hg).1 hg'
      exact ⟨data, index, hfiles'.congr (hother g hg)⟩
    · exact hfiles
  · intro g hg hdead ext hext
    rw [hgrow.consumed] at hdead
    rcases hmem.mp hg with hg | rfl
    · exact (hother g hg ext hext).trans (h.dead g (hgrow.old g hg).1 hdead ext hext)
    · exact absurd hlive hdead
  · intro f hf
    rcases hpub.other_file hf with hf | ⟨ext, hext, rfl⟩ | rfl
    · rcases h.other f hf with ⟨g, hg, ext, hext, rfl⟩ | hno
      · rcases hgrow.kept g hg with hg | ⟨hsame, -⟩
        · exact Or.inl ⟨g, hmem.mpr (Or.inl hg), ext, hext, rfl⟩
        · exact Or.inl ⟨grp, hmem.mpr (Or.inr rfl), ext, hext, by rw [hsame]⟩
      · exact Or.inr hno
    · exact Or.inl ⟨grp, hmem.mpr (Or.inr rfl), ext, hext, rfl⟩
    · exact Or.inr noGroupFile_offset
  · intro f hf
    cases hpub.tail.symm.trans hf
    exact ⟨gs, grp, hgrow.segments, rfl, hgrow.consumed ▸ hlive⟩
  · intro j f hf
    by_cases hj : j = k
    · subst hj
      cases (hpub.fileOf_new (h.fileOf_none hkeys)).symm.trans hf
      exact ⟨grp, hmem.mpr (Or.inr rfl), rfl, List.mem_map_of_mem hgrow.new⟩
    · obtain ⟨g, hg, hnamed, hj'⟩ := h.known j f ((hpub.fileOf_ne hj).symm.trans hf)
      rcases hgrow.kept g hg with hg | ⟨hsame, hin⟩
      · exact ⟨g, hmem.mpr (Or.inl hg), hnamed, hj'⟩
      · obtain ⟨e, he, rfl⟩ := List.mem_map.mp hj'
        exact ⟨grp, hmem.mpr (Or.inr rfl), hnamed.trans hsame, List.mem_map_of_mem (hin e he)⟩
  · intro g hg hg' j hj
    rw [hgrow.consumed] at hg'
    rcases hmem.mp hg with hg | rfl
    · exact hfound g (hgrow.old g hg).1 hg' j hj
    · obtain ⟨e, he, rfl⟩ := List.mem_map.mp hj
      rcases hgrow.entries e he with rfl | ⟨g', hg', hlive', hsame, hin⟩
      · exact hpub.fileOf_new (h.fileOf_none hkeys)
      · exact hsame ▸ hfound g' hg' hlive' e.1 (List.mem_map_of_mem hin)
  · intro j r' f
    rw [hpub.mem_history, h.history]
    constructor
    · rintro (⟨g, hg, hf, hin⟩ | ⟨rfl, rfl, rfl⟩)
      · rcases hgrow.kept g hg with hg | ⟨hsame, hall⟩
        · exact ⟨g, hmem.mpr (Or.inl hg), hf, hin⟩
        · exact ⟨grp, hmem.mpr (Or.inr rfl), hsame.symm.trans hf, hall _ hin⟩
      · exact ⟨grp, hmem.mpr (Or.inr rfl), rfl, hgrow.new⟩
    · rintro ⟨g, hg, hf, hin⟩
      rcases hmem.mp hg with hg | rfl
      · exact Or.inl ⟨g, (hgrow.old g hg).1, hf, hin⟩
      · rcases hgrow.entries _ hin with hnew | ⟨g', hg', -, hsame, hin'⟩
        · cases hnew
          exact Or.inr ⟨rfl, rfl, hf.symm⟩
        · exact Or.inl ⟨g', hg', hsame.trans hf, hin'⟩

end Grows

theorem Stores.publish_new (h : Stores s q l) (hk : IsIndex k) (hlast : ∀ j ∈ l.keys, j < k)
    (hr : OwnLength r) (hpub : Published q (convertIndexToString k) k r 0 s s') :
    Stores s' q (l.openSegment (convertIndexToString k) k r) := by
  obtain ⟨hfresh, habsent⟩ := h.name_fresh hk hlast
  have hgrow : Grows l (l.openSegment (convertIndexToString k) k r) l.segments
      ⟨convertIndexToString k, [(k, r)]⟩ k r :=
    { segments := rfl
      consumed := rfl
      wellFormed := (h.wellFormed.openSegment hlast).1
      old := fun g hg => ⟨hg, hfresh g hg⟩
      kept := fun _ hg => Or.inl hg
      named := ⟨k, r, [], rfl, rfl⟩
      new := List.mem_singleton_self _
      entries := fun _ he => Or.inl (List.mem_singleton.mp he) }
  exact h.publish_last hgrow hk hlast ⟨_, _, groupFiles_new (groupName_convert hk) hk hr
    (h.wellFormed.not_consumed hlast) habsent hpub.files⟩ hpub

theorem Stores.publish_tail (h : Stores s q l) {gs : List Group} {grp : Group}
    (hsegments : l.segments = gs ++ [grp]) (hlive : grp.Live l.consumed) (hk : IsIndex k)
    (hlast : ∀ j ∈ l.keys, j < k) (hr : OwnLength r) {data index : Bytes}
    (hfiles : GroupFiles s.files q l.consumed grp data index)
    (hsize : data.length ≤ durableMessageFileSize)
    (hpub : Published q grp.name k r data.length s s') : Stores s' q (l.extendLast k r) := by
  have hin : grp ∈ l.segments := hsegments ▸ List.mem_append_right _ List.mem_cons_self
  have hgs : ∀ g ∈ gs, g ∈ l.segments := fun g hg => hsegments ▸ List.mem_append_left _ hg
  obtain ⟨j, r', rest, hentries, hj⟩ := h.named grp hin
  have hne : ∀ g ∈ gs, g ≠ grp := by
    rintro g hg rfl
    have hj : j ∈ g.keys := by
      rw [Segment.keys, hentries]
      exact List.mem_cons_self
    have hsep := h.wellFormed.separate
    rw [hsegments, List.pairwise_append] at hsep
    exact lt_irrefl j (hsep.2.2 g hg g List.mem_cons_self j hj j hj)
  have hgrow : Grows l (l.extendLast k r) gs (grp.add k r) k r :=
    { segments := Log.segments_extendLast hsegments k r
      consumed := rfl
      wellFormed := (h.wellFormed.extendLast hsegments hlast).1
      old := fun g hg => ⟨hgs g hg, fun hsame => hne g hg (h.eq_of_name (hgs g hg) hin hsame)⟩
      kept := fun g hg => by
        rw [hsegments, List.mem_append, List.mem_singleton] at hg
        rcases hg with hg | rfl
        · exact Or.inl hg
        · exact Or.inr ⟨rfl, fun _ he => List.mem_append_left _ he⟩
      named := ⟨j, r', rest ++ [(k, r)], by rw [Segment.add, hentries, List.cons_append], hj⟩
      new := List.mem_append_right _ (List.mem_singleton_self _)
      entries := fun e he => by
        rcases List.mem_append.mp he with he | he
        · exact Or.inr ⟨grp, hin, hlive, rfl, he⟩
        · exact Or.inl (List.mem_singleton.mp he) }
  exact h.publish_last hgrow hk hlast ⟨_, _, groupFiles_add (h.groupName hin) hk hr
    (h.wellFormed.not_consumed hlast) hsize hfiles hpub.files⟩ hpub

/-- A publish succeeds and its record is the last of the log. -/
theorem Stores.publish (h : Stores s q l) (hk : IsIndex k) (hlast : ∀ j ∈ l.keys, j < k)
    (hr : OwnLength r) :
    ∃ s' l', s.onPublishMessage r q k = some (success, s') ∧ Stores s' q l' ∧
      l'.entries = l.entries ++ [(k, r)] ∧ l'.consumed = l.consumed ∧ Elsewhere q s s' := by
  obtain ⟨s', hrun, hpub, -⟩ := createGroup_published h.ready (groupName_convert hk).stem r
  have hnew : Stores s' q (l.openSegment (convertIndexToString k) k r) ∧
      (l.openSegment (convertIndexToString k) k r).entries = l.entries ++ [(k, r)] :=
    ⟨h.publish_new hk hlast hr hpub, Log.entries_openSegment _ _ _ _⟩
  rw [onPublishMessage, if_neg (not_not.mpr (fileExists_queueDir h.ready))]
  dsimp only
  rw [hrun]
  cases htail : s.msgQueueTailFile.lookup q with
  | none => exact ⟨s', _, rfl, hnew.1, hnew.2, rfl, hpub.elsewhere⟩
  | some f =>
    obtain ⟨gs, grp, hsegments, rfl, hlive⟩ := h.tail f htail
    have hin : grp ∈ l.segments := hsegments ▸ List.mem_append_right _ List.mem_cons_self
    obtain ⟨data, index, hfiles⟩ := h.live grp hin hlive
    have hread : readFile s.files (groupPath q grp.name extData) = some data :=
      (readFile_ready h.ready (plain_groupFile (h.groupName hin) (Or.inl rfl))).trans
        hfiles.dataFile
    dsimp only
    rw [hread, Option.map_some]
    by_cases hfull : data.length + r.length > durableMessageFileSize
    · rw [if_pos hfull]
      exact ⟨s', _, rfl, hnew.1, hnew.2, rfl, hpub.elsewhere⟩
    · rw [if_neg hfull]
      obtain ⟨s', hrun, hpub, -⟩ :=
        insertIndex_published h.ready (h.groupName hin).stem htail k r data.length
      rw [hrun]
      exact ⟨s', _, rfl, h.publish_tail hsegments hlive hk hlast hr hfiles (by omega) hpub,
        Log.entries_extendLast hsegments k r, rfl, hpub.elsewhere⟩

/-! ## Consuming -/

/-- The maps after a message of the group was consumed. -/
structure ConsumedMaps (q f : Name) (k : Int) (gone : Prop) (s s' : PersistenceServer) : Prop where
  tail : ∀ q' f', s'.msgQueueTailFile.lookup q' = some f' →
    s.msgQueueTailFile.lookup q' = some f' ∧ (q' = q → gone → f' ≠ f)
  otherTail : ∀ q', q' ≠ q → s'.msgQueueTailFile.lookup q' = s.msgQueueTailFile.lookup q'
  index : s'.msgQueueIndexFile = s.msgQueueIndexFile
  history : s'.history = s.history ++ [.consumed q k]

theorem dropGroup_maps (s : PersistenceServer) (q f : Name) :
    (∀ q' f', (s.dropGroup q f).msgQueueTailFile.lookup q' = some f' →
      s.msgQueueTailFile.lookup q' = some f' ∧ (q' = q → f' ≠ f)) ∧
    ∀ q', q' ≠ q →
      (s.dropGroup q f).msgQueueTailFile.lookup q' = s.msgQueueTailFile.lookup q' := by
  unfold dropGroup
  dsimp only
  split
  · next htail =>
    refine ⟨fun q' f' h => ?_, fun q' hq => AList.lookup_erase_ne hq⟩
    by_cases hq : q' = q
    · subst hq
      rw [AList.lookup_erase] at h
      cases h
    · rw [AList.lookup_erase_ne hq] at h
      exact ⟨h, fun hsame => absurd hsame hq⟩
  · next htail =>
    refine ⟨fun q' f' h => ⟨h, ?_⟩, fun _ _ => rfl⟩
    rintro rfl rfl
    exact htail h

/-- The maps agree with what happened to the files. -/
theorem consumeIn_maps {consumed : List Int} {grp : Group} {data index pTemp : Bytes}
    (h : Ready s.files q) (hname : GroupName grp.name) (hkeys : grp.keys.Nodup)
    (hg : GroupFiles s.files q consumed grp data index) (hlen : pTemp.length = 4)
    (hread : readInt (Mem.ofBytes pTemp) 0 = k) (hk : k ∈ grp.keys) (hnew : k ∉ consumed) :
    ∃ s', s.consumeIn q grp.name k pTemp = (success, s') ∧
      ConsumedFiles q (consumed ++ [k]) grp data index s.files s'.files ∧
        ConsumedMaps q grp.name k (¬ grp.Live (consumed ++ [k])) s s' := by
  obtain ⟨files, hfiles, hrun⟩ := consumeIn_ready h hname hkeys hg hlen hread hk hnew
  rw [hrun] at hfiles ⊢
  refine ⟨_, rfl, hfiles, ?_⟩
  by_cases hlive : grp.Live (consumed ++ [k])
  · rw [if_pos hlive]
    exact ⟨fun _ _ htail => ⟨htail, fun _ hdead => absurd hlive hdead⟩, fun _ _ => rfl, rfl, rfl⟩
  · rw [if_neg hlive]
    obtain ⟨htail, hother⟩ := dropGroup_maps
      { s with files := files, history := s.history ++ [.consumed q k] } q grp.name
    refine ⟨fun q' f' hf' => ?_, hother, rfl, rfl⟩
    exact ⟨(htail q' f' hf').1, fun hq _ => (htail q' f' hf').2 hq⟩

theorem ConsumedMaps.published_iff {f f' : Name} {gone : Prop} (h : ConsumedMaps q f k gone s s')
    (q' : Name) (j : Int) (r : Bytes) :
    .published q' j r f' ∈ s'.history ↔ .published q' j r f' ∈ s.history := by
  rw [h.history, List.mem_append, List.mem_singleton]
  exact or_iff_left fun hsame => nomatch hsame

theorem Stores.consumed (h : Stores s q l) {grp : Group} (hin : grp ∈ l.segments)
    (hk : k ∈ grp.keys) (hnew : k ∉ l.consumed) {data index : Bytes}
    (hfiles : ConsumedFiles q (l.consumed ++ [k]) grp data index s.files s'.files)
    (hmaps : ConsumedMaps q grp.name k (¬ grp.Live (l.consumed ++ [k])) s s') :
    Stores s' q (l.consume k) := by
  have hkeys : ∀ g ∈ l.segments, g ≠ grp → k ∉ g.keys := fun g hg hne hin' =>
    hne (h.wellFormed.segment_unique hg hin hin' hk)
  have hother : ∀ g ∈ l.segments, g ≠ grp → ∀ ext, IsExt ext →
      bytesAt s'.files (fileNode q (g.name ++ ext)) =
        bytesAt s.files (fileNode q (g.name ++ ext)) := by
    intro g hg hne ext _
    refine hfiles.other _ fun ext' _ hsame => hne (h.eq_of_name hg hin ?_)
    exact (ext_eq_of_append_eq (h.groupName hg) (h.groupName hin) hsame).1
  have hfileOf : ∀ j, s'.fileOf q j = s.fileOf q j := fun j => by
    rw [fileOf, fileOf, hmaps.index]
  refine ⟨h.ready.congr hfiles.inQueue.dirs,
    (h.wellFormed.consume (Log.mem_keys.mpr ⟨grp, hin, hk⟩) hnew).1, h.indices, h.named, ?_, ?_,
    ?_, ?_, ?_, ?_, ?_⟩
  · intro g hg hlive
    by_cases hsame : g = grp
    · subst hsame
      exact ⟨data, index, hfiles.live hlive⟩
    · obtain ⟨data', index', hg'⟩ := h.live g hg (Log.live_of_append hlive)
      exact ⟨data', index', (hg'.congr (hother g hg hsame)).consume_other (hkeys g hg hsame)⟩
  · intro g hg hdead ext hext
    by_cases hsame : g = grp
    · subst hsame
      exact hfiles.dead hdead ext hext
    · have hdead' : ¬ g.Live l.consumed := fun hlive =>
        hdead ((Log.live_append_iff (hkeys g hg hsame)).mpr hlive)
      exact (hother g hg hsame ext hext).trans (h.dead g hg hdead' ext hext)
  · intro f hf
    by_cases hgrp : ∃ ext, IsExt ext ∧ f = grp.name ++ ext
    · exact Or.inl ⟨grp, hin, hgrp⟩
    · rw [hfiles.other f fun ext hext hsame => hgrp ⟨ext, hext, hsame⟩] at hf
      exact h.other f hf
  · intro f hf
    obtain ⟨htail, hgone⟩ := hmaps.tail q f hf
    obtain ⟨gs, g, hsegments, rfl, hlive⟩ := h.tail f htail
    have hg : g ∈ l.segments := hsegments ▸ List.mem_append_right _ List.mem_cons_self
    refine ⟨gs, g, hsegments, rfl, ?_⟩
    by_cases hsame : g = grp
    · subst hsame
      by_contra hdead
      exact hgone rfl hdead rfl
    · exact (Log.live_append_iff (hkeys g hg hsame)).mpr hlive
  · exact fun j f hf => h.known j f ((hfileOf j).symm.trans hf)
  · exact fun g hg hlive j hj =>
      (hfileOf j).trans (h.found g hg (Log.live_of_append hlive) j hj)
  · exact fun j r f => (hmaps.published_iff q j r).trans (h.history j r f)

theorem Stores.consume (h : Stores s q l) {ipBuffer : Mem} (hq : readName ipBuffer 0 = some q)
    (hk : readInt ipBuffer maxNameLength = k) (hnew : k ∉ l.consumed) :
    ∃ ret s', s.onConsumeMessage ipBuffer = some (ret, s') ∧ Elsewhere q s s' ∧
      Stores s' q (if k ∈ l.keys then l.consume k else l) := by
  have hexists := fileExists_queueDir h.ready
  rw [onConsumeMessage, hq, Option.map_some, hk, if_neg (not_not.mpr hexists)]
  by_cases hin : k ∈ l.keys
  · obtain ⟨grp, hgrp, hkey⟩ := Log.mem_keys.mp hin
    have hlive : grp.Live l.consumed := ⟨k, hkey, hnew⟩
    obtain ⟨m, hm, hf⟩ := Option.bind_eq_some_iff.mp (h.found grp hgrp hlive k hkey)
    obtain ⟨data, index, hfiles⟩ := h.live grp hgrp hlive
    obtain ⟨s', hrun, hconsumed, hmaps⟩ := consumeIn_maps h.ready (h.groupName hgrp)
      (h.keys_nodup hgrp) hfiles (Mem.read_length _ _ _) ((readInt_copy _ _).trans hk) hkey hnew
    rw [hm]
    dsimp only
    rw [hf]
    dsimp only
    rw [hrun, if_pos hin]
    refine ⟨_, s', rfl, ⟨hconsumed.inQueue, hmaps.otherTail, fun q' _ j => ?_,
      fun q' _ j r f => hmaps.published_iff q' j r⟩, h.consumed hgrp hkey hnew hconsumed hmaps⟩
    rw [fileOf, fileOf, hmaps.index]
  · have hnone := h.fileOf_none hin
    rw [if_neg hin]
    cases hm : s.msgQueueIndexFile.lookup q with
    | none => exact ⟨_, s, rfl, Elsewhere.refl q s, h⟩
    | some m =>
      rw [fileOf, hm, Option.bind_some] at hnone
      dsimp only
      rw [hnone]
      exact ⟨_, s, rfl, Elsewhere.refl q s, h⟩

end Wsmq.PersistenceServer
