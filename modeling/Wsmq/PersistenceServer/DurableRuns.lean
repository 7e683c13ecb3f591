import Wsmq.PersistenceServer.DurableLog
import Wsmq.PersistenceServer.Folders

/-!
# Reading the log back

What the files of a queue give in sorted name order, what the maps are after a restart,
and the two over runs.
-/

namespace Wsmq.PersistenceServer
open Lib Lib.ByteString Lib.Packing Lib.Files Lib.SegmentedLog

variable {s s' : PersistenceServer} {q : Name} {l : DurableLog} {k : Int}

/-! ## Sorted names -/

def liveGroups (l : DurableLog) : List Group := l.segments.filter fun g => g.Live l.consumed

theorem mem_liveGroups {g : Group} :
    g ∈ liveGroups l ↔ g ∈ l.segments ∧ g.Live l.consumed := by
  rw [liveGroups, List.mem_filter, decide_eq_true_iff]

/-- A name that contains ".index" is that of an index file of a live group. -/
theorem Stores.index_name (h : Stores s q l) {f n : Name} {bytes : Bytes}
    (hfile : bytesAt s.files (fileNode q f) = some bytes) (hn : beforeFirst extIndex f = some n) :
    f = n ++ extIndex ∧ ∃ g ∈ liveGroups l, g.name = n := by
  have hne : bytesAt s.files (fileNode q f) ≠ none := hfile ▸ Option.some_ne_none _
  rcases h.other f hne with ⟨g, hg, ext, hext, rfl⟩ | hno
  · rw [beforeFirst_groupFile (h.groupName hg) hext] at hn
    split at hn
    · next hindex =>
      cases hn
      refine ⟨hindex ▸ rfl, g, mem_liveGroups.mpr ⟨hg, ?_⟩, rfl⟩
      by_contra hdead
      exact hne (h.dead g hg hdead ext hext)
    · cases hn
  · rw [hno.1] at hn
    cases hn

theorem readDir_queue (h : Ready s.files q) :
    readDir s.files (subPath q) = some (children s.files (queueNode q)) := by
  rw [readDir, resolve_subPath h.base h.plain, Option.bind_some, if_pos h.queue]

theorem bytesAt_of_child {fs : FileSystem} {f : Name} {bytes : Bytes}
    (h : (f, Node.file bytes) ∈ children fs (queueNode q)) :
    bytesAt fs (fileNode q f) = some bytes := by
  have hlookup : fs.lookup (fileNode q f) = some (.file bytes) := mem_children.mp h
  rw [bytesAt, hlookup]

theorem child_of_bytesAt {fs : FileSystem} {f : Name} {bytes : Bytes}
    (h : bytesAt fs (fileNode q f) = some bytes) :
    (f, Node.file bytes) ∈ children fs (queueNode q) := by
  refine mem_children.mpr ?_
  unfold bytesAt at h
  split at h
  · next hlookup =>
    cases h
    exact hlookup
  · cases h

theorem Stores.mem_findIndexFiles (h : Stores s q l) {n : Name} :
    n ∈ findIndexFiles s.files (subPath q) ↔ ∃ g ∈ liveGroups l, g.name = n := by
  rw [findIndexFiles, readDir_queue h.ready, Option.getD_some, List.mem_filterMap]
  constructor
  · rintro ⟨⟨f, node⟩, hentry, hn⟩
    cases node with
    | dir => cases hn
    | file bytes => exact (h.index_name (bytesAt_of_child hentry) hn).2
  · rintro ⟨g, hg, rfl⟩
    obtain ⟨hin, hlive⟩ := mem_liveGroups.mp hg
    obtain ⟨data, index, hfiles⟩ := h.live g hin hlive
    refine ⟨_, child_of_bytesAt hfiles.indexFile, ?_⟩
    dsimp only
    rw [beforeFirst_groupFile (h.groupName hin) (Or.inr (Or.inl rfl)), if_pos rfl]

theorem filterMap_names_sublist {entries : List (Name × Node)}
    {pick : Name × Node → Option Name}
    (h : ∀ e ∈ entries, ∀ n, pick e = some n → e.1 = n ++ extIndex) :
    ((entries.filterMap pick).map (· ++ extIndex)).Sublist (entries.map Prod.fst) := by
  induction entries with
  | nil => exact List.Sublist.refl _
  | cons e entries ih =>
    have hrest := ih fun e' he' => h e' (List.mem_cons_of_mem e he')
    cases hpick : pick e with
    | none =>
      rw [List.filterMap_cons_none hpick]
      exact hrest.cons _
    | some n =>
      rw [List.filterMap_cons_some hpick, List.map_cons, List.map_cons,
        h e List.mem_cons_self n hpick]
      exact hrest.cons_cons _

theorem Stores.nodup_findIndexFiles (h : Stores s q l) :
    (findIndexFiles s.files (subPath q)).Nodup := by
  rw [findIndexFiles, readDir_queue h.ready, Option.getD_some]
  refine List.Nodup.of_map _ ((filterMap_names_sublist ?_).nodup (nodup_children s.files _))
  rintro ⟨f, node⟩ hentry n hn
  cases node with
  | dir => cases hn
  | file bytes => exact (h.index_name (bytesAt_of_child hentry) hn).1

/-- The names of the groups rise like their indices. -/
theorem Stores.names_sorted (h : Stores s q l) :
    ((liveGroups l).map Segment.name).Pairwise fun a b => a < b := by
  have hsep : (liveGroups l).Pairwise fun a b => ∀ i ∈ a.keys, ∀ j ∈ b.keys, i < j :=
    h.wellFormed.separate.sublist List.filter_sublist
  refine List.pairwise_map.mpr (hsep.imp_of_mem fun {a b} ha hb hlt => ?_)
  have ha := (mem_liveGroups.mp ha).1
  have hb := (mem_liveGroups.mp hb).1
  obtain ⟨i, _, _, hi, hname⟩ := h.named a ha
  obtain ⟨j, _, _, hj, hname'⟩ := h.named b hb
  have hikey : i ∈ a.keys := by
    rw [Segment.keys, hi]
    exact List.mem_cons_self
  have hjkey : j ∈ b.keys := by
    rw [Segment.keys, hj]
    exact List.mem_cons_self
  rw [hname, hname']
  exact convert_lt (h.index ha hikey) (h.index hb hjkey) (hlt i hikey j hjkey)

theorem Stores.sortFiles_eq (h : Stores s q l) :
    sortFiles (findIndexFiles s.files (subPath q)) = (liveGroups l).map Segment.name := by
  have hsorted := h.names_sorted
  have hperm : (findIndexFiles s.files (subPath q)).Perm ((liveGroups l).map Segment.name) := by
    have hnodup : ((liveGroups l).map Segment.name).Nodup := by
      refine hsorted.imp ?_
      rintro a b hlt rfl
      exact List.lt_irrefl a hlt
    refine (List.perm_ext_iff_of_nodup h.nodup_findIndexFiles hnodup).mpr fun n => ?_
    rw [h.mem_findIndexFiles, List.mem_map]
  exact PersistenceServer.sortFiles_eq hperm (hsorted.imp fun hlt => List.le_of_lt hlt)

/-- The files in sorted name order give what is not consumed. -/
theorem Stores.storedRecords (h : Stores s q l) :
    storedRecords s.files q = some l.unconsumed := by
  have hread : ∀ gs : List Group, (∀ g ∈ gs, g ∈ liveGroups l) →
      readGroups s.files q (gs.map Segment.name) =
        some (gs.flatMap fun g => g.entries.filter fun e => e.1 ∉ l.consumed) := by
    intro gs hgs
    induction gs with
    | nil => rfl
    | cons g gs ih =>
      obtain ⟨hin, hlive⟩ := mem_liveGroups.mp (hgs g List.mem_cons_self)
      obtain ⟨data, index, hfiles⟩ := h.live g hin hlive
      rw [List.map_cons, readGroups, groupRecords_ready h.ready (h.groupName hin)
        (h.wellFormed.nonempty g hin) hfiles, Option.bind_some,
        ih fun g' hg' => hgs g' (List.mem_cons_of_mem g hg')]
      rfl
  rw [Wsmq.storedRecords, h.sortFiles_eq, hread _ fun _ hg => hg, Log.unconsumed_eq_live]
  rfl

/-! ## Restart -/

/-- Only entries for the queue `n` are added to the index map. -/
structure OnlyIndex (n : Name) (s s' : PersistenceServer) : Prop where
  files : s'.files = s.files
  tail : s'.msgQueueTailFile = s.msgQueueTailFile
  history : s'.history = s.history
  fileOf : ∀ q, q ≠ n → ∀ k, s'.fileOf q k = s.fileOf q k
  keeps : ∀ q k f, s.fileOf q k = some f → s'.fileOf q k = some f

namespace OnlyIndex

variable {n : Name} {s'' : PersistenceServer}

theorem refl (n : Name) (s : PersistenceServer) : OnlyIndex n s s :=
  ⟨rfl, rfl, rfl, fun _ _ _ => rfl, fun _ _ _ h => h⟩

theorem trans (h : OnlyIndex n s s') (h' : OnlyIndex n s' s'') : OnlyIndex n s s'' where
  files := h'.files.trans h.files
  tail := h'.tail.trans h.tail
  history := h'.history.trans h.history
  fileOf q hq k := (h'.fileOf q hq k).trans (h.fileOf q hq k)
  keeps q k f hf := h'.keeps q k f (h.keeps q k f hf)

theorem pushFile (s : PersistenceServer) (n f : Name) : OnlyIndex n s (s.pushFile n f) :=
  ⟨rfl, rfl, rfl, fun _ _ _ => rfl, fun _ _ _ h => h⟩

theorem insertIndex (s : PersistenceServer) (n f : Name) (i : Int) :
    OnlyIndex n s (s.insertIndex n i f) := by
  refine ⟨rfl, rfl, rfl, fun q hq k => ?_, fun q k f' hf' => ?_⟩
  · rw [fileOf_insertIndex, if_neg fun hc => hq hc.1]
  · rw [fileOf_insertIndex, if_neg]
    · exact hf'
    · rintro ⟨rfl, rfl, hnone⟩
      rw [hnone] at hf'
      cases hf'

theorem foldl {α : Type} {step : PersistenceServer → α → PersistenceServer}
    (hstep : ∀ s a, OnlyIndex n s (step s a)) (as : List α) (s : PersistenceServer) :
    OnlyIndex n s (as.foldl step s) := by
  induction as generalizing s with
  | nil => exact refl n s
  | cons a as ih => exact (hstep s a).trans (ih _)

end OnlyIndex

/-- The indices in an index file of the queue. -/
def indexKeys (files : FileSystem) (q f : Name) : List Int :=
  match readFile files (groupPath q f extIndex) with
  | none => []
  | some index => (indexEntries index).map Prod.fst

theorem processIndexFile_only (s : PersistenceServer) (n f : Name) :
    OnlyIndex n s (s.processIndexFile n f) := by
  unfold processIndexFile
  split
  · exact OnlyIndex.refl n s
  · exact OnlyIndex.foldl (fun s (e : Int × Int) => OnlyIndex.insertIndex s n f e.1) _ s

theorem initQueueDir_only (s : PersistenceServer) (n : Name) : OnlyIndex n s (s.initQueueDir n) :=
  OnlyIndex.foldl
    (fun s f => (processIndexFile_only s n f).trans (OnlyIndex.pushFile _ n f)) _ s

theorem processIndexFile_fileOf (s : PersistenceServer) (q f : Name) (k : Int) :
    (∀ f', (s.processIndexFile q f).fileOf q k = some f' →
      s.fileOf q k = some f' ∨ (f' = f ∧ k ∈ indexKeys s.files q f)) ∧
    (k ∈ indexKeys s.files q f → ∃ f', (s.processIndexFile q f).fileOf q k = some f') := by
  have hfold : ∀ (es : List (Int × Int)) (s : PersistenceServer),
      (∀ f', (es.foldl (fun s e => s.insertIndex q e.1 f) s).fileOf q k = some f' →
        s.fileOf q k = some f' ∨ (f' = f ∧ k ∈ es.map Prod.fst)) ∧
      (k ∈ es.map Prod.fst →
        ∃ f', (es.foldl (fun s e => s.insertIndex q e.1 f) s).fileOf q k = some f') := by
    intro es
    induction es with
    | nil => exact fun s => ⟨fun _ h => Or.inl h, fun h => nomatch h⟩
    | cons e es ih =>
      intro s
      obtain ⟨hsound, hcomplete⟩ := ih (s.insertIndex q e.1 f)
      constructor
      · intro f' hf'
        rcases hsound f' hf' with hold | ⟨rfl, hin⟩
        · rw [fileOf_insertIndex] at hold
          split at hold
          · next hc =>
            cases hold
            exact Or.inr ⟨rfl, hc.2.1 ▸ List.mem_cons_self⟩
          · exact Or.inl hold
        · exact Or.inr ⟨rfl, List.mem_cons_of_mem _ hin⟩
      · intro hk
        rcases List.mem_cons.mp hk with rfl | hk
        · have hnow : ∃ f', (s.insertIndex q e.1 f).fileOf q e.1 = some f' := by
            rw [fileOf_insertIndex]
            cases hold : s.fileOf q e.1 with
            | none => exact ⟨f, if_pos ⟨rfl, rfl, rfl⟩⟩
            | some f' => exact ⟨f', if_neg fun hc => nomatch hc.2.2⟩
          obtain ⟨f', hf'⟩ := hnow
          exact ⟨f', (OnlyIndex.foldl (fun s (e : Int × Int) =>
            OnlyIndex.insertIndex s q f e.1) es _).keeps q _ f' hf'⟩
        · exact hcomplete hk
  unfold processIndexFile indexKeys
  cases readFile s.files (groupPath q f extIndex) with
  | none => exact ⟨fun _ h => Or.inl h, fun h => nomatch h⟩
  | some index => exact hfold _ s

theorem initQueueDir_fileOf (s : PersistenceServer) (q : Name) (k : Int) :
    (∀ f, (s.initQueueDir q).fileOf q k = some f → s.fileOf q k = some f ∨
      (f ∈ findIndexFiles s.files (subPath q) ∧ k ∈ indexKeys s.files q f)) ∧
    (∀ f ∈ findIndexFiles s.files (subPath q), k ∈ indexKeys s.files q f →
      ∃ f', (s.initQueueDir q).fileOf q k = some f') := by
  have honly : ∀ s f, OnlyIndex q s ((s.processIndexFile q f).pushFile q f) := fun s f =>
    (processIndexFile_only s q f).trans (OnlyIndex.pushFile _ q f)
  have hfold : ∀ (fs : List Name) (s : PersistenceServer),
      (∀ f, (fs.foldl (fun s f => (s.processIndexFile q f).pushFile q f) s).fileOf q k = some f →
        s.fileOf q k = some f ∨ (f ∈ fs ∧ k ∈ indexKeys s.files q f)) ∧
      (∀ f ∈ fs, k ∈ indexKeys s.files q f → ∃ f',
        (fs.foldl (fun s f => (s.processIndexFile q f).pushFile q f) s).fileOf q k = some f') := by
    intro fs
    induction fs with
    | nil => exact fun s => ⟨fun _ h => Or.inl h, fun _ h => nomatch h⟩
    | cons g fs ih =>
      intro s
      obtain ⟨hsound, hcomplete⟩ := ih ((s.processIndexFile q g).pushFile q g)
      obtain ⟨hsound', hcomplete'⟩ := processIndexFile_fileOf s q g k
      rw [(honly s g).files] at hsound hcomplete
      constructor
      · intro f hf
        rcases hsound f hf with hf | ⟨hin, hkey⟩
        · rcases hsound' f hf with hf | ⟨rfl, hkey⟩
          · exact Or.inl hf
          · exact Or.inr ⟨List.mem_cons_self, hkey⟩
        · exact Or.inr ⟨List.mem_cons_of_mem _ hin, hkey⟩
      · intro f hf hkey
        rcases List.mem_cons.mp hf with rfl | hf
        · obtain ⟨f', hf'⟩ := hcomplete' hkey
          exact ⟨f', (OnlyIndex.foldl honly fs _).keeps q k f' hf'⟩
        · exact hcomplete f hf hkey
  obtain ⟨hsound, hcomplete⟩ := hfold (sortFiles (findIndexFiles s.files (subPath q))) s
  have hmem : ∀ {f}, f ∈ sortFiles (findIndexFiles s.files (subPath q)) ↔
      f ∈ findIndexFiles s.files (subPath q) := (List.perm_insertionSort _ _).mem_iff
  exact ⟨fun f hf => (hsound f hf).imp_right fun h => ⟨hmem.mp h.1, h.2⟩,
    fun f hf => hcomplete f (hmem.mpr hf)⟩

/-- The maps after a restart tell what the index files say. -/
theorem restart_fileOf (s : PersistenceServer) (q : Name) (k : Int) :
    s.restart.files = s.files ∧ s.restart.msgQueueTailFile = ∅ ∧ s.restart.history = s.history ∧
    (∀ f, s.restart.fileOf q k = some f →
      f ∈ findIndexFiles s.files (subPath q) ∧ k ∈ indexKeys s.files q f) ∧
    (q ∈ queueDirs s.files → ∀ f ∈ findIndexFiles s.files (subPath q),
      k ∈ indexKeys s.files q f → ∃ f', s.restart.fileOf q k = some f') := by
  have hfold : ∀ (ns : List Name) (s : PersistenceServer),
      (ns.foldl initQueueDir s).files = s.files ∧
      (ns.foldl initQueueDir s).msgQueueTailFile = s.msgQueueTailFile ∧
      (ns.foldl initQueueDir s).history = s.history ∧
      (∀ f, s.fileOf q k = some f → (ns.foldl initQueueDir s).fileOf q k = some f) ∧
      (∀ f, (ns.foldl initQueueDir s).fileOf q k = some f → s.fileOf q k = some f ∨
        (f ∈ findIndexFiles s.files (subPath q) ∧ k ∈ indexKeys s.files q f)) ∧
      (q ∈ ns → ∀ f ∈ findIndexFiles s.files (subPath q), k ∈ indexKeys s.files q f →
        ∃ f', (ns.foldl initQueueDir s).fileOf q k = some f') := by
    intro ns
    induction ns with
    | nil =>
      exact fun s => ⟨rfl, rfl, rfl, fun _ h => h, fun _ h => Or.inl h, fun h => nomatch h⟩
    | cons n ns ih =>
      intro s
      have honly := initQueueDir_only s n
      obtain ⟨hfiles, htail, hhist, hkeeps, hsound, hcomplete⟩ := ih (s.initQueueDir n)
      rw [honly.files] at hfiles hsound hcomplete
      rw [honly.tail] at htail
      rw [honly.history] at hhist
      refine ⟨hfiles, htail, hhist, fun f hf => hkeeps f (honly.keeps q k f hf), ?_, ?_⟩
      · intro f hf
        rcases hsound f hf with hf | hf
        · by_cases hn : q = n
          · subst hn
            exact (initQueueDir_fileOf s q k).1 f hf
          · exact Or.inl ((honly.fileOf q hn k).symm.trans hf)
        · exact Or.inr hf
      · intro hq f hf hkey
        rcases List.mem_cons.mp hq with rfl | hq
        · obtain ⟨f', hf'⟩ := (initQueueDir_fileOf s q k).2 f hf hkey
          exact ⟨f', hkeeps f' hf'⟩
        · exact hcomplete hq f hf hkey
  obtain ⟨hfiles, htail, hhist, _, hsound, hcomplete⟩ := hfold (queueDirs s.files)
    { files := s.files, history := s.history }
  exact ⟨hfiles, htail, hhist, fun f hf => (hsound f hf).resolve_left (fun h => nomatch h),
    hcomplete⟩

theorem forall₂_keys {data : Bytes} {es : List (Int × Int)} {rs : List (Int × Bytes)}
    (h : List.Forall₂ (LeadsTo data) es rs) : es.map Prod.fst = rs.map Prod.fst := by
  induction h with
  | nil => rfl
  | cons he _ ih => rw [List.map_cons, List.map_cons, he.1, ih]

theorem Stores.restart (h : Stores s q l) : Stores s.restart q l := by
  obtain ⟨hfiles, htail, hhist, _⟩ := restart_fileOf s q 0
  have hkeys : ∀ g ∈ liveGroups l, indexKeys s.files q g.name = g.keys := by
    intro g hg
    obtain ⟨hin, hlive⟩ := mem_liveGroups.mp hg
    obtain ⟨data, index, hg'⟩ := h.live g hin hlive
    have hread : readFile s.files (groupPath q g.name extIndex) = some index :=
      (readFile_ready h.ready (plain_groupFile (h.groupName hin) (Or.inr (Or.inl rfl)))).trans
        hg'.indexFile
    rw [indexKeys, hread]
    exact forall₂_keys hg'.entries
  have hknown : ∀ k f, s.restart.fileOf q k = some f →
      ∃ g ∈ l.segments, f = g.name ∧ k ∈ g.keys := by
    intro k f hf
    obtain ⟨_, _, _, hsound, _⟩ := restart_fileOf s q k
    obtain ⟨hin, hkey⟩ := hsound f hf
    obtain ⟨g, hg, rfl⟩ := h.mem_findIndexFiles.mp hin
    exact ⟨g, (mem_liveGroups.mp hg).1, rfl, hkeys g hg ▸ hkey⟩
  refine ⟨hfiles ▸ h.ready, h.wellFormed, h.indices, h.named, ?_, ?_, ?_, ?_, hknown, ?_, ?_⟩
  · rw [hfiles]
    exact h.live
  · rw [hfiles]
    exact h.dead
  · rw [hfiles]
    exact h.other
  · intro f hf
    rw [htail] at hf
    cases hf
  · intro g hg hlive k hk
    have hg' : g ∈ liveGroups l := mem_liveGroups.mpr ⟨hg, hlive⟩
    obtain ⟨_, _, _, _, hcomplete⟩ := restart_fileOf s q k
    have hdir : q ∈ subDirs s.files .queue := mem_subDirs.mpr ⟨h.ready.base, h.ready.queue⟩
    obtain ⟨f, hf⟩ := hcomplete hdir g.name
      (h.mem_findIndexFiles.mpr ⟨g, hg', rfl⟩) (hkeys g hg' ▸ hk)
    obtain ⟨g', hg'', rfl, hk'⟩ := hknown k f hf
    rw [h.wellFormed.segment_unique hg hg'' hk hk']
    exact hf
  · rw [hhist]
    exact h.history

/-! ## Runs -/

/-- The directory of a queue with no durable messages. -/
structure Fresh (files : FileSystem) (q : Name) : Prop where
  ready : Ready files q
  noGroup : ∀ f, bytesAt files (fileNode q f) ≠ none → NoGroupFile f

/-- What the calls say about a queue: the records published, and the indices consumed. -/
structure Ledger where
  published : List (Int × Bytes) := []
  consumed : List Int := []

namespace Ledger

def keys (d : Ledger) : List Int := d.published.map Prod.fst

def unconsumed (d : Ledger) : List (Int × Bytes) := d.published.filter fun e => e.1 ∉ d.consumed

/-- Consuming an index that is not published says nothing. -/
def step (q : Name) (d : Ledger) : Step → Ledger
  | .publish ipBuffer istrQueueName iDurableIndex =>
    if istrQueueName = q then { d with published := d.published ++ [(iDurableIndex, ipBuffer)] }
    else d
  | .consume ipBuffer =>
    if readName ipBuffer 0 = some q ∧ readInt ipBuffer maxNameLength ∈ d.keys then
      { d with consumed := d.consumed ++ [readInt ipBuffer maxNameLength] }
    else d
  | .restart => d

end Ledger

/-- A call on a queue whose directory is there: indices rise, records begin with their
length, and no index is consumed twice. -/
def Allows (files : FileSystem) (ds : Name → Ledger) : Step → Prop
  | .publish ipBuffer q iDurableIndex =>
    Fresh files q ∧ IsIndex iDurableIndex ∧ OwnLength ipBuffer ∧
      ∀ j ∈ (ds q).keys, j < iDurableIndex
  | .consume ipBuffer =>
    ∃ q, readName ipBuffer 0 = some q ∧ Fresh files q ∧
      readInt ipBuffer maxNameLength ∉ (ds q).consumed
  | .restart => True

def Admissible (files : FileSystem) : (Name → Ledger) → List Step → Prop
  | _, [] => True
  | ds, a :: as => Allows files ds a ∧ Admissible files (fun q => (ds q).step q a) as

def ledger (q : Name) (as : List Step) : Ledger := as.foldl (Ledger.step q) {}

/-- Everything that went into the group is consumed. -/
def AllConsumed (s : PersistenceServer) (q f : Name) (d : Ledger) : Prop :=
  ∀ k r, .published q k r f ∈ s.history → k ∈ d.consumed

/-- The files of the queue are the log that the calls made. -/
structure Refines (s : PersistenceServer) (q : Name) (d : Ledger) : Prop where
  stored : storedRecords s.files q = some d.unconsumed
  increasing : d.unconsumed.Pairwise fun a b => a.1 < b.1
  grouped : ∀ k r, (k, r) ∈ d.published ↔ ∃ f, .published q k r f ∈ s.history
  gone : ∀ k r f, .published q k r f ∈ s.history → ∀ ext, ext = extData ∨ ext = extIndex →
    (readFile s.files (groupPath q f ext) = none ↔ AllConsumed s q f d)
  consumeGone : ∀ k r f, .published q k r f ∈ s.history → AllConsumed s q f d →
    readFile s.files (groupPath q f extConsume) = none

variable {d : Ledger}

theorem Stores.refines (h : Stores s q l) (hentries : l.entries = d.published)
    (hconsumed : l.consumed = d.consumed) : Refines s q d := by
  have hunconsumed : d.unconsumed = l.unconsumed := by
    rw [Ledger.unconsumed, Log.unconsumed, hentries, hconsumed]
  have hall : ∀ g ∈ l.segments, AllConsumed s q g.name d ↔ ¬ g.Live l.consumed := by
    intro g hg
    constructor
    · rintro hall ⟨k, hk, hnot⟩
      obtain ⟨⟨_, r⟩, hin, rfl⟩ := List.mem_map.mp hk
      rw [hconsumed] at hnot
      exact hnot (hall _ r ((h.history _ _ _).mpr ⟨g, hg, rfl, hin⟩))
    · intro hdead k r hin
      obtain ⟨g', hg', hname, hin'⟩ := (h.history _ _ _).mp hin
      obtain rfl := h.eq_of_name hg' hg hname
      by_contra hnot
      exact hdead ⟨k, List.mem_map_of_mem hin', hconsumed ▸ hnot⟩
  have hread : ∀ g ∈ l.segments, ∀ ext, IsExt ext →
      readFile s.files (groupPath q g.name ext) = bytesAt s.files (fileNode q (g.name ++ ext)) :=
    fun g hg ext hext => readFile_ready h.ready (plain_groupFile (h.groupName hg) hext)
  refine ⟨?_, ?_, fun k r => ?_, fun k r f hin ext hext => ?_, fun k r f hin hgone => ?_⟩
  · rw [hunconsumed]
    exact h.storedRecords
  · rw [hunconsumed]
    exact (List.pairwise_map.mp h.wellFormed.increasing).sublist List.filter_sublist
  · rw [← hentries, Log.entries, List.mem_flatMap]
    constructor
    · rintro ⟨g, hg, hin⟩
      exact ⟨g.name, (h.history _ _ _).mpr ⟨g, hg, rfl, hin⟩⟩
    · rintro ⟨f, hf⟩
      obtain ⟨g, hg, _, hin⟩ := (h.history _ _ _).mp hf
      exact ⟨g, hg, hin⟩
  · obtain ⟨g, hg, rfl, _⟩ := (h.history _ _ _).mp hin
    have hext' : IsExt ext := hext.imp_right Or.inl
    rw [hread g hg ext hext', hall g hg]
    constructor
    · intro hnone hlive
      obtain ⟨data, index, hfiles⟩ := h.live g hg hlive
      rcases hext with rfl | rfl
      · exact Option.some_ne_none _ (hfiles.dataFile.symm.trans hnone)
      · exact Option.some_ne_none _ (hfiles.indexFile.symm.trans hnone)
    · exact fun hdead => h.dead g hg hdead ext hext'
  · obtain ⟨g, hg, rfl, _⟩ := (h.history _ _ _).mp hin
    rw [hread g hg _ (Or.inr (Or.inr rfl))]
    exact h.dead g hg ((hall g hg).mp hgone) _ (Or.inr (Or.inr rfl))

theorem stores_start {files : FileSystem} (h : Fresh files q) :
    Stores { files := files } q {} where
  ready := h.ready
  wellFormed := Log.WellFormed.nil
  indices _ hk := nomatch hk
  named _ hg := nomatch hg
  live _ hg := nomatch hg
  dead _ hg := nomatch hg
  other f hf := Or.inr (h.noGroup f hf)
  tail _ hf := nomatch hf
  known _ _ hf := nomatch hf
  found _ hg := nomatch hg
  history _ _ _ := ⟨fun h => (nomatch h), fun ⟨_, hg, _⟩ => (nomatch hg)⟩

/-- Every queue has its log. -/
def Logs (files : FileSystem) (ds : Name → Ledger) (s : PersistenceServer) : Prop :=
  ∀ q, Fresh files q → ∃ l : DurableLog, Stores s q l ∧ l.entries = (ds q).published ∧
    l.consumed = (ds q).consumed

theorem step_logs {files : FileSystem} {ds : Name → Ledger} {a : Step} (h : Logs files ds s)
    (ha : Allows files ds a) :
    ∃ s', s.step a = some s' ∧ Logs files (fun q => (ds q).step q a) s' := by
  cases a with
  | publish r q k =>
    obtain ⟨hfresh, hk, hr, hlast⟩ := ha
    obtain ⟨l, hl, hentries, hconsumed⟩ := h q hfresh
    have hlast' : ∀ j ∈ l.keys, j < k := fun j hj => hlast j (by
      rw [Ledger.keys, ← hentries]
      exact hj)
    obtain ⟨s', l', hrun, hl', hentries', hconsumed', helse⟩ := hl.publish hk hlast' hr
    refine ⟨s', by rw [step, hrun]; rfl, fun q' hfresh' => ?_⟩
    dsimp only [Ledger.step]
    by_cases hq : q' = q
    · subst hq
      refine ⟨l', hl', ?_, ?_⟩
      · rw [if_pos rfl, hentries', hentries]
      · rw [if_pos rfl, hconsumed', hconsumed]
    · obtain ⟨l₁, hl₁, hrest⟩ := h q' hfresh'
      rw [if_neg (Ne.symm hq)]
      exact ⟨l₁, hl₁.elsewhere helse hq, hrest⟩
  | consume ipBuffer =>
    obtain ⟨q, hname, hfresh, hnew⟩ := ha
    obtain ⟨l, hl, hentries, hconsumed⟩ := h q hfresh
    have hkeys : l.keys = (ds q).keys := congrArg (List.map Prod.fst) hentries
    obtain ⟨ret, s', hrun, helse, hl'⟩ := hl.consume hname rfl (hconsumed ▸ hnew)
    refine ⟨s', by rw [step, hrun]; rfl, fun q' hfresh' => ?_⟩
    dsimp only [Ledger.step]
    by_cases hq : q' = q
    · subst hq
      refine ⟨_, hl', ?_, ?_⟩
      · split
        · split
          · exact hentries
          · exact hentries
        · split
          · exact hentries
          · exact hentries
      · by_cases hin : readInt ipBuffer maxNameLength ∈ l.keys
        · rw [if_pos hin, if_pos ⟨hname, hkeys ▸ hin⟩, ← hconsumed]
          rfl
        · rw [if_neg hin, if_neg fun hc => hin (hkeys ▸ hc.2)]
          exact hconsumed
    · obtain ⟨l₁, hl₁, hrest⟩ := h q' hfresh'
      rw [if_neg fun hc => hq (Option.some.inj (hc.1.symm.trans hname))]
      exact ⟨l₁, hl₁.elsewhere helse hq, hrest⟩
  | restart =>
    refine ⟨_, rfl, fun q hfresh => ?_⟩
    obtain ⟨l, hl, hrest⟩ := h q hfresh
    exact ⟨l, hl.restart, hrest⟩

theorem run_logs {files : FileSystem} {ds : Name → Ledger} {as : List Step}
    (h : Logs files ds s) (has : Admissible files ds as) :
    ∃ s', Runs.run step s as = some s' ∧
      Logs files (fun q => as.foldl (Ledger.step q) (ds q)) s' := by
  induction as generalizing s ds with
  | nil => exact ⟨s, rfl, h⟩
  | cons a as ih =>
    obtain ⟨s₁, hstep, h₁⟩ := step_logs h has.1
    obtain ⟨s', hrun, h'⟩ := ih h₁ has.2
    exact ⟨s', by rw [Runs.run, hstep, Option.bind_some, hrun], h'⟩

/-- Whatever is published, consumed and restarted, no call goes wrong, and the files of
every queue are the log of its calls. -/
theorem durable_store_refines_log {files : FileSystem} {as : List Step}
    (h : Admissible files (fun _ => {}) as) :
    ∃ s, Runs.run step { files := files } as = some s ∧
      ∀ q, Fresh files q → Refines s q (ledger q as) := by
  obtain ⟨s, hrun, hlogs⟩ := run_logs (fun q hq => ⟨{}, stores_start hq, rfl, rfl⟩) h
  refine ⟨s, hrun, fun q hq => ?_⟩
  obtain ⟨l, hl, hentries, hconsumed⟩ := hlogs q hq
  exact hl.refines hentries hconsumed

theorem Admissible.fresh {files : FileSystem} {ds : Name → Ledger} {as : List Step}
    (h : Admissible files ds as) {r : Bytes} (hin : .publish r q k ∈ as) : Fresh files q := by
  induction as generalizing ds with
  | nil => cases hin
  | cons a as ih =>
    rcases List.mem_cons.mp hin with rfl | hin
    · exact h.1.1
    · exact ih h.2 hin

theorem mem_published {as : List Step} {r : Bytes} (hin : .publish r q k ∈ as) (d : Ledger) :
    (k, r) ∈ (as.foldl (Ledger.step q) d).published := by
  have hkeep : ∀ (as : List Step) (d : Ledger), (k, r) ∈ d.published →
      (k, r) ∈ (as.foldl (Ledger.step q) d).published := by
    intro as
    induction as with
    | nil => exact fun _ h => h
    | cons a as ih =>
      intro d h
      refine ih _ ?_
      cases a with
      | publish r' n j =>
        rw [Ledger.step]
        split
        · exact List.mem_append_left _ h
        · exact h
      | consume ipBuffer =>
        rw [Ledger.step]
        split
        · exact h
        · exact h
      | restart => exact h
  induction as generalizing d with
  | nil => cases hin
  | cons a as ih =>
    rcases List.mem_cons.mp hin with rfl | hin
    · refine hkeep as _ ?_
      rw [Ledger.step, if_pos rfl]
      exact List.mem_append_right _ List.mem_cons_self
    · exact ih hin _

theorem of_mem_published {as : List Step} {r : Bytes} (hin : (k, r) ∈ (ledger q as).published) :
    .publish r q k ∈ as := by
  have hfrom : ∀ (as : List Step) (d : Ledger), (k, r) ∈ (as.foldl (Ledger.step q) d).published →
      (k, r) ∈ d.published ∨ .publish r q k ∈ as := by
    intro as
    induction as with
    | nil => exact fun _ h => Or.inl h
    | cons a as ih =>
      intro d h
      rcases ih _ h with h | h
      · cases a with
        | publish r' n j =>
          rw [Ledger.step] at h
          split at h
          · next hname =>
            rcases List.mem_append.mp h with h | h
            · exact Or.inl h
            · cases List.mem_singleton.mp h
              rw [hname]
              exact Or.inr List.mem_cons_self
          · exact Or.inl h
        | consume ipBuffer =>
          rw [Ledger.step] at h
          split at h
          · exact Or.inl h
          · exact Or.inl h
        | restart => exact Or.inl h
      · exact Or.inr (List.mem_cons_of_mem a h)
  exact (hfrom as {} hin).resolve_left fun h => nomatch h

/-- The base directory with the empty directory of one queue. -/
def oneQueue (q : Name) : FileSystem :=
  AList.insert (queueNode q) .dir (AList.insert baseNode .dir ∅)

theorem lookup_oneQueue (q f : Name) : (oneQueue q).lookup (fileNode q f) = none := by
  have hlen : ∀ n : Nat, n ≠ 3 → ∀ p : Path, p.comps.length = n → fileNode q f ≠ p := by
    rintro n hn p hp rfl
    exact hn hp.symm
  rw [oneQueue, AList.lookup_insert_ne (hlen 2 (by decide) (queueNode q) rfl),
    AList.lookup_insert_ne (hlen 1 (by decide) baseNode rfl)]
  rfl

theorem fresh_oneQueue {q : Name} (hq : Plain q) : Fresh (oneQueue q) q := by
  have hbase : baseNode ≠ queueNode q := by
    intro h
    have hlen : 1 = 2 := congrArg (fun p : Path => p.comps.length) h
    cases hlen
  refine ⟨⟨hq, Or.inr ?_, Or.inr (AList.lookup_insert _), ?_⟩, fun f hf => absurd ?_ hf⟩
  · rw [oneQueue, AList.lookup_insert_ne hbase, AList.lookup_insert]
  · rintro f (hnil | hdir)
    · exact Path.child_ne_nil _ _ hnil
    · rw [lookup_oneQueue] at hdir
      cases hdir
  · rw [bytesAt, lookup_oneQueue]

/-- Two messages are published, the first is consumed, and the process starts anew. -/
def someSteps : List Step :=
  [.publish [0, 2] [113] 7, .publish [0, 2] [113] 9,
    .consume (Mem.ofBytes (image [writeName [113], writeInt 7])), .restart]

theorem durable_store_refines_log_small :
    ∃ s, Runs.run step { files := oneQueue [113] } someSteps = some s ∧
      ∀ q, Fresh (oneQueue [113]) q → Refines s q (ledger q someSteps) := by
  have hfresh : Fresh (oneQueue [113]) [113] := fresh_oneQueue (by decide)
  have hfirst : IsIndex 7 := ⟨by decide, by decide⟩
  have hsecond : IsIndex 9 := ⟨by decide, by decide⟩
  refine durable_store_refines_log ⟨⟨hfresh, hfirst, by decide, fun _ hj => nomatch hj⟩,
    ⟨hfresh, hsecond, by decide, by decide⟩, ⟨[113], by decide, hfresh, by decide⟩, trivial, trivial⟩

end Wsmq.PersistenceServer
