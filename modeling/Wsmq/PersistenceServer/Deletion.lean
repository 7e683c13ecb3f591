import Wsmq.PersistenceServer.Merge
import Wsmq.PersistenceServer.Metadata

/-!
# When a group is deleted

`OnConsumeMessage` compares the number of records in `.consume` with the number of entries in
`.index`.  That says that all messages are consumed if no index is recorded twice.
-/

namespace Wsmq.PersistenceServer
open Lib Lib.ByteString Lib.Packing Lib.Files

/-! ## The files of a group -/

/-- The indices that are recorded in `.consume`. -/
def recordedKeys (files : FileSystem) (q f : Name) : List Int :=
  consumeIndexSet ((readFile files (groupPath q f extConsume)).getD [])

/-- The packet says that the index is consumed. -/
def Consumes (q : Name) (k : Int) : Step → Prop
  | .consume ipBuffer => readName ipBuffer 0 = some q ∧ readInt ipBuffer maxNameLength = k
  | _ => False

/-- If the step removes files of a group, all indices of the group are consumed. -/
def RemovesConsumed (s : PersistenceServer) (a : Step) : Prop :=
  ∀ s' q f ext, step s a = some s' → Plain q → IsFileName f → IsExt ext →
    readFile s.files (groupPath q f ext) ≠ none → readFile s'.files (groupPath q f ext) = none →
      ∀ k ∈ indexKeys s.files q f, k ∈ recordedKeys s.files q f ∨ Consumes q k a

/-- `OnPublishMessage` makes a new group. -/
def opensGroup (s : PersistenceServer) (ipBuffer : Bytes) (istrQueueName : Name) : Bool :=
  match s.msgQueueTailFile.lookup istrQueueName with
  | none => true
  | some strWriteFileName =>
    match readFile s.files (groupPath istrQueueName strWriteFileName extData) with
    | none => false
    | some data => data.length + ipBuffer.length > durableMessageFileSize

/-- The group that the record goes to. -/
def groupFor (s : PersistenceServer) (ipBuffer : Bytes) (istrQueueName : Name)
    (iDurableIndex : Int) : Name :=
  if s.opensGroup ipBuffer istrQueueName then convertIndexToString iDurableIndex
  else (s.msgQueueTailFile.lookup istrQueueName).getD []

/-- A consumed index is listed in its group, if the files of the group are there, and not yet
recorded.  A new group finds no old records. -/
def Unrepeated (s : PersistenceServer) : Step → Prop
  | .publish ipBuffer q k => s.opensGroup ipBuffer q →
      readFile s.files (groupPath q (convertIndexToString k) extIndex) = none →
        readFile s.files (groupPath q (convertIndexToString k) extConsume) = none
  | .consume ipBuffer => ∀ q ∈ readName ipBuffer 0,
      ∀ indexFiles ∈ s.msgQueueIndexFile.lookup q,
        ∀ f ∈ indexFiles.lookup (readInt ipBuffer maxNameLength),
          readFile s.files (groupPath q f extIndex) ≠ none →
            readInt ipBuffer maxNameLength ∈ indexKeys s.files q f ∧
              readInt ipBuffer maxNameLength ∉ recordedKeys s.files q f
  | .restart => True

instance (s : PersistenceServer) (a : Step) : Decidable (Unrepeated s a) := by
  cases a with
  | publish ipBuffer q k => exact inferInstanceAs (Decidable (_ → _ → _))
  | consume ipBuffer => exact inferInstanceAs (Decidable (∀ q ∈ readName ipBuffer 0, _))
  | restart => exact isTrue trivial

/-- Messages are published in queues, and consumed. -/
def Addressed : Step → Prop
  | .publish _ q _ => Plain q
  | .consume _ => True
  | .restart => False

instance : DecidablePred Addressed := fun a => by
  cases a with
  | publish ipBuffer q k => exact inferInstanceAs (Decidable (Plain q))
  | consume ipBuffer => exact isTrue trivial
  | restart => exact isFalse not_false

/-- Every index in `.consume` is there once, and listed in `.index`. -/
structure Tally (index consume : Bytes) : Prop where
  entries : 8 ∣ index.length
  records : 4 ∣ consume.length
  once : (consumeIndexSet consume).Nodup
  listed : consumeIndexSet consume ⊆ (indexEntries index).map Prod.fst

/-- The files of the group are there together, and tally. -/
structure Tallies (files : FileSystem) (q f : Name) : Prop where
  together : bytesAt files (fileNode q (f ++ extData)) ≠ none →
    bytesAt files (fileNode q (f ++ extIndex)) ≠ none
  tally : ∀ index, bytesAt files (fileNode q (f ++ extIndex)) = some index →
    Tally index ((bytesAt files (fileNode q (f ++ extConsume))).getD [])

section Tally

variable {index consume pTemp : Bytes}

theorem indexKeys_length {index : Bytes} (h : 8 ∣ index.length) :
    ((indexEntries index).map Prod.fst).length = index.length / 8 := by
  obtain ⟨n, hn⟩ := h
  rw [List.length_map, indexEntries_length hn, hn]
  omega

theorem consumeIndexSet_length {consume : Bytes} (h : 4 ∣ consume.length) :
    (consumeIndexSet consume).length = consume.length / 4 := by
  obtain ⟨n, hn⟩ := h
  rw [consumeIndexSet, List.length_map, List.length_range, hn]
  omega

/-- As many records as entries: every index is recorded. -/
theorem Tally.full (h : Tally index consume) (hfull : consume.length / 4 = index.length / 8) :
    ∀ k ∈ (indexEntries index).map Prod.fst, k ∈ consumeIndexSet consume := by
  intro k hk
  have hlen : ((indexEntries index).map Prod.fst).length ≤ (consumeIndexSet consume).length := by
    rw [indexKeys_length h.entries, consumeIndexSet_length h.records, hfull]
  exact ((List.subperm_of_subset h.once h.listed).perm_of_length_le hlen).mem_iff.mpr hk

theorem tally_nil (h : 8 ∣ index.length) : Tally index [] :=
  ⟨h, Nat.dvd_zero 4, List.nodup_nil, List.nil_subset _⟩

/-- Another entry. -/
theorem Tally.entry (h : Tally index consume) (k iWritePos : Int) :
    Tally (index ++ indexEntry k iWritePos) consume := by
  obtain ⟨n, hn⟩ := h.entries
  refine ⟨?_, h.records, h.once, ?_⟩
  · rw [List.length_append, indexEntry_length]
    exact Dvd.dvd.add h.entries (Nat.dvd_refl 8)
  · rw [indexEntries_snoc hn (indexEntry_length k iWritePos), List.map_append]
    exact fun j hj => List.mem_append_left _ (h.listed hj)

/-- Another record. -/
theorem Tally.record (h : Tally index consume) (hlen : pTemp.length = 4)
    (hlisted : readInt (Mem.ofBytes pTemp) 0 ∈ (indexEntries index).map Prod.fst)
    (hnew : readInt (Mem.ofBytes pTemp) 0 ∉ consumeIndexSet consume) :
    Tally index (consume ++ pTemp) := by
  obtain ⟨n, hn⟩ := h.records
  have hset := consumeIndexSet_snoc hn hlen
  refine ⟨h.entries, ?_, ?_, ?_⟩
  · rw [List.length_append, hlen]
    exact Dvd.dvd.add h.records (Nat.dvd_refl 4)
  · rw [hset]
    exact List.nodup_append'.mpr ⟨h.once, List.nodup_singleton _, fun j hj hj' =>
      hnew (List.mem_singleton.mp hj' ▸ hj)⟩
  · rw [hset]
    intro j hj
    rcases List.mem_append.mp hj with hj | hj
    · exact h.listed hj
    · rw [List.mem_singleton.mp hj]
      exact hlisted

end Tally

/-! ## Steps -/

/-- The files of all groups tally. -/
structure Counted (s : PersistenceServer) : Prop where
  orderly : Orderly s
  tallies : ∀ q f, Plain q → IsFileName f → Tallies s.files q f

section Steps

variable {s s' : PersistenceServer} {q f g : Name} {fs fs' : FileSystem} {pTemp : Bytes}

theorem Tallies.congr (h : Tallies fs q f) (hsame : ∀ ext, IsExt ext →
    bytesAt fs' (fileNode q (f ++ ext)) = bytesAt fs (fileNode q (f ++ ext))) :
    Tallies fs' q f := by
  have hdata := hsame extData (Or.inl rfl)
  have hindex := hsame extIndex (Or.inr (Or.inl rfl))
  have hconsume := hsame extConsume (Or.inr (Or.inr rfl))
  refine ⟨?_, ?_⟩
  · rw [hdata, hindex]
    exact h.together
  · rw [hindex, hconsume]
    exact h.tally

/-- Files of different groups are different. -/
theorem groupFile_inj {ext ext' : Bytes} (hext : IsExt ext) (hext' : IsExt ext')
    (h : f ++ ext = g ++ ext') : f = g ∧ ext = ext' := by
  have hlast : ∀ {e : Bytes} {x : Name}, IsExt e → (x ++ e).getLast? = e.getLast? := by
    intro e x he
    refine List.getLast?_append_of_ne_nil _ ?_
    rcases he with rfl | rfl | rfl <;> decide
  have hsame : ext.getLast? = ext'.getLast? := by rw [← hlast hext, h, hlast hext']
  have hext : ext = ext' := by
    rcases hext with rfl | rfl | rfl <;> rcases hext' with rfl | rfl | rfl <;>
      first | rfl | exact absurd hsame (by decide)
  subst hext
  exact ⟨List.append_cancel_right h, rfl⟩

/-- What happens in one queue does not matter for the groups of another. -/
theorem Tallies.elsewhere (h : Tallies fs q f) (hin : InQueue g fs fs') (hne : q ≠ g) :
    Tallies fs' q f := by
  refine h.congr fun ext _ => hin.other _ ?_
  intro f' hsame
  exact hne (fileNode_inj hsame).1

/-! ### Publishing -/

theorem Tallies.appended {r : Bytes} {k iWritePos : Int} (h : Tallies fs q f)
    (happended : Appended q f r k iWritePos fs fs')
    (hnew : bytesAt fs (fileNode q (f ++ extIndex)) = none →
      bytesAt fs (fileNode q (f ++ extConsume)) = none) : Tallies fs' q f := by
  have hconsume : bytesAt fs' (fileNode q (f ++ extConsume)) =
      bytesAt fs (fileNode q (f ++ extConsume)) := by
    refine happended.other _ ?_ ?_ (groupFile_ne (by decide) (Or.inr (Or.inr rfl)) f)
    · exact fun hsame => absurd (List.append_cancel_left hsame) (by decide)
    · exact fun hsame => absurd (List.append_cancel_left hsame) (by decide)
  refine ⟨?_, ?_⟩
  · intro _
    rw [happended.index]
    exact Option.some_ne_none _
  · intro index hindex
    rw [happended.index] at hindex
    cases hindex
    rw [hconsume]
    cases hold : bytesAt fs (fileNode q (f ++ extIndex)) with
    | none =>
      rw [hnew hold]
      refine tally_nil ?_
      rw [Option.getD_none, List.nil_append, indexEntry_length]
    | some index => exact (h.tally index hold).entry k iWritePos

/-- The record is in its group, and the group in the list if it is new. -/
structure Enters (q : Name) (r : Bytes) (k : Int) (s s' : PersistenceServer) : Prop where
  published : ∃ iWritePos, Published q (s.groupFor r q k) k r iWritePos s s'
  group : s.opensGroup r q ∧ s.groupFor r q k = convertIndexToString k ∧
      s'.msgQueueList = (s.pushFile q (convertIndexToString k)).msgQueueList ∨
    ¬ s.opensGroup r q ∧ s.msgQueueTailFile.lookup q = some (s.groupFor r q k) ∧
      s'.msgQueueList = s.msgQueueList

theorem onPublishMessage_enters (h : Orderly s) (hq : Plain q)
    (hdir : IsDir s.files (queueNode q)) {r : Bytes} {k : Int} {o : Int × PersistenceServer}
    (hrun : s.onPublishMessage r q k = some o) : Enters q r k s o.2 := by
  have hexists : fileExists s.files (queueDir q) = true :=
    (fileExists_dir_iff (k := .queue) h.tidy hq).mpr hdir
  have hready := h.tidy.ready hq hdir
  obtain ⟨s₁, hnew, hpublished, hlist⟩ :=
    createGroup_published (s := s) hready (stem_of_fileName (isFileName_convert k)) r
  have hopened : s.opensGroup r q = true → Enters q r k s s₁ := by
    intro hopens
    have hgroup : s.groupFor r q k = convertIndexToString k := if_pos hopens
    refine ⟨⟨0, ?_⟩, Or.inl ⟨hopens, hgroup, hlist⟩⟩
    rw [hgroup]
    exact hpublished
  rw [onPublishMessage, if_neg (not_not.mpr hexists)] at hrun
  dsimp only at hrun
  rw [hnew] at hrun
  cases htail : s.msgQueueTailFile.lookup q with
  | none =>
    rw [htail] at hrun
    cases hrun
    refine hopened ?_
    rw [opensGroup, htail]
  | some g =>
    rw [htail] at hrun
    obtain ⟨data, hdata, hrun⟩ := Option.map_eq_some_iff.mp hrun
    have hopens : s.opensGroup r q = decide (data.length + r.length > durableMessageFileSize) := by
      rw [opensGroup, htail]
      dsimp only
      rw [hdata]
    by_cases hfull : data.length + r.length > durableMessageFileSize
    · rw [if_pos hfull] at hrun
      cases hrun
      exact hopened (hopens.trans (decide_eq_true hfull))
    · rw [if_neg hfull] at hrun
      have hno : ¬ s.opensGroup r q = true := by
        rw [hopens]
        exact fun hyes => hfull (of_decide_eq_true hyes)
      have hgroup : s.groupFor r q k = g := by
        rw [groupFor, if_neg hno, htail, Option.getD_some]
      obtain ⟨s₂, hold, hpublished, hlist⟩ := insertIndex_published (s := s) hready
        (stem_of_fileName (h.sound.names.tail q g htail)) htail k r data.length
      rw [hold] at hrun
      rw [← hrun]
      refine ⟨⟨data.length, ?_⟩, Or.inr ⟨hno, ?_, hlist⟩⟩
      · rw [hgroup]
        exact hpublished
      · rw [hgroup]
        exact htail

theorem isFileName_groupFor (h : Orderly s) (r : Bytes) (k : Int)
    (hgroup : s.groupFor r q k = convertIndexToString k ∨
      s.msgQueueTailFile.lookup q = some (s.groupFor r q k)) : IsFileName (s.groupFor r q k) := by
  rcases hgroup with hnew | htail
  · rw [hnew]
    exact isFileName_convert k
  · exact h.sound.names.tail q _ htail

/-- A record goes to the group that is written, or to a new one. -/
theorem onPublishMessage_appended (h : Orderly s) (hq : Plain q) (r : Bytes) (k : Int)
    {o : Int × PersistenceServer} (hrun : s.onPublishMessage r q k = some o) :
    o.2.files = s.files ∨ ∃ f iWritePos, IsFileName f ∧
      Appended q f r k iWritePos s.files o.2.files ∧ Ready s.files q ∧
        (s.msgQueueTailFile.lookup q = some f ∨
          s.opensGroup r q ∧ f = convertIndexToString k) := by
  by_cases hdir : IsDir s.files (queueNode q)
  · obtain ⟨⟨iWritePos, hpublished⟩, hgroup⟩ := onPublishMessage_enters h hq hdir hrun
    have hname := isFileName_groupFor h r k (hgroup.imp (fun h => h.2.1) fun h => h.2.1)
    refine Or.inr ⟨_, iWritePos, hname, hpublished.files, h.tidy.ready hq hdir, ?_⟩
    rcases hgroup with ⟨hopens, hnew, -⟩ | ⟨-, htail, -⟩
    · exact Or.inr ⟨hopens, hnew⟩
    · exact Or.inl htail
  · have hiff : fileExists s.files (queueDir q) = true ↔ IsDir s.files (queueNode q) :=
      fileExists_dir_iff (k := .queue) h.tidy hq
    rw [onPublishMessage, if_pos fun hexists => hdir (hiff.mp hexists)] at hrun
    cases hrun
    exact Or.inl rfl

/-! ### Consuming -/

/-- The index is recorded, and the group removed if it then has as many records as entries. -/
structure Recorded (q f : Name) (pTemp : Bytes) (fs fs' : FileSystem) : Prop where
  inQueue : InQueue q fs fs'
  other : ∀ g, (∀ ext, IsExt ext → g ≠ f ++ ext) →
    bytesAt fs' (fileNode q g) = bytesAt fs (fileNode q g)
  group : ((∀ ext, IsExt ext → bytesAt fs' (fileNode q (f ++ ext)) = none) ∧
      ∃ index, bytesAt fs (fileNode q (f ++ extIndex)) = some index ∧
        ((bytesAt fs (fileNode q (f ++ extConsume))).getD [] ++ pTemp).length / 4 =
          index.length / 8) ∨
    bytesAt fs' (fileNode q (f ++ extConsume)) =
        some ((bytesAt fs (fileNode q (f ++ extConsume))).getD [] ++ pTemp) ∧
      ∀ ext, ext = extData ∨ ext = extIndex →
        bytesAt fs' (fileNode q (f ++ ext)) = bytesAt fs (fileNode q (f ++ ext))

theorem consumeIn_recorded (hready : Ready s.files q) (hf : IsFileName f) (k : Int)
    (pTemp : Bytes) : Recorded q f pTemp s.files (s.consumeIn q f k pTemp).2.files := by
  obtain ⟨files, hnoted, s₂, hs₂, hrun⟩ := consumeIn_cases hready hf k pTemp
  have hin : InQueue q s.files files := ⟨hnoted.inGroups.inDir.dirs, hnoted.inGroups.inDir.other⟩
  have hfiles : s₂.files = files := by rw [hs₂]
  rcases hrun with hrun | ⟨hrun, index, hindex, hfull⟩
  · rw [hrun, hfiles]
    refine ⟨hin, fun g hg => hnoted.other g (hg _ (Or.inr (Or.inr rfl))),
      Or.inr ⟨hnoted.consume, ?_⟩⟩
    rintro ext (rfl | rfl)
    · exact hnoted.other _ (ext_ne f (by decide))
    · exact hnoted.other _ (ext_ne f (by decide))
  · have hready₂ : Ready s₂.files q := hfiles ▸ hin.ready hready
    obtain ⟨hin', hgone, hother⟩ := dropGroup_ready hready₂ (stem_of_fileName hf)
    rw [hfiles] at hin' hother
    rw [hrun]
    refine ⟨hin.trans hin', fun g hg => ?_, Or.inl ⟨hgone, index, hindex, hfull⟩⟩
    exact (hother g hg).trans (hnoted.other g (hg _ (Or.inr (Or.inr rfl))))

theorem Recorded.other_group (h : Recorded q f pTemp fs fs') (hne : g ≠ f) {ext : Bytes}
    (hext : IsExt ext) :
    bytesAt fs' (fileNode q (g ++ ext)) = bytesAt fs (fileNode q (g ++ ext)) :=
  h.other _ fun _ hext' hsame => hne (groupFile_inj hext hext' hsame).1

/-- A listed index that is not yet recorded keeps the files in step. -/
theorem Tallies.recorded (h : Tallies fs q f) (hrecorded : Recorded q f pTemp fs fs')
    (hlen : pTemp.length = 4)
    (hguard : ∀ index, bytesAt fs (fileNode q (f ++ extIndex)) = some index →
      readInt (Mem.ofBytes pTemp) 0 ∈ (indexEntries index).map Prod.fst ∧
        readInt (Mem.ofBytes pTemp) 0 ∉
          consumeIndexSet ((bytesAt fs (fileNode q (f ++ extConsume))).getD [])) :
    Tallies fs' q f := by
  rcases hrecorded.group with ⟨hgone, -⟩ | ⟨hconsume, hsame⟩
  · refine ⟨fun hdata => absurd (hgone _ (Or.inl rfl)) hdata, ?_⟩
    intro index hindex
    rw [hgone _ (Or.inr (Or.inl rfl))] at hindex
    cases hindex
  · have hdata := hsame extData (Or.inl rfl)
    have hindex := hsame extIndex (Or.inr rfl)
    refine ⟨?_, ?_⟩
    · rw [hdata, hindex]
      exact h.together
    · intro index hold
      rw [hindex] at hold
      rw [hconsume, Option.getD_some]
      exact (h.tally index hold).record hlen (hguard index hold).1 (hguard index hold).2

/-! ### Runs -/

theorem Counted.readFile (h : Counted s) (hq : Plain q) (hf : IsFileName f) {ext : Bytes}
    (hext : IsExt ext) (hdir : IsDir s.files (queueNode q)) :
    readFile s.files (groupPath q f ext) = bytesAt s.files (fileNode q (f ++ ext)) :=
  readFile_ready (h.orderly.tidy.ready hq hdir) (plain_groupName hf hext)

theorem Counted.indexKeys (h : Counted s) (hq : Plain q) (hf : IsFileName f)
    (hdir : IsDir s.files (queueNode q)) {index : Bytes}
    (hindex : bytesAt s.files (fileNode q (f ++ extIndex)) = some index) :
    indexKeys s.files q f = (indexEntries index).map Prod.fst := by
  have hread := (h.readFile hq hf (Or.inr (Or.inl rfl)) hdir).trans hindex
  rw [PersistenceServer.indexKeys, hread]

theorem Counted.recordedKeys (h : Counted s) (hq : Plain q) (hf : IsFileName f)
    (hdir : IsDir s.files (queueNode q)) : recordedKeys s.files q f =
      consumeIndexSet ((bytesAt s.files (fileNode q (f ++ extConsume))).getD []) := by
  rw [PersistenceServer.recordedKeys, h.readFile hq hf (Or.inr (Or.inr rfl)) hdir]

theorem onConsumeMessage_recorded (h : Orderly s) {ipBuffer : Mem}
    {o : Int × PersistenceServer} (hrun : s.onConsumeMessage ipBuffer = some o) :
    o.2.files = s.files ∨ ∃ n f indexFiles, readName ipBuffer 0 = some n ∧
      s.msgQueueIndexFile.lookup n = some indexFiles ∧
      indexFiles.lookup (readInt ipBuffer maxNameLength) = some f ∧ Plain n ∧ IsFileName f ∧
      IsDir s.files (queueNode n) ∧
      Recorded n f (ipBuffer.read maxNameLength 4) s.files o.2.files := by
  rcases onConsumeMessage_cases h hrun with hsame |
    ⟨n, f, m, hname, hm, hf, hn, hfile, hdir, rfl⟩
  · exact Or.inl (by rw [hsame])
  · exact Or.inr ⟨n, f, m, hname, hm, hf, hn, hfile, hdir,
      consumeIn_recorded (h.tidy.ready hn hdir) hfile _ _⟩

/-- Publishing keeps the files of all groups in step. -/
theorem Counted.publish (h : Counted s) {r : Bytes} {k : Int} (hq : Plain q)
    (hguard : Unrepeated s (.publish r q k)) {o : Int × PersistenceServer}
    (hrun : s.onPublishMessage r q k = some o) : Counted o.2 := by
  have horderly : Orderly o.2 := by
    obtain ⟨o', hrun', hobeys⟩ := onPublishMessage_obeys h.orderly hq r k
    cases hrun.symm.trans hrun'
    exact hobeys.orderly
  refine ⟨horderly, fun p g hp hg => ?_⟩
  have hold := h.tallies p g hp hg
  rcases onPublishMessage_appended h.orderly hq r k hrun with hsame |
    ⟨f, iWritePos, hf, happended, hready, hgroup⟩
  · rw [hsame]
    exact hold
  by_cases hpq : p = q
  swap
  · exact hold.elsewhere happended.inQueue hpq
  subst hpq
  by_cases hgf : g = f
  swap
  · refine hold.congr fun ext hext => happended.other _ ?_ ?_ (groupFile_ne (by decide) hext g)
    · exact fun hsame => hgf (groupFile_inj hext (Or.inl rfl) hsame).1
    · exact fun hsame => hgf (groupFile_inj hext (Or.inr (Or.inl rfl)) hsame).1
  subst hgf
  refine hold.appended happended fun hnone => ?_
  rcases hgroup with htail | ⟨hopens, rfl⟩
  · -- The group that is written has a data file, so it has an index.
    obtain ⟨_, F, hF, hsome⟩ := h.orderly.tail p g htail
    have hdata : bytesAt s.files (fileNode p (g ++ extData)) ≠ none := by
      rw [← folderAt_some hF] at hsome
      exact Option.isSome_iff_ne_none.mp hsome
    exact absurd hnone (hold.together hdata)
  · have hindex := h.readFile hp hg (Or.inr (Or.inl rfl)) hready.queue
    have hconsume := h.readFile hp hg (Or.inr (Or.inr rfl)) hready.queue
    exact hconsume.symm.trans (hguard hopens (hindex.trans hnone))

/-- What the condition says about the group in which an index is recorded. -/
theorem Counted.unrepeated (h : Counted s) {ipBuffer : Mem}
    (hguard : Unrepeated s (.consume ipBuffer)) (hname : readName ipBuffer 0 = some q)
    {indexFiles : AList fun _ : Int => Name}
    (hq : s.msgQueueIndexFile.lookup q = some indexFiles)
    (hf : indexFiles.lookup (readInt ipBuffer maxNameLength) = some f) (hplain : Plain q)
    (hfile : IsFileName f) (hdir : IsDir s.files (queueNode q)) {index : Bytes}
    (hindex : bytesAt s.files (fileNode q (f ++ extIndex)) = some index) :
    readInt ipBuffer maxNameLength ∈ (indexEntries index).map Prod.fst ∧
      readInt ipBuffer maxNameLength ∉
        consumeIndexSet ((bytesAt s.files (fileNode q (f ++ extConsume))).getD []) := by
  have hthere : Files.readFile s.files (groupPath q f extIndex) ≠ none := by
    rw [h.readFile hplain hfile (Or.inr (Or.inl rfl)) hdir, hindex]
    exact Option.some_ne_none _
  have hfresh := hguard q hname indexFiles hq f hf hthere
  rw [h.indexKeys hplain hfile hdir hindex, h.recordedKeys hplain hfile hdir] at hfresh
  exact hfresh

/-- Consuming keeps the files of all groups in step. -/
theorem Counted.consume (h : Counted s) {ipBuffer : Mem}
    (hguard : Unrepeated s (.consume ipBuffer)) {o : Int × PersistenceServer}
    (hrun : s.onConsumeMessage ipBuffer = some o) : Counted o.2 := by
  refine ⟨(onConsumeMessage_obeys h.orderly hrun).orderly, fun p g hp hg => ?_⟩
  have hold := h.tallies p g hp hg
  rcases onConsumeMessage_recorded h.orderly hrun with hsame |
    ⟨n, f, indexFiles, hname, hm, hf, hn, hfile, hdir, hrecorded⟩
  · rw [hsame]
    exact hold
  by_cases hpn : p = n
  swap
  · exact hold.elsewhere hrecorded.inQueue hpn
  subst hpn
  by_cases hgf : g = f
  swap
  · exact hold.congr fun ext hext => hrecorded.other_group hgf hext
  subst hgf
  refine hold.recorded hrecorded (Mem.read_length _ _ _) fun index hindex => ?_
  rw [readInt_copy]
  exact h.unrepeated hguard hname hm hf hn hfile hdir hindex

theorem step_counted {a : Step} (h : Counted s) (ha : Addressed a) (hguard : Unrepeated s a)
    (hrun : step s a = some s') : Counted s' := by
  cases a with
  | publish r q k =>
    obtain ⟨o, ho, rfl⟩ := Option.map_eq_some_iff.mp hrun
    exact h.publish ha hguard ho
  | consume ipBuffer =>
    obtain ⟨o, ho, rfl⟩ := Option.map_eq_some_iff.mp hrun
    exact h.consume hguard ho
  | restart => exact absurd ha not_false

/-- No file goes away. -/
theorem Appended.keeps {r : Bytes} {k iWritePos : Int}
    (h : Appended q f r k iWritePos fs fs') {p : Path} (hp : bytesAt fs p ≠ none) :
    bytesAt fs' p ≠ none := by
  by_cases hin : ∃ g, p = fileNode q g
  swap
  · rw [h.inQueue.other p fun g hg => hin ⟨g, hg⟩]
    exact hp
  obtain ⟨g, rfl⟩ := hin
  by_cases hdata : g = f ++ extData
  · rw [hdata, h.data]
    exact Option.some_ne_none _
  by_cases hindex : g = f ++ extIndex
  · rw [hindex, h.index]
    exact Option.some_ne_none _
  by_cases hoffset : g = offsetFile
  · rw [hoffset, h.offset]
    exact Option.some_ne_none _
  rw [h.other g hdata hindex hoffset]
  exact hp

/-- As long as the files tally, a group whose files go is consumed. -/
theorem step_removesConsumed {a : Step} (h : Counted s) (ha : Addressed a)
    (hguard : Unrepeated s a) : RemovesConsumed s a := by
  intro s' q f ext hrun hq hf hext hthere hgone k hk
  cases a with
  | restart => exact absurd ha not_false
  | publish r n i =>
    obtain ⟨o, ho, rfl⟩ := Option.map_eq_some_iff.mp hrun
    rcases onPublishMessage_appended h.orderly ha r i ho with hsame | ⟨_, _, _, happended, _⟩
    · rw [hsame] at hgone
      exact absurd hgone hthere
    · rw [Files.readFile, ← resolve_congr happended.inQueue.dirs] at hgone
      obtain ⟨bytes, hbytes⟩ := Option.ne_none_iff_exists'.mp hthere
      obtain ⟨p, hp, hbytes⟩ := Option.bind_eq_some_iff.mp hbytes
      rw [hp, Option.bind_some] at hgone
      exact absurd hgone (happended.keeps (hbytes ▸ Option.some_ne_none _))
  | consume ipBuffer =>
    obtain ⟨o, ho, rfl⟩ := Option.map_eq_some_iff.mp hrun
    rcases onConsumeMessage_recorded h.orderly ho with hsame |
      ⟨n, g, indexFiles, hname, hm, hg, hn, hfile, hdir, hrecorded⟩
    · rw [hsame] at hgone
      exact absurd hgone hthere
    rw [Files.readFile, ← resolve_congr hrecorded.inQueue.dirs] at hgone
    obtain ⟨bytes, hbytes⟩ := Option.ne_none_iff_exists'.mp hthere
    obtain ⟨p, hp, hbytes⟩ := Option.bind_eq_some_iff.mp hbytes
    rw [hp, Option.bind_some] at hgone
    obtain ⟨hqdir, rfl⟩ := resolve_file_some hq (plain_groupName hf hext) hp
    have hchanged : bytesAt o.2.files (fileNode q (f ++ ext)) ≠
        bytesAt s.files (fileNode q (f ++ ext)) := by
      rw [hgone, hbytes]
      exact (Option.some_ne_none _).symm
    have hqn : q = n := by
      by_contra hne
      exact hchanged (hrecorded.inQueue.other _ fun g hsame => hne (fileNode_inj hsame).1)
    subst hqn
    have hfg : f = g := by
      by_contra hne
      exact hchanged (hrecorded.other_group hne hext)
    subst hfg
    rcases hrecorded.group with ⟨_, index, hindex, hfull⟩ | ⟨hconsume, hsame⟩
    · have hfresh := h.unrepeated hguard hname hm hg hn hfile hdir hindex
      rw [← readInt_copy] at hfresh
      have htally := ((h.tallies q f hq hf).tally index hindex).record (Mem.read_length _ _ _)
        hfresh.1 hfresh.2
      rw [h.indexKeys hq hf hdir hindex] at hk
      have hin := htally.full hfull k hk
      obtain ⟨m, hm⟩ := ((h.tallies q f hq hf).tally index hindex).records
      rw [consumeIndexSet_snoc hm (Mem.read_length _ _ _), readInt_copy] at hin
      rcases List.mem_append.mp hin with hin | hin
      · refine Or.inl ?_
        rw [h.recordedKeys hq hf hdir]
        exact hin
      · exact Or.inr ⟨hname, (List.mem_singleton.mp hin).symm⟩
    · rcases hext with rfl | rfl | rfl
      · exact absurd (hsame _ (Or.inl rfl)) hchanged
      · exact absurd (hsame _ (Or.inr rfl)) hchanged
      · rw [hgone] at hconsume
        cases hconsume

/-- Packets that record no index twice: a group goes only when all its messages are consumed,
and the files tally wherever the run leads. -/
theorem removesConsumed_of_unrepeated {as : List Step} (hs : Counted s)
    (has : ∀ a ∈ as, Addressed a) (hguard : Runs.AllSteps step Unrepeated s as) :
    Runs.AllSteps step RemovesConsumed s as ∧ ∀ t, Runs.run step s as = some t → Counted t := by
  induction as generalizing s with
  | nil =>
    refine ⟨trivial, fun t ht => ?_⟩
    cases ht
    exact hs
  | cons a as ih =>
    have ha := has a List.mem_cons_self
    have hnext : ∀ t, step s a = some t → Counted t := fun t ht =>
      step_counted hs ha hguard.1 ht
    have hrest : ∀ t (ht : step s a = some t), _ := fun t ht =>
      ih (hnext t ht) (fun b hb => has b (List.mem_cons_of_mem a hb)) (hguard.2 t ht)
    refine ⟨⟨step_removesConsumed hs ha hguard.1, fun t ht => (hrest t ht).1⟩, fun t ht => ?_⟩
    obtain ⟨r, hr, hrun⟩ := Runs.run_cons_some ht
    exact (hrest r hr).2 t hrun

end Steps

/-! ## One queue -/

section Start

variable {q : Name} {p : Path}

theorem bytesAt_oneQueue (q : Name) (p : Path) : bytesAt (oneQueue q) p = none := by
  rw [bytesAt]
  cases hlookup : (oneQueue q).lookup p with
  | none => rfl
  | some node =>
    rcases AssocTables.lookup_insert_some hlookup with ⟨_, rfl⟩ | ⟨_, hlookup⟩
    · rfl
    · rcases AssocTables.lookup_insert_some hlookup with ⟨_, rfl⟩ | ⟨_, hlookup⟩
      · rfl
      · cases hlookup

theorem isDir_oneQueue (h : IsDir (oneQueue q) p) :
    p.comps = [] ∨ p = baseNode ∨ p = queueNode q := by
  rcases h with hroot | hlookup
  · exact Or.inl hroot
  · rcases AssocTables.lookup_insert_some hlookup with ⟨rfl, _⟩ | ⟨_, hlookup⟩
    · exact Or.inr (Or.inr rfl)
    · rcases AssocTables.lookup_insert_some hlookup with ⟨rfl, _⟩ | ⟨_, hlookup⟩
      · exact Or.inr (Or.inl rfl)
      · cases hlookup

theorem tidy_oneQueue (q : Name) : Tidy (oneQueue q) := by
  refine ⟨fun k => bytesAt_oneQueue q _, fun k n => ⟨bytesAt_oneQueue q _, fun f hdir => ?_,
    fun _ f => bytesAt_oneQueue q _⟩, fun k n hdir => ?_⟩
  · rcases isDir_oneQueue hdir with hroot | hbase | hqueue
    · exact Path.child_ne_nil _ _ hroot
    · exact file_ne_base k .queue n f hbase
    · exact file_ne_dir k .queue n q f hqueue
  · rcases isDir_oneQueue hdir with hroot | hbase | hqueue
    · exact absurd hroot (Path.child_ne_nil _ _)
    · exact absurd hbase (child_ne_base k .queue n)
    · have hpair : (k, n) = (Kind.queue, q) := child_base_inj hqueue
      obtain ⟨rfl, rfl⟩ := Prod.mk.inj hpair
      refine Or.inr ?_
      have hne : baseNode ≠ queueNode n := fun h => child_ne_base .queue .queue n h.symm
      show (oneQueue n).lookup baseNode = some .dir
      rw [oneQueue, AList.lookup_insert_ne hne, AList.lookup_insert]

theorem proper_oneQueue (hq : Plain q) : Proper (oneQueue q) := by
  intro p hp c hc
  obtain ⟨node, hlookup⟩ := Option.ne_none_iff_exists'.mp hp
  rcases AssocTables.lookup_insert_some hlookup with ⟨rfl, _⟩ | ⟨_, hlookup⟩
  · rcases List.mem_cons.mp hc with rfl | hc
    · decide
    · rw [List.mem_singleton.mp hc]
      exact hq
  · rcases AssocTables.lookup_insert_some hlookup with ⟨rfl, _⟩ | ⟨_, hlookup⟩
    · rw [List.mem_singleton.mp hc]
      decide
    · cases hlookup

theorem orderly_start {files : FileSystem} (hproper : Proper files) (htidy : Tidy files) :
    Orderly { files := files } :=
  ⟨sound_start hproper [], htidy, fun _ _ h => (nomatch h), fun _ _ h => (nomatch h)⟩

/-- Before anything is published. -/
theorem counted_of_noGroups {s : PersistenceServer} (h : Orderly s)
    (hnone : ∀ q f ext, Plain q → IsFileName f → IsExt ext →
      bytesAt s.files (fileNode q (f ++ ext)) = none) : Counted s := by
  refine ⟨h, fun q f hq hf => ⟨fun hdata => ?_, fun index hindex => ?_⟩⟩
  · exact absurd (hnone q f _ hq hf (Or.inl rfl)) hdata
  · rw [hnone q f _ hq hf (Or.inr (Or.inl rfl))] at hindex
    cases hindex

theorem counted_oneQueue (hq : Plain q) : Counted { files := oneQueue q } :=
  counted_of_noGroups (orderly_start (proper_oneQueue hq) (tidy_oneQueue q))
    fun _ _ _ _ _ _ => bytesAt_oneQueue q _

end Start

section Runs

/-- Two messages, of which the second is consumed before the first. -/
def bothConsumed : List Step :=
  [publishEmpty 0, publishEmpty 1, consumeEmpty 1, consumeEmpty 0]

theorem removesConsumed_both :
    Runs.AllSteps step RemovesConsumed { files := oneQueue [113] } bothConsumed :=
  (removesConsumed_of_unrepeated (counted_oneQueue (by decide)) (by decide)
    (by decide +kernel)).1

/-- The second packet for index 0 is what a logic server sends that restarted too early. -/
theorem repeated_consume_removes :
    ¬ Runs.AllSteps step RemovesConsumed { files := oneQueue [113] }
      ([publishEmpty 0, publishEmpty 1, consumeEmpty 0] ++ [consumeEmpty 0]) := by
  intro h
  let g := convertIndexToString 0
  have hcheck : (Runs.run step { files := oneQueue [113] }
      [publishEmpty 0, publishEmpty 1, consumeEmpty 0]).bind (fun s =>
        (step s (consumeEmpty 0)).map fun s' => decide (
          readFile s.files (groupPath [113] g extData) ≠ none ∧
          readFile s'.files (groupPath [113] g extData) = none ∧
          1 ∈ indexKeys s.files [113] g ∧ 1 ∉ recordedKeys s.files [113] g)) = some true := by
    decide +kernel
  obtain ⟨s, hs, hcheck⟩ := Option.bind_eq_some_iff.mp hcheck
  obtain ⟨s', hs', hcheck⟩ := Option.map_eq_some_iff.mp hcheck
  obtain ⟨hthere, hgone, hin, hnot⟩ := of_decide_eq_true hcheck
  have hlast := (Runs.allSteps_append h hs).2.1
  rcases hlast s' [113] g extData hs' (by decide) (isFileName_convert 0) (Or.inl rfl) hthere hgone
    1 hin with hrecorded | ⟨_, hindex⟩
  · exact hnot hrecorded
  · exact absurd hindex (by decide +kernel)

end Runs

end Wsmq.PersistenceServer
