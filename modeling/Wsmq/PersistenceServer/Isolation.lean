import Wsmq.PersistenceServer.GroupNames
import Wsmq.PersistenceServer.Packets

/-!
# What the handling of a packet changes on disk

Names go into paths as they are.  Whatever the name, changes are confined to the directory
that its path leads to; only a plain name leads to a directory of its own.
-/

namespace Wsmq
open Lib Lib.ByteString Lib.Packing Lib.Files Lib.Decimal

namespace PersistenceServer

/-- What a packet is about. -/
inductive Kind
  | exchange
  | queue
  deriving DecidableEq

def Kind.dir : Kind → Name → Bytes
  | exchange => exchangeDir
  | queue => queueDir

def packetKind (iCmdId : Nat) : Kind :=
  if iCmdId = cmdCreateExcnange ∨ iCmdId = cmdDeleteExchange ∨ iCmdId = cmdCreateBinding then
    Kind.exchange
  else Kind.queue

/-- An exchange or a queue under a name that requests can carry. -/
structure Entity where
  kind : Kind
  name : Name
  zero : 0 ∉ name
  short : name.length < maxNameLength

namespace Entity

def dir (e : Entity) : Bytes := e.kind.dir e.name

/-- The directory that the name leads to. -/
def node (e : Entity) : Path := target e.dir

end Entity

def Addresses (pBuff : Bytes) (e : Entity) : Prop :=
  packetKind (packetCmd pBuff) = e.kind ∧ readName (packetBody pBuff) 0 = some e.name

def exchangeBase : Path := Path.cwd.child (ascii "exchange")

/-- In the directory of another of the entities, or in neither base directory. -/
def Foreign (others : Entity → Prop) (e : Entity) (p : Path) : Prop :=
  (∃ e', others e' ∧ e' ≠ e ∧ Within e'.node p) ∨
    (¬ Within baseNode p ∧ ¬ Within exchangeBase p)

/-- Whatever is on disk and whatever happened before, a packet for `e` changes no file of the
others and none outside. -/
def Isolated (others : Entity → Prop) (e : Entity) : Prop :=
  ∀ files as s pBuff s' p, Proper files → acts { files := files } as = some s →
    Addresses pBuff e → s.processPacket pBuff = some s' → Foreign others e p →
      bytesAt s'.files p = bytesAt s.files p

/-- A name that a group of files may have. -/
def IsFileName (f : Name) : Prop := slash ∉ f ∧ 0 ∉ f

/-- The names in the tables are names of files. -/
structure Names (s : PersistenceServer) : Prop where
  tail : ∀ n f, s.msgQueueTailFile.lookup n = some f → IsFileName f
  index : ∀ n m i f, s.msgQueueIndexFile.lookup n = some m → m.lookup i = some f → IsFileName f

structure Sound (s : PersistenceServer) : Prop where
  files : Proper s.files
  names : Names s

/-- Of the files, those in the directory change only. -/
structure Changes (dir : Bytes) (s s' : PersistenceServer) : Prop where
  edits : Edits (Within (target dir)) s.files s'.files
  names : Names s'

variable {s s' : PersistenceServer} {dir : Bytes} {n : Name}

theorem Changes.sound (h : Changes dir s s') (hs : Sound s) : Sound s' :=
  ⟨h.edits.proper hs.files, h.names⟩

/-! ## Tables -/

namespace Names

theorem congr (h : Names s) (htail : s'.msgQueueTailFile = s.msgQueueTailFile)
    (hindex : s'.msgQueueIndexFile = s.msgQueueIndexFile) : Names s' :=
  ⟨fun n f hf => h.tail n f (htail ▸ hf), fun n m i f hm => h.index n m i f (hindex ▸ hm)⟩

theorem eraseTail (h : Names s) (n : Name) :
    Names { s with msgQueueTailFile := s.msgQueueTailFile.erase n } := by
  refine ⟨fun n' f hf => ?_, h.index⟩
  by_cases hn : n' = n
  · subst hn
    rw [AList.lookup_erase] at hf
    cases hf
  · exact h.tail n' f ((AList.lookup_erase_ne hn).symm.trans hf)

theorem insertTail (h : Names s) (n : Name) {f : Name} (hf : IsFileName f) :
    Names { s with msgQueueTailFile := s.msgQueueTailFile.insert n f } := by
  refine ⟨fun n' f' hf' => ?_, h.index⟩
  by_cases hn : n' = n
  · subst hn
    cases (AList.lookup_insert _).symm.trans hf'
    exact hf
  · exact h.tail n' f' ((AList.lookup_insert_ne hn).symm.trans hf')

theorem insertIndex (h : Names s) (n : Name) (iIndex : Int) {f : Name} (hf : IsFileName f) :
    Names (s.insertIndex n iIndex f) := by
  refine ⟨h.tail, fun n' m i f' hm hf' => ?_⟩
  by_cases hn : n' = n
  · subst hn
    cases (AList.lookup_insert _).symm.trans hm
    have hold : ∀ i f', ((s.msgQueueIndexFile.lookup n').getD ∅).lookup i = some f' →
        IsFileName f' := by
      intro i f' hlookup
      cases hm' : s.msgQueueIndexFile.lookup n' with
      | none =>
        rw [hm'] at hlookup
        cases hlookup
      | some m =>
        rw [hm'] at hlookup
        exact h.index n' m i f' hm' hlookup
    unfold insertNew at hf'
    split at hf'
    · exact hold i f' hf'
    · by_cases hi : i = iIndex
      · subst hi
        cases (AList.lookup_insert _).symm.trans hf'
        exact hf
      · exact hold i f' ((AList.lookup_insert_ne hi).symm.trans hf')
  · exact h.index n' m i f' ((AList.lookup_insert_ne hn).symm.trans hm) hf'

theorem createGroup (h : Names s) (n : Name) {iDurableIndex : Int}
    (hf : IsFileName (convertIndexToString iDurableIndex)) :
    Names (s.createGroup n iDurableIndex) :=
  ((h.insertTail n hf).insertIndex n iDurableIndex hf).congr rfl rfl

theorem appendRecord (h : Names s) (ipBuffer : Bytes) (n f : Name) (iDurableIndex iWritePos : Int) :
    Names (s.appendRecord ipBuffer n iDurableIndex f iWritePos).2 := by
  unfold PersistenceServer.appendRecord
  dsimp only
  split
  · exact h.congr rfl rfl
  · exact h.congr rfl rfl

theorem dropGroup (h : Names s) (n f : Name) : Names (s.dropGroup n f) := by
  unfold PersistenceServer.dropGroup
  split
  · exact (h.eraseTail n).congr rfl rfl
  · exact h.congr rfl rfl

theorem consumeIn (h : Names s) (n f : Name) (iIndex : Int) (pTemp : Bytes) :
    Names (s.consumeIn n f iIndex pTemp).2 := by
  unfold PersistenceServer.consumeIn
  dsimp only
  split
  · exact h
  · split
    · split
      · refine dropGroup ?_ n f
        exact h.congr rfl rfl
      · exact h.congr rfl rfl
    · exact h.congr rfl rfl

theorem writeFile (h : Names s) (dir : Bytes) (f : Name) (bytes : Bytes) :
    Names (s.writeFile dir f bytes).2 := by
  unfold PersistenceServer.writeFile
  split
  · exact h
  · exact h.congr rfl rfl

end Names

/-! ## Files in a directory -/

theorem target_file {f : Name} (hf : Plain f) (dir : Bytes) :
    target (dir ++ slash :: f) = (target dir).child f := target_child hf dir

theorem within_file {f : Name} (hf : Plain f) (dir : Bytes) :
    Within (target dir) (target (dir ++ slash :: f)) := by
  rw [target_file hf]
  exact within_child _ _

theorem zero_file {f : Name} (hdir : 0 ∉ dir) (hf : Plain f) : 0 ∉ dir ++ slash :: f := by
  intro h
  rcases List.mem_append.mp h with h | h
  · exact hdir h
  · rcases List.mem_cons.mp h with h | h
    · exact absurd h (by decide)
    · exact hf.2.2.2.2 h

theorem plain_groupName {f ext : Bytes} (hf : IsFileName f) (hext : IsExt ext) :
    Plain (f ++ ext) := plain_append_ext hf.1 hf.2 hext

theorem plain_offset : Plain (ascii "write_offset.bin") := by decide

theorem openFile_file {f : Name} {files : FileSystem} {truncate : Bool} (hdir : 0 ∉ dir)
    (hf : Plain f) (h : openFile s.files (dir ++ slash :: f) truncate = some files) :
    Edits (Within (target dir)) s.files files :=
  openFile_edits (zero_file hdir hf) (within_file hf dir) h

theorem appendFile_file {f : Name} (hdir : 0 ∉ dir) (hf : Plain f) (fs : FileSystem)
    (bytes : Bytes) : Edits (Within (target dir)) fs (appendFile fs (dir ++ slash :: f) bytes) :=
  appendFile_edits fs (zero_file hdir hf) (within_file hf dir) bytes

theorem removeFile_file {f : Name} (hf : Plain f) (dir : Bytes) (fs : FileSystem) :
    Edits (Within (target dir)) fs (removeFile fs (dir ++ slash :: f)) :=
  (removeFile_prunes fs _).edits.mono fun _ hq => (within_file hf dir).trans hq

/-! ## Directories -/

theorem writeFile_edits {f : Name} (hdir : 0 ∉ dir) (hf : Plain f) (bytes : Bytes) :
    Edits (Within (target dir)) s.files (s.writeFile dir f bytes).2.files := by
  unfold writeFile
  split
  · exact Edits.refl _ _
  · next files hfiles =>
    exact (openFile_file hdir hf hfiles).trans (appendFile_file hdir hf files bytes)

theorem createInfo_changes (hs : Sound s) (hdir : 0 ∉ dir) (bytes : Bytes) :
    Changes dir s (s.createInfo dir bytes).2 := by
  have hinfo : Plain infoFile := by decide
  unfold createInfo
  dsimp only
  split
  · exact ⟨writeFile_edits hdir hinfo bytes, hs.names.writeFile _ _ _⟩
  · have hmade := makeDir_edits (Within (target dir)) s.files hdir
    have hnames : Names { s with files := makeDir s.files dir } := hs.names.congr rfl rfl
    refine ⟨hmade.trans ?_, hnames.writeFile _ _ _⟩
    exact writeFile_edits (s := { s with files := makeDir s.files dir }) hdir hinfo bytes

theorem rewrite_changes {f : Name} (hs : Sound s) (hdir : 0 ∉ dir) (hf : Plain f)
    (bytes : Bytes) : Changes dir s (s.rewrite dir f bytes).2 := by
  unfold rewrite
  split
  · exact ⟨Edits.refl _ _, hs.names⟩
  · exact ⟨writeFile_edits hdir hf bytes, hs.names.writeFile _ _ _⟩

theorem removeInfo_changes (hs : Sound s) (dir : Bytes) : Changes dir s (s.removeInfo dir) := by
  unfold removeInfo
  split
  · exact ⟨(removeDir_prunes hs.files dir).edits, hs.names.congr rfl rfl⟩
  · exact ⟨Edits.refl _ _, hs.names⟩

/-! ## Groups of messages -/

theorem tryOpen_edits {P : Path → Prop} {fs : FileSystem} {path : Bytes} (hzero : 0 ∉ path)
    (hP : P (target path)) (truncate : Bool) : Edits P fs (tryOpen fs path truncate).2 := by
  unfold tryOpen
  split
  · exact Edits.refl P fs
  · next files hfiles => exact openFile_edits hzero hP hfiles

theorem appendRecord_edits {f : Name} (hdir : 0 ∉ queueDir n) (hf : IsFileName f)
    (ipBuffer : Bytes) (iDurableIndex iWritePos : Int) :
    Edits (Within (target (queueDir n))) s.files
      (s.appendRecord ipBuffer n iDurableIndex f iWritePos).2.files := by
  have hdata : Plain (f ++ extData) := plain_groupName hf (Or.inl rfl)
  have hindex : Plain (f ++ extIndex) := plain_groupName hf (Or.inr (Or.inl rfl))
  have hopened : Edits (Within (target (queueDir n))) s.files
      (tryOpen (tryOpen (tryOpen s.files (groupPath n f extData) false).2
        (groupPath n f extIndex) false).2 (offsetPath n) true).2 :=
    ((tryOpen_edits (zero_file hdir hdata) (within_file hdata _) false).trans
      (tryOpen_edits (zero_file hdir hindex) (within_file hindex _) false)).trans
        (tryOpen_edits (zero_file hdir plain_offset) (within_file plain_offset _) true)
  unfold appendRecord
  dsimp only
  split
  · exact hopened
  · exact ((hopened.trans (appendFile_file hdir hdata _ _)).trans
      (appendFile_file hdir hindex _ _)).trans (appendFile_file hdir plain_offset _ _)

theorem not_mem_toString {b : UInt8} (hdigit : ¬ IsDigit b) (hminus : b ≠ 45) (v : Int) :
    b ∉ toString v := by
  have hdigits : ∀ n, b ∉ decimalNat n := fun n hb => hdigit (decimalNat_digits n b hb)
  unfold toString
  split
  · intro hb
    rcases List.mem_append.mp hb with hb | hb
    · exact hminus (List.mem_singleton.mp hb)
    · exact hdigits _ hb
  · exact hdigits _

theorem isFileName_convert (iIndex : Int) : IsFileName (convertIndexToString iIndex) := by
  have hother : ∀ b, ¬ IsDigit b → b ≠ 45 → b ∉ convertIndexToString iIndex := by
    intro b hdigit hminus hb
    rcases List.mem_append.mp hb with hb | hb
    · rw [List.eq_of_mem_replicate hb] at hdigit
      exact hdigit ⟨by decide, by decide⟩
    · exact not_mem_toString hdigit hminus iIndex hb
  exact ⟨hother _ (by rintro ⟨h, _⟩; revert h; decide) (by decide),
    hother _ (by rintro ⟨h, _⟩; revert h; decide) (by decide)⟩

theorem onPublishMessage_changes {r : Int × PersistenceServer} (hs : Sound s)
    (hdir : 0 ∉ queueDir n) {ipBuffer : Bytes} {iDurableIndex : Int}
    (h : s.onPublishMessage ipBuffer n iDurableIndex = some r) : Changes (queueDir n) s r.2 := by
  have hname := isFileName_convert iDurableIndex
  have hnew : Changes (queueDir n) s ((s.createGroup n iDurableIndex).appendRecord
      ipBuffer n iDurableIndex (convertIndexToString iDurableIndex) 0).2 :=
    ⟨appendRecord_edits (s := s.createGroup n iDurableIndex) hdir hname _ _ _,
      (hs.names.createGroup n hname).appendRecord _ _ _ _ _⟩
  simp only [onPublishMessage] at h
  split at h
  · cases h
    exact ⟨Edits.refl _ _, hs.names⟩
  · split at h
    · cases h
      exact hnew
    · next f hf =>
      have hf := hs.names.tail n f hf
      obtain ⟨data, _, rfl⟩ := Option.map_eq_some_iff.mp h
      split
      · exact hnew
      · exact ⟨appendRecord_edits (s := s.insertIndex n iDurableIndex f) hdir hf _ _ _,
          (hs.names.insertIndex n iDurableIndex hf).appendRecord _ _ _ _ _⟩

theorem dropGroup_edits {f : Name} (hf : IsFileName f) :
    Edits (Within (target (queueDir n))) s.files (s.dropGroup n f).files :=
  ((removeFile_file (plain_groupName hf (Or.inl rfl)) _ _).trans
    (removeFile_file (plain_groupName hf (Or.inr (Or.inl rfl))) _ _)).trans
      (removeFile_file (plain_groupName hf (Or.inr (Or.inr rfl))) _ _)

theorem consumeIn_edits {f : Name} (hdir : 0 ∉ queueDir n) (hf : IsFileName f) (iIndex : Int)
    (pTemp : Bytes) :
    Edits (Within (target (queueDir n))) s.files (s.consumeIn n f iIndex pTemp).2.files := by
  have hconsume : Plain (f ++ extConsume) := plain_groupName hf (Or.inr (Or.inr rfl))
  unfold consumeIn
  dsimp only
  split
  · exact Edits.refl _ _
  · next files hfiles =>
    have hwritten := (openFile_file hdir hconsume hfiles).trans
      (appendFile_file hdir hconsume files pTemp)
    split
    · split
      · exact hwritten.trans (dropGroup_edits hf)
      · exact hwritten
    · exact hwritten

theorem onConsumeMessage_changes {r : Int × PersistenceServer} {ipBuffer : Mem} (hs : Sound s)
    (hdir : 0 ∉ queueDir n) (hn : readName ipBuffer 0 = some n)
    (h : s.onConsumeMessage ipBuffer = some r) : Changes (queueDir n) s r.2 := by
  have hsame : Changes (queueDir n) s s := ⟨Edits.refl _ _, hs.names⟩
  rw [onConsumeMessage, hn] at h
  cases h
  dsimp only
  split
  · exact hsame
  · split
    · exact hsame
    · next m hm =>
      split
      · exact hsame
      · next f hf =>
        exact ⟨consumeIn_edits hdir (hs.names.index n m _ f hm hf) _ _,
          hs.names.consumeIn _ _ _ _⟩

/-! ## A packet -/

theorem zero_dir (k : Kind) (hn : 0 ∉ n) : 0 ∉ k.dir n := by
  cases k with
  | exchange =>
    intro h
    rcases List.mem_append.mp h with h | h
    · exact absurd h (by decide)
    · exact hn h
  | queue =>
    intro h
    rcases List.mem_append.mp h with h | h
    · exact absurd h (by decide)
    · exact hn h

theorem readName_packetBody (pBuff : Bytes) :
    readName (packetBody pBuff) 0 = readName (Mem.ofBytes pBuff) 4 := by
  simp only [readName, packetBody, shift, Mem.read, Nat.zero_add]

/-- A packet without a name that ends is not handled, or not looked at. -/
theorem dispatch_changes {r : Int × PersistenceServer} {pBuff : Bytes} (hs : Sound s)
    (h : s.dispatch pBuff = some r) :
    r.2 = s ∨ ∃ n, readName (packetBody pBuff) 0 = some n ∧
      Changes ((packetKind (packetCmd pBuff)).dir n) s r.2 := by
  cases hn : readName (packetBody pBuff) 0 with
  | none =>
    left
    simp only [dispatch, onCreateExchange, onCreateQueue, onDeleteExchange, onDeleteQueue,
      onSubcribe, onBinding, processPublish, onConsumeMessage, ← readName_packetBody, hn,
      Option.map_none, Option.bind_none] at h
    split_ifs at h
    cases h
    rfl
  | some n =>
    right
    refine ⟨n, rfl, ?_⟩
    have hzero := cstr_no_zero hn
    have hex := zero_dir Kind.exchange hzero
    have hq := zero_dir Kind.queue hzero
    simp only [dispatch, onCreateExchange, onCreateQueue, onDeleteExchange, onDeleteQueue,
      onSubcribe, onBinding, processPublish, ← readName_packetBody, hn,
      Option.map_some, Option.bind_some] at h
    split_ifs at h with h₁ h₂ h₃ h₄ h₅ h₆ h₇ h₈
    · rw [h₁]
      cases h
      exact createInfo_changes hs hex _
    · rw [h₂]
      cases h
      exact createInfo_changes hs hq _
    · rw [h₃]
      cases h
      exact removeInfo_changes hs _
    · rw [h₄]
      cases h
      have hremoved := removeInfo_changes hs (queueDir n)
      exact ⟨hremoved.edits, hremoved.names.eraseTail n⟩
    · cases h
      have hrewritten := rewrite_changes (f := subscribeFile) hs hq (by decide)
        ((packetBody pBuff).read 0 (pBuff.length - 4))
      rcases h₅ with h₅ | h₅
      · rw [h₅]
        exact hrewritten
      · rw [h₅]
        exact hrewritten
    · rw [h₆]
      cases h
      exact rewrite_changes hs hex (by decide) _
    · rw [h₇]
      exact onPublishMessage_changes hs hq h
    · have hconsumed := onConsumeMessage_changes hs hq hn h
      rcases h₈ with h₈ | h₈ | h₈
      · rw [h₈]
        exact hconsumed
      · rw [h₈]
        exact hconsumed
      · rw [h₈]
        exact hconsumed
    · cases h
      exact ⟨Edits.refl _ _, hs.names⟩

theorem processPacket_changes {pBuff : Bytes} (hs : Sound s)
    (h : s.processPacket pBuff = some s') :
    s' = s ∨ ∃ n, readName (packetBody pBuff) 0 = some n ∧
      Changes ((packetKind (packetCmd pBuff)).dir n) s s' := by
  unfold processPacket at h
  split at h
  · exact Or.inl (Option.some.inj h).symm
  · split at h
    · exact Or.inl (Option.some.inj h).symm
    · obtain ⟨r, hr, rfl⟩ := Option.map_eq_some_iff.mp h
      exact dispatch_changes hs hr

/-! ## Runs -/

/-- What stands before a pattern is a part of the text. -/
theorem mem_beforeFirst {pat f bs : Bytes} (h : beforeFirst pat bs = some f) : ∀ b ∈ f, b ∈ bs := by
  induction bs generalizing f with
  | nil =>
    rw [beforeFirst] at h
    split at h
    · cases h
      exact fun b hb => hb
    · cases h
  | cons c cs ih =>
    rw [beforeFirst] at h
    split at h
    · cases h
      intro b hb
      cases hb
    · obtain ⟨g, hg, rfl⟩ := Option.map_eq_some_iff.mp h
      intro b hb
      rcases List.mem_cons.mp hb with rfl | hb
      · exact List.mem_cons_self
      · exact List.mem_cons_of_mem c (ih hg b hb)

theorem isFileName_of_find {fs : FileSystem} (hfs : Proper fs) {path : Bytes} {f : Name}
    (h : f ∈ findIndexFiles fs path) : IsFileName f := by
  obtain ⟨⟨name, node⟩, hentry, hf⟩ := List.mem_filterMap.mp h
  cases hdir : readDir fs path with
  | none =>
    rw [hdir] at hentry
    cases hentry
  | some entries =>
    rw [hdir] at hentry
    have hplain := plain_of_readDir hfs hdir name (List.mem_map_of_mem hentry)
    cases node with
    | dir => cases hf
    | file bytes =>
      have hmem := mem_beforeFirst hf
      exact ⟨fun hb => hplain.2.2.2.1 (hmem _ hb), fun hb => hplain.2.2.2.2 (hmem _ hb)⟩

theorem processIndexFile_sound (hs : Sound s) (n : Name) {f : Name} (hf : IsFileName f) :
    Sound (s.processIndexFile n f) := by
  have hfold : ∀ (es : List (Int × Int)) (s : PersistenceServer), Sound s →
      Sound (es.foldl (fun s e => s.insertIndex n e.1 f) s) := by
    intro es
    induction es with
    | nil => exact fun _ hs => hs
    | cons e es ih => exact fun s hs => ih _ ⟨hs.files, hs.names.insertIndex n e.1 hf⟩
  unfold processIndexFile
  split
  · exact hs
  · exact hfold _ s hs

theorem initQueueDir_sound (hs : Sound s) (n : Name) : Sound (s.initQueueDir n) := by
  have hfold : ∀ (fs : List Name) (s : PersistenceServer), Sound s → (∀ f ∈ fs, IsFileName f) →
      Sound (fs.foldl (fun s f => (s.processIndexFile n f).pushFile n f) s) := by
    intro fs
    induction fs with
    | nil => exact fun _ hs _ => hs
    | cons f fs ih =>
      intro s hs hfs
      have hnext := processIndexFile_sound hs n (hfs f List.mem_cons_self)
      exact ih _ ⟨hnext.files, hnext.names.congr rfl rfl⟩
        fun g hg => hfs g (List.mem_cons_of_mem f hg)
  refine hfold _ s hs fun f hf => ?_
  exact isFileName_of_find hs.files ((List.perm_insertionSort _ _).mem_iff.mp hf)

theorem sound_start {files : FileSystem} (hfiles : Proper files) (history : List PersisEvent) :
    Sound { files := files, history := history } :=
  ⟨hfiles, fun _ _ h => (nomatch h), fun _ _ _ _ h => (nomatch h)⟩

theorem restart_sound (hs : Sound s) : Sound s.restart := by
  have hfold : ∀ (names : List Name) (s : PersistenceServer), Sound s →
      Sound (names.foldl initQueueDir s) := by
    intro names
    induction names with
    | nil => exact fun _ hs => hs
    | cons n names ih => exact fun s hs => ih _ (initQueueDir_sound hs n)
  exact hfold _ _ (sound_start hs.files s.history)

theorem act_sound {a : Act} (hs : Sound s) (h : s.act a = some s') : Sound s' := by
  cases a with
  | packet pBuff =>
    rcases processPacket_changes hs h with rfl | ⟨n, _, hchanges⟩
    · exact hs
    · exact hchanges.sound hs
  | restart =>
    cases h
    exact restart_sound hs

theorem acts_sound {files : FileSystem} (hfiles : Proper files) {as : List Act}
    (h : acts { files := files } as = some s) : Sound s :=
  Runs.invariant_of_step (fun _ _ _ hs hstep => act_sound hs hstep) (sound_start hfiles []) h

/-! ## Isolation -/

/-- Neither directory is in the other. -/
def Apart (p q : Path) : Prop := ¬ Within p q ∧ ¬ Within q p

theorem not_apart {p q r : Path} (h : Within p r) (h' : Within q r) : ¬ Apart p q := by
  rintro ⟨hpq, hqp⟩
  have hups : q.ups = p.ups := h'.1.symm.trans h.1
  rcases List.prefix_or_prefix_of_prefix h.2 h'.2 with hpre | hpre
  · exact hpq ⟨hups, hpre⟩
  · exact hqp ⟨hups.symm, hpre⟩

theorem addressed_changes {e : Entity} {pBuff : Bytes} (hs : Sound s) (haddr : Addresses pBuff e)
    (h : s.processPacket pBuff = some s') {p : Path} (hp : ¬ Within e.node p) :
    bytesAt s'.files p = bytesAt s.files p := by
  rcases processPacket_changes hs h with rfl | ⟨n, hn, hchanges⟩
  · rfl
  · rw [haddr.1] at hchanges
    cases haddr.2.symm.trans hn
    exact hchanges.edits.bytesAt_eq hp

def deleteCmd : Kind → Nat
  | .exchange => cmdDeleteExchange
  | .queue => cmdDeleteQueue

def deletePacket (e : Entity) : Bytes :=
  image [writeUShort 36, writeUShort (deleteCmd e.kind), writeName e.name]

theorem fits_deletePacket (e : Entity) :
    ∀ f ∈ [writeUShort 36, writeUShort (deleteCmd e.kind), writeName e.name], f.Fits := by
  intro f hf
  simp only [List.mem_cons, List.not_mem_nil, or_false] at hf
  rcases hf with rfl | rfl | rfl
  · exact (be_length _ _).le
  · exact (be_length _ _).le
  · exact e.short.le

theorem addresses_deletePacket (e : Entity) :
    packetCmd (deletePacket e) = deleteCmd e.kind ∧ Addresses (deletePacket e) e := by
  have hfits := fits_deletePacket e
  have hholds : Holds (Mem.ofBytes (deletePacket e)) 0 (deletePacket e) := holds_ofBytes _
  have hcmd : packetCmd (deletePacket e) = deleteCmd e.kind :=
    readUShort_field [writeUShort 36] hholds hfits (by cases e.kind <;> decide)
  refine ⟨hcmd, ?_, ?_⟩
  · rw [hcmd]
    cases e.kind with
    | exchange => rfl
    | queue => rfl
  · rw [readName_packetBody]
    exact readName_field [writeUShort 36, writeUShort (deleteCmd e.kind)] hholds hfits e.zero
      e.short

theorem processPacket_delete (e : Entity) (files : FileSystem) :
    ∃ s', ({ files := files } : PersistenceServer).processPacket (deletePacket e) = some s' ∧
      s'.files = (removeInfo { files := files } e.dir).files := by
  obtain ⟨hcmd, _, hname⟩ := addresses_deletePacket e
  have hlen : (deletePacket e).length = 36 := image_length (fits_deletePacket e)
  have hhead : readUShort (Mem.ofBytes (deletePacket e)) 0 = 36 :=
    readUShort_field [] (holds_ofBytes _) (fits_deletePacket e) (by decide)
  rw [processPacket, hlen, if_neg (by decide), hhead, if_neg (not_not.mpr rfl)]
  cases hkind : e.kind with
  | exchange =>
    rw [hkind] at hcmd
    refine ⟨removeInfo { files := files } e.dir, ?_, rfl⟩
    simp only [dispatch, hcmd, deleteCmd, onDeleteExchange, hname, Entity.dir, hkind, Kind.dir]
    rfl
  | queue =>
    rw [hkind] at hcmd
    refine ⟨{ removeInfo { files := files } e.dir with
      msgQueueTailFile := (removeInfo { files := files } e.dir).msgQueueTailFile.erase e.name },
      ?_, rfl⟩
    simp only [dispatch, hcmd, deleteCmd, onDeleteQueue, hname, Entity.dir, hkind, Kind.dir]
    rfl

/-- Below the directory that a name leads to, nothing is safe from the deletion. -/
theorem delete_reaches {e : Entity} {p : Path} (hp : Within e.node p)
    (hplain : ∀ c ∈ p.comps, Plain c) :
    ∃ files s', Proper files ∧
      ({ files := files } : PersistenceServer).processPacket (deletePacket e) = some s' ∧
        bytesAt s'.files (p.child (longName e.dir)) ≠ bytesAt files (p.child (longName e.dir)) := by
  obtain ⟨hups, cs, hcs⟩ := hp
  have hdescend : p = descend e.node cs := by
    rw [descend, hcs, ← hups]
  have hbelow : ∀ c ∈ cs, Plain c := fun c hc => hplain c (hcs ▸ List.mem_append_right _ hc)
  have hzero : 0 ∉ e.dir := zero_dir e.kind e.zero
  obtain ⟨files, hfiles, hexists, hbefore, hafter⟩ := removeDir_reaches hzero hbelow
  obtain ⟨s', hs', hfiles'⟩ := processPacket_delete e files
  refine ⟨files, s', hfiles, hs', ?_⟩
  rw [hfiles', removeInfo, if_pos hexists, hdescend]
  intro hsame
  have hnone := hbefore.symm.trans (hsame.symm.trans hafter)
  cases hnone

/-- Packets for `e` leave the others alone exactly when the directory of `e` is below a base
directory and in no other's directory nor the other way round. -/
theorem isolated_iff (others : Entity → Prop) (e : Entity) :
    Isolated others e ↔
      (Within baseNode e.node ∨ Within exchangeBase e.node) ∧
        ∀ e', others e' → e' ≠ e → Apart e.node e'.node := by
  constructor
  · intro h
    have hsafe : ∀ p, Within e.node p → (∀ c ∈ p.comps, Plain c) →
        ¬ Foreign others e (p.child (longName e.dir)) := by
      intro p hp hplain hforeign
      obtain ⟨files, s', hfiles, hs', hchanged⟩ := delete_reaches hp hplain
      exact hchanged (h files [] _ _ s' _ hfiles rfl (addresses_deletePacket e).2 hs' hforeign)
    have hnode : ∀ e : Entity, ∀ c ∈ e.node.comps, Plain c :=
      fun e => plain_target (zero_dir e.kind e.zero)
    constructor
    · by_contra houtside
      obtain ⟨hqueue, hexchange⟩ := not_or.mp houtside
      have hlong : ∀ b, b ≠ 97 → b ∉ longName e.dir := fun b hb h =>
        hb (List.eq_of_mem_replicate h)
      have hout : ∀ base : Bytes, (∃ b ∈ base, b ≠ 97) → ¬ Within (Path.cwd.child base) e.node →
          ¬ Within (Path.cwd.child base) (e.node.child (longName e.dir)) := by
        rintro base ⟨b, hb, hne⟩ hnode hin
        rcases within_child_iff.mp hin with hin | hsame
        · exact hnode hin
        · exact hlong b hne ((Path.child_inj hsame).2 ▸ hb)
      exact hsafe e.node (Within.refl _) (hnode e)
        (Or.inr ⟨hout _ ⟨113, by decide⟩ hqueue, hout _ ⟨101, by decide⟩ hexchange⟩)
    · intro e' hother hne
      constructor
      · intro hin
        exact hsafe e'.node hin (hnode e') (Or.inl ⟨e', hother, hne, within_child _ _⟩)
      · intro hin
        exact hsafe e.node (Within.refl _) (hnode e)
          (Or.inl ⟨e', hother, hne, hin.trans (within_child _ _)⟩)
  · rintro ⟨hbase, hapart⟩ files as s pBuff s' p hfiles has haddr hs' hforeign
    refine addressed_changes (acts_sound hfiles has) haddr hs' fun hin => ?_
    rcases hforeign with ⟨e', hother, hne, hin'⟩ | ⟨hqueue, hexchange⟩
    · exact not_apart hin hin' (hapart e' hother hne)
    · rcases hbase with hbase | hbase
      · exact hqueue (hbase.trans hin)
      · exact hexchange (hbase.trans hin)

def Kind.base : Kind → Path
  | .exchange => exchangeBase
  | .queue => baseNode

/-- A plain name leads to a directory of its own. -/
theorem node_plain {e : Entity} (h : Plain e.name) : e.node = e.kind.base.child e.name := by
  have hbase : ∀ base : Bytes, Plain base →
      target (46 :: slash :: (base ++ slash :: e.name)) =
        ((Path.cwd.child base).child e.name) := by
    intro base hplain
    have hdot : target [46] = Path.cwd := by decide
    have hstart : target (46 :: slash :: base) = Path.cwd.child base := by
      rw [← hdot]
      exact target_child hplain [46]
    rw [← hstart]
    exact target_child h (46 :: slash :: base)
  unfold Entity.node Entity.dir
  cases e.kind with
  | exchange => exact hbase (ascii "exchange") (by decide)
  | queue => exact hbase (ascii "queue") (by decide)

theorem Kind.base_inj {k k' : Kind} (h : k.base = k'.base) : k = k' := by
  cases k with
  | exchange =>
    cases k' with
    | exchange => rfl
    | queue => exact absurd h (by decide)
  | queue =>
    cases k' with
    | exchange => exact absurd h (by decide)
    | queue => rfl

theorem within_plain {e e' : Entity} (he : Plain e.name) (he' : Plain e'.name)
    (h : Within e.node e'.node) : e' = e := by
  have hlen : ∀ (k : Kind) (n : Name), (k.base.child n).comps.length = 2 :=
    fun k _ => by cases k <;> rfl
  rw [node_plain he, node_plain he'] at h
  obtain ⟨hbase, hname⟩ := Path.child_inj (h.eq_of_length ((hlen _ _).trans (hlen _ _).symm))
  have hkind := Kind.base_inj hbase
  obtain ⟨k, n, _, _⟩ := e
  obtain ⟨k', n', _, _⟩ := e'
  obtain rfl : k = k' := hkind
  obtain rfl : n = n' := hname
  rfl

/-- Among entities with plain names every one has its files for itself. -/
theorem apart_of_plain {others : Entity → Prop} {e : Entity} (he : Plain e.name)
    (hothers : ∀ e', others e' → Plain e'.name) :
    (Within baseNode e.node ∨ Within exchangeBase e.node) ∧
      ∀ e', others e' → e' ≠ e → Apart e.node e'.node := by
  constructor
  · rw [node_plain he]
    cases e.kind with
    | exchange => exact Or.inr (within_child _ _)
    | queue => exact Or.inl (within_child _ _)
  · intro e' hother hne
    have he' := hothers e' hother
    exact ⟨fun h => hne (within_plain he he' h), fun h => hne (within_plain he' he h).symm⟩

/-- A queue whose name leads to the working directory of the server. -/
def parentQueue : Entity := ⟨.queue, [46, 46], by decide, by decide⟩

theorem delete_parent_removes_conf : ¬ ∀ e, Isolated (fun _ => True) e := by
  intro h
  let conf := Path.cwd.child (ascii "mq.conf")
  let files : FileSystem := AList.insert conf (.file [1]) (AList.insert baseNode .dir ∅)
  have hbase : Proper (withDirs [baseNode]) := proper_withDirs (by decide)
  have hfiles : Proper files := hbase.insert (by decide) _
  have hrun : (({ files := files } : PersistenceServer).processPacket
      (deletePacket parentQueue)).map (fun s => bytesAt s.files conf) = some none := by
    decide +kernel
  obtain ⟨s', hs', hgone⟩ := Option.map_eq_some_iff.mp hrun
  have hforeign : Foreign (fun _ => True) parentQueue conf := by
    refine Or.inr ⟨?_, ?_⟩
    · rintro ⟨_, hpre⟩
      exact absurd hpre (by decide)
    · rintro ⟨_, hpre⟩
      exact absurd hpre (by decide)
  have hkept := h parentQueue files [] _ _ s' conf hfiles rfl
    (addresses_deletePacket parentQueue).2 hs' hforeign
  have hnone := hkept.symm.trans hgone
  cases hnone

end PersistenceServer

end Wsmq
