import Mathlib.Logic.Function.Basic
import Wsmq.Lib.Folders
import Wsmq.PersistenceServer.GroupFiles
import Wsmq.PersistenceServer.Isolation

/-!
# The directories of exchanges and queues

Under plain names each exchange and each queue has a directory of its own, with files only.
What a handler does is then a change of one such directory.
-/

namespace Wsmq.PersistenceServer
open Lib Lib.ByteString Lib.Packing Lib.Files

/-- The directories by kind and name. -/
abbrev Disk := Kind × Name → Option Folder

def disk (fs : FileSystem) : Disk := fun e => folderAt fs (e.1.base.child e.2)

/-- Files of exchanges and queues stand where the server puts them. -/
structure Tidy (fs : FileSystem) : Prop where
  base : ∀ k : Kind, bytesAt fs k.base = none
  flat : ∀ (k : Kind) n, Flat fs (k.base.child n)
  parent : ∀ (k : Kind) n, IsDir fs (k.base.child n) → IsDir fs k.base

variable {fs fs' : FileSystem} {s s' : PersistenceServer} {k : Kind} {n f : Name}

theorem child_base_inj {k k' : Kind} {n n' : Name} (h : k.base.child n = k'.base.child n') :
    (k, n) = (k', n') := by
  obtain ⟨hbase, rfl⟩ := Path.child_inj h
  rw [Kind.base_inj hbase]

theorem child_ne_base (k k' : Kind) (n : Name) : k.base.child n ≠ k'.base := by
  intro h
  have hlen := congrArg (fun p : Path => p.comps.length) h
  cases k <;> cases k' <;> simp [Kind.base, baseNode, exchangeBase, Path.child, Path.cwd] at hlen

theorem file_ne_dir (k k' : Kind) (n n' f : Name) :
    (k.base.child n).child f ≠ k'.base.child n' := by
  intro h
  have hlen := congrArg (fun p : Path => p.comps.length) h
  cases k <;> cases k' <;> simp [Kind.base, baseNode, exchangeBase, Path.child, Path.cwd] at hlen

theorem file_ne_base (k k' : Kind) (n f : Name) : (k.base.child n).child f ≠ k'.base := by
  intro h
  have hlen := congrArg (fun p : Path => p.comps.length) h
  cases k <;> cases k' <;> simp [Kind.base, baseNode, exchangeBase, Path.child, Path.cwd] at hlen

/-! ## Paths -/

/-- The name of the base directory. -/
def Kind.word : Kind → Bytes
  | .exchange => ascii "exchange"
  | .queue => ascii "queue"

theorem Kind.plain_word (k : Kind) : Plain k.word := by cases k <;> decide

theorem Kind.base_eq (k : Kind) : k.base = Path.cwd.child k.word := by cases k <;> rfl

theorem Kind.dir_eq (k : Kind) (n : Name) : k.dir n = inBase k.word n := by
  cases k with
  | exchange => rfl
  | queue => rfl

theorem resolve_dir (hn : Plain n) (h : IsDir fs k.base) :
    resolve fs (k.dir n) = some (k.base.child n) := by
  rw [Kind.base_eq] at h ⊢
  rw [Kind.dir_eq]
  exact resolve_inBase k.plain_word hn h

/-- The path of the base directory, with a slash at its end. -/
def Kind.path : Kind → Bytes
  | .exchange => defaultExchangePath
  | .queue => defaultQueuePath

theorem Kind.path_eq (k : Kind) : k.path = (46 :: slash :: k.word) ++ [slash] := by
  cases k with
  | exchange => rfl
  | queue => rfl

theorem resolve_path (h : IsDir fs k.base) : resolve fs k.path = some k.base := by
  rw [Kind.path_eq]
  rw [Kind.base_eq] at h ⊢
  exact resolve_slash (resolve_base_dir fs k.plain_word) h

theorem resolve_path_of_not_isDir (h : ¬ IsDir fs k.base) : resolve fs k.path = none := by
  have hbase := resolve_base_dir fs k.plain_word
  rw [resolve] at hbase
  rw [Kind.base_eq] at h
  rw [Kind.path_eq, resolve, List.splitOn_append_cons_self, walk_append, hbase, List.splitOn_nil,
    Option.bind_some, walk, if_neg h]

/-- The directories below a base directory. -/
def subDirs (fs : FileSystem) (k : Kind) : List Name :=
  ((readDir fs k.path).getD []).filterMap fun entry =>
    match entry.2 with
    | .dir => some entry.1
    | .file _ => none

theorem readDir_path (h : IsDir fs k.base) : readDir fs k.path = some (children fs k.base) := by
  rw [readDir, resolve_path h, Option.bind_some, if_pos h]

theorem subDirs_of_not_isDir (h : ¬ IsDir fs k.base) : subDirs fs k = [] := by
  rw [subDirs, readDir, resolve_path_of_not_isDir h]
  rfl

theorem mem_subDirs : n ∈ subDirs fs k ↔ IsDir fs k.base ∧ IsDir fs (k.base.child n) := by
  by_cases h : IsDir fs k.base
  swap
  · rw [subDirs_of_not_isDir h]
    exact iff_of_false List.not_mem_nil fun hdirs => h hdirs.1
  have hlookup : fs.lookup (k.base.child n) = some .dir ↔ IsDir fs (k.base.child n) :=
    (or_iff_right (Path.child_ne_nil _ _)).symm
  rw [subDirs, readDir_path h, Option.getD_some, List.mem_filterMap, ← hlookup, and_iff_right h]
  constructor
  · rintro ⟨⟨m, node⟩, hin, heq⟩
    cases node with
    | dir =>
      cases heq
      exact mem_children.mp hin
    | file bytes => cases heq
  · intro hdir
    exact ⟨(n, .dir), mem_children.mpr hdir, rfl⟩

theorem plain_of_subDirs {fs : FileSystem} {k : Kind} (hfs : Proper fs) (hn : n ∈ subDirs fs k) :
    Plain n := by
  have hdir := (mem_subDirs.mp hn).2
  have hin : fs.lookup (k.base.child n) ≠ none := by
    rcases hdir with hroot | hdir
    · exact absurd hroot (Path.child_ne_nil _ _)
    · exact Option.ne_none_iff_exists'.mpr ⟨_, hdir⟩
  exact hfs _ hin n (List.mem_append_right _ List.mem_cons_self)

theorem nodup_subDirs (fs : FileSystem) (k : Kind) : (subDirs fs k).Nodup := by
  by_cases h : IsDir fs k.base
  swap
  · rw [subDirs_of_not_isDir h]
    exact List.nodup_nil
  rw [subDirs, readDir_path h, Option.getD_some]
  refine List.Pairwise.filterMap _ ?_ (List.pairwise_map.mp (nodup_children fs k.base))
  rintro ⟨m, x⟩ ⟨n, y⟩ hne a ha b hb
  cases x <;> cases ha
  cases y <;> cases hb
  exact hne

theorem resolve_in_dir (hn : Plain n) (hf : Plain f) (h : IsDir fs k.base)
    (hdir : IsDir fs (k.base.child n)) :
    resolve fs (k.dir n ++ slash :: f) = some ((k.base.child n).child f) :=
  resolve_child (resolve_dir hn h) hdir hf

theorem fileExists_dir_iff (ht : Tidy fs) (hn : Plain n) :
    fileExists fs (k.dir n) = true ↔ IsDir fs (k.base.child n) := by
  have hnode := (ht.flat k n).notFile
  by_cases hbase : IsDir fs k.base
  · rw [fileExists, resolve_dir hn hbase]
    constructor
    · intro h
      rcases of_decide_eq_true h with hdir | hsome
      · exact hdir
      · by_contra hno
        rw [lookup_eq_none hno hnode] at hsome
        cases hsome
    · exact fun h => decide_eq_true (Or.inl h)
  · refine iff_of_false ?_ fun h => hbase (ht.parent k n h)
    have hnone : resolve fs (k.dir n) = none := by
      rw [resolve, Kind.dir_eq, inBase, ← List.singleton_append,
        List.splitOn_append_cons_self_of_not_mem (by decide), splitOn_plain_cons k.plain_word,
        splitOn_plain hn]
      rw [Kind.base_eq] at hbase
      simp [walk, isDir_cwd, enter_dot, enter_plain k.plain_word, hbase]
    rw [fileExists, hnone]
    exact Bool.false_ne_true

theorem disk_isSome_iff : (disk fs (k, n)).isSome ↔ IsDir fs (k.base.child n) := by
  unfold disk folderAt
  split
  · next h => exact iff_of_true rfl h
  · next h => exact iff_of_false (by simp) h

theorem disk_eq_none_iff : disk fs (k, n) = none ↔ ¬ IsDir fs (k.base.child n) := by
  rw [← disk_isSome_iff, Option.not_isSome_iff_eq_none]

/-! ## Changing files -/

/-- Files in one directory have changed, and no directory. -/
structure InDir (k : Kind) (n : Name) (fs fs' : FileSystem) : Prop where
  dirs : SameDirs fs fs'
  other : ∀ p, (∀ f, p ≠ (k.base.child n).child f) → bytesAt fs' p = bytesAt fs p

theorem InDir.tidy (h : InDir k n fs fs') (ht : Tidy fs) (hdir : IsDir fs (k.base.child n)) :
    Tidy fs' := by
  refine ⟨fun k' => ?_, fun k' n' => ?_, fun k' n' hin => ?_⟩
  · rw [h.other _ fun f => (file_ne_base k k' n f).symm]
    exact ht.base k'
  · refine (ht.flat k' n').congr h.dirs ?_ fun hno f' => ?_
    · rw [h.other _ fun f => (file_ne_dir k k' n n' f).symm]
      exact (ht.flat k' n').notFile
    · rw [h.other]
      · exact (ht.flat k' n').empty hno f'
      · intro f hsame
        rw [(Path.child_inj hsame).1] at hno
        exact hno hdir
  · exact (h.dirs _).mp (ht.parent k' n' ((h.dirs _).mpr hin))

theorem InDir.disk_eq (h : InDir k n fs fs') (hdir : IsDir fs (k.base.child n)) :
    disk fs' = Function.update (disk fs) (k, n)
      (some fun f => bytesAt fs' ((k.base.child n).child f)) := by
  funext ⟨k', n'⟩
  by_cases he : (k', n') = (k, n)
  · cases he
    rw [Function.update_self]
    exact folderAt_of_isDir ((h.dirs _).mp hdir)
  · rw [Function.update_of_ne he]
    refine folderAt_congr (h.dirs _) fun g => h.other _ fun f hsame => ?_
    exact he (child_base_inj (Path.child_inj hsame).1)

/-- One file of the directory has new contents. -/
structure Puts (k : Kind) (n f : Name) (bytes : Bytes) (fs fs' : FileSystem) : Prop where
  dirs : SameDirs fs fs'
  bytesAt : ∀ p, bytesAt fs' p = if p = (k.base.child n).child f then some bytes else
    Lib.Files.bytesAt fs p

theorem Puts.inDir {bytes : Bytes} (h : Puts k n f bytes fs fs') : InDir k n fs fs' := by
  refine ⟨h.dirs, fun p hp => ?_⟩
  rw [h.bytesAt, if_neg (hp f)]

theorem Puts.disk_eq {bytes : Bytes} {F : Folder} (h : Puts k n f bytes fs fs')
    (hF : disk fs (k, n) = some F) :
    disk fs' = Function.update (disk fs) (k, n) (some (Function.update F f (some bytes))) := by
  rw [h.inDir.disk_eq (isDir_of_folderAt hF)]
  refine congrArg (Function.update (disk fs) (k, n)) (congrArg some (funext fun g => ?_))
  rw [h.bytesAt]
  by_cases hg : g = f
  · subst hg
    rw [if_pos rfl, Function.update_self]
  · rw [if_neg fun hsame => hg (Path.child_inj hsame).2, Function.update_of_ne hg]
    exact folderAt_some hF g

/-- The directory of an exchange or a queue is there and holds only files. -/
structure Stands (fs : FileSystem) (k : Kind) (n : Name) : Prop where
  plain : Plain n
  base : IsDir fs k.base
  dir : IsDir fs (k.base.child n)
  file : ∀ f, ¬ IsDir fs ((k.base.child n).child f)

theorem Tidy.stands (ht : Tidy fs) (hn : Plain n) (hdir : IsDir fs (k.base.child n)) :
    Stands fs k n := ⟨hn, ht.parent k n hdir, hdir, (ht.flat k n).noDirs⟩

theorem Stands.congr (h : Stands fs k n) (hdirs : SameDirs fs fs') : Stands fs' k n :=
  ⟨h.plain, (hdirs _).mp h.base, (hdirs _).mp h.dir, fun f hf => h.file f ((hdirs _).mpr hf)⟩

/-- The path with two slashes that the logic server makes. -/
theorem Stands.readFile_sub (h : Stands fs k n) (hf : Plain f) :
    readFile fs (k.path ++ slash :: n ++ slash :: f) =
      Lib.Files.bytesAt fs ((k.base.child n).child f) := by
  rw [readFile, resolve_child (resolve_child (resolve_path h.base) h.base h.plain) h.dir hf,
    Option.bind_some]

theorem writeFile_puts (h : Stands s.files k n) (hf : Plain f) (bytes : Bytes) :
    ∃ files, s.writeFile (k.dir n) f bytes = (success, { s with files := files }) ∧
      Puts k n f bytes s.files files := by
  have hno := h.file f
  have hopen : openFile s.files (k.dir n ++ slash :: f) true =
      some (put s.files ((k.base.child n).child f) []) := by
    rw [openFile, resolve_in_dir h.plain hf h.base h.dir, Option.bind_some, if_neg hno, if_pos rfl]
  have hsame := sameDirs_put hno []
  have happend : appendFile (put s.files ((k.base.child n).child f) []) (k.dir n ++ slash :: f)
      bytes = put (put s.files ((k.base.child n).child f) []) ((k.base.child n).child f) bytes := by
    rw [appendFile, resolve_in_dir h.plain hf ((hsame _).mp h.base) ((hsame _).mp h.dir)]
    dsimp only
    rw [bytesAt_put, if_pos rfl]
    rfl
  refine ⟨_, ?_, hsame.trans (sameDirs_put (fun h => hno ((hsame _).mpr h)) bytes), fun p => ?_⟩
  · rw [writeFile, hopen]
    dsimp only
    rw [happend]
  · rw [bytesAt_put, bytesAt_put]
    split
    · rfl
    · rfl

theorem rewrite_puts (h : Stands s.files k n) (hf : Plain f) (bytes : Bytes) :
    ∃ files, s.rewrite (k.dir n) f bytes = (success, { s with files := files }) ∧
      Puts k n f bytes s.files files := by
  have hexists : fileExists s.files (k.dir n) = true := by
    rw [fileExists, resolve_dir h.plain h.base]
    exact decide_eq_true (Or.inl h.dir)
  obtain ⟨files, hrun, hputs⟩ := writeFile_puts h hf bytes
  refine ⟨files, ?_, hputs⟩
  rw [rewrite, if_neg (not_not.mpr hexists), hrun]

/-! ## Handlers of exchanges and queues -/

/-- The directory is made unless it is there, without a file at first. -/
theorem makeDir_disk (ht : Tidy fs) (hn : Plain n) :
    Tidy (makeDir fs (k.dir n)) ∧ IsDir (makeDir fs (k.dir n)) (k.base.child n) ∧
      disk (makeDir fs (k.dir n)) =
        Function.update (disk fs) (k, n) (some ((disk fs (k, n)).getD fun _ => none)) := by
  have hlookup : ∀ q, (makeDir fs (k.dir n)).lookup q =
      if q = k.base ∨ q = k.base.child n then some .dir else fs.lookup q := by
    intro q
    have hbase := ht.base k
    have hnode := (ht.flat k n).notFile
    rw [Kind.base_eq] at hbase hnode ⊢
    rw [Kind.dir_eq]
    exact makeDir_lookup k.plain_word hn hbase hnode q
  have hother : ∀ q, q ≠ k.base → q ≠ k.base.child n →
      (makeDir fs (k.dir n)).lookup q = fs.lookup q := by
    intro q hq hq'
    rw [hlookup, if_neg (not_or.mpr ⟨hq, hq'⟩)]
  have hfile : ∀ (k' : Kind) (n' f' : Name),
      (makeDir fs (k.dir n)).lookup ((k'.base.child n').child f') =
        fs.lookup ((k'.base.child n').child f') := fun k' n' f' =>
    hother _ (file_ne_base k' k n' f') (file_ne_dir k' k n' n f')
  have hmade : IsDir (makeDir fs (k.dir n)) (k.base.child n) := by
    refine Or.inr ?_
    rw [hlookup, if_pos (Or.inr rfl)]
  have hmadeBase : IsDir (makeDir fs (k.dir n)) k.base := by
    refine Or.inr ?_
    rw [hlookup, if_pos (Or.inl rfl)]
  have hdir : ∀ k' n', (k', n') ≠ (k, n) →
      (makeDir fs (k.dir n)).lookup (k'.base.child n') = fs.lookup (k'.base.child n') :=
    fun k' n' hne => hother _ (child_ne_base k' k n') fun h => hne (child_base_inj h)
  have hbaseOther : ∀ k' : Kind, k' ≠ k →
      (makeDir fs (k.dir n)).lookup k'.base = fs.lookup k'.base := fun k' hne =>
    hother _ (fun h => hne (Kind.base_inj h)) (child_ne_base k k' n).symm
  refine ⟨⟨fun k' => ?_, fun k' n' => ⟨?_, fun f' hin => ?_, fun hno f' => ?_⟩,
    fun k' n' hin => ?_⟩, hmade, ?_⟩
  · by_cases hk : k' = k
    · subst hk
      rw [bytesAt, hlookup, if_pos (Or.inl rfl)]
    · rw [bytesAt_congr (hbaseOther k' hk)]
      exact ht.base k'
  · by_cases he : (k', n') = (k, n)
    · cases he
      rw [bytesAt, hlookup, if_pos (Or.inr rfl)]
    · rw [bytesAt_congr (hdir k' n' he)]
      exact (ht.flat k' n').notFile
  · exact (ht.flat k' n').noDirs f' ((isDir_congr (hfile k' n' f')).mpr hin)
  · rw [bytesAt_congr (hfile k' n' f')]
    by_cases he : (k', n') = (k, n)
    · cases he
      exact absurd hmade hno
    · exact (ht.flat k' n').empty (fun h => hno ((isDir_congr (hdir k' n' he)).mp h)) f'
  · by_cases hk : k' = k
    · subst hk
      exact hmadeBase
    · have hne : (k', n') ≠ (k, n) := fun h => hk (congrArg Prod.fst h)
      have hold := ht.parent k' n' ((isDir_congr (hdir k' n' hne)).mpr hin)
      exact (isDir_congr (hbaseOther k' hk)).mp hold
  · funext e
    obtain ⟨k', n'⟩ := e
    by_cases he : (k', n') = (k, n)
    · cases he
      rw [Function.update_self]
      refine (folderAt_of_isDir hmade).trans (congrArg some ?_)
      funext f'
      rw [bytesAt_congr (hfile k n f')]
      cases hF : disk fs (k, n) with
      | none => exact (ht.flat k n).empty (disk_eq_none_iff.mp hF) f'
      | some F => exact folderAt_some hF f'
    · rw [Function.update_of_ne he]
      exact folderAt_congr (isDir_congr (hdir k' n' he)) fun f' => bytesAt_congr (hfile k' n' f')

theorem createInfo_disk (ht : Tidy s.files) (hn : Plain n) (bytes : Bytes) :
    ∃ files, s.createInfo (k.dir n) bytes = (success, { s with files := files }) ∧ Tidy files ∧
      disk files = Function.update (disk s.files) (k, n)
        (some (Function.update ((disk s.files (k, n)).getD fun _ => none) infoFile
          (some bytes))) := by
  have hinfo : Plain infoFile := by decide
  rw [createInfo]
  by_cases hexists : IsDir s.files (k.base.child n)
  · rw [if_pos ((fileExists_dir_iff ht hn).mpr hexists)]
    obtain ⟨files, hrun, hputs⟩ := writeFile_puts (ht.stands hn hexists) hinfo bytes
    refine ⟨files, hrun, hputs.inDir.tidy ht hexists, ?_⟩
    have hF : disk s.files (k, n) = some _ := folderAt_of_isDir hexists
    rw [hputs.disk_eq hF, hF]
    rfl
  · rw [if_neg fun h => hexists ((fileExists_dir_iff ht hn).mp h)]
    obtain ⟨htidy, hmade, hdisk⟩ := makeDir_disk (k := k) ht hn
    obtain ⟨files, hrun, hputs⟩ :=
      @writeFile_puts { s with files := makeDir s.files (k.dir n) } k n infoFile
        (htidy.stands hn hmade) hinfo bytes
    refine ⟨files, hrun, hputs.inDir.tidy htidy hmade, ?_⟩
    have hF : disk (makeDir s.files (k.dir n)) (k, n) =
        some ((disk s.files (k, n)).getD fun _ => none) := by
      rw [hdisk, Function.update_self]
    rw [hputs.disk_eq hF, hdisk, Function.update_idem]

theorem rewrite_disk (ht : Tidy s.files) (hn : Plain n) (hf : Plain f) (bytes : Bytes) :
    match disk s.files (k, n) with
    | none => s.rewrite (k.dir n) f bytes = (error, s)
    | some F => ∃ files, s.rewrite (k.dir n) f bytes = (success, { s with files := files }) ∧
        Tidy files ∧ disk files =
          Function.update (disk s.files) (k, n) (some (Function.update F f (some bytes))) := by
  have hiff := fileExists_dir_iff (k := k) ht hn
  cases hF : disk s.files (k, n) with
  | none => exact if_pos fun h => disk_eq_none_iff.mp hF (hiff.mp h)
  | some F =>
    have hdir : IsDir s.files (k.base.child n) := isDir_of_folderAt hF
    obtain ⟨files, hrun, hputs⟩ := rewrite_puts (ht.stands hn hdir) hf bytes
    exact ⟨files, hrun, hputs.inDir.tidy ht hdir, hputs.disk_eq hF⟩

theorem removeInfo_disk (hproper : Proper s.files) (ht : Tidy s.files) (hn : Plain n) :
    ∃ files, s.removeInfo (k.dir n) = { s with files := files } ∧ Tidy files ∧
      disk files = Function.update (disk s.files) (k, n) none := by
  have hiff := fileExists_dir_iff (k := k) ht hn
  by_cases hdir : IsDir s.files (k.base.child n)
  · have hbase := ht.parent k n hdir
    have hlast : lastName (k.dir n) ≠ some [46] := by
      have hword : ∀ w, Plain w → w ≠ [] := fun w hw => hw.1
      rw [lastName, Kind.dir_eq, inBase, ← List.singleton_append,
        List.splitOn_append_cons_self_of_not_mem (by decide), splitOn_plain_cons k.plain_word,
        splitOn_plain hn]
      simp [hword _ k.plain_word, hn.1, hn.2.1]
    obtain ⟨hself, hfiles, hother⟩ := removeDir_flat hproper (ht.flat k n)
      (Path.child_ne_nil _ _) (resolve_dir hn hbase) hdir hlast
    have hdirs : ∀ k' n', (k', n') ≠ (k, n) →
        (removeDir s.files (k.dir n)).2.lookup (k'.base.child n') =
          s.files.lookup (k'.base.child n') := fun k' n' hne =>
      hother _ (fun h => hne (child_base_inj h)) fun g => (file_ne_dir k k' n n' g).symm
    have hin : ∀ k' n' g, (k', n') ≠ (k, n) →
        (removeDir s.files (k.dir n)).2.lookup ((k'.base.child n').child g) =
          s.files.lookup ((k'.base.child n').child g) := fun k' n' g hne =>
      hother _ (file_ne_dir k' k n' n g) fun g' hsame =>
        hne (child_base_inj (Path.child_inj hsame).1)
    have hbases : ∀ k' : Kind, (removeDir s.files (k.dir n)).2.lookup k'.base =
        s.files.lookup k'.base := fun k' =>
      hother _ (child_ne_base k k' n).symm fun g => (file_ne_base k k' n g).symm
    have hgone : ¬ IsDir (removeDir s.files (k.dir n)).2 (k.base.child n) := by
      rintro (hnil | hlookup)
      · exact Path.child_ne_nil _ _ hnil
      · rw [hself] at hlookup
        cases hlookup
    refine ⟨(removeDir s.files (k.dir n)).2, ?_,
      ⟨fun k' => ?_, fun k' n' => ?_, fun k' n' h => ?_⟩, ?_⟩
    · rw [removeInfo, if_pos (hiff.mpr hdir)]
    · rw [bytesAt_congr (hbases k')]
      exact ht.base k'
    · by_cases he : (k', n') = (k, n)
      · cases he
        refine ⟨?_, fun g hg => ?_, fun _ g => ?_⟩
        · rw [bytesAt, hself]
        · rcases hg with hnil | hlookup
          · exact Path.child_ne_nil _ _ hnil
          · rw [hfiles] at hlookup
            cases hlookup
        · rw [bytesAt, hfiles]
      · refine ⟨?_, fun g hg => ?_, fun hno g => ?_⟩
        · rw [bytesAt_congr (hdirs k' n' he)]
          exact (ht.flat k' n').notFile
        · exact (ht.flat k' n').noDirs g ((isDir_congr (hin k' n' g he)).mpr hg)
        · rw [bytesAt_congr (hin k' n' g he)]
          exact (ht.flat k' n').empty (fun h => hno ((isDir_congr (hdirs k' n' he)).mp h)) g
    · have he : (k', n') ≠ (k, n) := by
        intro he
        cases he
        exact hgone h
      exact (isDir_congr (hbases k')).mp (ht.parent k' n' ((isDir_congr (hdirs k' n' he)).mpr h))
    · funext e
      obtain ⟨k', n'⟩ := e
      by_cases he : (k', n') = (k, n)
      · cases he
        rw [Function.update_self]
        exact folderAt_of_not_isDir hgone
      · rw [Function.update_of_ne he]
        exact folderAt_congr (isDir_congr (hdirs k' n' he)) fun g => bytesAt_congr (hin k' n' g he)
  · refine ⟨s.files, ?_, ht, ?_⟩
    · rw [removeInfo, if_neg fun h => hdir (hiff.mp h)]
    · rw [← disk_eq_none_iff.mpr hdir, Function.update_eq_self]

end Wsmq.PersistenceServer
