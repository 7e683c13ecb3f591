import Wsmq.Lib.Directories

/-! Directories that hold only files: what is in one, and what making and removing it does. -/

namespace Lib.Files
open Lib.ByteString

variable {fs fs' : FileSystem} {p q : Path} {path : Bytes}

/-- The files of a directory by their names. -/
abbrev Folder := Bytes → Option Bytes

/-- The files in the directory `p`, if there is one. -/
def folderAt (fs : FileSystem) (p : Path) : Option Folder :=
  if IsDir fs p then some fun f => bytesAt fs (p.child f) else none

/-- A directory with files only, or nothing at all. -/
structure Flat (fs : FileSystem) (p : Path) : Prop where
  notFile : bytesAt fs p = none
  noDirs : ∀ f, ¬ IsDir fs (p.child f)
  empty : ¬ IsDir fs p → ∀ f, bytesAt fs (p.child f) = none

theorem folderAt_of_isDir (h : IsDir fs p) :
    folderAt fs p = some fun f => bytesAt fs (p.child f) := if_pos h

theorem folderAt_of_not_isDir (h : ¬ IsDir fs p) : folderAt fs p = none := if_neg h

theorem isDir_of_folderAt {F : Folder} (h : folderAt fs p = some F) : IsDir fs p := by
  by_contra hno
  rw [folderAt_of_not_isDir hno] at h
  cases h

theorem folderAt_some {F : Folder} (h : folderAt fs p = some F) (f : Bytes) :
    bytesAt fs (p.child f) = F f := by
  rw [folderAt_of_isDir (isDir_of_folderAt h)] at h
  cases h
  rfl

theorem folderAt_congr (hdir : IsDir fs p ↔ IsDir fs' p)
    (hfiles : ∀ f, bytesAt fs' (p.child f) = bytesAt fs (p.child f)) :
    folderAt fs' p = folderAt fs p := by
  simp only [folderAt, hdir, hfiles]

theorem Flat.congr (h : Flat fs p) (hdirs : SameDirs fs fs')
    (hfiles : bytesAt fs' p = none)
    (hempty : ¬ IsDir fs p → ∀ f, bytesAt fs' (p.child f) = none) : Flat fs' p :=
  ⟨hfiles, fun f hf => h.noDirs f ((hdirs _).mpr hf),
    fun hno => hempty fun hdir => hno ((hdirs p).mp hdir)⟩

/-- Where neither a directory nor a file is, nothing is. -/
theorem lookup_eq_none (hdir : ¬ IsDir fs p) (hfile : bytesAt fs p = none) :
    fs.lookup p = none := by
  cases h : fs.lookup p with
  | none => rfl
  | some node =>
    cases node with
    | dir => exact absurd (Or.inr h) hdir
    | file bytes =>
      rw [bytesAt, h] at hfile
      cases hfile

theorem bytesAt_congr (h : fs'.lookup p = fs.lookup p) : bytesAt fs' p = bytesAt fs p := by
  rw [bytesAt, bytesAt, h]

theorem isDir_congr (h : fs'.lookup p = fs.lookup p) : IsDir fs p ↔ IsDir fs' p := by
  rw [IsDir, IsDir, h]

/-! ## Removing -/

/-- The loop over files of a directory takes away just these. -/
theorem removeEntries_files {removeSub : FileSystem → Bytes → Bool × FileSystem}
    (hres : resolve fs path = some p) (hdir : IsDir fs p) (hno : ∀ f, ¬ IsDir fs (p.child f))
    {names : List Bytes} (hnames : ∀ n ∈ names, Plain n) :
    ∃ fs', removeEntries removeSub path names fs = (true, fs') ∧ SameDirs fs fs' ∧
      ∀ q, fs'.lookup q = if ∃ n ∈ names, q = p.child n then none else fs.lookup q := by
  induction names generalizing fs with
  | nil => exact ⟨fs, rfl, SameDirs.refl fs, fun q => by simp⟩
  | cons name names ih =>
    have hname := hnames name List.mem_cons_self
    have hrest : ∀ n ∈ names, Plain n := fun n hn => hnames n (List.mem_cons_of_mem _ hn)
    have hchild := resolve_child hres hdir hname
    have hnode : nodeAt fs (path ++ slash :: name) = fs.lookup (p.child name) := by
      rw [nodeAt, hchild, Option.bind_some, if_neg (Path.child_ne_nil p name)]
    rw [removeEntries, hnode]
    cases hlookup : fs.lookup (p.child name) with
    | none =>
      obtain ⟨fs', hrun, hdirs, hfs'⟩ := ih hres hdir hno hrest
      refine ⟨fs', hrun, hdirs, fun q => ?_⟩
      rw [hfs' q]
      by_cases hq : q = p.child name
      · subst hq
        rw [hlookup, ite_self, ite_self]
      · simp only [List.exists_mem_cons_iff, hq, false_or]
    | some node =>
      cases node with
      | dir => exact absurd (Or.inr hlookup) (hno name)
      | file bytes =>
        have hgone : unlink fs (path ++ slash :: name) = fs.erase (p.child name) := by
          rw [unlink, hchild]
        have hsame := sameDirs_erase (hno name)
        dsimp only
        rw [hgone]
        obtain ⟨fs', hrun, hdirs, hfs'⟩ := ih ((resolve_congr hsame path).symm.trans hres)
          ((hsame p).mp hdir) (fun f hf => hno f ((hsame _).mpr hf)) hrest
        refine ⟨fs', hrun, hsame.trans hdirs, fun q => ?_⟩
        rw [hfs' q]
        by_cases hq : q = p.child name
        · subst hq
          rw [AList.lookup_erase, ite_self, if_pos ⟨name, List.mem_cons_self, rfl⟩]
        · rw [AList.lookup_erase_ne hq]
          simp only [List.exists_mem_cons_iff, hq, false_or]

/-- A directory with files only goes as a whole. -/
theorem removeDir_flat (hfs : Proper fs) (h : Flat fs p) (hp : p.comps ≠ [])
    (hres : resolve fs path = some p) (hdir : IsDir fs p) (hlast : lastName path ≠ some [46]) :
    (removeDir fs path).2.lookup p = none ∧ (∀ f, (removeDir fs path).2.lookup (p.child f) = none) ∧
      ∀ q, q ≠ p → (∀ f, q ≠ p.child f) → (removeDir fs path).2.lookup q = fs.lookup q := by
  have hread : readDir fs path = some (children fs p) := by
    rw [readDir, hres, Option.bind_some, if_pos hdir]
  obtain ⟨fs', hrun, hdirs, hfs'⟩ := @removeEntries_files _ _ _ (removeDirFuel fs.entries.length)
    hres hdir h.noDirs _ (plain_of_readDir hfs hread)
  have hmem : ∀ f, fs.lookup (p.child f) ≠ none →
      ∃ n ∈ (children fs p).map Prod.fst, p.child f = p.child n := by
    intro f hf
    obtain ⟨node, hnode⟩ := Option.ne_none_iff_exists'.mp hf
    exact ⟨f, List.mem_map_of_mem (mem_children.mpr hnode), rfl⟩
  have hgone : ∀ f, fs'.lookup (p.child f) = none := by
    intro f
    rw [hfs']
    split
    · rfl
    · next hnot =>
      by_contra hf
      exact hnot (hmem f hf)
  have hempty : children fs' p = [] := by
    refine List.eq_nil_iff_forall_not_mem.mpr fun e he => ?_
    have hlookup : fs'.lookup (p.child e.1) = some e.2 := mem_children.mp he
    rw [hgone] at hlookup
    cases hlookup
  have hself : fs'.lookup p = some .dir := by
    rcases (hdirs p).mp hdir with hnil | hlookup
    · exact absurd hnil hp
    · exact hlookup
  have hremoved : (removeDir fs path).2 = fs'.erase p := by
    rw [removeDir, removeDirFuel, hread]
    dsimp only
    rw [hrun]
    dsimp only
    rw [if_pos rfl, rmdir, ← resolve_congr hdirs, hres]
    dsimp only
    rw [if_pos ⟨hself, hempty, hlast⟩]
  rw [hremoved]
  refine ⟨AList.lookup_erase _ _, fun f => ?_, fun q hq hchild => ?_⟩
  · rw [AList.lookup_erase_ne, hgone]
    intro hsame
    have hlen := congrArg (fun r : Path => r.comps.length) hsame
    simp [Path.child] at hlen
  · rw [AList.lookup_erase_ne hq, hfs', if_neg]
    rintro ⟨n, _, rfl⟩
    exact hchild n rfl

/-! ## Making -/

/-- The path of a directory in a base directory of the working directory. -/
def inBase (base name : Bytes) : Bytes := 46 :: slash :: (base ++ slash :: name)

theorem makeDirLoop_word (fs : FileSystem) (done : Bytes) {word : Bytes} (h : slash ∉ word)
    (rest : Bytes) : makeDirLoop fs done (word ++ rest) = makeDirLoop fs (done ++ word) rest := by
  induction word generalizing done with
  | nil => rw [List.nil_append, List.append_nil]
  | cons c word ih =>
    obtain ⟨hc, hword⟩ := not_or.mp (mt List.mem_cons.mpr h)
    rw [List.cons_append, makeDirLoop, if_neg fun hslash => hc hslash.1.symm, ih _ hword,
      List.append_assoc, List.singleton_append]

theorem makeDirLoop_slash (fs : FileSystem) {done : Bytes} (h : done ≠ []) (rest : Bytes) :
    makeDirLoop fs done (slash :: rest) = makeDirLoop (checkDir fs done) (done ++ [slash]) rest := by
  rw [makeDirLoop, if_pos ⟨rfl, h⟩]

theorem resolve_base_dir (fs : FileSystem) {base : Bytes} (h : Plain base) :
    resolve fs (46 :: slash :: base) = some (Path.cwd.child base) := by
  have hdot : resolve fs [46] = some Path.cwd := by
    rw [resolve, List.splitOn_eq_singleton (by decide)]
    simp [walk, IsDir, Path.cwd, Path.enter]
  exact resolve_child hdot (Or.inl rfl) h

theorem resolve_slash (h : resolve fs path = some p) (hdir : IsDir fs p) :
    resolve fs (path ++ [slash]) = some p := by
  rw [resolve] at h
  rw [resolve, List.splitOn_append_cons_self, walk_append, h, List.splitOn_nil, Option.bind_some,
    walk, if_pos hdir, Path.enter, if_pos (Or.inl rfl), walk]

theorem resolve_inBase {base name : Bytes} (hbase : Plain base) (hname : Plain name)
    (h : IsDir fs (Path.cwd.child base)) :
    resolve fs (inBase base name) = some ((Path.cwd.child base).child name) :=
  resolve_child (resolve_base_dir fs hbase) h hname

theorem checkDir_lookup (h : resolve fs path = some p) (hp : p.comps ≠ [])
    (hfile : bytesAt fs p = none) (q : Path) :
    (checkDir fs path).lookup q = if q = p then some .dir else fs.lookup q := by
  have hnode : nodeAt fs path = fs.lookup p := by
    rw [nodeAt, h, Option.bind_some, if_neg hp]
  rw [checkDir, h]
  dsimp only
  rw [hnode]
  cases hlookup : fs.lookup p with
  | none =>
    rw [if_neg (by decide)]
    by_cases hq : q = p
    · subst hq
      rw [AList.lookup_insert, if_pos rfl]
    · rw [AList.lookup_insert_ne hq, if_neg hq]
  | some node =>
    rw [if_pos (Option.isSome_some)]
    by_cases hq : q = p
    · subst hq
      rw [if_pos rfl, hlookup]
      cases node with
      | dir => rfl
      | file bytes =>
        rw [bytesAt, hlookup] at hfile
        cases hfile
    · rw [if_neg hq]

/-- The base directory is made as well when it is missing. -/
theorem makeDir_lookup {base name : Bytes} (hbase : Plain base) (hname : Plain name)
    (hfile : bytesAt fs (Path.cwd.child base) = none)
    (hfile' : bytesAt fs ((Path.cwd.child base).child name) = none) (q : Path) :
    (makeDir fs (inBase base name)).lookup q =
      if q = Path.cwd.child base ∨ q = (Path.cwd.child base).child name then some .dir
      else fs.lookup q := by
  have hne : (Path.cwd.child base).child name ≠ Path.cwd.child base := by
    intro h
    have hlen := congrArg (fun p : Path => p.comps.length) h
    simp [Path.child, Path.cwd] at hlen
  have hdot : checkDir fs [46] = fs := by
    rw [checkDir, nodeAt]
    simp [resolve, List.splitOn_eq_singleton, slash, walk, IsDir, Path.cwd, Path.enter]
  have hloop : makeDirLoop fs [] (inBase base name) = checkDir fs (46 :: slash :: base) := by
    have hword : inBase base name = [46] ++ slash :: (base ++ slash :: name) := rfl
    have hend := makeDirLoop_word (checkDir fs (46 :: slash :: base))
      (46 :: slash :: base ++ [slash]) hname.2.2.2.1 []
    rw [List.append_nil] at hend
    rw [hword, makeDirLoop_word fs [] (by decide), List.nil_append,
      makeDirLoop_slash fs (by decide), hdot, makeDirLoop_word fs _ hbase.2.2.2.1]
    refine (makeDirLoop_slash fs (List.cons_ne_nil _ _) name).trans (hend.trans ?_)
    rw [makeDirLoop]
  have hlast : ¬ ((inBase base name).getLast? = some slash ∨ inBase base name = []) := by
    rintro (h | h)
    · have hend : (inBase base name).getLast? = name.getLast? := by
        obtain ⟨c, cs, hcons⟩ := List.exists_cons_of_ne_nil hname.1
        have hsplit : inBase base name = (46 :: slash :: (base ++ [slash])) ++ name := by
          simp [inBase]
        rw [hsplit, List.getLast?_append, hcons, List.getLast?_eq_some_getLast (List.cons_ne_nil c cs),
          Option.some_or]
      rw [hend] at h
      exact hname.2.2.2.1 (List.mem_of_getLast? h)
    · cases h
  have hfirst := checkDir_lookup (resolve_base_dir fs hbase) (Path.child_ne_nil _ _) hfile
  have hdir : IsDir (checkDir fs (46 :: slash :: base)) (Path.cwd.child base) := by
    refine Or.inr ?_
    rw [hfirst, if_pos rfl]
  have hfile'' : bytesAt (checkDir fs (46 :: slash :: base)) ((Path.cwd.child base).child name) =
      none := by
    rw [bytesAt_congr, hfile']
    rw [hfirst, if_neg hne]
  rw [makeDir, if_neg hlast, hloop, checkDir_lookup (resolve_inBase hbase hname hdir)
    (Path.child_ne_nil _ _) hfile'', hfirst]
  by_cases hq : q = (Path.cwd.child base).child name
  · rw [if_pos hq, if_pos (Or.inr hq)]
  · rw [if_neg hq]
    by_cases hq' : q = Path.cwd.child base
    · rw [if_pos hq', if_pos (Or.inl hq')]
    · rw [if_neg hq', if_neg (not_or.mpr ⟨hq', hq⟩)]

end Lib.Files
