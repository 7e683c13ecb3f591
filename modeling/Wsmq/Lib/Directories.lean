import Wsmq.Lib.Files

/-! Making and removing directories.  What such a call changes lies at the end of its path
or below. -/

namespace Lib.Files
open Lib.ByteString

variable {fs : FileSystem} {p q : Path} {path : Bytes}

/-- Where a path leads, whatever is there. -/
def target (path : Bytes) : Path := (path.splitOn slash).foldl Path.enter .cwd

/-- What `lstat` finds. -/
def nodeAt (fs : FileSystem) (path : Bytes) : Option Node :=
  (resolve fs path).bind fun p => if p.comps = [] then some .dir else fs.lookup p

/-! ## Making -/

/-- A directory is made where nothing is. -/
def checkDir (fs : FileSystem) (path : Bytes) : FileSystem :=
  match resolve fs path with
  | none => fs
  | some p => if (nodeAt fs path).isSome then fs else fs.insert p .dir

/-- The loop over the bytes of a path; `done` are those before. -/
def makeDirLoop (fs : FileSystem) (done : Bytes) : Bytes → FileSystem
  | [] => fs
  | c :: cs =>
    makeDirLoop (if c = slash ∧ done ≠ [] then checkDir fs done else fs) (done ++ [c]) cs

/-- A directory with those that lead to it. -/
def makeDir (fs : FileSystem) (path : Bytes) : FileSystem :=
  if path.getLast? = some slash ∨ path = [] then makeDirLoop fs [] path
  else checkDir (makeDirLoop fs [] path) path

/-! ## Removing -/

/-- The last component that is not empty. -/
def lastName (path : Bytes) : Option Bytes := ((path.splitOn slash).filter (· ≠ [])).getLast?

/-- An empty directory is removed, but not through the name `.`. -/
def rmdir (fs : FileSystem) (path : Bytes) : Bool × FileSystem :=
  match resolve fs path with
  | none => (false, fs)
  | some p =>
    if fs.lookup p = some .dir ∧ children fs p = [] ∧ lastName path ≠ some [46] then
      (true, fs.erase p)
    else (false, fs)

def unlink (fs : FileSystem) (path : Bytes) : FileSystem :=
  match resolve fs path with
  | none => fs
  | some p => fs.erase p

/-- The loop over the entries of a directory; `removeSub` removes one below it. -/
def removeEntries (removeSub : FileSystem → Bytes → Bool × FileSystem) (path : Bytes) :
    List Bytes → FileSystem → Bool × FileSystem
  | [], fs => (true, fs)
  | name :: names, fs =>
    match nodeAt fs (path ++ slash :: name) with
    | none => removeEntries removeSub path names fs
    | some .dir =>
      let r := removeSub fs (path ++ slash :: name)
      if r.1 then removeEntries removeSub path names (rmdir r.2 (path ++ slash :: name)).2 else r
    | some (.file _) =>
      removeEntries removeSub path names (unlink fs (path ++ slash :: name))

/-- A directory with everything in it, and whether that worked.  Each call goes one
directory deeper, so there are at most as many nested calls as entries. -/
def removeDirFuel : Nat → FileSystem → Bytes → Bool × FileSystem
  | 0, fs, _ => (false, fs)
  | fuel + 1, fs, path =>
    match readDir fs path with
    | none => (false, fs)
    | some entries =>
      let r := removeEntries (removeDirFuel fuel) path (entries.map Prod.fst) fs
      if r.1 then rmdir r.2 path else r

def removeDir (fs : FileSystem) (path : Bytes) : Bool × FileSystem :=
  removeDirFuel (fs.entries.length + 1) fs path

/-! ## Targets -/

theorem walk_eq_foldl {names : List Bytes} (h : walk fs p names = some q) :
    q = names.foldl Path.enter p := by
  induction names generalizing p with
  | nil =>
    cases h
    rfl
  | cons name names ih =>
    rw [walk] at h
    split at h
    · exact ih h
    · cases h

theorem resolve_eq_target (h : resolve fs path = some p) : p = target path := walk_eq_foldl h

theorem target_append (path rest : Bytes) :
    target (path ++ slash :: rest) = (rest.splitOn slash).foldl Path.enter (target path) := by
  rw [target, List.splitOn_append_cons_self, List.foldl_append]
  rfl

theorem target_child {name : Bytes} (h : Plain name) (path : Bytes) :
    target (path ++ slash :: name) = (target path).child name := by
  rw [target_append, splitOn_plain h, List.foldl_cons, List.foldl_nil, enter_plain h]

theorem mem_enter {name c : Bytes} (h : c ∈ (p.enter name).comps) :
    c ∈ p.comps ∨ (c = name ∧ name ≠ [] ∧ name ≠ [46] ∧ name ≠ [46, 46]) := by
  unfold Path.enter at h
  split at h
  · exact Or.inl h
  · next hstay =>
    obtain ⟨hempty, hdot⟩ := not_or.mp hstay
    split at h
    · unfold Path.parent at h
      split at h
      · cases h
      · exact Or.inl (List.dropLast_subset _ h)
    · next hup =>
      rcases List.mem_append.mp h with h | h
      · exact Or.inl h
      · exact Or.inr ⟨List.mem_singleton.mp h, hempty, hdot, hup⟩

theorem mem_splitOn {name : Bytes} (h : name ∈ path.splitOn slash) :
    slash ∉ name ∧ name.Sublist path := by
  induction path generalizing name with
  | nil =>
    rw [List.splitOn_nil, List.mem_singleton] at h
    subst h
    exact ⟨List.not_mem_nil, List.Sublist.refl _⟩
  | cons c cs ih =>
    rw [List.splitOn_cons_eq_if_modifyHead] at h
    split at h
    · rcases List.mem_cons.mp h with rfl | h
      · exact ⟨List.not_mem_nil, List.nil_sublist _⟩
      · obtain ⟨hslash, hmem⟩ := ih h
        exact ⟨hslash, hmem.cons c⟩
    · next hc =>
      cases hparts : cs.splitOn slash with
      | nil => exact absurd hparts (List.splitOn_ne_nil _ _)
      | cons part parts =>
        rw [hparts, List.modifyHead_cons] at h
        rcases List.mem_cons.mp h with rfl | h
        · obtain ⟨hslash, hmem⟩ := ih (hparts ▸ List.mem_cons_self)
          refine ⟨?_, hmem.cons_cons c⟩
          rintro (hslash' : slash ∈ c :: part)
          rcases List.mem_cons.mp hslash' with rfl | hin
          · exact hc (beq_self_eq_true _)
          · exact hslash hin
        · obtain ⟨hslash, hmem⟩ := ih (hparts ▸ List.mem_cons_of_mem part h)
          exact ⟨hslash, hmem.cons c⟩

/-- Where the names lead on the way. -/
def positions : Path → List Bytes → List Path
  | p, [] => [p]
  | p, name :: names => p :: positions (p.enter name) names

theorem foldl_mem_positions (p : Path) (names : List Bytes) :
    names.foldl Path.enter p ∈ positions p names := by
  induction names generalizing p with
  | nil => exact List.mem_singleton_self p
  | cons name names ih => exact List.mem_cons_of_mem p (ih _)

/-- What holds of the components of a path and of the names holds of all on the way. -/
theorem positions_comps {R : Bytes → Prop} {names : List Bytes}
    (hnames : ∀ n ∈ names, ∀ p : Path, (∀ c ∈ p.comps, R c) → ∀ c ∈ (p.enter n).comps, R c)
    (hp : ∀ c ∈ p.comps, R c) : ∀ q ∈ positions p names, ∀ c ∈ q.comps, R c := by
  induction names generalizing p with
  | nil =>
    intro q hq
    rw [List.mem_singleton.mp hq]
    exact hp
  | cons name names ih =>
    intro q hq
    rcases List.mem_cons.mp hq with rfl | hq
    · exact hp
    · exact ih (fun n hn => hnames n (List.mem_cons_of_mem name hn))
        (hnames name List.mem_cons_self p hp) q hq

theorem mem_position {c : Bytes} (h : q ∈ positions Path.cwd (path.splitOn slash))
    (hc : c ∈ q.comps) (hzero : 0 ∉ path) : Plain c ∧ c.length ≤ path.length := by
  refine positions_comps (R := fun c => Plain c ∧ c.length ≤ path.length) ?_ ?_ q h c hc
  · intro n hn p hp c hc
    obtain ⟨hslash, hsub⟩ := mem_splitOn hn
    rcases mem_enter hc with hc | ⟨rfl, hempty, hdot, hup⟩
    · exact hp c hc
    · exact ⟨⟨hempty, hdot, hup, hslash, fun h => hzero (hsub.subset h)⟩, hsub.length_le⟩
  · exact fun c hc => nomatch hc

/-- The components of a target are names of entries. -/
theorem plain_target (hzero : 0 ∉ path) : ∀ c ∈ (target path).comps, Plain c :=
  fun _ hc => (mem_position (foldl_mem_positions _ _) hc hzero).1

/-! ## What is changed -/

/-- `q` is `p` or lies below. -/
def Within (p q : Path) : Prop := q.ups = p.ups ∧ p.comps <+: q.comps

theorem Within.refl (p : Path) : Within p p := ⟨rfl, List.prefix_rfl⟩

theorem within_child (p : Path) (name : Bytes) : Within p (p.child name) :=
  ⟨rfl, List.prefix_append _ _⟩

theorem within_child_iff {name : Bytes} :
    Within p (q.child name) ↔ Within p q ∨ p = q.child name := by
  constructor
  · rintro ⟨hups, hpre⟩
    rcases List.prefix_concat_iff.mp hpre with hsame | hpre
    · exact Or.inr (congrArg₂ Path.mk hups.symm hsame)
    · exact Or.inl ⟨hups, hpre⟩
  · rintro (hin | rfl)
    · exact ⟨hin.1, hin.2.trans (List.prefix_append _ _)⟩
    · exact Within.refl _

theorem Within.trans {r : Path} (h : Within p q) (h' : Within q r) : Within p r :=
  ⟨h'.1.trans h.1, h.2.trans h'.2⟩

theorem Within.eq_of_length (h : Within p q) (hlen : p.comps.length = q.comps.length) :
    p = q := by
  obtain ⟨pu, pc⟩ := p
  obtain ⟨qu, qc⟩ := q
  exact congrArg₂ Path.mk h.1.symm (h.2.eq_of_length hlen)

/-- Names of entries are plain. -/
def Proper (fs : FileSystem) : Prop := ∀ q, fs.lookup q ≠ none → ∀ c ∈ q.comps, Plain c

/-- Some of what is at `p` or below is removed, and nothing else is changed. -/
def Prunes (p : Path) (fs fs' : FileSystem) : Prop :=
  ∀ q, fs'.lookup q = fs.lookup q ∨ (Within p q ∧ fs'.lookup q = none)

namespace Prunes

variable {fs' fs'' : FileSystem}

theorem refl (p : Path) (fs : FileSystem) : Prunes p fs fs := fun _ => Or.inl rfl

theorem trans (h : Prunes p fs fs') (h' : Prunes p fs' fs'') : Prunes p fs fs'' := by
  intro q
  rcases h' q with hsame | hgone
  · rw [hsame]
    exact h q
  · exact Or.inr hgone

theorem mono (h : Prunes q fs fs') (hpq : Within p q) : Prunes p fs fs' := by
  intro r
  rcases h r with hsame | ⟨hwithin, hgone⟩
  · exact Or.inl hsame
  · exact Or.inr ⟨hpq.trans hwithin, hgone⟩

theorem proper (h : Prunes p fs fs') (hfs : Proper fs) : Proper fs' := by
  intro q hq
  rcases h q with hsame | ⟨_, hgone⟩
  · rw [hsame] at hq
    exact hfs q hq
  · exact absurd hgone hq

theorem erase (fs : FileSystem) (p : Path) : Prunes p fs (fs.erase p) := by
  intro q
  by_cases h : q = p
  · subst h
    exact Or.inr ⟨Within.refl q, AList.lookup_erase _ _⟩
  · exact Or.inl (AList.lookup_erase_ne h)

end Prunes

theorem rmdir_prunes (fs : FileSystem) (path : Bytes) :
    Prunes (target path) fs (rmdir fs path).2 := by
  unfold rmdir
  split
  · exact Prunes.refl _ _
  · next p hp =>
    split
    · rw [← resolve_eq_target hp]
      exact Prunes.erase fs p
    · exact Prunes.refl _ _

theorem unlink_prunes (fs : FileSystem) (path : Bytes) :
    Prunes (target path) fs (unlink fs path) := by
  unfold unlink
  split
  · exact Prunes.refl _ _
  · next p hp =>
    rw [← resolve_eq_target hp]
    exact Prunes.erase fs p

theorem removeEntries_prunes {removeSub : FileSystem → Bytes → Bool × FileSystem}
    (hsub : ∀ fs path, Proper fs → Prunes (target path) fs (removeSub fs path).2)
    {names : List Bytes} (hnames : ∀ n ∈ names, Plain n) (hfs : Proper fs) :
    Prunes (target path) fs (removeEntries removeSub path names fs).2 := by
  induction names generalizing fs with
  | nil => exact Prunes.refl _ _
  | cons name names ih =>
    have hname := hnames name List.mem_cons_self
    have hrest : ∀ n ∈ names, Plain n := fun n hn => hnames n (List.mem_cons_of_mem _ hn)
    have hchild : Within (target path) (target (path ++ slash :: name)) := by
      rw [target_child hname]
      exact within_child _ _
    rw [removeEntries]
    split
    · exact ih hrest hfs
    · have hfirst := (hsub fs (path ++ slash :: name) hfs).mono hchild
      dsimp only
      split
      · have hsecond := hfirst.trans ((rmdir_prunes _ _).mono hchild)
        exact hsecond.trans (ih hrest (hsecond.proper hfs))
      · exact hfirst
    · have hfirst := (unlink_prunes fs (path ++ slash :: name)).mono hchild
      exact hfirst.trans (ih hrest (hfirst.proper hfs))

theorem plain_of_readDir (hfs : Proper fs) {entries : List (Bytes × Node)}
    (h : readDir fs path = some entries) : ∀ n ∈ entries.map Prod.fst, Plain n := by
  obtain ⟨p, _, hif⟩ := Option.bind_eq_some_iff.mp h
  split at hif
  · cases hif
    intro n hn
    obtain ⟨⟨m, node⟩, hmem, rfl⟩ := List.mem_map.mp hn
    have hlookup := mem_children.mp hmem
    refine hfs (p.child m) ?_ m (List.mem_append_right _ List.mem_cons_self)
    rw [hlookup]
    exact Option.some_ne_none _
  · cases hif

theorem removeDirFuel_prunes (fuel : Nat) (hfs : Proper fs) (path : Bytes) :
    Prunes (target path) fs (removeDirFuel fuel fs path).2 := by
  induction fuel generalizing fs path with
  | zero => exact Prunes.refl _ _
  | succ fuel ih =>
    rw [removeDirFuel]
    split
    · exact Prunes.refl _ _
    · next entries hentries =>
      have hloop : Prunes (target path) fs
          (removeEntries (removeDirFuel fuel) path (entries.map Prod.fst) fs).2 :=
        removeEntries_prunes (fun _ path hfs => ih hfs path) (plain_of_readDir hfs hentries) hfs
      dsimp only
      split
      · exact hloop.trans (rmdir_prunes _ _)
      · exact hloop

/-- Only what is in the directory is removed. -/
theorem removeDir_prunes (hfs : Proper fs) (path : Bytes) :
    Prunes (target path) fs (removeDir fs path).2 := removeDirFuel_prunes _ hfs path

/-- Changes where `P` holds only, but for new directories, and only under plain names. -/
def Edits (P : Path → Prop) (fs fs' : FileSystem) : Prop :=
  ∀ q, fs'.lookup q = fs.lookup q ∨
    ((P q ∨ fs.lookup q = none ∧ fs'.lookup q = some .dir) ∧
      (fs'.lookup q = none ∨ ∀ c ∈ q.comps, Plain c))

variable {P : Path → Prop}

namespace Edits

variable {fs' fs'' : FileSystem}

theorem refl (P : Path → Prop) (fs : FileSystem) : Edits P fs fs := fun _ => Or.inl rfl

theorem trans (h : Edits P fs fs') (h' : Edits P fs' fs'') : Edits P fs fs'' := by
  intro q
  rcases h' q with hsame | ⟨hP | ⟨hnone, hdir⟩, hclean⟩
  · rw [hsame]
    exact h q
  · exact Or.inr ⟨Or.inl hP, hclean⟩
  · rcases h q with hsame | ⟨hP | ⟨_, hdir'⟩, _⟩
    · exact Or.inr ⟨Or.inr ⟨hsame ▸ hnone, hdir⟩, hclean⟩
    · exact Or.inr ⟨Or.inl hP, hclean⟩
    · rw [hnone] at hdir'
      cases hdir'

theorem mono {Q : Path → Prop} (h : Edits P fs fs') (hPQ : ∀ q, P q → Q q) : Edits Q fs fs' := by
  intro q
  rcases h q with hsame | ⟨hP, hclean⟩
  · exact Or.inl hsame
  · exact Or.inr ⟨hP.imp_left (hPQ q), hclean⟩

theorem proper (h : Edits P fs fs') (hfs : Proper fs) : Proper fs' := by
  intro q hq
  rcases h q with hsame | ⟨_, hgone | hclean⟩
  · rw [hsame] at hq
    exact hfs q hq
  · exact absurd hgone hq
  · exact hclean

/-- Elsewhere the contents of files are the same. -/
theorem bytesAt_eq (h : Edits P fs fs') (hq : ¬ P q) : bytesAt fs' q = bytesAt fs q := by
  unfold bytesAt
  rcases h q with hsame | ⟨hP | ⟨hnone, hdir⟩, _⟩
  · rw [hsame]
  · exact absurd hP hq
  · rw [hnone, hdir]

theorem insert (fs : FileSystem) {p : Path} (hp : P p) (hclean : ∀ c ∈ p.comps, Plain c)
    (node : Node) : Edits P fs (fs.insert p node) := by
  intro q
  by_cases h : q = p
  · subst h
    exact Or.inr ⟨Or.inl hp, Or.inr hclean⟩
  · exact Or.inl (AList.lookup_insert_ne h)

end Edits

theorem Prunes.edits {fs' : FileSystem} (h : Prunes p fs fs') : Edits (Within p) fs fs' := by
  intro q
  rcases h q with hsame | ⟨hwithin, hgone⟩
  · exact Or.inl hsame
  · exact Or.inr ⟨Or.inl hwithin, Or.inl hgone⟩

theorem openFile_edits {fs' : FileSystem} {truncate : Bool} (hzero : 0 ∉ path)
    (hP : P (target path)) (h : openFile fs path truncate = some fs') : Edits P fs fs' := by
  obtain ⟨p, hp, hif⟩ := Option.bind_eq_some_iff.mp h
  obtain rfl := resolve_eq_target hp
  split at hif
  · cases hif
  · cases hif
    exact Edits.insert fs hP (plain_target hzero) _

theorem appendFile_edits (fs : FileSystem) (hzero : 0 ∉ path) (hP : P (target path))
    (bytes : Bytes) : Edits P fs (appendFile fs path bytes) := by
  unfold appendFile
  split
  · exact Edits.refl P fs
  · next p hp =>
    obtain rfl := resolve_eq_target hp
    exact Edits.insert fs hP (plain_target hzero) _

/-- The file system without a directory and what is below it. -/
theorem lookup_filter_within (fs : FileSystem) (p q : Path) (h) :
    (⟨fs.entries.filter fun e => ¬ (e.1.ups = p.ups ∧ p.comps.isPrefixOf e.1.comps), h⟩ :
        FileSystem).lookup q = fs.lookup q ∨
      (Within p q ∧ (⟨fs.entries.filter fun e =>
        ¬ (e.1.ups = p.ups ∧ p.comps.isPrefixOf e.1.comps), h⟩ : FileSystem).lookup q = none) := by
  have hmem : ∀ node, (⟨fs.entries.filter fun e =>
      ¬ (e.1.ups = p.ups ∧ p.comps.isPrefixOf e.1.comps), h⟩ : FileSystem).lookup q = some node ↔
        fs.lookup q = some node ∧ ¬ Within p q := by
    intro node
    refine AList.mem_lookup_iff.trans (List.mem_filter.trans ?_)
    rw [decide_eq_true_iff, List.isPrefixOf_iff_prefix]
    exact and_congr_left fun _ => AList.mem_lookup_iff.symm
  by_cases hq : Within p q
  · refine Or.inr ⟨hq, Option.eq_none_iff_forall_ne_some.mpr fun node hnode => ?_⟩
    exact ((hmem node).mp hnode).2 hq
  · refine Or.inl (Option.ext fun node => ?_)
    rw [hmem]
    exact and_iff_left hq

theorem removeFile_prunes (fs : FileSystem) (path : Bytes) :
    Prunes (target path) fs (removeFile fs path) := by
  unfold removeFile
  split
  · exact Prunes.refl _ _
  · next p hp =>
    obtain rfl := resolve_eq_target hp
    split
    · exact fun q => lookup_filter_within fs (target path) q _
    · exact Prunes.erase fs _

theorem checkDir_edits (P : Path → Prop) (fs : FileSystem) (hzero : 0 ∉ path) :
    Edits P fs (checkDir fs path) := by
  unfold checkDir
  split
  · exact Edits.refl P fs
  · next p hp =>
    split
    · exact Edits.refl P fs
    · next hnone =>
      rw [nodeAt, hp, Option.bind_some] at hnone
      obtain rfl := resolve_eq_target hp
      intro q
      by_cases h : q = target path
      · subst h
        have hfresh : fs.lookup (target path) = none := by
          split at hnone
          · exact absurd rfl hnone
          · exact Option.not_isSome_iff_eq_none.mp hnone
        exact Or.inr ⟨Or.inr ⟨hfresh, AList.lookup_insert _⟩, Or.inr (plain_target hzero)⟩
      · exact Or.inl (AList.lookup_insert_ne h)

theorem makeDirLoop_edits (P : Path → Prop) (fs : FileSystem) {done cs : Bytes}
    (hzero : 0 ∉ done ++ cs) : Edits P fs (makeDirLoop fs done cs) := by
  induction cs generalizing fs done with
  | nil => exact Edits.refl P fs
  | cons c cs ih =>
    have hsame : done ++ c :: cs = done ++ [c] ++ cs := by
      rw [List.append_assoc]
      rfl
    rw [makeDirLoop]
    have hrest : ∀ fs, Edits P fs (makeDirLoop fs (done ++ [c]) cs) := fun fs => ih fs (hsame ▸ hzero)
    split
    · have hdone : 0 ∉ done := fun h => hzero (List.mem_append_left _ h)
      exact (checkDir_edits P fs hdone).trans (hrest _)
    · exact hrest fs

/-- Only directories are made, and only where nothing is. -/
theorem makeDir_edits (P : Path → Prop) (fs : FileSystem) (hzero : 0 ∉ path) :
    Edits P fs (makeDir fs path) := by
  have hloop : Edits P fs (makeDirLoop fs [] path) := makeDirLoop_edits P fs hzero
  unfold makeDir
  split
  · exact hloop
  · exact hloop.trans (checkDir_edits P _ hzero)

/-! ## What a removal reaches -/

theorem walk_append (fs : FileSystem) (p : Path) (xs ys : List Bytes) :
    walk fs p (xs ++ ys) = (walk fs p xs).bind fun q => walk fs q ys := by
  induction xs generalizing p with
  | nil => rfl
  | cons x xs ih =>
    rw [List.cons_append, walk, walk]
    split
    · exact ih _
    · rfl

theorem resolve_child {c : Bytes} (h : resolve fs path = some p) (hdir : IsDir fs p)
    (hc : Plain c) : resolve fs (path ++ slash :: c) = some (p.child c) := by
  rw [resolve] at h
  rw [resolve, List.splitOn_append_cons_self, walk_append, h, splitOn_plain hc, Option.bind_some,
    walk, if_pos hdir, enter_plain hc]
  rfl

/-- The names of `cs` lead down from `p`. -/
def chain (p : Path) : List Bytes → List Path
  | [] => []
  | c :: cs => p.child c :: chain (p.child c) cs

def descend (p : Path) (cs : List Bytes) : Path := ⟨p.ups, p.comps ++ cs⟩

theorem descend_nil (p : Path) : descend p [] = p := by rw [descend, List.append_nil]

theorem descend_cons (p : Path) (c : Bytes) (cs : List Bytes) :
    descend p (c :: cs) = descend (p.child c) cs := by
  simp only [descend, Path.child, List.append_assoc, List.singleton_append]

def FirstChild (fs : FileSystem) (p : Path) (c : Bytes) (node : Node) : Prop :=
  ∃ rest, children fs p = (c, node) :: rest

/-- In each directory the way down to a file comes first. -/
inductive Leads (fs : FileSystem) : Path → List Bytes → Prop
  | file {p : Path} {c : Bytes} (bytes : Bytes) (h : FirstChild fs p c (.file bytes)) :
      Leads fs p [c]
  | dir {p : Path} {c : Bytes} {cs : List Bytes} (h : FirstChild fs p c .dir)
      (rest : Leads fs (p.child c) cs) : Leads fs p (c :: cs)

theorem FirstChild.lookup {c : Bytes} {node : Node} (h : FirstChild fs p c node) :
    fs.lookup (p.child c) = some node := by
  obtain ⟨rest, h⟩ := h
  exact mem_children.mp (h ▸ List.mem_cons_self)

theorem FirstChild.nodeAt {c : Bytes} {node : Node} (h : FirstChild fs p c node)
    (hres : resolve fs (path ++ slash :: c) = some (p.child c)) :
    nodeAt fs (path ++ slash :: c) = some node := by
  rw [Files.nodeAt, hres, Option.bind_some, if_neg (Path.child_ne_nil p c), h.lookup]

theorem Prunes.none (h : Prunes p fs fs') (hq : fs.lookup q = none) : fs'.lookup q = none := by
  rcases h q with hsame | ⟨_, hgone⟩
  · exact hsame.trans hq
  · exact hgone

/-- The loop starts with the first entry. -/
theorem removeDirFuel_first {fuel : Nat} {c : Bytes} {node : Node} (hfs : Proper fs)
    (hres : resolve fs path = some p) (hdir : IsDir fs p) (h : FirstChild fs p c node)
    (hgone : ∀ names, (∀ n ∈ names, Plain n) →
      (removeEntries (removeDirFuel fuel) path (c :: names) fs).2.lookup q = none) :
    (removeDirFuel (fuel + 1) fs path).2.lookup q = none := by
  obtain ⟨rest, hrest⟩ := h
  have hread : readDir fs path = some ((c, node) :: rest) := by
    rw [readDir, hres, Option.bind_some, if_pos hdir, hrest]
  have hnames := plain_of_readDir hfs hread
  have hloop := hgone (rest.map Prod.fst) fun n hn => hnames n (List.mem_cons_of_mem c hn)
  rw [removeDirFuel, hread]
  dsimp only [List.map_cons]
  split
  · exact (rmdir_prunes _ _).none hloop
  · exact hloop

/-- The file at the end of the way is removed, whatever becomes of the rest. -/
theorem removeDirFuel_leads {cs : List Bytes} {fuel : Nat} (hfs : Proper fs)
    (hres : resolve fs path = some p) (hdir : IsDir fs p) (h : Leads fs p cs)
    (hfuel : cs.length ≤ fuel) :
    (removeDirFuel fuel fs path).2.lookup (descend p cs) = none := by
  have hsub : ∀ fuel fs path, Proper fs →
      Prunes (target path) fs (removeDirFuel fuel fs path).2 :=
    fun fuel _ path hfs => removeDirFuel_prunes fuel hfs path
  induction h generalizing path fuel with
  | @file p c bytes hfirst =>
    obtain ⟨fuel, rfl⟩ := Nat.exists_eq_succ_of_ne_zero (Nat.ne_zero_of_lt hfuel)
    have hc : Plain c := hfs _ (hfirst.lookup ▸ Option.some_ne_none _) c
      (List.mem_append_right _ List.mem_cons_self)
    have hchild := resolve_child hres hdir hc
    refine removeDirFuel_first hfs hres hdir hfirst fun names hnames => ?_
    rw [removeEntries, hfirst.nodeAt hchild, descend_cons, descend_nil]
    have hunlink : (unlink fs (path ++ slash :: c)).lookup (p.child c) = none := by
      rw [unlink, hchild]
      exact AList.lookup_erase _ _
    exact (removeEntries_prunes (hsub fuel) hnames ((unlink_prunes fs _).proper hfs)).none hunlink
  | @dir p c cs hfirst hleads ih =>
    obtain ⟨fuel, rfl⟩ := Nat.exists_eq_succ_of_ne_zero (Nat.ne_zero_of_lt hfuel)
    have hc : Plain c := hfs _ (hfirst.lookup ▸ Option.some_ne_none _) c
      (List.mem_append_right _ List.mem_cons_self)
    have hchild := resolve_child hres hdir hc
    have hbelow := ih hchild (Or.inr hfirst.lookup) (Nat.le_of_succ_le_succ hfuel)
    refine removeDirFuel_first hfs hres hdir hfirst fun names hnames => ?_
    rw [removeEntries, hfirst.nodeAt hchild, descend_cons]
    dsimp only
    split
    · have hkept := ((hsub fuel fs (path ++ slash :: c) hfs).proper hfs)
      have hsecond := rmdir_prunes (removeDirFuel fuel fs (path ++ slash :: c)).2
        (path ++ slash :: c)
      exact (removeEntries_prunes (hsub fuel) hnames (hsecond.proper hkept)).none
        (hsecond.none hbelow)
    · exact hbelow

/-! ### A file system with a way down -/

theorem filterMap_kerase {β : Type} {f : Sigma (fun _ : Path => Node) → Option β}
    (hf : ∀ node, f ⟨q, node⟩ = none) (es : List (Sigma fun _ : Path => Node)) :
    (es.kerase q).filterMap f = es.filterMap f := by
  induction es with
  | nil => rfl
  | cons e es ih =>
    by_cases h : q = e.1
    · subst h
      rw [List.kerase_cons_eq rfl, List.filterMap_cons_none (hf e.2)]
    · rw [List.kerase_cons_ne h, List.filterMap_cons, List.filterMap_cons, ih]

theorem firstChild_insert (fs : FileSystem) (p : Path) (c : Bytes) (node : Node) :
    FirstChild (fs.insert (p.child c) node) p c node := by
  refine ⟨(fs.entries.kerase (p.child c)).filterMap fun e =>
    (p.nameIn e.1).map fun name => (name, e.2), ?_⟩
  have hname : p.nameIn (p.child c) = some c := Path.nameIn_eq_some.mpr rfl
  rw [children, AList.entries_insert, List.filterMap_cons_some]
  rw [hname]
  rfl

theorem FirstChild.insert {c : Bytes} {node : Node} (h : FirstChild fs p c node)
    (hq : ∀ d, q ≠ p.child d) (node' : Node) : FirstChild (fs.insert q node') p c node := by
  obtain ⟨rest, h⟩ := h
  have hname : p.nameIn q = none :=
    Option.eq_none_iff_forall_ne_some.mpr fun d hd => hq d (Path.nameIn_eq_some.mp hd)
  have hnone : ∀ node : Node, ((p.nameIn q).map fun name => (name, node)) = none := by
    intro node
    rw [hname]
    rfl
  refine ⟨rest, ?_⟩
  simp only [children, AList.entries_insert, List.filterMap_cons, hname, Option.map_none]
  exact (filterMap_kerase hnone _).trans h

/-- Directories on the way and a file at its end. -/
def addWay (fs : FileSystem) (p : Path) : List Bytes → FileSystem
  | [] => fs
  | [c] => fs.insert (p.child c) (.file [])
  | c :: d :: cs => addWay (fs.insert (p.child c) .dir) (p.child c) (d :: cs)

theorem FirstChild.addWay {c : Bytes} {node : Node} {cs : List Bytes}
    (h : FirstChild fs p c node) (hq : p.comps.length < q.comps.length) :
    FirstChild (addWay fs q cs) p c node := by
  have hother : ∀ d e, q.child d ≠ p.child e := by
    intro d e hsame
    rw [(Path.child_inj hsame).1] at hq
    exact lt_irrefl _ hq
  induction fs, q, cs using addWay.induct with
  | case1 fs q => exact h
  | case2 fs q d => exact h.insert (hother d) _
  | case3 fs q d e cs ih =>
    have hdeep : p.comps.length < (q.child d).comps.length := by
      rw [Path.child, List.length_append]
      exact Nat.lt_add_right 1 hq
    refine ih (h.insert (hother d) _) hdeep fun d' e' hsame => ?_
    rw [(Path.child_inj hsame).1] at hdeep
    exact lt_irrefl _ hdeep

theorem leads_addWay {cs : List Bytes} (hcs : cs ≠ []) (fs : FileSystem) (p : Path) :
    Leads (addWay fs p cs) p cs := by
  induction fs, p, cs using addWay.induct with
  | case1 fs p => exact absurd rfl hcs
  | case2 fs p c => exact Leads.file [] (firstChild_insert fs p c _)
  | case3 fs p c d cs ih =>
    refine Leads.dir ?_ (ih (List.cons_ne_nil d cs))
    refine (firstChild_insert fs p c .dir).addWay ?_
    rw [Path.child, List.length_append]
    exact Nat.lt_succ_self _

theorem lookup_addWay_end {cs : List Bytes} (hcs : cs ≠ []) (fs : FileSystem) (p : Path) :
    (addWay fs p cs).lookup (descend p cs) = some (.file []) := by
  induction fs, p, cs using addWay.induct with
  | case1 fs p => exact absurd rfl hcs
  | case2 fs p c =>
    rw [descend_cons, descend_nil]
    exact AList.lookup_insert _
  | case3 fs p c d cs ih =>
    rw [descend_cons]
    exact ih (List.cons_ne_nil d cs)

theorem isDir_addWay {cs : List Bytes} (hq : q ≠ descend p cs) (h : IsDir fs q) :
    IsDir (addWay fs p cs) q := by
  induction fs, p, cs using addWay.induct with
  | case1 fs p => exact h
  | case2 fs p c =>
    rw [descend_cons, descend_nil] at hq
    exact h.imp_right (AList.lookup_insert_ne hq).trans
  | case3 fs p c d cs ih =>
    rw [descend_cons] at hq
    refine ih hq (h.imp_right fun hdir => ?_)
    by_cases hsame : q = p.child c
    · subst hsame
      exact AList.lookup_insert _
    · exact (AList.lookup_insert_ne hsame).trans hdir

theorem Proper.insert (hfs : Proper fs) (hp : ∀ c ∈ p.comps, Plain c) (node : Node) :
    Proper (fs.insert p node) := (Edits.insert (P := fun _ => True) fs trivial hp node).proper hfs

theorem plain_child {c : Bytes} (hp : ∀ d ∈ p.comps, Plain d) (hc : Plain c) :
    ∀ d ∈ (p.child c).comps, Plain d := by
  intro d hd
  rcases List.mem_append.mp hd with hd | hd
  · exact hp d hd
  · exact List.mem_singleton.mp hd ▸ hc

theorem proper_addWay {cs : List Bytes} (hfs : Proper fs) (hp : ∀ c ∈ p.comps, Plain c)
    (hcs : ∀ c ∈ cs, Plain c) : Proper (addWay fs p cs) := by
  induction fs, p, cs using addWay.induct with
  | case1 fs p => exact hfs
  | case2 fs p c => exact hfs.insert (plain_child hp (hcs c List.mem_cons_self)) _
  | case3 fs p c d cs ih =>
    have hchild := plain_child hp (hcs c List.mem_cons_self)
    exact ih (hfs.insert hchild _) hchild fun e he => hcs e (List.mem_cons_of_mem c he)

/-- There are as many entries as there are steps down. -/
theorem Leads.length_le {cs : List Bytes} (h : Leads fs p cs) :
    cs.length ≤ fs.entries.length := by
  have hkeys : ∀ q ∈ chain p cs, q ∈ fs.keys := by
    induction h with
    | file bytes hfirst =>
      intro q hq
      rw [List.mem_singleton.mp hq]
      exact AList.mem_keys.mpr (AList.lookup_isSome.mp (hfirst.lookup ▸ rfl))
    | dir hfirst _ ih =>
      intro q hq
      rcases List.mem_cons.mp hq with rfl | hq
      · exact AList.mem_keys.mpr (AList.lookup_isSome.mp (hfirst.lookup ▸ rfl))
      · exact ih q hq
  have hdepth : ∀ (cs : List Bytes) (p : Path), ∀ q ∈ chain p cs, p.comps.length < q.comps.length := by
    intro cs
    induction cs with
    | nil => exact fun _ _ hq => nomatch hq
    | cons c cs ih =>
      intro p q hq
      have hchild : p.comps.length < (p.child c).comps.length := by
        rw [Path.child, List.length_append]
        exact Nat.lt_succ_self _
      rcases List.mem_cons.mp hq with rfl | hq
      · exact hchild
      · exact hchild.trans (ih _ q hq)
  have hnodup : ∀ (cs : List Bytes) (p : Path), (chain p cs).Nodup ∧ (chain p cs).length = cs.length := by
    intro cs
    induction cs with
    | nil => exact fun _ => ⟨List.nodup_nil, rfl⟩
    | cons c cs ih =>
      intro p
      obtain ⟨hnodup, hlen⟩ := ih (p.child c)
      refine ⟨List.nodup_cons.mpr ⟨fun hin => ?_, hnodup⟩, congrArg Nat.succ hlen⟩
      exact lt_irrefl _ (hdepth cs _ _ hin)
  have hle := (List.subperm_of_subset (hnodup cs p).1 hkeys).length_le
  rw [(hnodup cs p).2] at hle
  exact hle.trans_eq (List.length_map _)

/-! ### The directories of a path -/

def withDirs : List Path → FileSystem
  | [] => ∅
  | p :: ps => if p.comps = [] then withDirs ps else (withDirs ps).insert p .dir

theorem isDir_withDirs {ps : List Path} (h : p ∈ ps) : IsDir (withDirs ps) p := by
  induction ps with
  | nil => cases h
  | cons r ps ih =>
    rw [withDirs]
    split
    · next hroot =>
      rcases List.mem_cons.mp h with rfl | h
      · exact Or.inl hroot
      · exact ih h
    · by_cases hsame : p = r
      · subst hsame
        exact Or.inr (AList.lookup_insert _)
      · have hdir := ih ((List.mem_cons.mp h).resolve_left hsame)
        exact hdir.imp_right (AList.lookup_insert_ne hsame).trans

theorem proper_withDirs {ps : List Path} (h : ∀ p ∈ ps, ∀ c ∈ p.comps, Plain c) :
    Proper (withDirs ps) := by
  induction ps with
  | nil => exact fun _ hq => absurd rfl hq
  | cons p ps ih =>
    have hrest := ih fun q hq => h q (List.mem_cons_of_mem p hq)
    rw [withDirs]
    split
    · exact hrest
    · exact hrest.insert (h p List.mem_cons_self) _

theorem walk_of_positions {names : List Bytes} (h : ∀ q ∈ positions p names, IsDir fs q) :
    walk fs p names = some (names.foldl Path.enter p) := by
  induction names generalizing p with
  | nil => rfl
  | cons name names ih =>
    rw [walk, if_pos (h p List.mem_cons_self)]
    exact ih fun q hq => h q (List.mem_cons_of_mem p hq)

/-- A name longer than the path is that of no directory on the way. -/
def longName (path : Bytes) : Bytes := List.replicate (path.length + 1) 97

theorem plain_longName (path : Bytes) : Plain (longName path) := by
  have hmem : ∀ b ∈ longName path, b = 97 := fun b hb => List.eq_of_mem_replicate hb
  refine ⟨List.cons_ne_nil _ _, ?_, ?_, ?_, ?_⟩
  · intro h
    exact absurd (hmem 46 (h ▸ List.mem_cons_self)) (by decide)
  · intro h
    exact absurd (hmem 46 (h ▸ List.mem_cons_self)) (by decide)
  · intro h
    exact absurd (hmem slash h) (by decide)
  · intro h
    exact absurd (hmem 0 h) (by decide)

/-- Wherever it is below the target, a file may be there that the removal takes along. -/
theorem removeDir_reaches (hzero : 0 ∉ path) {cs : List Bytes} (hcs : ∀ c ∈ cs, Plain c) :
    ∃ fs, Proper fs ∧ fileExists fs path ∧
      bytesAt fs ((descend (target path) cs).child (longName path)) = some [] ∧
      bytesAt (removeDir fs path).2 ((descend (target path) cs).child (longName path)) = none := by
  have hend : (descend (target path) cs).child (longName path) =
      descend (target path) (cs ++ [longName path]) := by
    rw [descend, descend, Path.child, List.append_assoc]
  have hway : cs ++ [longName path] ≠ [] := List.append_ne_nil_of_right_ne_nil _ (List.cons_ne_nil _ _)
  have hplain : ∀ c ∈ cs ++ [longName path], Plain c := by
    intro c hc
    rcases List.mem_append.mp hc with hc | hc
    · exact hcs c hc
    · exact List.mem_singleton.mp hc ▸ plain_longName path
  let ps := positions Path.cwd (path.splitOn slash)
  have hps : ∀ q ∈ ps, q ≠ descend (target path) (cs ++ [longName path]) := by
    rintro q hq rfl
    have hlong := (mem_position (c := longName path) hq
      (List.mem_append_right _ (List.mem_append_right _ List.mem_cons_self)) hzero).2
    rw [longName, List.length_replicate] at hlong
    exact absurd hlong (Nat.not_succ_le_self _)
  let fs := addWay (withDirs ps) (target path) (cs ++ [longName path])
  have hdirs : ∀ q ∈ ps, IsDir fs q := fun q hq => isDir_addWay (hps q hq) (isDir_withDirs hq)
  have hfs : Proper fs := proper_addWay
    (proper_withDirs fun q hq c hc => (mem_position hq hc hzero).1) (plain_target hzero) hplain
  have hres : resolve fs path = some (target path) := walk_of_positions hdirs
  have hdir : IsDir fs (target path) := hdirs _ (foldl_mem_positions _ _)
  have hleads : Leads fs (target path) (cs ++ [longName path]) := leads_addWay hway _ _
  refine ⟨fs, hfs, ?_, ?_, ?_⟩
  · rw [fileExists, hres]
    exact decide_eq_true (Or.inl hdir)
  · rw [hend, bytesAt, lookup_addWay_end hway]
  · rw [hend, bytesAt, removeDir,
      removeDirFuel_leads hfs hres hdir hleads (hleads.length_le.trans (Nat.le_succ _))]

end Lib.Files
