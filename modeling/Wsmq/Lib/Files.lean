import Mathlib.Data.List.AList
import Wsmq.Lib.ByteString

/-! Directories and regular files, found by paths from the working directory.
There are no links and no access rights; the working directory and those above it
exist always. -/

namespace Lib.Files
open Lib.ByteString

/-- So many levels up from the working directory, then down. -/
structure Path where
  ups : Nat
  comps : List Bytes
  deriving DecidableEq

namespace Path

def cwd : Path := ⟨0, []⟩

def child (p : Path) (name : Bytes) : Path := ⟨p.ups, p.comps ++ [name]⟩

def parent (p : Path) : Path :=
  if p.comps = [] then ⟨p.ups + 1, []⟩ else ⟨p.ups, p.comps.dropLast⟩

theorem child_inj {p q : Path} {m n : Bytes} (h : p.child m = q.child n) : p = q ∧ m = n := by
  obtain ⟨pu, pc⟩ := p
  obtain ⟨qu, qc⟩ := q
  obtain ⟨rfl, h⟩ := Path.mk.inj h
  have happ := List.append_inj' h rfl
  exact ⟨congrArg (Path.mk pu) happ.1, List.singleton_inj.mp happ.2⟩

/-- The name of `q` in the directory `p`. -/
def nameIn (p q : Path) : Option Bytes :=
  match q.comps.getLast? with
  | none => none
  | some name => if q = p.child name then some name else none

theorem nameIn_eq_some {p q : Path} {name : Bytes} : p.nameIn q = some name ↔ q = p.child name := by
  unfold nameIn
  constructor
  · intro h
    split at h
    · cases h
    · split at h
      · next hq =>
        cases h
        exact hq
      · cases h
  · rintro rfl
    have hlast : (p.child name).comps.getLast? = some name := List.getLast?_concat
    rw [hlast]
    exact if_pos rfl

theorem child_ne_nil (p : Path) (name : Bytes) : (p.child name).comps ≠ [] :=
  List.append_ne_nil_of_right_ne_nil _ (List.cons_ne_nil _ _)

end Path

inductive Node
  | dir
  | file (bytes : Bytes)
  deriving DecidableEq

abbrev FileSystem := AList fun _ : Path => Node

/-- The byte between the components of a path. -/
def slash : UInt8 := 47

/-- A name that is one component and stands for an entry of its directory. -/
def Plain (name : Bytes) : Prop :=
  name ≠ [] ∧ name ≠ [46] ∧ name ≠ [46, 46] ∧ slash ∉ name ∧ 0 ∉ name

instance (name : Bytes) : Decidable (Plain name) := inferInstanceAs (Decidable (_ ∧ _))

variable {fs : FileSystem} {p : Path}

/-! ## Looking up -/

def IsDir (fs : FileSystem) (p : Path) : Prop := p.comps = [] ∨ fs.lookup p = some .dir

instance (fs : FileSystem) (p : Path) : Decidable (IsDir fs p) :=
  inferInstanceAs (Decidable (_ ∨ _))

def Path.enter (p : Path) (name : Bytes) : Path :=
  if name = [] ∨ name = [46] then p else if name = [46, 46] then p.parent else p.child name

/-- Every name but the last must lead into a directory. -/
def walk (fs : FileSystem) : Path → List Bytes → Option Path
  | p, [] => some p
  | p, name :: names => if IsDir fs p then walk fs (p.enter name) names else none

def resolve (fs : FileSystem) (path : Bytes) : Option Path := walk fs .cwd (path.splitOn slash)

/-- The contents of a regular file. -/
def bytesAt (fs : FileSystem) (p : Path) : Option Bytes :=
  match fs.lookup p with
  | some (.file bytes) => some bytes
  | _ => none

def fileExists (fs : FileSystem) (path : Bytes) : Bool :=
  (resolve fs path).any fun p => IsDir fs p ∨ (fs.lookup p).isSome

def readFile (fs : FileSystem) (path : Bytes) : Option Bytes := (resolve fs path).bind (bytesAt fs)

/-- The entries of a directory, in some order. -/
def children (fs : FileSystem) (p : Path) : List (Bytes × Node) :=
  fs.entries.filterMap fun e => (p.nameIn e.1).map fun name => (name, e.2)

def readDir (fs : FileSystem) (path : Bytes) : Option (List (Bytes × Node)) :=
  (resolve fs path).bind fun p => if IsDir fs p then some (children fs p) else none

/-! ## Changing -/

def put (fs : FileSystem) (p : Path) (bytes : Bytes) : FileSystem := fs.insert p (.file bytes)

/-- Open for writing: the file is made when it is not there. -/
def openFile (fs : FileSystem) (path : Bytes) (truncate : Bool) : Option FileSystem :=
  (resolve fs path).bind fun p =>
    if IsDir fs p then none
    else some (put fs p (if truncate then [] else (bytesAt fs p).getD []))

/-- Bytes are added to the end of an open file. -/
def appendFile (fs : FileSystem) (path : Bytes) (bytes : Bytes) : FileSystem :=
  match resolve fs path with
  | none => fs
  | some p => put fs p ((bytesAt fs p).getD [] ++ bytes)

/-- A file or a directory with everything below it is removed. -/
def removeFile (fs : FileSystem) (path : Bytes) : FileSystem :=
  match resolve fs path with
  | none => fs
  | some p =>
    if IsDir fs p then
      ⟨fs.entries.filter fun e => ¬ (e.1.ups = p.ups ∧ p.comps.isPrefixOf e.1.comps),
        fs.nodupKeys.sublist List.filter_sublist⟩
    else fs.erase p

/-! ## Contents after a change -/

theorem bytesAt_put (fs : FileSystem) (p q : Path) (bytes : Bytes) :
    bytesAt (put fs p bytes) q = if q = p then some bytes else bytesAt fs q := by
  unfold bytesAt put
  by_cases h : q = p
  · subst h
    rw [AList.lookup_insert, if_pos rfl]
  · rw [AList.lookup_insert_ne h, if_neg h]

theorem bytesAt_erase (fs : FileSystem) (p q : Path) :
    bytesAt (fs.erase p) q = if q = p then none else bytesAt fs q := by
  unfold bytesAt
  by_cases h : q = p
  · subst h
    rw [AList.lookup_erase, if_pos rfl]
  · rw [AList.lookup_erase_ne h, if_neg h]

/-- The same paths are directories. -/
def SameDirs (fs fs' : FileSystem) : Prop := ∀ p, IsDir fs p ↔ IsDir fs' p

theorem SameDirs.refl (fs : FileSystem) : SameDirs fs fs := fun _ => Iff.rfl

theorem SameDirs.trans {fs' fs'' : FileSystem} (h : SameDirs fs fs') (h' : SameDirs fs' fs'') :
    SameDirs fs fs'' := fun p => (h p).trans (h' p)

theorem sameDirs_put (h : ¬ IsDir fs p) (bytes : Bytes) : SameDirs fs (put fs p bytes) := by
  intro q
  unfold IsDir put
  by_cases hq : q = p
  · subst hq
    rw [AList.lookup_insert]
    refine iff_of_false h ?_
    rintro (hnil | hdir)
    · exact h (Or.inl hnil)
    · cases hdir
  · rw [AList.lookup_insert_ne hq]

theorem sameDirs_erase (h : ¬ IsDir fs p) : SameDirs fs (fs.erase p) := by
  intro q
  unfold IsDir
  by_cases hq : q = p
  · subst hq
    rw [AList.lookup_erase]
    refine iff_of_false h ?_
    rintro (hnil | hdir)
    · exact h (Or.inl hnil)
    · cases hdir
  · rw [AList.lookup_erase_ne hq]

theorem walk_congr {fs' : FileSystem} (h : SameDirs fs fs') (p : Path) (names : List Bytes) :
    walk fs p names = walk fs' p names := by
  induction names generalizing p with
  | nil => rfl
  | cons name names ih => simp only [walk, h p, ih]

theorem resolve_congr {fs' : FileSystem} (h : SameDirs fs fs') (path : Bytes) :
    resolve fs path = resolve fs' path := walk_congr h _ _

theorem enter_plain {name : Bytes} (h : Plain name) (p : Path) : p.enter name = p.child name := by
  rw [Path.enter, if_neg (not_or.mpr ⟨h.1, h.2.1⟩), if_neg h.2.2.1]

theorem splitOn_plain {name : Bytes} (h : Plain name) : name.splitOn slash = [name] :=
  List.splitOn_eq_singleton h.2.2.2.1

theorem splitOn_plain_cons {name : Bytes} (h : Plain name) (rest : Bytes) :
    (name ++ slash :: rest).splitOn slash = name :: rest.splitOn slash :=
  List.splitOn_append_cons_self_of_not_mem h.2.2.2.1 rest

/-! ## Entries of a directory -/

theorem mem_children {name : Bytes} {node : Node} :
    (name, node) ∈ children fs p ↔ fs.lookup (p.child name) = some node := by
  have hentry : fs.lookup (p.child name) = some node ↔ ⟨p.child name, node⟩ ∈ fs.entries :=
    AList.mem_lookup_iff
  rw [hentry, children, List.mem_filterMap]
  constructor
  · rintro ⟨⟨q, node'⟩, hmem, h⟩
    obtain ⟨name', hname, heq⟩ := Option.map_eq_some_iff.mp h
    cases heq
    obtain rfl := Path.nameIn_eq_some.mp hname
    exact hmem
  · intro hmem
    refine ⟨_, hmem, ?_⟩
    rw [Path.nameIn_eq_some.mpr rfl]
    rfl

/-- No name stands twice in a directory. -/
theorem nodup_children (fs : FileSystem) (p : Path) : ((children fs p).map Prod.fst).Nodup := by
  have hkeys : fs.entries.Pairwise fun a b => a.1 ≠ b.1 := List.pairwise_map.mp fs.nodupKeys
  refine List.pairwise_map.mpr (List.Pairwise.filterMap _ ?_ hkeys)
  rintro a b hne ⟨m, x⟩ hx ⟨n, y⟩ hy (heq : m = n)
  obtain ⟨_, ha, hm⟩ := Option.map_eq_some_iff.mp hx
  obtain ⟨_, hb, hn⟩ := Option.map_eq_some_iff.mp hy
  cases hm
  cases hn
  have hsame := (Path.nameIn_eq_some.mp ha).trans (heq ▸ (Path.nameIn_eq_some.mp hb).symm)
  exact hne hsame

end Lib.Files
