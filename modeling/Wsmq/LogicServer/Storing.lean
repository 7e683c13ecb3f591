import Wsmq.LogicServer.Init
import Wsmq.LogicServer.Orders

/-!
# One file for each exchange or queue

A description of an exchange or a queue goes to the persistence server in a packet and becomes one
file in its directory.  The other files stay.
-/

namespace Wsmq.LogicServer
open Lib Lib.ByteString Lib.Packing Lib.Files
open PersistenceServer (infoFile subscribeFile bindingFile)

/-- A file in the directory of an exchange or a queue. -/
def dirFile (files : FileSystem) (k : PersistenceServer.Kind) (d f : Name) : Option Bytes :=
  readFile files (k.path ++ slash :: d ++ slash :: f)

/-- The directory is there, with `info.bin` as it was written when the object was created. -/
structure Created (files : FileSystem) (k : PersistenceServer.Kind) (d : Name) : Prop where
  stands : PersistenceServer.Stands files k d
  info : ∃ info, dirFile files k d infoFile = some info ∧
    maxNameLength + 2 + 1 + 1 ≤ info.length ∧ readName (Mem.ofBytes info) 0 = some d

section Directories

variable {files files' : FileSystem} {k : PersistenceServer.Kind} {d f : Name}

theorem queueFile_eq (files : FileSystem) (d f : Name) :
    queueFile files d f = dirFile files .queue d f := rfl

theorem exchangeFile_eq (files : FileSystem) (d f : Name) :
    exchangeFile files d f = dirFile files .exchange d f := rfl

theorem dirFile_stands (h : PersistenceServer.Stands files k d) (hf : Plain f) :
    dirFile files k d f = bytesAt files ((k.base.child d).child f) := h.readFile_sub hf

/-- Only the files in the directory matter. -/
theorem dirFile_congr (h : PersistenceServer.Stands files k d) (hdirs : SameDirs files files')
    (hf : Plain f) (hsame : bytesAt files' ((k.base.child d).child f) =
      bytesAt files ((k.base.child d).child f)) : dirFile files' k d f = dirFile files k d f := by
  rw [dirFile_stands h hf, dirFile_stands (h.congr hdirs) hf, hsame]

theorem Created.isName (h : Created files k d) : IsName d := by
  obtain ⟨info, -, -, hname⟩ := h.info
  exact isName_of_readName hname

theorem Created.congr (h : Created files k d) (hdirs : SameDirs files files')
    (hsame : bytesAt files' ((k.base.child d).child infoFile) =
      bytesAt files ((k.base.child d).child infoFile)) : Created files' k d := by
  obtain ⟨info, hinfo, hlong⟩ := h.info
  have hfile := dirFile_congr h.stands hdirs (by decide) hsame
  exact ⟨h.stands.congr hdirs, info, hfile.trans hinfo, hlong⟩

end Directories

/-! ## Packets -/

/-- A packet is accepted when its length field is right. -/
def acceptPacket (s : PersistenceServer) (pBuff : Bytes) : Option PersistenceServer :=
  if readUShort (Mem.ofBytes pBuff) 0 = pBuff.length then s.processPacket pBuff else none

/-- Every object is serialised, and its packet is accepted and processed. -/
def storeAll {α : Type} (serialize : α → Option Packed) :
    List α → PersistenceServer → Option PersistenceServer
  | [], s => some s
  | a :: rest, s => (serialize a).bind fun packed =>
      (acceptPacket s packed.sent).bind (storeAll serialize rest)

theorem acceptPacket_subscribe {s : PersistenceServer} {pBuff bytes : Bytes} {n : Name}
    (hc : PersistenceServer.Carries pBuff (.subscribe n bytes)) :
    acceptPacket s pBuff =
      some (s.rewrite (PersistenceServer.Kind.queue.dir n) subscribeFile bytes).2 := by
  have hown : readUShort (Mem.ofBytes pBuff) 0 = pBuff.length := by
    cases hc with
    | subscribe _ hp => exact hp.length
  rw [acceptPacket, if_pos hown]
  exact PersistenceServer.processPacket_subscribe hc s

theorem acceptPacket_bind {s : PersistenceServer} {pBuff bytes : Bytes} {n : Name}
    (hc : PersistenceServer.Carries pBuff (.bind n bytes)) :
    acceptPacket s pBuff =
      some (s.rewrite (PersistenceServer.Kind.exchange.dir n) bindingFile bytes).2 := by
  have hown : readUShort (Mem.ofBytes pBuff) 0 = pBuff.length := by
    cases hc with
    | bind _ hp => exact hp.length
  rw [acceptPacket, if_pos hown]
  exact PersistenceServer.processPacket_bind hc s

/-- The zeros of a buffer that was not written are no packet. -/
theorem acceptPacket_zeroed (s : PersistenceServer) :
    acceptPacket s (zeroed.read 0 maxClintPackageLength) = none := by
  have hread : (Mem.ofBytes (zeroed.read 0 maxClintPackageLength)).read 0 2 = [0, 0] :=
    Mem.read_ofBytes_read zeroed 0 (show 0 + 2 ≤ maxClintPackageLength by decide)
  rw [acceptPacket, readUShort, hread, Mem.read_length, if_neg (by decide)]

/-- The old files, and for each object the new one. -/
structure Stored {α : Type} (k : PersistenceServer.Kind) (f : Name) (name : α → Name)
    (bytes : α → Bytes) (as : List α) (files files' : FileSystem) : Prop where
  dirs : SameDirs files files'
  stored : ∀ a ∈ as, bytesAt files' ((k.base.child (name a)).child f) = some (bytes a)
  other : ∀ p, (∀ a ∈ as, p ≠ (k.base.child (name a)).child f) → bytesAt files' p = bytesAt files p

section Store

variable {α : Type} {k : PersistenceServer.Kind} {f : Name} {name : α → Name} {bytes : α → Bytes}
  {serialize : α → Option Packed} {as : List α} {s : PersistenceServer} {files files' : FileSystem}

theorem storeAll_stored (hf : Plain f) (hnames : (as.map name).Nodup)
    (hstands : ∀ a ∈ as, PersistenceServer.Stands s.files k (name a))
    (hpacket : ∀ a ∈ as, ∃ packed, serialize a = some packed ∧ ∀ s, acceptPacket s packed.sent =
      some (s.rewrite (k.dir (name a)) f (bytes a)).2) :
    ∃ s', storeAll serialize as s = some s' ∧ Stored k f name bytes as s.files s'.files := by
  induction as generalizing s with
  | nil =>
    exact ⟨s, rfl, SameDirs.refl _, fun a ha => absurd ha List.not_mem_nil, fun _ _ => rfl⟩
  | cons a rest ih =>
    obtain ⟨hnew, hnames⟩ := List.nodup_cons.mp hnames
    obtain ⟨packed, hpacked, haccept⟩ := hpacket a List.mem_cons_self
    obtain ⟨files, hrun, hputs⟩ := PersistenceServer.rewrite_puts
      (hstands a List.mem_cons_self) hf (bytes a)
    obtain ⟨s', hstore, hstored⟩ := @ih { s with files := files } hnames
      (fun b hb => (hstands b (List.mem_cons_of_mem _ hb)).congr hputs.dirs)
      fun b hb => hpacket b (List.mem_cons_of_mem _ hb)
    refine ⟨s', ?_, hputs.dirs.trans hstored.dirs, ?_, ?_⟩
    · rw [storeAll, hpacked, Option.bind_some, haccept, hrun, Option.bind_some]
      exact hstore
    · intro b hb
      rcases List.mem_cons.mp hb with rfl | hb
      · rw [hstored.other, hputs.bytesAt]
        · exact if_pos rfl
        · intro c hc hsame
          have hname := (Path.child_inj (Path.child_inj hsame).1).2
          exact hnew (List.mem_map.mpr ⟨c, hc, hname.symm⟩)
      · exact hstored.stored b hb
    · intro p hp
      rw [hstored.other p fun b hb => hp b (List.mem_cons_of_mem _ hb), hputs.bytesAt]
      exact if_neg (hp a List.mem_cons_self)

/-- Every packet was accepted. -/
theorem storeAll_accepts {s' : PersistenceServer} (h : storeAll serialize as s = some s') :
    ∀ a ∈ as, ∃ packed, serialize a = some packed ∧
      ∃ s₀, (acceptPacket s₀ packed.sent).isSome := by
  induction as generalizing s with
  | nil =>
    intro a ha
    cases ha
  | cons a₀ rest ih =>
    obtain ⟨packed, hpacked, hrest⟩ := Option.bind_eq_some_iff.mp h
    obtain ⟨s₁, haccept, hrest⟩ := Option.bind_eq_some_iff.mp hrest
    intro a ha
    rcases List.mem_cons.mp ha with rfl | ha
    · exact ⟨packed, hpacked, s, Option.isSome_of_eq_some haccept⟩
    · exact ih hrest a ha

/-- A directory of no object keeps all its files. -/
theorem Stored.foreign (h : Stored k f name bytes as files files') {d : Name}
    (hd : ∀ a ∈ as, name a ≠ d) (g : Name) :
    bytesAt files' ((k.base.child d).child g) = bytesAt files ((k.base.child d).child g) := by
  refine h.other _ ?_
  intro a ha hsame
  exact hd a ha (Path.child_inj (Path.child_inj hsame).1).2.symm

/-- A file of another name stays. -/
theorem Stored.dirFile_eq (h : Stored k f name bytes as files files') {d g : Name}
    (hstands : PersistenceServer.Stands files k d) (hg : Plain g) (hne : g ≠ f) :
    dirFile files' k d g = dirFile files k d g := by
  refine dirFile_congr hstands h.dirs hg (h.other _ ?_)
  intro a _ hsame
  exact hne (Path.child_inj hsame).2

theorem Stored.created (h : Stored k f name bytes as files files') {d : Name}
    (hcreated : Created files k d) (hne : infoFile ≠ f) : Created files' k d := by
  refine hcreated.congr h.dirs (h.other _ ?_)
  intro a _ hsame
  exact hne (Path.child_inj hsame).2

theorem Stored.listed (h : Stored k f name bytes as files files') {d : Name} :
    d ∈ PersistenceServer.subDirs files' k ↔ d ∈ PersistenceServer.subDirs files k := by
  rw [PersistenceServer.mem_subDirs, PersistenceServer.mem_subDirs, h.dirs, h.dirs]

theorem Created.listed (h : Created files k f) : f ∈ PersistenceServer.subDirs files k :=
  PersistenceServer.mem_subDirs.mpr ⟨h.stands.base, h.stands.dir⟩

end Store

end Wsmq.LogicServer
