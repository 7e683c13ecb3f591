import Wsmq.DurableFiles
import Wsmq.Lib.Framing
import Wsmq.Message

/-!
# Receiving packages from clients (`connectServer/connectServer.cpp`)

The receive side of a connection: the loop of `ProcessEpollData` that cuts what
`recv` returned into packages.  Pointers are offsets from `m_pRecvBuff`.
-/

namespace Wsmq
open Lib.ByteString Lib.Packing Lib.Framing

structure RecvBuff where
  recvBuff : Mem := zeroed
  recvHead : Nat := 0
  recvTail : Nat := 0

namespace RecvBuff

/-- The buffer with the index written, `*opNextPack` and `*opPackLen`. -/
def getClientPackageFromBuff (buf : Mem) (ipBuff ipBuffLen : Nat) (iClientIndex : Int) :
    Option (Mem × Nat × Nat) :=
  let iPackLen := readUShort buf ipBuff
  if ipBuffLen < sizeofClientPackageHead then none
  else if ipBuffLen < iPackLen then none
  else if iPackLen < sizeofClientPackageHead then none
  else some (buf.write (ipBuff + 2) (beInt 4 iClientIndex), ipBuff + iPackLen, iPackLen)

/-- The remainder goes to the start of the buffer. -/
def moveToStart (c : RecvBuff) : RecvBuff :=
  let iMoveCount := c.recvTail - c.recvHead
  ⟨c.recvBuff.write 0 (c.recvBuff.read c.recvHead iMoveCount), 0, iMoveCount⟩

/-- The loop over the packages, and what it enqueues: `Enqueue` is repeated as long as the
ring is full.  Each round takes a package off, so
`fuel` rounds are enough for as many bytes. -/
def splitLoop (iIndex : Int) : Nat → RecvBuff → Nat → Nat → List Bytes × RecvBuff
  | 0, c, _, _ => ([], c)
  | fuel + 1, c, pCurPack, buffLen =>
    match getClientPackageFromBuff c.recvBuff pCurPack buffLen iIndex with
    | none => ([], c.moveToStart)
    | some (buf, pNextPack, packLen) =>
      let pack := buf.read pCurPack packLen
      let c := { c with recvBuff := buf, recvHead := c.recvHead + packLen }
      if buffLen > packLen then
        let r := splitLoop iIndex fuel c pNextPack (buffLen - packLen)
        (pack :: r.1, r.2)
      else ([pack], { c with recvHead := 0, recvTail := 0 })

/-- `recv` has returned `data`; no result where it cannot return so much, or where it
returns nothing because the client has closed the connection. -/
def receive (iIndex : Int) (c : RecvBuff) (data : Bytes) : Option (List Bytes × RecvBuff) :=
  if data = [] ∨ data.length > serverBufferSize - c.recvTail then none
  else
    let c := { c with
      recvBuff := c.recvBuff.write c.recvTail data
      recvTail := c.recvTail + data.length }
    let buffLen := c.recvTail - c.recvHead
    some (splitLoop iIndex (buffLen + 1) c c.recvHead buffLen)

/-- One `recv` after the other. -/
def receives (iIndex : Int) (c : RecvBuff) : List Bytes → Option (List Bytes × RecvBuff)
  | [] => some ([], c)
  | data :: rest =>
    (c.receive iIndex data).bind fun r =>
      (receives iIndex r.2 rest).map fun s => (r.1 ++ s.1, s.2)

/-! ## Packages -/

/-- The length of the package that the bytes begin with, when it is there. -/
def packageSize (bs : Bytes) : Option Nat :=
  let iPackLen := readUShort (Mem.ofBytes bs) 0
  if bs.length < sizeofClientPackageHead then none
  else if bs.length < iPackLen then none
  else if iPackLen < sizeofClientPackageHead then none
  else some iPackLen

theorem packageSize_some {bs : Bytes} {n : Nat} (h : packageSize bs = some n) :
    readUShort (Mem.ofBytes bs) 0 = n ∧ sizeofClientPackageHead ≤ n ∧ n ≤ bs.length := by
  unfold packageSize at h
  dsimp only at h
  split at h
  · cases h
  · split at h
    · cases h
    · split at h
      · cases h
      · cases h
        exact ⟨rfl, by omega, by omega⟩

theorem packageSize_append {bs : Bytes} {n : Nat} (h : packageSize bs = some n) (cs : Bytes) :
    packageSize (bs ++ cs) = some n := by
  obtain ⟨hlen, hhead, hle⟩ := packageSize_some h
  have height : sizeofClientPackageHead = 8 := rfl
  have hsame : readUShort (Mem.ofBytes (bs ++ cs)) 0 = n := by
    rw [readUShort_left (by omega), hlen]
  have hlonger : bs.length ≤ (bs ++ cs).length := by
    rw [List.length_append]
    exact Nat.le_add_right _ _
  rw [packageSize, hsame, if_neg (by omega), if_neg (by omega), if_neg (by omega)]

def framer : Framer UInt8 where
  size := packageSize
  bound := fun h => by
    obtain ⟨_, hhead, hle⟩ := packageSize_some h
    have height : sizeofClientPackageHead = 8 := rfl
    omega
  stable := packageSize_append

/-- A package whose length field is right. -/
def IsPackage (p : Bytes) : Prop :=
  sizeofClientPackageHead ≤ p.length ∧ readUShort (Mem.ofBytes p) 0 = p.length

instance (p : Bytes) : Decidable (IsPackage p) := inferInstanceAs (Decidable (_ ∧ _))

theorem isFrame_of_isPackage {p : Bytes} (h : IsPackage p) : framer.IsFrame p := by
  have hsize : packageSize p = some p.length := by
    rw [packageSize, h.2, if_neg (Nat.not_lt.mpr h.1), if_neg (Nat.lt_irrefl _),
      if_neg (Nat.not_lt.mpr h.1)]
  exact hsize

/-- The package with the client index in its head. -/
def setIndex (iIndex : Int) (p : Bytes) : Bytes := p.take 2 ++ (beInt 4 iIndex ++ p.drop 6)

/-! ## The loop -/

theorem read_eq_take_drop {m : Mem} {a n k : Nat} {bs : Bytes} (h : m.read a n = bs) (hk : k ≤ n) :
    m.read a k = bs.take k ∧ m.read (a + k) (n - k) = bs.drop k := by
  obtain ⟨j, rfl⟩ := Nat.exists_eq_add_of_le hk
  have hlen : k = (m.read a k).length := (Mem.read_length _ _ _).symm
  rw [Mem.read_append] at h
  rw [← h, Nat.add_sub_cancel_left]
  exact ⟨(List.take_left' hlen.symm).symm, (List.drop_left' hlen.symm).symm⟩

theorem readUShort_of_read {m : Mem} {a n : Nat} {bs : Bytes} (h : m.read a n = bs)
    (hn : 2 ≤ n) : readUShort m a = readUShort (Mem.ofBytes bs) 0 := by
  have hbs : bs.length = n := by rw [← h, Mem.read_length]
  have hhold : (Mem.ofBytes bs).read 0 n = bs := hbs ▸ holds_ofBytes bs
  rw [readUShort, readUShort, (read_eq_take_drop h hn).1, (read_eq_take_drop hhold hn).1]

/-- Writing the index into the first package of the buffer. -/
theorem write_index {m : Mem} {a n k : Nat} {bs : Bytes} (iIndex : Int) (h : m.read a n = bs)
    (hk : sizeofClientPackageHead ≤ k) (hle : k ≤ n) :
    (m.write (a + 2) (beInt 4 iIndex)).read a k = setIndex iIndex (bs.take k) ∧
      (m.write (a + 2) (beInt 4 iIndex)).read (a + k) (n - k) = bs.drop k := by
  have height : sizeofClientPackageHead = 8 := rfl
  obtain ⟨hfirst, hrest⟩ := read_eq_take_drop h hle
  have hlen : (beInt 4 iIndex).length = 4 := beInt_length _ _
  refine ⟨?_, ?_⟩
  · obtain ⟨htwo, hsix⟩ := read_eq_take_drop hfirst (by omega : 2 ≤ k)
    obtain ⟨_, htail⟩ := read_eq_take_drop hfirst (by omega : 6 ≤ k)
    have hsplit : k = 2 + (4 + (k - 6)) := by omega
    have hnum : (m.write (a + 2) (beInt 4 iIndex)).read (a + 2) 4 = beInt 4 iIndex := by
      have hsame := Mem.read_write_same m (a + 2) (beInt 4 iIndex)
      rwa [hlen] at hsame
    have hbefore : (m.write (a + 2) (beInt 4 iIndex)).read a 2 = m.read a 2 :=
      Mem.read_congr fun i hi => Mem.write_of_lt _ _ (by omega)
    have hafter : (m.write (a + 2) (beInt 4 iIndex)).read (a + 2 + 4) (k - 6) =
        m.read (a + 6) (k - 6) :=
      Mem.read_congr fun i hi => Mem.write_of_ge _ _ (by omega)
    rw [hsplit, Mem.read_append, Mem.read_append, ← hsplit, hbefore, hnum, hafter, htwo, htail]
    rfl
  · rw [← hrest]
    exact Mem.read_congr fun i hi => Mem.write_of_ge _ _ (by omega)

/-- The buffer holds `bs` at its start and nothing else. -/
structure Keeps (c : RecvBuff) (bs : Bytes) : Prop where
  head : c.recvHead = 0
  tail : c.recvTail = bs.length
  bytes : c.recvBuff.read 0 bs.length = bs

/-- The bytes from `m_pRecvHead` to `m_pRecvTail`. -/
def unread (c : RecvBuff) : Bytes := c.recvBuff.read c.recvHead (c.recvTail - c.recvHead)

theorem Keeps.unread {c : RecvBuff} {bs : Bytes} (h : Keeps c bs) : c.unread = bs := by
  rw [RecvBuff.unread, h.head, h.tail, Nat.sub_zero]
  exact h.bytes

theorem moveToStart_keeps {c : RecvBuff} {bs : Bytes} (htail : c.recvTail = c.recvHead + bs.length)
    (h : c.recvBuff.read c.recvHead bs.length = bs) : Keeps c.moveToStart bs := by
  have hcount : c.recvTail - c.recvHead = bs.length := by omega
  refine ⟨rfl, hcount, ?_⟩
  rw [moveToStart, hcount, h]
  exact Mem.read_write_same _ _ _

/-- The loop cuts the unread bytes as the framer does. -/
theorem splitLoop_spec (iIndex : Int) (fuel : Nat) (c : RecvBuff) (bs : Bytes)
    (hfuel : bs.length < fuel) (htail : c.recvTail = c.recvHead + bs.length)
    (hread : c.recvBuff.read c.recvHead bs.length = bs) :
    (splitLoop iIndex fuel c c.recvHead bs.length).1 =
        (framer.drain bs).1.map (setIndex iIndex) ∧
      Keeps (splitLoop iIndex fuel c c.recvHead bs.length).2 (framer.drain bs).2 := by
  induction fuel generalizing c bs with
  | zero => omega
  | succ fuel ih =>
    have height : sizeofClientPackageHead = 8 := rfl
    have hget : getClientPackageFromBuff c.recvBuff c.recvHead bs.length iIndex =
        (packageSize bs).map fun n =>
          (c.recvBuff.write (c.recvHead + 2) (beInt 4 iIndex), c.recvHead + n, n) := by
      rw [getClientPackageFromBuff, packageSize]
      by_cases hshort : bs.length < sizeofClientPackageHead
      · rw [if_pos hshort, if_pos hshort]
        rfl
      · rw [readUShort_of_read hread (by omega), if_neg hshort, if_neg hshort]
        split
        · rfl
        · split <;> rfl
    rw [splitLoop, hget]
    cases hsize : packageSize bs with
    | none =>
      have hdrain : framer.drain bs = ([], bs) := Framer.drain_none hsize
      rw [hdrain]
      exact ⟨rfl, moveToStart_keeps htail hread⟩
    | some n =>
      obtain ⟨_, hhead, hle⟩ := packageSize_some hsize
      obtain ⟨hpack, hrest⟩ := write_index iIndex hread hhead hle
      have hdrain : framer.drain bs =
          (bs.take n :: (framer.drain (bs.drop n)).1, (framer.drain (bs.drop n)).2) :=
        Framer.drain_some hsize
      have hdrop : (bs.drop n).length = bs.length - n := List.length_drop
      rw [hdrain]
      dsimp only [Option.map_some]
      split
      · next hmore =>
        rw [← hdrop] at hrest ⊢
        have hnext := ih { c with
            recvBuff := c.recvBuff.write (c.recvHead + 2) (beInt 4 iIndex)
            recvHead := c.recvHead + n } (bs.drop n) (by omega) (by dsimp only; omega) hrest
        refine ⟨?_, hnext.2⟩
        dsimp only
        rw [hnext.1, hpack, List.map_cons]
      · next hlast =>
        have hnil : bs.drop n = [] := List.drop_eq_nil_of_le (by omega)
        have hnone : framer.drain [] = ([], []) := Framer.drain_none rfl
        rw [hnil, hnone, hpack]
        exact ⟨rfl, ⟨rfl, rfl, rfl⟩⟩

theorem receive_spec {iIndex : Int} {c : RecvBuff} {kept data : Bytes}
    {r : List Bytes × RecvBuff} (hc : Keeps c kept) (h : c.receive iIndex data = some r) :
    r.1 = (framer.drain (kept ++ data)).1.map (setIndex iIndex) ∧
      Keeps r.2 (framer.drain (kept ++ data)).2 := by
  unfold receive at h
  split at h
  · cases h
  · cases h
    have hlen : (kept ++ data).length = c.recvTail + data.length - c.recvHead := by
      rw [List.length_append, hc.tail, hc.head, Nat.sub_zero]
    have hread : (c.recvBuff.write c.recvTail data).read c.recvHead (kept ++ data).length =
        kept ++ data := by
      have hold : (c.recvBuff.write c.recvTail data).read 0 kept.length = kept := by
        have hsame : (c.recvBuff.write c.recvTail data).read 0 kept.length =
            c.recvBuff.read 0 kept.length :=
          Mem.read_congr fun i hi => Mem.write_of_lt _ _ (by rw [hc.tail]; omega)
        rw [hsame, hc.bytes]
      have hnew := Mem.read_write_same c.recvBuff c.recvTail data
      rw [hc.head, List.length_append, Mem.read_append, hold, Nat.zero_add]
      rw [hc.tail] at hnew ⊢
      rw [hnew]
    have hloop := splitLoop_spec iIndex ((kept ++ data).length + 1) { c with
        recvBuff := c.recvBuff.write c.recvTail data
        recvTail := c.recvTail + data.length } (kept ++ data) (Nat.lt_succ_self _)
      (by dsimp only; rw [hlen, hc.head]; omega) hread
    rw [hlen] at hloop
    exact hloop

/-- What a whole run receives is cut as if it had come at once. -/
theorem receives_spec {iIndex : Int} {chunks : List Bytes} {c : RecvBuff} {kept : Bytes}
    {r : List Bytes × RecvBuff} (hc : Keeps c kept) (hkept : framer.size kept = none)
    (h : receives iIndex c chunks = some r) :
    r.1 = (framer.drain (kept ++ chunks.flatten)).1.map (setIndex iIndex) ∧
      Keeps r.2 (framer.drain (kept ++ chunks.flatten)).2 := by
  induction chunks generalizing c kept r with
  | nil =>
    cases h
    rw [List.flatten_nil, List.append_nil, Framer.drain_none hkept]
    exact ⟨rfl, hc⟩
  | cons data rest ih =>
    obtain ⟨r₁, hfirst, hmap⟩ := Option.bind_eq_some_iff.mp h
    obtain ⟨r₂, hrest, rfl⟩ := Option.map_eq_some_iff.mp hmap
    obtain ⟨hout₁, hkeep₁⟩ := receive_spec hc hfirst
    obtain ⟨hout₂, hkeep₂⟩ := ih hkeep₁ (Framer.drain_snd _) hrest
    rw [List.flatten_cons, ← List.append_assoc, Framer.drain_append]
    refine ⟨?_, hkeep₂⟩
    dsimp only
    rw [hout₁, hout₂, List.map_append]

/-- However a stream of packages is split, the complete packages of what was received are
enqueued with the client index, and the rest stays in the buffer. -/
theorem receives_complete_packages {iIndex : Int} {pkgs chunks : List Bytes}
    {r : List Bytes × RecvBuff} (hpkgs : ∀ p ∈ pkgs, IsPackage p)
    (hpre : chunks.flatten <+: pkgs.flatten) (h : receives iIndex {} chunks = some r) :
    r.1 = (Framer.complete pkgs chunks.flatten.length).map (setIndex iIndex) ∧
      r.2.recvBuff.read r.2.recvHead (r.2.recvTail - r.2.recvHead) =
        chunks.flatten.drop (Framer.complete pkgs chunks.flatten.length).flatten.length := by
  have hfresh : Keeps {} [] := ⟨rfl, rfl, rfl⟩
  obtain ⟨hout, hkeep⟩ := receives_spec hfresh rfl h
  have hdrain := Framer.drain_prefix (fun p hp => isFrame_of_isPackage (hpkgs p hp)) hpre
  rw [List.nil_append, hdrain] at hout hkeep
  refine ⟨hout, ?_⟩
  have hbytes := hkeep.bytes
  rw [hkeep.head, hkeep.tail, Nat.sub_zero]
  exact hbytes

/-- Two packages in three pieces, cut inside the length field and inside a body. -/
theorem receives_two_packages :
    ∃ r, receives 7 {} [[0], [9, 0, 0, 0, 0, 0, 13, 1, 0, 8], [0, 0, 0, 0, 0, 9, 0]] = some r ∧
      r.1 = [[0, 9, 0, 0, 0, 7, 0, 13, 1], [0, 8, 0, 0, 0, 7, 0, 9]] ∧
      r.2.recvBuff.read r.2.recvHead (r.2.recvTail - r.2.recvHead) = [0] := by
  have hrun : (receives 7 {} [[0], [9, 0, 0, 0, 0, 0, 13, 1, 0, 8],
      [0, 0, 0, 0, 0, 9, 0]]).isSome := by decide +kernel
  obtain ⟨r, hr⟩ := Option.isSome_iff_exists.mp hrun
  have hspec := receives_complete_packages
    (by decide : ∀ p ∈ [[0, 9, 0, 0, 0, 0, 0, 13, 1], [0, 8, 0, 0, 0, 0, 0, 9],
      [0, 8, 0, 0, 0, 0, 0, 9]], IsPackage p)
    (by decide) hr
  refine ⟨r, hr, hspec.1.trans (by decide), hspec.2.trans (by decide)⟩

end RecvBuff

end Wsmq
