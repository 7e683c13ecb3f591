import Wsmq.Client.Receive

/-!
# The receive window of the client library (`client/client.cpp`)

`RecvPack` and `RecvOnePack` on the buffer of a connection.  Pointers are offsets from
`m_pRecvBuff`.
-/

namespace Wsmq
open Lib Lib.ByteString Lib.Packing

namespace Client

def sockRecvBuffSize : Nat := 1024 * 1024 * 10
def error : Int := -1
def errSeverClosed : Int := -613

end Client

/-- What a call does with the buffer and its pointers. -/
inductive Access
  /-- A field of `size` bytes at `pos` is read, for the package of `iPackLen` bytes at `head`. -/
  | read (head iPackLen pos size : Nat)
  /-- `memcpy` to `opBuffer`. -/
  | copy (iDataLen : Int)
  /-- `memmove` to the front. -/
  | move (iMoveCount : Int)
  /-- The pointers have new values. -/
  | point (recvHead recvTail : Int)
  deriving DecidableEq

structure RecvWindow where
  bBuild : Bool := true
  recvBuff : Mem := zeroed
  recvHead : Nat := 0
  recvTail : Nat := 0

namespace RecvWindow

/-- `m_pRecvTail-m_pRecvHead`. -/
def iLen (w : RecvWindow) : Int := w.recvTail - w.recvHead

/-- `m_pRecvEnd-m_pRecvTail`. -/
def iFreeSpace (w : RecvWindow) : Int := Client.sockRecvBuffSize - w.recvTail

def iPackLen (w : RecvWindow) : Nat := readUShort w.recvBuff w.recvHead

/-- A whole package is there.  `iLen` is compared with a `sizeof`, and so without its sign. -/
def HasPack (w : RecvWindow) : Prop :=
  sizeofClientPackageHead < w.iLen % 2 ^ 64 ∧ w.iPackLen ≤ w.iLen

instance (w : RecvWindow) : Decidable w.HasPack := inferInstanceAs (Decidable (_ ∧ _))

def received (w : RecvWindow) (bs : Bytes) : RecvWindow :=
  { w with recvBuff := w.recvBuff.write w.recvTail bs, recvTail := w.recvTail + bs.length }

def closed (w : RecvWindow) : RecvWindow := { w with bBuild := false }

/-- `ret` is what waiting and `recv` come to, where they are called. -/
def recvPack (w : RecvWindow) (ret : RecvRet) : Int × RecvWindow :=
  if w.HasPack then (Client.success, w)
  else
    match ret with
    | .again => (Client.error, w)
    | .failed => (Client.errSeverClosed, w.closed)
    | .recvd bs =>
      if bs = [] then (Client.errSeverClosed, w.closed)
      else if (w.received bs).HasPack then (Client.success, w.received bs)
      else (Client.error, w.received bs)

/-- The fields of the head. -/
def headReads (w : RecvWindow) : List Access :=
  [.read w.recvHead w.iPackLen w.recvHead 2, .read w.recvHead w.iPackLen (w.recvHead + 2) 4,
    .read w.recvHead w.iPackLen (w.recvHead + 6) 2]

/-- `RecvOnePack` once `RecvPack` has succeeded: what it does with the buffer, then command and
data, or nothing when the package is too long.  It has no result when `memcpy` or `memmove` is given
less than nothing. -/
def takeSteps (w : RecvWindow) : List Access × Option (Option (Nat × Bytes) × RecvWindow) :=
  let iCmdId := readUShort w.recvBuff (w.recvHead + 6)
  if w.iPackLen > maxClintPackageLength - sizeofClientPackageHead then
    (w.headReads, some (none, w))
  else
    let iDataLen : Int := w.iPackLen - sizeofClientPackageHead
    let copied := w.headReads ++ [.copy iDataLen]
    if iDataLen < 0 then (copied, none)
    else
      let data := w.recvBuff.read (w.recvHead + sizeofClientPackageHead) iDataLen.toNat
      let recvHead := w.recvHead + w.iPackLen
      let iMoveCount : Int := w.recvTail - recvHead
      let moved := copied ++ [.point recvHead w.recvTail, .move iMoveCount]
      if iMoveCount < 0 then (moved, none)
      else
        (moved ++ [.point 0 iMoveCount], some (some (iCmdId, data), { w with
          recvBuff := w.recvBuff.write 0 (w.recvBuff.read recvHead iMoveCount.toNat)
          recvHead := 0
          recvTail := iMoveCount.toNat }))

def takePack (w : RecvWindow) : Option (Option (Nat × Bytes) × RecvWindow) := w.takeSteps.2

/-- What the socket has when `recv` is called: nothing yet, or at least `n + 1` bytes if there are
so many left. -/
inductive Found
  | again
  | ready (n : Nat)
  deriving DecidableEq

/-- `recv`, which is asked for as much as there is room, and what is left of the stream. -/
def recv (incoming : Bytes) (iFreeSpace : Int) : Found → RecvRet × Bytes
  | .again => (.again, incoming)
  | .ready n =>
    let k := min (n + 1) iFreeSpace.toNat
    (.recvd (incoming.take k), incoming.drop k)

/-- The loop around `RecvPack`, which goes on for longer than `fs` when it has no result. -/
def recvLoop : List Found → RecvWindow → Bytes → Option (Bool × RecvWindow × Bytes × List Found)
  | [], w, incoming => if w.HasPack then some (true, w, incoming, []) else none
  | f :: fs, w, incoming =>
    if w.HasPack then some (true, w, incoming, f :: fs)
    else
      let (ret, incoming) := recv incoming w.iFreeSpace f
      let (iRet, w) := w.recvPack ret
      if iRet = Client.errSeverClosed then some (false, w, incoming, fs)
      else if iRet = Client.success then some (true, w, incoming, fs)
      else recvLoop fs w incoming

def recvOnePack (w : RecvWindow) (incoming : Bytes) (fs : List Found) :
    Option (Option (Nat × Bytes) × RecvWindow × Bytes × List Found) :=
  if ¬ w.bBuild then some (none, w, incoming, fs)
  else
    (recvLoop fs w incoming).bind fun (found, w, incoming, fs) =>
      if ¬ found then some (none, w, incoming, fs)
      else w.takePack.map fun (pack, w) => (pack, w, incoming, fs)

/-- Calls of `RecvOnePack` one after the other. -/
def recvOnePacks : Nat → RecvWindow → Bytes → List Found →
    Option (List (Option (Nat × Bytes)) × RecvWindow × Bytes × List Found)
  | 0, w, incoming, fs => some ([], w, incoming, fs)
  | k + 1, w, incoming, fs =>
    (w.recvOnePack incoming fs).bind fun (pack, w, incoming, fs) =>
      (recvOnePacks k w incoming fs).map fun (packs, rest) => (pack :: packs, rest)

/-! ## What the window holds -/

/-- Between two calls the window starts at the front, and holds `window`. -/
structure Keeps (w : RecvWindow) (window : Bytes) : Prop where
  bBuild : w.bBuild
  head : w.recvHead = 0
  tail : w.recvTail = window.length
  unread : w.recvBuff.read 0 window.length = window
  room : window.length ≤ Client.sockRecvBuffSize

variable {w w' : RecvWindow} {window incoming incoming' data pack : Bytes} {iCmdId : Nat}
  {fs fs' : List Found}

theorem keeps_fresh : Keeps {} [] := ⟨rfl, rfl, rfl, rfl, Nat.zero_le _⟩

theorem Keeps.ofBytes (h : Keeps w window) {a n : Nat} (hin : a + n ≤ window.length) :
    w.recvBuff.read a n = (Mem.ofBytes window).read a n := by
  have hread := Mem.read_ofBytes_read w.recvBuff 0 hin
  rw [h.unread, Nat.zero_add] at hread
  exact hread.symm

/-- The test does what it is meant to do. -/
theorem Keeps.hasPack_iff (h : Keeps w window) : w.HasPack ↔ Wsmq.HasPack window := by
  have hlen : w.iLen = window.length := by
    rw [iLen, h.head, h.tail]
    omega
  have hroom := h.room
  have hsize : Client.sockRecvBuffSize = 10485760 := rfl
  have hunsigned : (window.length : Int) % 2 ^ 64 = window.length := by omega
  rw [HasPack, Wsmq.HasPack, hlen, hunsigned, Int.ofNat_lt, Int.ofNat_le]
  refine and_congr_right fun hlong => ?_
  have hhead : sizeofClientPackageHead = 8 := rfl
  rw [iPackLen, h.head, readUShort, h.ofBytes (by omega), ← readUShort]

theorem Keeps.received (h : Keeps w window)
    (hroom : window.length + data.length ≤ Client.sockRecvBuffSize) :
    Keeps (w.received data) (window ++ data) := by
  refine ⟨h.bBuild, h.head, ?_, ?_, ?_⟩
  · rw [List.length_append, ← h.tail]
    rfl
  · have hold : (w.recvBuff.write w.recvTail data).read 0 window.length = window := by
      have hsame : (w.recvBuff.write w.recvTail data).read 0 window.length =
          w.recvBuff.read 0 window.length :=
        Mem.read_congr fun i hi => Mem.write_of_lt _ _ (by rw [h.tail]; omega)
      rw [hsame, h.unread]
    show (w.recvBuff.write w.recvTail data).read 0 (window ++ data).length = window ++ data
    rw [List.length_append, Mem.read_append, hold, Nat.zero_add, h.tail, Mem.read_write_same]
  · rwa [List.length_append]

/-- The package at the front is taken, and the bytes behind it move to the front. -/
theorem Keeps.takePack (h : Keeps w window) (hp : IsPack pack iCmdId data)
    (hpre : pack <+: window) : ∃ w', w.takePack = some (some (iCmdId, data), w') ∧
      Keeps w' (window.drop pack.length) := by
  have hhead : sizeofClientPackageHead = 8 := rfl
  have hlong := hp.long
  have hle := hpre.length_le
  have hlen : w.iPackLen = pack.length := by
    rw [iPackLen, h.head, readUShort, h.ofBytes (by omega), ← readUShort, hp.window_packLen hpre]
  have hcmd : readUShort w.recvBuff (w.recvHead + 6) = iCmdId := by
    rw [h.head, readUShort, h.ofBytes (by omega), ← readUShort, hp.window_cmdId hpre]
  have hdataLen : ((pack.length : Int) - sizeofClientPackageHead).toNat =
      pack.length - sizeofClientPackageHead := by omega
  have hmove : ((w.recvTail : Int) - (w.recvHead + pack.length : Nat)).toNat =
      window.length - pack.length := by
    rw [h.head, h.tail]
    omega
  have hrest : w.recvBuff.read pack.length (window.length - pack.length) =
      window.drop pack.length := by
    have hunread := h.unread
    have hsplit : window.length = pack.length + (window.length - pack.length) := by omega
    rw [hsplit, Mem.read_append, Nat.zero_add] at hunread
    conv_rhs => rw [← hunread]
    rw [List.drop_left' (Mem.read_length _ _ _)]
  have hbody := hp.window_data hpre
  have hread := h.ofBytes (a := sizeofClientPackageHead)
    (n := pack.length - sizeofClientPackageHead) (by omega)
  unfold RecvWindow.takePack takeSteps
  dsimp only
  rw [hlen, if_neg (Nat.not_lt.mpr hp.short), if_neg (by omega), if_neg (by
    rw [h.head, h.tail]; omega), hcmd, hdataLen, hmove, h.head, Nat.zero_add, Nat.zero_add, hrest,
    hread, hbody]
  refine ⟨_, rfl, h.bBuild, rfl, ?_, ?_, ?_⟩
  · rw [List.length_drop]
  · exact Mem.read_write_same _ _ _
  · have hroom := h.room
    rw [List.length_drop]
    omega

/-! ## The loop -/

/-- How often the socket has something. -/
def readies (fs : List Found) : Nat := fs.countP (· ≠ .again)

theorem recvLoop_again (fs : List Found) (hpack : ¬ w.HasPack) :
    recvLoop (.again :: fs) w incoming = recvLoop fs w incoming := by
  rw [recvLoop, if_neg hpack]
  dsimp only [recv, recvPack]
  rw [if_neg hpack]
  rfl

/-- There is room for some bytes, and there are some. -/
theorem recvLoop_ready (h : Keeps w window) (hp : IsPack pack iCmdId data)
    (hpre : pack <+: window ++ incoming) (hpart : ¬ pack <+: window) (n : Nat) (fs : List Found) :
    ∃ bs incoming', bs ++ incoming' = incoming ∧ bs ≠ [] ∧
      window.length + bs.length ≤ Client.sockRecvBuffSize ∧
      recvLoop (.ready n :: fs) w incoming =
        if (w.received bs).HasPack then some (true, w.received bs, incoming', fs)
        else recvLoop fs (w.received bs) incoming' := by
  have hmore : incoming ≠ [] := by
    rintro rfl
    exact hpart (by rwa [List.append_nil] at hpre)
  have hshort : window.length < pack.length := by
    by_contra hle
    exact hpart (List.prefix_of_prefix_length_le hpre (List.prefix_append _ _) (by omega))
  have hsize : Client.sockRecvBuffSize = 10485760 := rfl
  have hmax : maxClintPackageLength - sizeofClientPackageHead = 11256 := rfl
  have hp_short := hp.short
  have hfree : w.iFreeSpace.toNat = Client.sockRecvBuffSize - window.length := by
    rw [iFreeSpace, h.tail]
    omega
  have hpack : ¬ w.HasPack := by
    rw [h.hasPack_iff, hp.hasPack_iff hpre (List.prefix_append _ _)]
    exact hpart
  have hne : incoming.take (min (n + 1) w.iFreeSpace.toNat) ≠ [] := by
    rw [Ne, List.take_eq_nil_iff]
    rintro (hzero | hnil)
    · omega
    · exact hmore hnil
  refine ⟨_, _, List.take_append_drop (min (n + 1) w.iFreeSpace.toNat) incoming, hne, ?_, ?_⟩
  · rw [List.length_take]
    omega
  · rw [recvLoop, if_neg hpack]
    dsimp only [recv, recvPack]
    rw [if_neg hpack, if_neg hne]
    by_cases hnow : (w.received (incoming.take (min (n + 1) w.iFreeSpace.toNat))).HasPack
    · rw [if_pos hnow, if_pos hnow]
      rfl
    · rw [if_neg hnow, if_neg hnow]
      rfl

/-- As long as the next package is not complete, the loop receives; then it ends. -/
theorem recvLoop_spec (h : Keeps w window) (hp : IsPack pack iCmdId data)
    (hpre : pack <+: window ++ incoming) (fs : List Found) :
    (∀ found w' incoming' fs', recvLoop fs w incoming = some (found, w', incoming', fs') →
      found = true ∧ ∃ window', Keeps w' window' ∧ pack <+: window' ∧
        window' ++ incoming' = window ++ incoming ∧
          readies fs + incoming'.length ≤ readies fs' + incoming.length) ∧
    (incoming.length ≤ readies fs → (recvLoop fs w incoming).isSome) := by
  induction fs generalizing w window incoming with
  | nil =>
    have hhas := h.hasPack_iff.trans (hp.hasPack_iff hpre (List.prefix_append _ _))
    rw [recvLoop]
    constructor
    · intro found w' incoming' fs' hloop
      split at hloop
      · next hpack =>
        cases hloop
        exact ⟨rfl, window, h, hhas.mp hpack, rfl, Nat.le_refl _⟩
      · cases hloop
    · intro hempty
      rw [List.length_eq_zero_iff.mp (Nat.le_zero.mp hempty), List.append_nil] at hpre
      rw [if_pos (hhas.mpr hpre)]
      rfl
  | cons f fs ih =>
    have hhas := h.hasPack_iff.trans (hp.hasPack_iff hpre (List.prefix_append _ _))
    by_cases hpack : w.HasPack
    · have hdone : recvLoop (f :: fs) w incoming = some (true, w, incoming, f :: fs) := by
        rw [recvLoop, if_pos hpack]
      rw [hdone]
      refine ⟨fun found w' incoming' fs' hloop => ?_, fun _ => rfl⟩
      cases hloop
      exact ⟨rfl, window, h, hhas.mp hpack, rfl, Nat.le_refl _⟩
    · cases f with
      | again =>
        rw [recvLoop_again fs hpack]
        exact ih h hpre
      | ready n =>
        obtain ⟨bs, incoming₁, hsplit, hne, hroom, hloop⟩ :=
          recvLoop_ready h hp hpre (fun hwhole => hpack (hhas.mpr hwhole)) n fs
        have hkeeps := h.received hroom
        have hpre₁ : pack <+: (window ++ bs) ++ incoming₁ := by
          rw [List.append_assoc, hsplit]
          exact hpre
        have hlen := congrArg List.length hsplit
        rw [List.length_append] at hlen
        have hpos := List.length_pos_iff.mpr hne
        have hcount : readies (.ready n :: fs) = readies fs + 1 := List.countP_cons_of_pos (by simp)
        rw [hloop, hcount]
        split
        · next hnow =>
          refine ⟨fun found w' incoming' fs' hsome => ?_, fun _ => rfl⟩
          cases hsome
          have hhas₁ := hkeeps.hasPack_iff.trans
            (hp.hasPack_iff hpre₁ (List.prefix_append _ _))
          refine ⟨rfl, _, hkeeps, hhas₁.mp hnow, by rw [List.append_assoc, hsplit], by omega⟩
        · obtain ⟨hsafe, hlive⟩ := ih hkeeps hpre₁
          refine ⟨fun found w' incoming' fs' hsome => ?_, fun hle => hlive (by omega)⟩
          obtain ⟨hfound, window', hkeeps', hpre', hsame, hle⟩ := hsafe _ _ _ _ hsome
          refine ⟨hfound, window', hkeeps', hpre', ?_, by omega⟩
          rw [hsame, List.append_assoc, hsplit]

theorem recvOnePack_spec (h : Keeps w window) (hp : IsPack pack iCmdId data)
    (hpre : pack <+: window ++ incoming) (fs : List Found) :
    (∀ out w' incoming' fs', w.recvOnePack incoming fs = some (out, w', incoming', fs') →
      out = some (iCmdId, data) ∧ ∃ window', Keeps w' window' ∧
        pack ++ window' ++ incoming' = window ++ incoming ∧
          readies fs + incoming'.length ≤ readies fs' + incoming.length) ∧
    (incoming.length ≤ readies fs → (w.recvOnePack incoming fs).isSome) := by
  obtain ⟨hsafe, hlive⟩ := recvLoop_spec h hp hpre fs
  have hopen : ¬ ¬ w.bBuild := not_not.mpr h.bBuild
  rw [recvOnePack, if_neg hopen]
  cases hloop : recvLoop fs w incoming with
  | none =>
    rw [hloop] at hlive
    refine ⟨fun _ _ _ _ hsome => ?_, hlive⟩
    cases hsome
  | some r =>
    obtain ⟨found, w₁, incoming₁, fs₁⟩ := r
    obtain ⟨rfl, window₁, hkeeps, hwhole, hsame, hle⟩ := hsafe _ _ _ _ hloop
    obtain ⟨w₂, htake, hkeeps₂⟩ := hkeeps.takePack hp hwhole
    rw [Option.bind_some]
    dsimp only
    rw [if_neg (by decide), htake]
    refine ⟨fun out w' incoming' fs' hsome => ?_, fun _ => rfl⟩
    cases hsome
    refine ⟨rfl, _, hkeeps₂, ?_, hle⟩
    rw [← hsame]
    obtain ⟨rest, rfl⟩ := hwhole
    rw [List.drop_left]

/-! ## A stream of packages -/

/-- From `m_pRecvHead` to `m_pRecvTail`. -/
def unread (w : RecvWindow) : Bytes := w.recvBuff.read w.recvHead (w.recvTail - w.recvHead)

theorem Keeps.unread_eq {bs : Bytes} (h : Keeps w bs) : w.unread = bs := by
  rw [RecvWindow.unread, h.head, h.tail, Nat.sub_zero]
  exact h.unread

/-- A package whose length field is right and in the range that `RecvOnePack` takes. -/
def ServerPackage (p : Bytes) : Prop :=
  readUShort (Mem.ofBytes p) 0 = p.length ∧ sizeofClientPackageHead + 1 ≤ p.length ∧
    p.length ≤ maxClintPackageLength - sizeofClientPackageHead

instance (p : Bytes) : Decidable (ServerPackage p) := inferInstanceAs (Decidable (_ ∧ _ ∧ _))

/-- The command and the body. -/
def content (p : Bytes) : Nat × Bytes :=
  (readUShort (Mem.ofBytes p) 6, p.drop sizeofClientPackageHead)

theorem ServerPackage.isPack {p : Bytes} (h : ServerPackage p) :
    IsPack p (content p).1 (content p).2 := ⟨h.1, rfl, rfl, h.2.1, h.2.2⟩

theorem recvOnePacks_spec {packs : List Bytes} (hpacks : ∀ p ∈ packs, ServerPackage p)
    {bs : Bytes} (h : Keeps w bs) (hstream : bs ++ incoming = packs.flatten) {k : Nat}
    (hk : k ≤ packs.length) (fs : List Found) :
    (∀ outs w' incoming' fs', recvOnePacks k w incoming fs = some (outs, w', incoming', fs') →
      outs = (packs.take k).map (fun p => some (content p)) ∧
        packs.flatten = (packs.take k).flatten ++ w'.unread ++ incoming') ∧
    (incoming.length ≤ readies fs → (recvOnePacks k w incoming fs).isSome) := by
  induction k generalizing packs w bs incoming fs with
  | zero =>
    refine ⟨fun outs w' incoming' fs' hsome => ?_, fun _ => rfl⟩
    cases hsome
    exact ⟨rfl, by rw [h.unread_eq, ← hstream]; rfl⟩
  | succ k ih =>
    cases packs with
    | nil => cases hk
    | cons p packs =>
      have hp := (hpacks p List.mem_cons_self).isPack
      have hpre : p <+: bs ++ incoming := by
        rw [hstream]
        exact List.prefix_append _ _
      obtain ⟨hsafe, hlive⟩ := recvOnePack_spec h hp hpre fs
      rw [recvOnePacks]
      cases hone : w.recvOnePack incoming fs with
      | none =>
        rw [hone] at hlive
        refine ⟨fun _ _ _ _ hsome => ?_, hlive⟩
        cases hsome
      | some r =>
        obtain ⟨out, w₁, incoming₁, fs₁⟩ := r
        obtain ⟨rfl, bs₁, hkeeps, hsame, hle⟩ := hsafe _ _ _ _ hone
        have hrest : bs₁ ++ incoming₁ = packs.flatten := by
          rw [hstream, List.flatten_cons, List.append_assoc] at hsame
          exact List.append_cancel_left hsame
        obtain ⟨hsafe₁, hlive₁⟩ := ih (fun q hq => hpacks q (List.mem_cons_of_mem _ hq)) hkeeps
          hrest (Nat.le_of_succ_le_succ hk) fs₁
        rw [Option.bind_some]
        dsimp only
        refine ⟨fun outs w' incoming' fs' hsome => ?_, fun hmany => ?_⟩
        · obtain ⟨r, hr, heq⟩ := Option.map_eq_some_iff.mp hsome
          obtain ⟨outs₁, rest⟩ := r
          cases heq
          obtain ⟨rfl, hflat⟩ := hsafe₁ _ _ _ _ hr
          refine ⟨rfl, ?_⟩
          rw [List.flatten_cons, hflat, List.take_succ_cons, List.flatten_cons]
          simp only [List.append_assoc]
        · rw [Option.isSome_map]
          exact hlive₁ (by omega)

/-- However `recv` splits a stream of packages, the calls give their commands and bodies in order,
and each call leaves in the window what was received and not returned.  No call waits for ever. -/
theorem recvOnePacks_chunks {packs : List Bytes} (hpacks : ∀ p ∈ packs, ServerPackage p)
    (fs : List Found) {k : Nat} (hk : k ≤ packs.length) :
    (∀ outs w incoming fs', recvOnePacks k {} packs.flatten fs = some (outs, w, incoming, fs') →
      outs = (packs.take k).map (fun p => some (content p)) ∧
        ∃ received, packs.flatten = received ++ incoming ∧
          received = (packs.take k).flatten ++ w.unread) ∧
    (packs.flatten.length ≤ readies fs → (recvOnePacks k {} packs.flatten fs).isSome) := by
  obtain ⟨hsafe, hlive⟩ := recvOnePacks_spec hpacks keeps_fresh (List.nil_append _) hk fs
  refine ⟨fun outs w incoming fs' hsome => ?_, hlive⟩
  obtain ⟨houts, hflat⟩ := hsafe _ _ _ _ hsome
  exact ⟨houts, _, hflat, rfl⟩

/-- Two packages, the second of which comes in three pieces. -/
theorem recvOnePacks_twoPackages :
    ∃ outs w incoming fs', recvOnePacks 2 {}
        [[0, 9, 0, 0, 0, 1, 0, 12, 1], [0, 10, 0, 0, 0, 1, 0, 11, 7, 8]].flatten
        [.ready 11, .again, .ready 4, .ready 9] = some (outs, w, incoming, fs') ∧
      outs = [some (12, [1]), some (11, [7, 8])] := by
  have hpacks : ∀ p ∈ [[0, 9, 0, 0, 0, 1, 0, 12, 1], [0, 10, 0, 0, 0, 1, 0, 11, 7, 8]],
      ServerPackage p := by decide
  obtain ⟨⟨outs, w, incoming, fs'⟩, hsome⟩ := Option.isSome_iff_exists.mp (show
    (recvOnePacks 2 {} [[0, 9, 0, 0, 0, 1, 0, 12, 1], [0, 10, 0, 0, 0, 1, 0, 11, 7, 8]].flatten
      [.ready 11, .again, .ready 4, .ready 9]).isSome by decide +kernel)
  exact ⟨outs, w, incoming, fs', hsome,
    ((recvOnePacks_chunks hpacks _ (by decide)).1 _ _ _ _ hsome).1⟩

end RecvWindow

end Wsmq
