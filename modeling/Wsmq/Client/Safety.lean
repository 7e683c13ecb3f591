import Wsmq.Client.Producer

/-!
# Receiving any bytes in the client library (`client/client.cpp`)

`RecvOnePack` and `RecvServerAck` trust the length field of a package.  What they read and
copy is kept in a list.
-/

namespace Wsmq
open Lib Lib.ByteString Lib.Packing
open RecvWindow (Found)

/-- `iopLen` is what the caller offers. -/
def Access.Safe (iopLen : Int) : Access → Prop
  | read head iPackLen pos size => head ≤ pos ∧ pos + size ≤ head + iPackLen
  | copy iDataLen => 0 ≤ iDataLen ∧ iDataLen ≤ iopLen
  | move iMoveCount => 0 ≤ iMoveCount
  | point recvHead recvTail => recvHead ≤ recvTail

instance (iopLen : Int) (a : Access) : Decidable (a.Safe iopLen) := by
  cases a <;> unfold Access.Safe <;> infer_instance

namespace RecvWindow

/-- What `RecvOnePack` does once `RecvPack` has succeeded. -/
def takeAccesses (w : RecvWindow) : List Access := w.takeSteps.1

end RecvWindow

/-! ## RecvServerAck -/

/-- The variables of the loop; `accesses` is a history variable. -/
structure AckScan where
  window : RecvWindow
  iLen : Int
  sAckSeq : List Int := []
  accesses : List Access := []
  /-- The loop has been left. -/
  done : Bool := false

namespace AckScan

/-- What is left of the window moves to the front. -/
def leave (x : AckScan) : AckScan :=
  let w := x.window
  let iMoveCount : Int := w.recvTail - w.recvHead
  { x with
    window := { w with
      recvBuff := w.recvBuff.write 0 (w.recvBuff.read w.recvHead iMoveCount.toNat)
      recvHead := 0
      recvTail := iMoveCount.toNat }
    accesses := x.accesses ++ [.move iMoveCount, .point 0 iMoveCount]
    done := true }

/-- One round of the loop. -/
def round (x : AckScan) : AckScan :=
  let w := x.window
  if x.iLen < sizeofClientPackageHead then x.leave
  else if x.iLen < w.iPackLen then
    { x with accesses := x.accesses ++ [Access.read w.recvHead w.iPackLen w.recvHead 2] }.leave
  else
    let iMsgSeq := readInt w.recvBuff (w.recvHead + sizeofClientPackageHead)
    { x with
      window := { w with recvHead := w.recvHead + w.iPackLen }
      iLen := x.iLen - w.iPackLen
      sAckSeq := x.sAckSeq.insert iMsgSeq
      accesses := x.accesses ++ w.headReads ++
        [.read w.recvHead w.iPackLen (w.recvHead + sizeofClientPackageHead) 4,
          .point (w.recvHead + w.iPackLen) w.recvTail] }

/-- At most `n` rounds. -/
def rounds : Nat → AckScan → AckScan
  | 0, x => x
  | n + 1, x => if x.done then x else rounds n x.round

end AckScan

/-- The loop of `RecvServerAck` once `RecvPack` has succeeded. -/
def RecvWindow.ackScan (w : RecvWindow) (n : Nat) : AckScan :=
  AckScan.rounds n { window := w, iLen := w.iLen }

namespace Producer

/-- The messages that are still to be acknowledged. -/
def unacknowledged (iConfirmLevel : Nat) (sAckSeq : List Int) (l : List SavedMessage) :
    List SavedMessage :=
  if iConfirmLevel = producerSingleAck then l.filter fun m => m.msgSeq ∉ sAckSeq
  else if iConfirmLevel = producerMutilAck then
    sAckSeq.foldl (fun l iAckSeq => l.filter fun m => ¬ m.msgSeq ≤ iAckSeq) l
  else l

/-- Without a result a loop goes on for longer than `fs` or `n`. -/
def recvServerAck (p : Producer) (incoming : Bytes) (fs : List Found) (n : Nat) :
    Option (Int × Producer × Bytes × List Found) :=
  (RecvWindow.recvLoop fs p.window incoming).bind fun (found, w, incoming, fs) =>
    if ¬ found then some (Client.errSeverClosed, { p with window := w }, incoming, fs)
    else
      let x := w.ackScan n
      if ¬ x.done then none
      else
        some (Client.success, { p with
          window := x.window
          needAckMsgList := unacknowledged p.iConfirmLevel x.sAckSeq p.needAckMsgList },
          incoming, fs)

end Producer

/-! ## Safety -/

/-- Both calls come to an end on this window, and whatever they read, copy and point to is where it
should be. -/
structure ReceivesSafely (w : RecvWindow) (iopLen : Int) : Prop where
  taken : w.takePack.isSome
  takes : ∀ a ∈ w.takeAccesses, a.Safe iopLen
  acked : ∀ (p : Producer) incoming fs, p.window = w →
    ∃ n, (p.recvServerAck incoming fs n).isSome
  acks : ∀ n, ∀ a ∈ (w.ackScan n).accesses, a.Safe iopLen

def packLen (bs : Bytes) : Nat := readUShort (Mem.ofBytes bs) 0

/-- Packages with room for a sequence number, and the beginning of another one. -/
inductive Framed : Bytes → Prop
  | rest {bs : Bytes} (h : bs.length < sizeofClientPackageHead ∨ bs.length < packLen bs) :
      Framed bs
  | pack {pack bs : Bytes} (hlen : packLen pack = pack.length)
      (hack : sizeofClientPackageHead + 4 ≤ pack.length) (h : Framed bs) : Framed (pack ++ bs)

variable {w w' : RecvWindow} {iopLen : Int} {bs : Bytes} {x : AckScan} {n : Nat}

theorem packLen_append {pack : Bytes} (h : 2 ≤ pack.length) (bs : Bytes) :
    packLen (pack ++ bs) = packLen pack := readUShort_append h bs

/-- A whole package comes first, and the rest is framed too. -/
theorem Framed.of_whole (h : Framed bs) (hlong : sizeofClientPackageHead ≤ bs.length)
    (hwhole : packLen bs ≤ bs.length) :
    sizeofClientPackageHead + 4 ≤ packLen bs ∧ Framed (bs.drop (packLen bs)) := by
  cases h with
  | rest h => omega
  | pack hlen hack h =>
    rw [packLen_append (Nat.le_trans (by decide) hack), hlen, List.drop_left]
    exact ⟨hack, h⟩

theorem Framed.cons_whole (hack : sizeofClientPackageHead + 4 ≤ packLen bs)
    (hwhole : packLen bs ≤ bs.length) (h : Framed (bs.drop (packLen bs))) : Framed bs := by
  have hlen : (bs.take (packLen bs)).length = packLen bs := List.length_take_of_le hwhole
  have hsame : packLen (bs.take (packLen bs)) = packLen bs := by
    conv_rhs => rw [← List.take_append_drop (packLen bs) bs]
    exact (packLen_append (by rw [hlen]; exact Nat.le_trans (by decide) hack) _).symm
  rw [← List.take_append_drop (packLen bs) bs]
  exact .pack (hsame.trans hlen.symm) (hlen.symm ▸ hack) h

namespace RecvWindow

theorem unread_length (w : RecvWindow) : w.unread.length = w.recvTail - w.recvHead :=
  Mem.read_length _ _ _

theorem iPackLen_eq (h : sizeofClientPackageHead ≤ w.unread.length) :
    w.iPackLen = packLen w.unread := by
  have hhead : sizeofClientPackageHead = 8 := rfl
  rw [unread_length] at h
  have hread := Mem.read_ofBytes_read w.recvBuff w.recvHead
    (show 0 + 2 ≤ w.recvTail - w.recvHead by omega)
  rw [iPackLen, packLen, readUShort, readUShort, unread, hread, Nat.add_zero]

theorem unread_drop (w : RecvWindow) (k : Nat) :
    { w with recvHead := w.recvHead + k }.unread = w.unread.drop k := by
  refine List.ext_getElem ?_ fun i hi hi' => ?_
  · rw [List.length_drop, unread_length, unread_length]
    exact Nat.sub_add_eq _ _ _
  · rw [List.getElem_drop]
    simp only [unread, Mem.read_getElem]
    rw [Nat.add_assoc]

/-- Where `RecvPack` succeeds there is more than a head, and all of the first package. -/
theorem HasPack.long (h : w.HasPack) : w.recvHead + sizeofClientPackageHead < w.recvTail ∧
    w.recvHead + w.iPackLen ≤ w.recvTail := by
  obtain ⟨hlong, hwhole⟩ := h
  have hhead : sizeofClientPackageHead = 8 := rfl
  rw [iLen] at hlong hwhole
  omega

theorem hasPack_of_success {ret : RecvRet} (h : w.recvPack ret = (Client.success, w')) :
    w'.HasPack := by
  unfold recvPack at h
  split at h
  · next hpack =>
    cases h
    exact hpack
  · cases ret with
    | again => cases (Prod.mk.inj h).1
    | failed => cases (Prod.mk.inj h).1
    | recvd bs =>
      dsimp only at h
      split at h
      · cases (Prod.mk.inj h).1
      · split at h
        · next hpack =>
          cases h
          exact hpack
        · cases (Prod.mk.inj h).1

theorem headReads_safe : (∀ a ∈ w.headReads, a.Safe iopLen) ↔
    sizeofClientPackageHead ≤ w.iPackLen := by
  have hhead : sizeofClientPackageHead = 8 := rfl
  constructor
  · intro h
    have hcmd : w.recvHead ≤ w.recvHead + 6 ∧ w.recvHead + 6 + 2 ≤ w.recvHead + w.iPackLen :=
      h (.read w.recvHead w.iPackLen (w.recvHead + 6) 2) (by simp [headReads])
    omega
  · intro h a ha
    simp only [headReads, List.mem_cons, List.not_mem_nil, or_false] at ha
    rcases ha with rfl | rfl | rfl
    · exact ⟨Nat.le_refl _, by omega⟩
    · exact ⟨by omega, by omega⟩
    · exact ⟨by omega, by omega⟩

/-- The length must leave room for the head, and the data must not be longer than `opBuffer`. -/
theorem takes_safely_iff (h : w.HasPack) :
    (w.takePack.isSome ∧ ∀ a ∈ w.takeAccesses, a.Safe iopLen) ↔
      sizeofClientPackageHead ≤ w.iPackLen ∧
        (w.iPackLen ≤ maxClintPackageLength - sizeofClientPackageHead →
          (w.iPackLen : Int) - sizeofClientPackageHead ≤ iopLen) := by
  obtain ⟨-, hwhole⟩ := h.long
  have hsize : sizeofClientPackageHead = 8 := rfl
  unfold takePack takeAccesses takeSteps
  dsimp only
  by_cases hlong : w.iPackLen > maxClintPackageLength - sizeofClientPackageHead
  · rw [if_pos hlong]
    dsimp only
    rw [headReads_safe]
    exact ⟨fun hs => ⟨hs.2, fun hle => absurd hle (Nat.not_le.mpr hlong)⟩, fun hs => ⟨rfl, hs.1⟩⟩
  rw [if_neg hlong]
  by_cases hhead : (w.iPackLen : Int) - sizeofClientPackageHead < 0
  · rw [if_pos hhead]
    exact iff_of_false (fun hs => nomatch hs.1) fun hs => absurd hs.1 (by omega)
  rw [if_neg hhead, if_neg (by omega)]
  dsimp only
  rw [List.forall_mem_append, List.forall_mem_append, List.forall_mem_append, headReads_safe]
  constructor
  · rintro ⟨-, ⟨⟨hreads, hcopied⟩, -⟩, -⟩
    have hcopy : (0 : Int) ≤ w.iPackLen - sizeofClientPackageHead ∧
        (w.iPackLen : Int) - sizeofClientPackageHead ≤ iopLen :=
      hcopied _ List.mem_cons_self
    exact ⟨hreads, fun _ => hcopy.2⟩
  · rintro ⟨hreads, hfits⟩
    have hmove : (0 : Int) ≤ (w.recvTail : Int) - (w.recvHead + w.iPackLen : Nat) := by omega
    refine ⟨rfl, ⟨⟨hreads, fun a ha => ?_⟩, fun a ha => ?_⟩, fun a ha => ?_⟩
    · cases List.mem_singleton.mp ha
      exact ⟨by omega, hfits (Nat.not_lt.mp hlong)⟩
    · rcases List.mem_pair.mp ha with rfl | rfl
      · show ((w.recvHead + w.iPackLen : Nat) : Int) ≤ w.recvTail
        omega
      · exact hmove
    · cases List.mem_singleton.mp ha
      exact hmove

end RecvWindow

/-! ## The loop over the acknowledgements -/

namespace AckScan

/-- Before a round: `iLen` is what is left of the window. -/
structure Running (x : AckScan) : Prop where
  iLen : x.iLen = x.window.recvTail - x.window.recvHead
  inBuffer : x.window.recvHead ≤ x.window.recvTail
  running : x.done = false

theorem Running.length (h : Running x) : x.iLen = x.window.unread.length := by
  have hle := h.inBuffer
  rw [h.iLen, RecvWindow.unread_length]
  omega

/-- A round at the beginning of a package that has not arrived. -/
theorem round_rest (h : Running x) (hrest : x.window.unread.length < sizeofClientPackageHead ∨
      x.window.unread.length < packLen x.window.unread) :
    x.round.done = true ∧ ∃ accesses, x.round.accesses = x.accesses ++ accesses ∧
      ∀ a ∈ accesses, a.Safe iopLen := by
  have hle := h.inBuffer
  have hmove : ∀ a ∈ [Access.move ((x.window.recvTail : Int) - x.window.recvHead),
      Access.point 0 ((x.window.recvTail : Int) - x.window.recvHead)], a.Safe iopLen := by
    intro a ha
    have hcount : (0 : Int) ≤ (x.window.recvTail : Int) - x.window.recvHead := by omega
    rcases List.mem_pair.mp ha with rfl | rfl
    · exact hcount
    · exact hcount
  unfold round
  dsimp only
  by_cases hshort : x.iLen < sizeofClientPackageHead
  · rw [if_pos hshort]
    exact ⟨rfl, _, rfl, hmove⟩
  rw [if_neg hshort]
  rw [h.length] at hshort ⊢
  have hpart := hrest.resolve_left (by omega)
  rw [← RecvWindow.iPackLen_eq (by omega)] at hpart
  rw [if_pos (by omega)]
  refine ⟨rfl, _, List.append_assoc _ _ _, ?_⟩
  intro a ha
  rcases List.mem_append.mp ha with ha | ha
  · cases List.mem_singleton.mp ha
    have hhead : sizeofClientPackageHead = 8 := rfl
    exact ⟨Nat.le_refl _, by omega⟩
  · exact hmove a ha

/-- A round over a whole package. -/
theorem round_whole (h : Running x) (hlong : sizeofClientPackageHead ≤ x.window.unread.length)
    (hwhole : packLen x.window.unread ≤ x.window.unread.length) :
    Running x.round ∧
      x.round.window.unread = x.window.unread.drop (packLen x.window.unread) ∧
      ∃ accesses, x.round.accesses = x.accesses ++ accesses ∧
        ((∀ a ∈ accesses, a.Safe iopLen) ↔
          sizeofClientPackageHead + 4 ≤ packLen x.window.unread) := by
  have hle := h.inBuffer
  have hiLen := h.iLen
  have hhead : sizeofClientPackageHead = 8 := rfl
  rw [← RecvWindow.iPackLen_eq hlong] at hwhole ⊢
  rw [RecvWindow.unread_length] at hlong hwhole
  unfold round
  dsimp only
  rw [if_neg (by omega), if_neg (by omega)]
  refine ⟨⟨?_, ?_, h.running⟩, RecvWindow.unread_drop _ _, _, List.append_assoc _ _ _, ?_⟩
  · show x.iLen - x.window.iPackLen =
      (x.window.recvTail : Int) - (x.window.recvHead + x.window.iPackLen : Nat)
    rw [h.iLen]
    omega
  · show x.window.recvHead + x.window.iPackLen ≤ x.window.recvTail
    omega
  · rw [List.forall_mem_append, RecvWindow.headReads_safe]
    constructor
    · rintro ⟨-, hseq⟩
      have hread : x.window.recvHead ≤ x.window.recvHead + sizeofClientPackageHead ∧
          x.window.recvHead + sizeofClientPackageHead + 4 ≤
            x.window.recvHead + x.window.iPackLen := hseq _ List.mem_cons_self
      omega
    · intro hack
      refine ⟨by omega, fun a ha => ?_⟩
      rcases List.mem_pair.mp ha with rfl | rfl
      · exact ⟨by omega, by omega⟩
      · show (x.window.recvHead : Int) + x.window.iPackLen ≤ x.window.recvTail
        omega

theorem rounds_done (h : x.done = true) (n : Nat) : rounds n x = x := by
  cases n with
  | zero => rfl
  | succ n => exact if_pos h

theorem Running.rounds_succ (h : Running x) (n : Nat) : rounds (n + 1) x = rounds n x.round := by
  have hgo : ¬ x.done = true := by
    rw [h.running]
    exact Bool.false_ne_true
  exact if_neg hgo

/-- The next package is not there yet, or all of it is. -/
theorem rest_or_whole (bs : Bytes) :
    (bs.length < sizeofClientPackageHead ∨ bs.length < packLen bs) ∨
      (sizeofClientPackageHead ≤ bs.length ∧ packLen bs ≤ bs.length) := by
  omega

/-- On framed bytes the loop ends, and all its accesses are safe. -/
theorem rounds_of_framed (hx : Running x) (hacc : ∀ a ∈ x.accesses, a.Safe iopLen)
    (h : Framed x.window.unread) : (∃ n, (rounds n x).done = true) ∧
      ∀ n, ∀ a ∈ (rounds n x).accesses, a.Safe iopLen := by
  induction hn : x.window.unread.length using Nat.strong_induction_on generalizing x with
  | _ len ih =>
    have hafter : (∃ n, (rounds n x.round).done = true) ∧
        ∀ n, ∀ a ∈ (rounds n x.round).accesses, a.Safe iopLen := by
      rcases rest_or_whole x.window.unread with hrest | ⟨hlong, hwhole⟩
      · obtain ⟨hdone, accesses, heq, hsafe⟩ := @round_rest iopLen x hx hrest
        refine ⟨⟨0, hdone⟩, fun n a ha => ?_⟩
        rw [rounds_done hdone, heq] at ha
        exact (List.mem_append.mp ha).elim (hacc a) (hsafe a)
      · obtain ⟨hack, hframed⟩ := h.of_whole hlong hwhole
        obtain ⟨hrunning, hunread, accesses, heq, hsafe⟩ := @round_whole iopLen x hx hlong hwhole
        have hshorter : x.round.window.unread.length < len := by
          rw [hunread, List.length_drop]
          have hhead : sizeofClientPackageHead = 8 := rfl
          omega
        refine ih _ hshorter hrunning (fun a ha => ?_) (hunread ▸ hframed) rfl
        rw [heq] at ha
        exact (List.mem_append.mp ha).elim (hacc a) (hsafe.mpr hack a)
    obtain ⟨⟨n, hdone⟩, hsafe⟩ := hafter
    refine ⟨⟨n + 1, ?_⟩, fun n => ?_⟩
    · rw [hx.rounds_succ]
      exact hdone
    · cases n with
      | zero => exact hacc
      | succ n =>
        rw [hx.rounds_succ]
        exact hsafe n

/-- What has been done stays in the list. -/
theorem accesses_rounds (n : Nat) (x : AckScan) : x.accesses <+: (rounds n x).accesses := by
  induction n generalizing x with
  | zero => exact List.prefix_refl _
  | succ n ih =>
    rw [rounds]
    split
    · exact List.prefix_refl _
    · refine List.IsPrefix.trans ?_ (ih x.round)
      unfold round
      dsimp only
      split
      · exact List.prefix_append _ _
      · split
        · exact (List.prefix_append _ _).trans (List.prefix_append _ _)
        · rw [List.append_assoc]
          exact List.prefix_append _ _

/-- A loop that ends with safe accesses has run over framed bytes. -/
theorem framed_of_rounds (hx : Running x) (hdone : (rounds n x).done = true)
    (hsafe : ∀ a ∈ (rounds n x).accesses, a.Safe iopLen) : Framed x.window.unread := by
  induction n generalizing x with
  | zero =>
    rw [rounds, hx.running] at hdone
    cases hdone
  | succ n ih =>
    rw [hx.rounds_succ] at hdone hsafe
    rcases rest_or_whole x.window.unread with hrest | ⟨hlong, hwhole⟩
    · exact .rest hrest
    · obtain ⟨hrunning, hunread, accesses, heq, hiff⟩ := @round_whole iopLen x hx hlong hwhole
      have hin : ∀ a ∈ accesses, a.Safe iopLen := fun a ha =>
        hsafe a ((accesses_rounds n x.round).subset (heq ▸ List.mem_append_right _ ha))
      exact .cons_whole (hiff.mp hin) hwhole (hunread ▸ ih hrunning hdone hsafe)

end AckScan

theorem RecvWindow.HasPack.running (h : w.HasPack) :
    AckScan.Running { window := w, iLen := w.iLen } := by
  have hlong : w.recvHead ≤ w.recvTail := by
    have hlong := h.long.1
    omega
  exact ⟨rfl, hlong, rfl⟩

/-- With a package in the window nothing is received. -/
theorem RecvWindow.recvLoop_hasPack (h : w.HasPack) (incoming : Bytes) (fs : List Found) :
    recvLoop fs w incoming = some (true, w, incoming, fs) := by
  cases fs with
  | nil => rw [recvLoop, if_pos h]
  | cons f fs => rw [recvLoop, if_pos h]

theorem Producer.recvServerAck_isSome {p : Producer} (h : p.window.HasPack) (incoming : Bytes)
    (fs : List Found) (n : Nat) :
    (p.recvServerAck incoming fs n).isSome ↔ (p.window.ackScan n).done = true := by
  rw [recvServerAck, RecvWindow.recvLoop_hasPack h, Option.bind_some]
  dsimp only
  rw [if_neg (by decide)]
  split
  · next hgo => exact ⟨fun hsome => (nomatch hsome), fun hdone => absurd hdone hgo⟩
  · next hdone => exact ⟨fun _ => not_not.mp hdone, fun _ => rfl⟩

/-- After `RecvPack` has succeeded both calls are safe if all whole packages have room for a
sequence number, and the data of the first fits the buffer of the caller, unless the package is too
long to be taken. -/
theorem receivesSafely_iff {ret : RecvRet} (h : w.recvPack ret = (Client.success, w'))
    (iopLen : Int) : ReceivesSafely w' iopLen ↔ Framed w'.unread ∧
      (w'.iPackLen ≤ maxClintPackageLength - sizeofClientPackageHead →
        (w'.iPackLen : Int) - sizeofClientPackageHead ≤ iopLen) := by
  have hpack := RecvWindow.hasPack_of_success h
  have htakes := @RecvWindow.takes_safely_iff w' iopLen hpack
  constructor
  · rintro ⟨htaken, htake, hacked, hacks⟩
    obtain ⟨n, hsome⟩ := hacked { window := w' } [] [] rfl
    have hdone := (Producer.recvServerAck_isSome (p := { window := w' }) hpack [] [] n).mp hsome
    exact ⟨AckScan.framed_of_rounds hpack.running hdone (hacks n),
      (htakes.mp ⟨htaken, htake⟩).2⟩
  · rintro ⟨hframed, hfits⟩
    obtain ⟨hlong, hwhole⟩ := hpack.long
    have hlen := RecvWindow.unread_length w'
    have hhead : sizeofClientPackageHead = 8 := rfl
    have heq : w'.iPackLen = packLen w'.unread := RecvWindow.iPackLen_eq (by omega)
    have hack := (hframed.of_whole (by omega) (by omega)).1
    obtain ⟨htaken, htake⟩ := htakes.mpr ⟨by omega, hfits⟩
    obtain ⟨⟨n, hdone⟩, hacks⟩ := @AckScan.rounds_of_framed iopLen _ hpack.running
      (fun _ ha => absurd ha List.not_mem_nil) hframed
    refine ⟨htaken, htake, fun p incoming fs hp => ⟨n, ?_⟩, hacks⟩
    subst hp
    exact (Producer.recvServerAck_isSome hpack incoming fs n).mpr hdone

/-- A window that holds these bytes. -/
def RecvWindow.holding (bs : Bytes) : RecvWindow :=
  { recvBuff := Mem.ofBytes bs, recvTail := bs.length }

/-- The acknowledgement of a message, and the first bytes of one. -/
def ackOf (msgSeq : UInt8) : Bytes := [0, 12, 0, 0, 0, 1, 0, 14, 0, 0, 0, msgSeq]

def twoAcksAndPart : Bytes := ackOf 5 ++ (ackOf 6 ++ (ackOf 7).take 10)

theorem receivesSafely_ack : ReceivesSafely (.holding twoAcksAndPart) 1024 := by
  have hpack : (RecvWindow.holding twoAcksAndPart).recvPack .again =
      (Client.success, .holding twoAcksAndPart) := if_pos (by decide)
  have hunread : (RecvWindow.holding twoAcksAndPart).unread = twoAcksAndPart := by decide
  refine (receivesSafely_iff hpack 1024).mpr ⟨?_, by decide⟩
  rw [hunread]
  exact .pack (by decide) (by decide) (.pack (by decide) (by decide) (.rest (by decide)))

/-- A package of length 0: `memcpy` is given less than nothing, and the loop never ends. -/
theorem not_receivesSafely_zero :
    (RecvWindow.holding (List.replicate 9 0)).recvPack .again =
        (Client.success, .holding (List.replicate 9 0)) ∧
      ¬ ReceivesSafely (.holding (List.replicate 9 0)) 1024 := by
  refine ⟨if_pos (by decide), fun h => ?_⟩
  have htaken := h.taken
  revert htaken
  decide

end Wsmq
