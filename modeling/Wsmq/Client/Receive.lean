import Wsmq.Client

/-!
# Receiving packages in the client library (`client/client.cpp`)

The window of a connection starts at `m_pRecvBuff` between two calls, and a package is
shorter than the buffer, so `recv` always has room.
-/

namespace Wsmq
open Lib Lib.ByteString Lib.Packing

namespace Client

def errClientBuildConnect : Int := -600
def errClientSendAck : Int := -610

end Client

/-- What waiting for the socket and `recv` come to. -/
inductive RecvRet
  /-- `EAGAIN`. -/
  | again
  | failed
  /-- No bytes when the server has closed the connection. -/
  | recvd (bs : Bytes)
  deriving DecidableEq

/-- The bytes that the socket gives. -/
def arriving : List RecvRet → Bytes
  | [] => []
  | .recvd bs :: rets => bs ++ arriving rets
  | _ :: rets => arriving rets

/-- The test of `RecvPack`: a whole package is in the window. -/
def HasPack (window : Bytes) : Prop :=
  sizeofClientPackageHead < window.length ∧ readUShort (Mem.ofBytes window) 0 ≤ window.length

instance (window : Bytes) : Decidable (HasPack window) := inferInstanceAs (Decidable (_ ∧ _))

/-- The loop around `RecvPack`: whether there is a package, the window, and what the calls of
`recv` after this return.  The check after `recv` is the one that the next round begins with.
Without a result the loop goes on for longer than `rets`. -/
def recvPacks : List RecvRet → Bytes → Option (Bool × Bytes × List RecvRet)
  | [], window => if HasPack window then some (true, window, []) else none
  | ret :: rets, window =>
    if HasPack window then some (true, window, ret :: rets)
    else
      match ret with
      | .again => recvPacks rets window
      | .failed => some (false, window, rets)
      | .recvd bs =>
        if bs = [] then some (false, window, rets) else recvPacks rets (window ++ bs)

/-- A `Consumer` object. -/
structure Consumer where
  bBuild : Bool := true
  /-- From `m_pRecvHead` to `m_pRecvTail`. -/
  window : Bytes := []
  iConfirmLevel : Nat := 0
  iAckSeq : Int := -1
  seqSet : List Int := []
  /-- What `SendOnePack` has handed to the socket. -/
  sent : List Bytes := []

namespace Consumer

/-- `RecvOnePack`: command and data of the next package, or nothing where it fails.  It has
no result when the package is shorter than its head. -/
def recvOnePack (c : Consumer) (rets : List RecvRet) :
    Option (Option (Nat × Bytes) × Consumer × List RecvRet) :=
  (recvPacks rets c.window).bind fun (found, window, rets) =>
    if ¬ found then some (none, { c with bBuild := false, window := window }, rets)
    else
      let iPackLen := readUShort (Mem.ofBytes window) 0
      let iCmdId := readUShort (Mem.ofBytes window) 6
      if iPackLen > maxClintPackageLength - sizeofClientPackageHead then
        some (none, { c with window := window }, rets)
      else if iPackLen < sizeofClientPackageHead then none
      else
        let data := (Mem.ofBytes window).read sizeofClientPackageHead
          (iPackLen - sizeofClientPackageHead)
        some (some (iCmdId, data), { c with window := window.drop iPackLen }, rets)

/-- What a call that takes a package leaves. -/
structure Taken where
  ret : Int
  /-- The error message is about a message received before. -/
  bRepeat : Bool := false
  opBuffer : Mem
  iopLen : Int
  consumer : Consumer
  rets : List RecvRet

/-- `SendOnePack` of a `ClientAckMessage`. -/
def sendAck (c : Consumer) (confirmLevel : Nat) (iMsgSeq : Int) : Consumer :=
  { c with sent := c.sent ++ [(({ confirmLevel := confirmLevel, ackSeq := iMsgSeq } :
      ClientAckMessage).getMessagePack zeroed maxClintPackageLength).sent] }

/-- What `ConsumeMessage` and `RecvMessage` do about acknowledging. -/
def confirm (c : Consumer) (bAck : Bool) (confirmLevel : Nat) (iMsgSeq : Int) : Consumer :=
  if bAck then c.sendAck confirmLevel iMsgSeq
  else if confirmLevel = consumerSingleAck ∨ confirmLevel = consumerMutilAck then
    { c with iConfirmLevel := confirmLevel, iAckSeq := iMsgSeq }
  else c

/-- What a call comes to in the end. -/
structure Verdict where
  ret : Int
  bRepeat : Bool
  consumer : Consumer

/-- Whether the message has been received before. -/
def checkRepeat (c : Consumer) (confirmLevel : Nat) (iMsgSeq : Int) : Verdict :=
  if iMsgSeq ∈ c.seqSet then ⟨Client.errClientRevMsg, true, c⟩
  else
    ⟨Client.success, false,
      if confirmLevel > 0 then { c with seqSet := iMsgSeq :: c.seqSet } else c⟩

/-- The end of both calls; they differ in which messages they acknowledge and in what they
do when they cannot. -/
def afterMessage (c : Consumer) (bAck : Bool) (notSent : Consumer → Verdict)
    (sendOk : Bool) (confirmLevel : Nat) (iMsgSeq : Int) : Verdict :=
  if bAck ∧ ¬ sendOk then notSent c
  else (c.confirm bAck confirmLevel iMsgSeq).checkRepeat confirmLevel iMsgSeq

/-- What the two calls do with the data in `opBuffer`.  The `memcpy` inside `opBuffer` is
taken as a `memmove`; it has no result when it is given less than nothing. -/
def takeMessage (c : Consumer) (bAck : Nat → Int → Bool) (notSent : Consumer → Verdict)
    (sendOk : Bool) (opBuffer : Mem) (iopLen : Nat) (rets : List RecvRet) : Option Taken :=
  let confirmLevel := readByte opBuffer 0
  let iMsgSeq := readInt opBuffer 1
  if iopLen < 1 + 4 then none
  else
    let iopLen := iopLen - (1 + 4)
    let opBuffer := (opBuffer.write 0 (opBuffer.read (1 + 4) iopLen)).write iopLen [0]
    let v := c.afterMessage (bAck confirmLevel iMsgSeq) notSent sendOk confirmLevel iMsgSeq
    some ⟨v.ret, v.bRepeat, opBuffer, iopLen, v.consumer, rets⟩

/-- `sendOk` says whether `SendOnePack` of the acknowledgement succeeds. -/
def consumeMessage (c : Consumer) (rets : List RecvRet) (sendOk : Bool) (opBuffer : Mem)
    (iopLen : Int) : Option Taken :=
  if ¬ c.bBuild then some ⟨Client.errClientBuildConnect, false, opBuffer, iopLen, c, rets⟩
  else
    (c.recvOnePack rets).bind fun (pack, c, rets) =>
      match pack with
      | none => some ⟨Client.errClientRevMsg, false, opBuffer, iopLen, c, rets⟩
      | some (_, data) =>
        c.takeMessage (fun level seq => level = consumerAutoAck ∧ seq ≠ -1)
          (fun c => ⟨Client.errClientSendAck, false, c⟩) sendOk (opBuffer.write 0 data) data.length rets

/-- `SendOnePack` has failed. -/
def closed (c : Consumer) : Consumer := { c with bBuild := false }

/-- The package of a call; the framer of the server reads no further than its length. -/
def sendRequest (c : Consumer) (call : Call) : Consumer :=
  { c with sent := c.sent ++ [call.request.package] }

/-- `RecvMessage` once the request is sent. -/
def takePulled (c : Consumer) (rets : List RecvRet) (ackOk : Bool) (opBuffer : Mem)
    (iopLen : Int) : Option Taken :=
  (c.recvOnePack rets).bind fun (pack, c, rets) =>
    match pack with
    | none => some ⟨Client.errClientRevMsg, false, opBuffer, iopLen, c, rets⟩
    | some (iReplyType, data) =>
      if iReplyType = cmdServerReplyMessage then
        some ⟨Client.errClientRevMsg, false, opBuffer.write 0 data, data.length, c, rets⟩
      else
        c.takeMessage (fun level _ => level = consumerAutoAck)
          (fun c => ⟨Client.errClientRevMsg, false, c.closed⟩) ackOk (opBuffer.write 0 data) data.length
          rets

/-- `sendOk` and `ackOk` say whether the request and the acknowledgement are sent. -/
def recvMessage (c : Consumer) (istrQueueName : Name) (iConfirmLevel : Nat)
    (rets : List RecvRet) (sendOk ackOk : Bool) (opBuffer : Mem) (iopLen : Int) : Option Taken :=
  let call := Call.recvMessage istrQueueName iConfirmLevel
  if ¬ c.bBuild then some ⟨Client.errClientBuildConnect, false, opBuffer, iopLen, c, rets⟩
  else if (call.request.getMessagePack zeroed maxClintPackageLength).ret ≠ Message.success then
    some ⟨call.error, false, opBuffer, iopLen, c, rets⟩
  else if ¬ sendOk then some ⟨call.error, false, opBuffer, iopLen, c.closed, rets⟩
  else (c.sendRequest call).takePulled rets ackOk opBuffer iopLen

end Consumer

/-! ## A package arrives -/

/-- A package that `RecvOnePack` accepts, with its command and data. -/
structure IsPack (pack : Bytes) (iCmdId : Nat) (data : Bytes) : Prop where
  packLen : readUShort (Mem.ofBytes pack) 0 = pack.length
  cmdId : readUShort (Mem.ofBytes pack) 6 = iCmdId
  data : pack.drop sizeofClientPackageHead = data
  long : sizeofClientPackageHead < pack.length
  short : pack.length ≤ maxClintPackageLength - sizeofClientPackageHead

/-- The connection stays open. -/
def Alive (rets : List RecvRet) : Prop := ∀ ret ∈ rets, ret ≠ .failed ∧ ret ≠ .recvd []

variable {pack window data : Bytes} {iCmdId : Nat} {rets : List RecvRet} {c : Consumer}

theorem isPack_image {iMsgLen : Nat} {iIndex : Int} {fields : List Field}
    (hf : ∀ f ∈ fields, f.Fits) (hlen : iMsgLen = sizeofClientPackageHead + size fields)
    (hpos : 0 < size fields) (hmax : iMsgLen ≤ maxClintPackageLength - sizeofClientPackageHead)
    (hcmd : iCmdId < 2 ^ 16) :
    IsPack (image (packHead iMsgLen iIndex iCmdId ++ fields)) iCmdId (image fields) := by
  have hfits : ∀ f ∈ packHead iMsgLen iIndex iCmdId ++ fields, f.Fits := by
    intro f hmem
    rcases List.mem_append.mp hmem with hmem | hmem
    · exact fits_packHead _ _ _ f hmem
    · exact hf f hmem
  have hholds := holds_ofBytes (image (packHead iMsgLen iIndex iCmdId ++ fields))
  have hhead : (image (packHead iMsgLen iIndex iCmdId)).length = sizeofClientPackageHead :=
    image_length (fits_packHead _ _ _)
  have hsize : (image (packHead iMsgLen iIndex iCmdId ++ fields)).length = iMsgLen := by
    rw [image_append, List.length_append, hhead, image_length hf, hlen]
  have hlt : iMsgLen < 2 ^ 16 := Nat.lt_of_le_of_lt hmax (by decide)
  refine ⟨?_, ?_, ?_, by omega, by omega⟩
  · rw [hsize]
    exact readUShort_field (a := 0) [] hholds hfits hlt
  · exact readUShort_field (a := 0) [writeUShort iMsgLen, writeInt iIndex] hholds hfits hcmd
  · rw [image_append, ← hhead, List.drop_left]

theorem readUShort_append {bs : Bytes} {a : Nat} (h : a + 2 ≤ bs.length) (cs : Bytes) :
    readUShort (Mem.ofBytes (bs ++ cs)) a = readUShort (Mem.ofBytes bs) a := by
  rw [readUShort, Mem.read_ofBytes_left h, readUShort]

namespace IsPack

theorem window_packLen (h : IsPack pack iCmdId data) (hpre : pack <+: window) :
    readUShort (Mem.ofBytes window) 0 = pack.length := by
  obtain ⟨rest, rfl⟩ := hpre
  rw [readUShort_append (Nat.le_trans (by decide) (Nat.le_of_lt h.long)), h.packLen]

theorem window_cmdId (h : IsPack pack iCmdId data) (hpre : pack <+: window) :
    readUShort (Mem.ofBytes window) 6 = iCmdId := by
  obtain ⟨rest, rfl⟩ := hpre
  rw [readUShort_append (Nat.le_of_lt h.long), h.cmdId]

theorem window_data (h : IsPack pack iCmdId data) (hpre : pack <+: window) :
    (Mem.ofBytes window).read sizeofClientPackageHead (pack.length - sizeofClientPackageHead) =
      data := by
  obtain ⟨rest, rfl⟩ := hpre
  have hlong := h.long
  have hhead : (pack.take sizeofClientPackageHead).length = sizeofClientPackageHead := by
    rw [List.length_take]
    omega
  have hholds : Holds (Mem.ofBytes pack) 0
      (pack.take sizeofClientPackageHead ++ pack.drop sizeofClientPackageHead) := by
    rw [List.take_append_drop]
    exact holds_ofBytes pack
  have hdata := hholds.append.2
  rw [Holds, hhead, List.length_drop, Nat.zero_add, h.data] at hdata
  rw [Mem.read_ofBytes_left (by omega), hdata]

theorem data_length (h : IsPack pack iCmdId data) :
    data.length = pack.length - sizeofClientPackageHead := by
  rw [← h.data, List.length_drop]

/-- The test of `RecvPack` finds the package as soon as all of it has arrived. -/
theorem hasPack_iff {s : Bytes} (h : IsPack pack iCmdId data) (hpack : pack <+: s)
    (hwindow : window <+: s) : HasPack window ↔ pack <+: window := by
  constructor
  · rintro ⟨hhead, hle⟩
    have hsame : readUShort (Mem.ofBytes window) 0 = pack.length := by
      obtain ⟨rest, rfl⟩ := hwindow
      rw [← readUShort_append (Nat.le_trans (by decide) (Nat.le_of_lt hhead)) rest]
      exact h.window_packLen hpack
    exact List.prefix_of_prefix_length_le hpack hwindow (hsame ▸ hle)
  · intro hpre
    refine ⟨Nat.lt_of_lt_of_le h.long hpre.length_le, ?_⟩
    rw [h.window_packLen hpre]
    exact hpre.length_le

end IsPack

theorem recvPacks_arrives (h : IsPack pack iCmdId data) (halive : Alive rets)
    (hpack : pack <+: window ++ arriving rets) :
    ∃ window' rets', recvPacks rets window = some (true, window', rets') ∧ pack <+: window' ∧
      window' ++ arriving rets' = window ++ arriving rets ∧ Alive rets' := by
  induction rets generalizing window with
  | nil =>
    have hwhole : pack <+: window := by simpa only [arriving, List.append_nil] using hpack
    have hhas := (h.hasPack_iff hpack (List.prefix_append _ _)).mpr hwhole
    exact ⟨window, [], by rw [recvPacks, if_pos hhas], hwhole, rfl, halive⟩
  | cons ret rets ih =>
    have hrest : Alive rets := fun r hr => halive r (List.mem_cons_of_mem _ hr)
    by_cases hhas : HasPack window
    · have hwhole := (h.hasPack_iff hpack (List.prefix_append _ _)).mp hhas
      refine ⟨window, ret :: rets, ?_, hwhole, rfl, halive⟩
      unfold recvPacks
      rw [if_pos hhas]
    · unfold recvPacks
      rw [if_neg hhas]
      obtain ⟨hopen, hsome⟩ := halive ret List.mem_cons_self
      cases ret with
      | again => exact ih hrest hpack
      | failed => exact absurd rfl hopen
      | recvd bs =>
        have hne : bs ≠ [] := fun hnil => hsome (by rw [hnil])
        dsimp only
        rw [if_neg hne, arriving, ← List.append_assoc]
        rw [arriving, ← List.append_assoc] at hpack
        exact ih hrest hpack

/-- The next package on the connection is the one that is taken. -/
theorem recvOnePack_arrives (h : IsPack pack iCmdId data) (halive : Alive rets)
    (hpack : pack <+: c.window ++ arriving rets) :
    ∃ window' rets', c.recvOnePack rets =
        some (some (iCmdId, data), { c with window := window' }, rets') ∧
      window' ++ arriving rets' = (c.window ++ arriving rets).drop pack.length ∧
      Alive rets' := by
  obtain ⟨window, rets', hrecv, hpre, hsame, halive'⟩ := recvPacks_arrives h halive hpack
  refine ⟨window.drop pack.length, rets', ?_, ?_, halive'⟩
  · rw [Consumer.recvOnePack, hrecv, Option.bind_some]
    simp only [h.window_packLen hpre, h.window_cmdId hpre, not_true_eq_false, if_false]
    rw [if_neg (Nat.not_lt.mpr h.short), if_neg (Nat.not_lt.mpr (Nat.le_of_lt h.long)),
      h.window_data hpre]
  · rw [← hsame, List.drop_append_of_le_length hpre.length_le]

end Wsmq
