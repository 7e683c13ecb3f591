import Wsmq.Client.Safety

/-!
# Acknowledged publishing, call by call (`client/client.cpp`)

`PuslishMessage`, what it and `ReSendMsg` give to the server, and which messages `RecvServerAck`
strikes off the list.
-/

namespace Wsmq
open Lib Lib.ByteString Lib.Packing
open RecvWindow (Found)

namespace Producer

/-- What `PuslishMessage` returns and leaves, and what has gone to the server. -/
structure Puslished where
  ret : Int
  producer : Producer
  iMsgSeq : Int
  sent : List Bytes := []
  /-- What was put on `m_NeedAckMsgList`. -/
  saved : List SavedMessage := []

/-- It has no result when the body runs over `pMsgPack`, or when `m_iMsgSeq` runs over. -/
def puslishMessage (p : Producer) (iMsgSeq : Int) (istrExName istrKey : Name) (istrMsgBody : Bytes)
    (iPriority : Int) (bDurable : Bool) (tSaveTime : Timeval) (sendOk : Bool) :
    Option Puslished :=
  if ¬ p.window.bBuild then some ⟨Client.errClientBuildConnect, p, iMsgSeq, [], []⟩
  else if p.iConfirmLevel > 0 ∧ iMsgSeq + 1 ≥ 2 ^ 31 then none
  else
    let oMsg : CreatePublishMessage :=
      { index := -1
        exchangeName := istrExName
        routingKey := istrKey
        priority := iPriority
        durable := bDurable
        msgSeq := if p.iConfirmLevel > 0 then iMsgSeq else -1
        confirmLevel := p.iConfirmLevel
        msgBody := istrMsgBody }
    let iMsgSeq := if p.iConfirmLevel > 0 then iMsgSeq + 1 else iMsgSeq
    let packed := oMsg.getMessagePack zeroed maxClintPackageLength
    if packed.ret ≠ Message.success then some ⟨Client.errClientPublishMsg, p, iMsgSeq, [], []⟩
    else if size oMsg.fields > maxClintPackageLength then none
    else if ¬ sendOk then
      some ⟨Client.errClientPublishMsg, { p with window := p.window.closed }, iMsgSeq, [], []⟩
    else if p.iConfirmLevel > 0 then
      let saved : SavedMessage := { oMsg with saveTime := tSaveTime }
      some ⟨Client.success, { p with needAckMsgList := p.needAckMsgList ++ [saved] }, iMsgSeq,
        [packed.sent], [saved]⟩
    else some ⟨Client.success, p, iMsgSeq, [packed.sent], []⟩

/-- What of the packages of a call of `ReSendMsg` has gone to the server. -/
def resentPacks (ret : Int) (p : Producer) : List Bytes :=
  let packs := p.resent.map Prod.snd
  if ret = Client.success then packs else packs.dropLast

end Producer

/-! ## Publish packages -/

/-- A publish package with the number, as the logic server reads it. -/
structure IsPublish (pack : Bytes) (iMsgSeq : Int) : Prop where
  long : sizeofClientPackageHead + 72 ≤ pack.length
  cmdId : readUShort (Mem.ofBytes pack) 6 = cmdCreatePublish
  msgSeq : readInt (Mem.ofBytes pack) (sizeofClientPackageHead + 67) = iMsgSeq
  confirmLevel : readByte (Mem.ofBytes pack) (sizeofClientPackageHead + 71) = producerSingleAck

/-- A message that is packed whole. -/
structure CreatePublishMessage.Packs (m : CreatePublishMessage) : Prop where
  exchangeName : m.exchangeName.length ≤ maxNameLength
  routingKey : m.routingKey.length ≤ maxNameLength
  short : size m.fields ≤ maxClintPackageLength
  msgSeq : FitsInt 4 m.msgSeq
  confirmLevel : m.confirmLevel = producerSingleAck

theorem readByte_eq (m : Mem) (a : Nat) : readByte m a = ofBe (m.read a 1) := by
  simp [readByte, Mem.read, ofBe]

namespace CreatePublishMessage

variable {m : CreatePublishMessage} {buf : Mem}

theorem names_of_success {iopBuffLen : Int}
    (h : (m.getMessagePack buf iopBuffLen).ret = Message.success) :
    m.exchangeName.length ≤ maxNameLength ∧ m.routingKey.length ≤ maxNameLength := by
  unfold getMessagePack at h
  split at h
  · cases h
  · next hexchange =>
    split at h
    · cases h
    · next hkey => exact ⟨Nat.le_of_not_lt hexchange, Nat.le_of_not_lt hkey⟩

theorem Packs.sent (h : m.Packs) (buf : Mem) :
    (m.getMessagePack buf maxClintPackageLength).sent =
      (place buf 0 m.fields).read 0 (size m.fields) := by
  have hsize : size m.fields = sizeofClientPackageHead + 72 + m.msgBody.length := size_fields m
  have hshort := h.short
  have hmax : maxClintPackageLength = 11264 := rfl
  have hlen : m.iMsgLen = size m.fields := by
    rw [hsize]
    exact Nat.mod_eq_of_lt (by simp only [maxNameLength, sizeofClientPackageHead] at *; omega)
  rw [getMessagePack, if_neg (Nat.not_lt.mpr h.exchangeName),
    if_neg (Nat.not_lt.mpr h.routingKey), pack, if_neg (by omega), Packed.sent, Int.toNat_natCast,
    hlen]

/-- Whatever the buffer held before. -/
theorem Packs.isPublish (h : m.Packs) (buf : Mem) :
    IsPublish (m.getMessagePack buf maxClintPackageLength).sent m.msgSeq := by
  have hsize : size m.fields = sizeofClientPackageHead + 72 + m.msgBody.length := size_fields m
  have hread : ∀ {a n : Nat}, a + n ≤ size m.fields →
      (Mem.ofBytes ((place buf 0 m.fields).read 0 (size m.fields))).read a n =
        (place buf 0 m.fields).read a n := by
    intro a n hle
    rw [Mem.read_ofBytes_read _ _ hle, Nat.zero_add]
  have hhead : sizeofClientPackageHead = 8 := rfl
  have hpre : m.fields = (packHead m.iMsgLen m.index cmdCreatePublish ++
      [writeName m.exchangeName, writeName m.routingKey, writeShort m.priority,
        writeBool m.durable]) ++ writeInt m.msgSeq ::
          [writeByte m.confirmLevel, writeBody m.msgBody] := rfl
  have hcmd : (place buf 0 m.fields).read 6 2 = be 2 cmdCreatePublish :=
    @read_place_field buf 0 [writeUShort m.iMsgLen, writeInt m.index]
      (writeUShort cmdCreatePublish) _ (Nat.le_of_eq (be_length _ _))
  have hseq : (place buf 0 m.fields).read (sizeofClientPackageHead + 67) 4 =
      beInt 4 m.msgSeq := by
    rw [hpre]
    exact @read_place_field buf 0 _ (writeInt m.msgSeq) _ (Nat.le_of_eq (beInt_length _ _))
  have hlevel : (place buf 0 m.fields).read (sizeofClientPackageHead + 71) 1 =
      be 1 m.confirmLevel :=
    @read_place_field buf 0 (packHead m.iMsgLen m.index cmdCreatePublish ++
      [writeName m.exchangeName, writeName m.routingKey, writeShort m.priority,
        writeBool m.durable, writeInt m.msgSeq]) (writeByte m.confirmLevel) _
      (Nat.le_of_eq (be_length _ _))
  rw [h.sent]
  refine ⟨?_, ?_, ?_, ?_⟩
  · rw [Mem.read_length, hsize]
    omega
  · rw [readUShort, hread (by omega), hcmd]
    decide
  · rw [readInt, hread (by omega), hseq, ofBeInt_beInt h.msgSeq]
  · rw [readByte_eq, hread (by omega), hlevel, h.confirmLevel]
    decide

end CreatePublishMessage

/-! ## Calls that publish -/

namespace Producer

variable {p p' : Producer}

/-- The calls leave the window alone, or close the connection. -/
structure SameWindow (p p' : Producer) : Prop where
  iConfirmLevel : p'.iConfirmLevel = p.iConfirmLevel
  window : p'.window.bBuild → p'.window = p.window
  hasPack : p'.window.HasPack → p.window.HasPack

theorem SameWindow.refl (p : Producer) : SameWindow p p := ⟨rfl, fun _ => rfl, id⟩

/-- A message is saved and its package sent, or nothing happens to the list. -/
inductive Puslishes (p : Producer) (iMsgSeq : Int) (r : Puslished) : Prop
  | saved (m : SavedMessage) (pack : Bytes) (hsent : r.sent = [pack]) (hsaved : r.saved = [m])
      (hlist : r.producer.needAckMsgList = p.needAckMsgList ++ [m]) (hseq : m.msgSeq = iMsgSeq)
      (hnext : r.iMsgSeq = iMsgSeq + 1) (hpacks : m.Packs) (hpack : IsPublish pack m.msgSeq)
  | not (hsent : r.sent = []) (hsaved : r.saved = [])
      (hlist : r.producer.needAckMsgList = p.needAckMsgList) (hnext : iMsgSeq ≤ r.iMsgSeq)

theorem puslishMessage_spec {iMsgSeq : Int} {istrExName istrKey : Name} {istrMsgBody : Bytes}
    {iPriority : Int} {bDurable : Bool} {tSaveTime : Timeval} {sendOk : Bool} {r : Puslished}
    (hlevel : p.iConfirmLevel = producerSingleAck) (hpos : 0 ≤ iMsgSeq)
    (h : p.puslishMessage iMsgSeq istrExName istrKey istrMsgBody iPriority bDurable tSaveTime
      sendOk = some r) : SameWindow p r.producer ∧ Puslishes p iMsgSeq r := by
  have hconfirm : p.iConfirmLevel > 0 := by
    rw [hlevel]
    decide
  unfold puslishMessage at h
  simp only [if_pos hconfirm] at h
  split at h
  · cases h
    exact ⟨.refl p, .not rfl rfl rfl le_rfl⟩
  split at h
  · cases h
  next hroom =>
  split at h
  · cases h
    exact ⟨.refl p, .not rfl rfl rfl (Int.le_add_one le_rfl)⟩
  next hret =>
  split at h
  · cases h
  next hshort =>
  split at h
  · cases h
    exact ⟨⟨rfl, fun hopen => (nomatch hopen), id⟩, .not rfl rfl rfl (Int.le_add_one le_rfl)⟩
  cases h
  have hfits : FitsInt 4 iMsgSeq := by
    unfold FitsInt
    omega
  obtain ⟨hexchange, hkey⟩ := CreatePublishMessage.names_of_success (not_not.mp hret)
  refine ⟨⟨rfl, fun _ => rfl, id⟩, .saved _ _ rfl rfl rfl rfl rfl ?_ ?_⟩
  · exact ⟨hexchange, hkey, Nat.le_of_not_lt hshort, hfits, hlevel⟩
  · exact CreatePublishMessage.Packs.isPublish
      ⟨hexchange, hkey, Nat.le_of_not_lt hshort, hfits, hlevel⟩ zeroed

/-- The list has the same numbers, and packages are made from its messages. -/
structure ReSends (p p' : Producer) : Prop where
  same : SameWindow p p'
  messages : ∀ m ∈ p'.needAckMsgList,
    ∃ x ∈ p.needAckMsgList, x.toCreatePublishMessage = m.toCreatePublishMessage
  numbers : ∀ n, n ∈ (p'.needAckMsgList.map fun m => m.msgSeq) ↔
    n ∈ p.needAckMsgList.map fun m => m.msgSeq
  packs : ∀ b ∈ p'.resent.map Prod.snd, b ∈ p.resent.map Prod.snd ∨
    ∃ m ∈ p.needAckMsgList, ∃ buf, b = (m.getMessagePack buf maxClintPackageLength).sent

theorem ReSends.refl (p : Producer) : ReSends p p :=
  ⟨.refl p, fun m hm => ⟨m, hm, rfl⟩, fun _ => Iff.rfl, fun _ hb => Or.inl hb⟩

theorem reSends_sendAgain {m : SavedMessage} {rest : List SavedMessage} {tSaveTime : Timeval}
    {pBuffer : Mem} (hlist : p.needAckMsgList = m :: rest) :
    ReSends p (p.sendAgain m rest tSaveTime pBuffer) := by
  refine ⟨⟨rfl, fun _ => rfl, id⟩, fun x hx => ?_, fun n => ?_, fun b hb => ?_⟩
  · rw [hlist]
    rcases List.mem_append.mp hx with hx | hx
    · exact ⟨x, List.mem_cons_of_mem _ hx, rfl⟩
    · cases List.mem_singleton.mp hx
      exact ⟨m, List.mem_cons_self, rfl⟩
  · simp only [hlist, sendAgain, List.map_append, List.map_cons, List.map_nil, List.mem_append,
      List.mem_cons, List.not_mem_nil, or_false]
    exact or_comm
  · rw [sendAgain, List.map_append] at hb
    rcases List.mem_append.mp hb with hb | hb
    · exact Or.inl hb
    · refine Or.inr ⟨m, ?_, pBuffer, List.mem_singleton.mp hb⟩
      rw [hlist]
      exact List.mem_cons_self

theorem ReSends.trans {p₁ p₂ p₃ : Producer} (h : ReSends p₁ p₂) (h' : ReSends p₂ p₃) :
    ReSends p₁ p₃ := by
  refine ⟨⟨h'.same.iConfirmLevel.trans h.same.iConfirmLevel, fun hopen => ?_,
    fun hpack => h.same.hasPack (h'.same.hasPack hpack)⟩, fun m hm => ?_,
    fun n => (h'.numbers n).trans (h.numbers n), fun b hb => ?_⟩
  · have hsame := h'.same.window hopen
    rw [hsame]
    exact h.same.window (hsame ▸ hopen)
  · obtain ⟨x, hx, hxm⟩ := h'.messages m hm
    obtain ⟨y, hy, hyx⟩ := h.messages x hx
    exact ⟨y, hy, hyx.trans hxm⟩
  · rcases h'.packs b hb with hb | ⟨m, hm, buf, rfl⟩
    · exact h.packs b hb
    · obtain ⟨x, hx, hxm⟩ := h.messages m hm
      exact Or.inr ⟨x, hx, buf, by rw [hxm]⟩

theorem reSendLoop_reSends {tNow : Timeval} {later : Nat → Timeval} {pBuffer : Nat → Mem}
    {sendOk : Nat → Bool} {n k : Nat} {ret : Int}
    (h : reSendLoop tNow later pBuffer sendOk n k p = some (ret, p')) : ReSends p p' := by
  induction n generalizing k p with
  | zero => cases h
  | succ n ih =>
    rcases stops_or_due tNow p with hstop | ⟨m, l, hlist, hdue⟩
    · rw [reSendLoop_stop hstop] at h
      cases h
      exact .refl _
    · have hagain : ReSends p (p.sendAgain m l (later k) (pBuffer k)) := reSends_sendAgain hlist
      cases hsend : sendOk k with
      | true =>
        rw [reSendLoop_next hlist hdue hsend] at h
        exact hagain.trans (ih h)
      | false =>
        rw [reSendLoop_failed hlist hdue hsend] at h
        cases h
        exact { hagain with same := ⟨rfl, fun hopen => (nomatch hopen), id⟩ }

/-- What `ReSendMsg` gives to the server are packages of messages on the list. -/
theorem reSendMsg_spec {tNow : Timeval} {later : Nat → Timeval} {pBuffer : Nat → Mem}
    {sendOk : Nat → Bool} {n : Nat} {ret : Int}
    (h : p.reSendMsg tNow later pBuffer sendOk n = some (ret, p')) :
    SameWindow p p' ∧
      (∀ m ∈ p'.needAckMsgList,
        ∃ x ∈ p.needAckMsgList, x.toCreatePublishMessage = m.toCreatePublishMessage) ∧
      (∀ n, n ∈ (p'.needAckMsgList.map fun m => m.msgSeq) ↔
        n ∈ p.needAckMsgList.map fun m => m.msgSeq) ∧
      ∀ b ∈ p'.resentPacks ret, ∃ m ∈ p.needAckMsgList, ∃ buf,
        b = (m.getMessagePack buf maxClintPackageLength).sent := by
  obtain ⟨hsame, hmessages, hnumbers, hpacks⟩ := reSendLoop_reSends h
  refine ⟨⟨hsame.iConfirmLevel, hsame.window, hsame.hasPack⟩, hmessages, hnumbers,
    fun b hb => ?_⟩
  have hmem : b ∈ p'.resent.map Prod.snd := by
    unfold resentPacks at hb
    split at hb
    · exact hb
    · exact List.dropLast_subset _ hb
  rcases hpacks b hmem with hold | hnew
  · cases hold
  · exact hnew

end Producer

/-! ## Packages with numbers -/

/-- What `RecvServerAck` takes for an acknowledgement number. -/
def ackNumber (pack : Bytes) : Int := readInt (Mem.ofBytes pack) sizeofClientPackageHead

/-- A whole package with room for a number. -/
structure HasNumber (pack : Bytes) : Prop where
  packLen : packLen pack = pack.length
  long : sizeofClientPackageHead + 4 ≤ pack.length

theorem ackNumber_append {pack : Bytes} (h : HasNumber pack) (bs : Bytes) :
    ackNumber (pack ++ bs) = ackNumber pack := by
  rw [ackNumber, readInt, Mem.read_ofBytes_left h.long, ← readInt, ackNumber]

theorem eq_nil_of_flatten {packs : List Bytes} (h : ∀ pack ∈ packs, HasNumber pack)
    (hnil : packs.flatten = []) : packs = [] := by
  cases packs with
  | nil => rfl
  | cons pack packs =>
    have hlong := (h pack List.mem_cons_self).long
    rw [List.flatten_cons, List.append_eq_nil_iff] at hnil
    rw [hnil.1] at hlong
    exact absurd hlong (by decide)

namespace AckScan

variable {x : AckScan} {bs incoming : Bytes} {packs : List Bytes}

/-- Where the scan can go on: an open connection whose window is inside the buffer. -/
structure Scanning (x : AckScan) : Prop extends Running x where
  bBuild : x.window.bBuild = true
  room : x.window.recvTail ≤ Client.sockRecvBuffSize

/-- A scan that has come to its end leaves the rest at the front of the buffer. -/
theorem leave_keeps (h : Scanning x) : RecvWindow.Keeps x.leave.window x.window.unread := by
  have hle := h.inBuffer
  have hroom := h.room
  have hlen := x.window.unread_length
  have hcount : ((x.window.recvTail : Int) - x.window.recvHead).toNat = x.window.unread.length := by
    rw [hlen]
    omega
  refine ⟨h.bBuild, rfl, hcount, ?_, by omega⟩
  show (x.window.recvBuff.write 0 (x.window.recvBuff.read x.window.recvHead
    ((x.window.recvTail : Int) - x.window.recvHead).toNat)).read 0 x.window.unread.length =
      x.window.unread
  rw [hcount, hlen]
  conv_rhs => rw [← Mem.read_write_same x.window.recvBuff 0 x.window.unread, hlen]
  rfl

theorem round_leave (h : Scanning x) (hrest : x.window.unread.length < sizeofClientPackageHead ∨
    x.window.unread.length < packLen x.window.unread) :
    x.round.done = true ∧ x.round.sAckSeq = x.sAckSeq ∧
      RecvWindow.Keeps x.round.window x.window.unread := by
  unfold round
  dsimp only
  by_cases hshort : x.iLen < sizeofClientPackageHead
  · rw [if_pos hshort]
    exact ⟨rfl, rfl, leave_keeps h⟩
  rw [if_neg hshort]
  have hpart : x.iLen < x.window.iPackLen := by
    rw [h.length] at hshort ⊢
    rw [RecvWindow.iPackLen_eq (by omega)]
    have hpart := hrest.resolve_left (by omega)
    omega
  rw [if_pos hpart]
  exact ⟨rfl, rfl, leave_keeps ⟨⟨h.iLen, h.inBuffer, h.running⟩, h.bBuild, h.room⟩⟩

theorem round_numbered {pack : Bytes} (h : Scanning x) (hpack : HasNumber pack)
    (hunread : x.window.unread = pack ++ bs) :
    Scanning x.round ∧ x.round.window.unread = bs ∧
      x.round.sAckSeq = x.sAckSeq.insert (ackNumber pack) := by
  have hlong := hpack.long
  have hwhole : packLen x.window.unread = pack.length := by
    rw [hunread, packLen_append (by omega), hpack.packLen]
  have hlen : pack.length ≤ x.window.unread.length := by
    rw [hunread, List.length_append]
    omega
  obtain ⟨hrunning, hdrop, _⟩ := @round_whole 0 x h.toRunning (by omega) (by omega)
  rw [hwhole, hunread, List.drop_left] at hdrop
  refine ⟨⟨hrunning, ?_, ?_⟩, hdrop, ?_⟩
  all_goals
    have hiLen := h.length
    have hpackLen := RecvWindow.iPackLen_eq (w := x.window) (by omega)
    unfold round
    dsimp only
    rw [if_neg (by omega), if_neg (by omega)]
  · exact h.bBuild
  · exact h.room
  · have hread := Mem.read_ofBytes_read x.window.recvBuff x.window.recvHead
      (show sizeofClientPackageHead + 4 ≤ x.window.recvTail - x.window.recvHead by
        rw [← x.window.unread_length]
        omega)
    have hnumber : readInt x.window.recvBuff (x.window.recvHead + sizeofClientPackageHead) =
        ackNumber pack := by
      rw [← ackNumber_append hpack bs, ← hunread, ackNumber, readInt, readInt, RecvWindow.unread,
        hread]
    rw [hnumber]

/-- The numbers of the packages that have been read whole, and of no others. -/
theorem rounds_numbered (n : Nat) (hx : Scanning x) (hpacks : ∀ pack ∈ packs, HasNumber pack)
    (hstream : x.window.unread ++ incoming = packs.flatten) (hdone : (rounds n x).done = true) :
    ∃ read rest window, packs = read ++ rest ∧ RecvWindow.Keeps (rounds n x).window window ∧
      ¬ HasPack window ∧ window ++ incoming = rest.flatten ∧
      ∀ k, k ∈ (rounds n x).sAckSeq ↔ k ∈ x.sAckSeq ∨ k ∈ read.map ackNumber := by
  induction n generalizing x packs with
  | zero =>
    rw [rounds, hx.running] at hdone
    cases hdone
  | succ n ih =>
    rw [hx.toRunning.rounds_succ] at hdone ⊢
    rcases rest_or_whole x.window.unread with hrest | ⟨hlong, hwhole⟩
    · obtain ⟨hleft, hseq, hkeeps⟩ := round_leave hx hrest
      rw [rounds_done hleft]
      have hpart : ¬ HasPack x.window.unread := by
        rintro ⟨hlong, hwhole⟩
        exact hrest.elim (Nat.not_lt.mpr (Nat.le_of_lt hlong)) (Nat.not_lt.mpr hwhole)
      exact ⟨[], packs, _, rfl, hkeeps, hpart, hstream, fun k => by simp [hseq]⟩
    · cases packs with
      | nil =>
        have hhead : sizeofClientPackageHead = 8 := rfl
        rw [List.flatten_nil, List.append_eq_nil_iff] at hstream
        rw [hstream.1, List.length_nil] at hlong
        omega
      | cons pack packs =>
        have hpack := hpacks pack List.mem_cons_self
        have hsame : packLen x.window.unread = pack.length := by
          rw [← packLen_append (Nat.le_trans (by decide) hlong) incoming, hstream,
            List.flatten_cons, packLen_append (Nat.le_trans (by decide) hpack.long), hpack.packLen]
        rw [List.flatten_cons] at hstream
        rw [hsame] at hwhole
        obtain ⟨bs, hunread⟩ := List.prefix_of_prefix_length_le (List.prefix_append pack _)
          (hstream ▸ List.prefix_append x.window.unread incoming) hwhole
        have hbs : bs ++ incoming = packs.flatten := by
          rw [← hunread, List.append_assoc] at hstream
          exact List.append_cancel_left hstream
        obtain ⟨hscan, hnext, hseq⟩ := round_numbered hx hpack hunread.symm
        obtain ⟨read, rest, window, rfl, hkeeps, hpart, hrest, hnumbers⟩ := ih hscan
          (fun p hp => hpacks p (List.mem_cons_of_mem _ hp)) (by rw [hnext, hbs]) hdone
        refine ⟨pack :: read, rest, window, rfl, hkeeps, hpart, hrest, fun k => ?_⟩
        rw [hnumbers, hseq, List.mem_insert_iff, List.map_cons, List.mem_cons]
        tauto

end AckScan

/-! ## Calls that read acknowledgements -/

namespace RecvWindow

variable {w w' : RecvWindow} {window incoming incoming' : Bytes} {fs fs' : List Found}
  {found : Bool}

/-- What `RecvPack` receives goes to the end of the window, whatever it is. -/
theorem recvLoop_keeps (h : Keeps w window)
    (hloop : recvLoop fs w incoming = some (found, w', incoming', fs')) :
    if found then ∃ window', Keeps w' window' ∧ window' ++ incoming' = window ++ incoming
    else w'.bBuild = false ∧ ¬ w'.HasPack := by
  induction fs generalizing w window incoming with
  | nil =>
    rw [recvLoop] at hloop
    split at hloop
    · cases hloop
      exact ⟨window, h, rfl⟩
    · cases hloop
  | cons f fs ih =>
    by_cases hpack : w.HasPack
    · rw [recvLoop_hasPack hpack] at hloop
      cases hloop
      exact ⟨window, h, rfl⟩
    cases f with
    | again =>
      rw [recvLoop_again fs hpack] at hloop
      exact ih h hloop
    | ready n =>
      rw [recvLoop, if_neg hpack] at hloop
      dsimp only [recv, recvPack] at hloop
      rw [if_neg hpack] at hloop
      have hfree : w.iFreeSpace.toNat = Client.sockRecvBuffSize - window.length := by
        have hroom := h.room
        rw [iFreeSpace, h.tail]
        omega
      have hkeeps : Keeps (w.received (incoming.take (min (n + 1) w.iFreeSpace.toNat)))
          (window ++ incoming.take (min (n + 1) w.iFreeSpace.toNat)) := by
        have hroom := h.room
        refine h.received ?_
        rw [List.length_take]
        omega
      have hstream : (window ++ incoming.take (min (n + 1) w.iFreeSpace.toNat)) ++
          incoming.drop (min (n + 1) w.iFreeSpace.toNat) = window ++ incoming := by
        rw [List.append_assoc, List.take_append_drop]
      split at hloop
      · cases hloop
        exact ⟨rfl, hpack⟩
      by_cases hnow : (w.received (incoming.take (min (n + 1) w.iFreeSpace.toNat))).HasPack
      · rw [if_pos hnow] at hloop
        cases hloop
        exact ⟨_, hkeeps, hstream⟩
      · rw [if_neg hnow] at hloop
        have hrest := ih hkeeps hloop
        rw [hstream] at hrest
        exact hrest

end RecvWindow

namespace Producer

/-- What a call of `RecvServerAck` comes to on a stream of numbered packages. -/
inductive ReadsAcks (p p' : Producer) (packs : List Bytes) (incoming' : Bytes) : Prop
  | closed (hclosed : p'.window.bBuild = false) (hpart : ¬ p'.window.HasPack)
      (hlist : p'.needAckMsgList = p.needAckMsgList)
  | read (read rest : List Bytes) (window : Bytes) (hpacks : packs = read ++ rest)
      (hkeeps : RecvWindow.Keeps p'.window window) (hpart : ¬ HasPack window)
      (hstream : window ++ incoming' = rest.flatten)
      (hlist : p'.needAckMsgList =
        p.needAckMsgList.filter fun m => m.msgSeq ∉ read.map ackNumber)

theorem recvServerAck_spec {p p' : Producer} {window incoming incoming' : Bytes}
    {packs : List Bytes} {fs fs' : List Found} {n : Nat} {ret : Int}
    (hlevel : p.iConfirmLevel = producerSingleAck) (hkeeps : RecvWindow.Keeps p.window window)
    (hpacks : ∀ pack ∈ packs, HasNumber pack) (hstream : window ++ incoming = packs.flatten)
    (h : p.recvServerAck incoming fs n = some (ret, p', incoming', fs')) :
    p'.iConfirmLevel = p.iConfirmLevel ∧ ReadsAcks p p' packs incoming' := by
  obtain ⟨⟨found, w, incoming₁, fs₁⟩, hloop, h⟩ := Option.bind_eq_some_iff.mp h
  have hwindow := RecvWindow.recvLoop_keeps hkeeps hloop
  dsimp only at h
  cases found with
  | false =>
    rw [if_pos (by decide)] at h
    cases h
    exact ⟨rfl, .closed hwindow.1 hwindow.2 rfl⟩
  | true =>
    obtain ⟨window₁, hkeeps₁, hsame⟩ := hwindow
    rw [if_neg (by decide)] at h
    split at h
    · cases h
    next hdone =>
    cases h
    have hscan : AckScan.Scanning { window := w, iLen := w.iLen } := by
      refine ⟨⟨rfl, ?_, rfl⟩, hkeeps₁.bBuild, ?_⟩
      · show w.recvHead ≤ w.recvTail
        rw [hkeeps₁.head]
        exact Nat.zero_le _
      · show w.recvTail ≤ Client.sockRecvBuffSize
        rw [hkeeps₁.tail]
        exact hkeeps₁.room
    obtain ⟨read, rest, window₂, hsplit, hkeeps₂, hpart, hrest, hnumbers⟩ :=
      AckScan.rounds_numbered n hscan hpacks
        (show w.unread ++ _ = packs.flatten by rw [hkeeps₁.unread_eq, hsame, hstream])
        (not_not.mp hdone)
    refine ⟨rfl, .read read rest window₂ hsplit hkeeps₂ hpart hrest ?_⟩
    show unacknowledged p.iConfirmLevel _ p.needAckMsgList = _
    rw [unacknowledged, if_pos hlevel]
    refine List.filter_congr fun m _ => ?_
    have hiff := hnumbers m.msgSeq
    rw [decide_eq_decide, RecvWindow.ackScan, hiff]
    simp only [List.not_mem_nil, false_or]

end Producer

end Wsmq
