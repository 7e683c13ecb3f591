import Wsmq.LogicServer.RoundTrip

/-!
# Publishing from a buffer that is not initialised

`ReSendMsg` packs a message into an array that it has not cleared.  Only the bytes of a name
are written, so behind the name goes out what happens to be there, and the server reads up
to the first zero byte.
-/

namespace Wsmq
open Lib Lib.ByteString Lib.Packing

namespace CreatePublishMessage

/-- What the server reads in a package: this message. -/
structure Publishes (m : CreatePublishMessage) (bs : Bytes) : Prop where
  packLen : readUShort (Mem.ofBytes bs) 0 = bs.length
  cmdId : readUShort (Mem.ofBytes bs) 6 = cmdCreatePublish
  decoded : LogicServer.decodePublish (shift (Mem.ofBytes bs) sizeofClientPackageHead)
      (bs.length - sizeofClientPackageHead : Nat) =
    some ⟨m.exchangeName, m.routingKey, m.priority, m.durable, m.msgSeq, m.confirmLevel,
      m.msgBody.length, m.msgBody⟩

/-- The message is a package with names that are shorter than their fields, and the buffer has a
zero byte where each of them ends. -/
structure Sendable (m : CreatePublishMessage) (buf : Mem) : Prop where
  range : (Request.createPublish m).InRange
  zero : ∀ n ∈ [m.exchangeName, m.routingKey], 0 ∉ n
  short : ∀ n ∈ [m.exchangeName, m.routingKey], n.length < maxNameLength
  exchangeEnd : buf (sizeofClientPackageHead + m.exchangeName.length) = 0
  keyEnd : buf (sizeofClientPackageHead + maxNameLength + m.routingKey.length) = 0

section Filled

variable {m : CreatePublishMessage} {buf : Mem}

/-- The message as it goes out: each name has what the buffer holds behind it. -/
def filled (m : CreatePublishMessage) (buf : Mem) : CreatePublishMessage :=
  { m with
    exchangeName := m.exchangeName ++ buf.read (sizeofClientPackageHead + m.exchangeName.length)
      (maxNameLength - m.exchangeName.length)
    routingKey := m.routingKey ++
      buf.read (sizeofClientPackageHead + maxNameLength + m.routingKey.length)
        (maxNameLength - m.routingKey.length) }

theorem fits_fields (hshort : ∀ n ∈ [m.exchangeName, m.routingKey], n.length ≤ maxNameLength) :
    ∀ f ∈ m.fields, f.Fits := by
  have hexchange := hshort m.exchangeName List.mem_cons_self
  have hkey := hshort m.routingKey (List.mem_cons_of_mem _ List.mem_cons_self)
  simp [fields, packHead, Field.Fits, writeName, writeShort, writeUShort, writeBool, writeInt,
    writeByte, writeBody, hexchange, hkey]

theorem filled_length (buf : Mem)
    (hshort : ∀ n ∈ [m.exchangeName, m.routingKey], n.length ≤ maxNameLength) :
    (m.filled buf).exchangeName.length = maxNameLength ∧
      (m.filled buf).routingKey.length = maxNameLength := by
  have hexchange := hshort m.exchangeName List.mem_cons_self
  have hkey := hshort m.routingKey (List.mem_cons_of_mem _ List.mem_cons_self)
  constructor
  · rw [filled, List.length_append, Mem.read_length]
    omega
  · rw [filled, List.length_append, Mem.read_length]
    omega

theorem size_fields (m : CreatePublishMessage) :
    size m.fields = sizeofClientPackageHead + LogicServer.publishBodyOffset + m.msgBody.length := by
  simp only [fields, packHead, size_append, size_cons, size_nil, writeUShort, writeInt, writeName,
    writeShort, writeBool, writeByte, writeBody, maxNameLength, sizeofClientPackageHead,
    LogicServer.publishBodyOffset]
  omega

theorem fill_fields (m : CreatePublishMessage) (buf : Mem) :
    fill buf 0 m.fields = (m.filled buf).fields := by
  simp [fields, filled, fill, packHead, writeUShort, writeInt, writeName, writeShort, writeBool,
    writeByte, writeBody, sizeofClientPackageHead, maxNameLength, iMsgLen]
  exact if_congr Iff.rfl rfl rfl

/-- What goes out when the names and the package fit. -/
theorem sent_eq (buf : Mem)
    (hshort : ∀ n ∈ [m.exchangeName, m.routingKey], n.length ≤ maxNameLength)
    (hlen : m.iMsgLen = sizeofClientPackageHead + LogicServer.publishBodyOffset +
      m.msgBody.length) (hroom : m.iMsgLen ≤ maxClintPackageLength) :
    (m.getMessagePack buf maxClintPackageLength).sent = image (m.filled buf).fields := by
  have hexchange := hshort m.exchangeName List.mem_cons_self
  have hkey := hshort m.routingKey (List.mem_cons_of_mem _ List.mem_cons_self)
  have hfits : ¬ ((maxClintPackageLength : Int) < m.iMsgLen) := by omega
  rw [getMessagePack, if_neg (Nat.not_lt.mpr hexchange), if_neg (Nat.not_lt.mpr hkey), pack,
    if_neg hfits, Packed.sent, Int.toNat_natCast]
  dsimp only
  rw [hlen, ← size_fields, read_place_fill _ _ (fits_fields hshort), fill_fields]

/-- The server reads the names up to their first zero byte, and the other fields as they were. -/
theorem decodePublish_filled (buf : Mem) (hrange : (Request.createPublish m).InRange)
    (hshort : ∀ n ∈ [m.exchangeName, m.routingKey], n.length ≤ maxNameLength) :
    LogicServer.decodePublish
      (shift (Mem.ofBytes (image (m.filled buf).fields)) sizeofClientPackageHead)
      ((image (m.filled buf).fields).length - sizeofClientPackageHead : Nat) =
    (cstr (m.filled buf).exchangeName).bind fun e => (cstr (m.filled buf).routingKey).map fun k =>
      ⟨e, k, m.priority, m.durable, m.msgSeq, m.confirmLevel, m.msgBody.length, m.msgBody⟩ := by
  obtain ⟨hexchange, hkey⟩ := filled_length buf hshort
  have hfilled : ∀ n ∈ [(m.filled buf).exchangeName, (m.filled buf).routingKey],
      n.length ≤ maxNameLength := by
    intro n hn
    rcases List.mem_cons.mp hn with rfl | hn
    · exact hexchange.le
    · rw [List.mem_singleton.mp hn]
      exact hkey.le
  have hfits := fits_fields hfilled
  have hbody : ∀ f ∈ (Request.createPublish (m.filled buf)).body, f.Fits := fun f hf =>
    hfits f (List.mem_append_right _ hf)
  have hhead : (image (packHead (m.filled buf).iMsgLen (m.filled buf).index
      cmdCreatePublish)).length = sizeofClientPackageHead := image_length (fits_packHead _ _ _)
  have himage : image (m.filled buf).fields =
      image (packHead (m.filled buf).iMsgLen (m.filled buf).index cmdCreatePublish) ++
        image (Request.createPublish (m.filled buf)).body := image_append _ _
  have hmem : shift (Mem.ofBytes (image (m.filled buf).fields)) sizeofClientPackageHead =
      Mem.ofBytes (image (Request.createPublish (m.filled buf)).body) := by
    funext x
    rw [himage, shift, ← hhead, Mem.ofBytes_append_right]
  have hlen : (image (m.filled buf).fields).length - sizeofClientPackageHead =
      size (Request.createPublish (m.filled buf)).body := by
    rw [himage, List.length_append, hhead, Nat.add_sub_cancel_left, image_length hbody]
  have hholds := holds_ofBytes (image (Request.createPublish (m.filled buf)).body)
  have hname : ∀ {n : Name}, n.length = maxNameLength → pad maxNameLength n = n := by
    intro n hn
    rw [pad, hn, Nat.sub_self, List.replicate_zero, List.append_nil]
  have hread := @Holds.field _ _ [] _ _ hholds hbody
  have hread' := @Holds.field _ _ [writeName (m.filled buf).exchangeName] _ _ hholds hbody
  rw [hmem, LogicServer.decodePublish_image hholds hlen hbody hrange, readName, readName]
  have hexchange' : (Mem.ofBytes (image (Request.createPublish (m.filled buf)).body)).read 0
      maxNameLength = (m.filled buf).exchangeName := hread.trans (hname hexchange)
  have hkey' : (Mem.ofBytes (image (Request.createPublish (m.filled buf)).body)).read 32
      maxNameLength = (m.filled buf).routingKey := hread'.trans (hname hkey)
  rw [hexchange', hkey']
  rfl

/-! ## What the server reads -/

theorem iMsgLen_eq (hrange : (Request.createPublish m).InRange) :
    m.iMsgLen = sizeofClientPackageHead + LogicServer.publishBodyOffset + m.msgBody.length := by
  obtain ⟨-, -, -, hroom⟩ := hrange
  have hmax : maxClintPackageLength = 11264 := rfl
  have hsum : sizeofClientPackageHead + maxNameLength + maxNameLength + 2 + 1 + 4 + 1 =
      sizeofClientPackageHead + LogicServer.publishBodyOffset := rfl
  rw [iMsgLen, hsum]
  exact Nat.mod_eq_of_lt (by omega)

/-- A name is read as it was when there is a zero byte behind it. -/
theorem cstr_filled {n : Name} {a : Nat} : cstr (n ++ buf.read a (maxNameLength - n.length)) =
    some n ↔ 0 ∉ n ∧ n.length < maxNameLength ∧ buf a = 0 := by
  have hhead : (buf.read a (maxNameLength - n.length)).head? = some 0 ↔
      n.length < maxNameLength ∧ buf a = 0 := by
    cases hgap : maxNameLength - n.length with
    | zero =>
      refine iff_of_false nofun fun h => ?_
      omega
    | succ k =>
      have hfirst : (buf.read a (k + 1)).head? = some (buf a) := by
        rw [Mem.read, List.range_succ_eq_map]
        rfl
      rw [hfirst, Option.some_inj]
      exact (and_iff_right (by omega)).symm
  rw [cstr_append_iff, hhead]

/-- What goes out is as long as the package, or the whole buffer. -/
theorem sent_length (buf : Mem)
    (hshort : ∀ n ∈ [m.exchangeName, m.routingKey], n.length ≤ maxNameLength) :
    (m.getMessagePack buf maxClintPackageLength).sent.length =
      if m.iMsgLen ≤ maxClintPackageLength then m.iMsgLen else maxClintPackageLength := by
  have hexchange := hshort m.exchangeName List.mem_cons_self
  have hkey := hshort m.routingKey (List.mem_cons_of_mem _ List.mem_cons_self)
  rw [Packed.sent, Mem.read_length, getMessagePack, if_neg (Nat.not_lt.mpr hexchange),
    if_neg (Nat.not_lt.mpr hkey), pack]
  by_cases hroom : m.iMsgLen ≤ maxClintPackageLength
  · rw [if_neg (by omega), if_pos hroom]
    rfl
  · rw [if_pos (by omega), if_neg hroom]
    rfl

theorem publishes_of_sendable (h : m.Sendable buf) :
    m.Publishes (m.getMessagePack buf maxClintPackageLength).sent := by
  have hlen := iMsgLen_eq h.range
  have hroom : m.iMsgLen ≤ maxClintPackageLength := by
    rw [hlen]
    exact h.range.2.2.2
  have hshort : ∀ n ∈ [m.exchangeName, m.routingKey], n.length ≤ maxNameLength :=
    fun n hn => (h.short n hn).le
  have hfilled : ∀ n ∈ [(m.filled buf).exchangeName, (m.filled buf).routingKey],
      n.length ≤ maxNameLength := by
    obtain ⟨hexchange, hkey⟩ := filled_length buf hshort
    intro n hn
    rcases List.mem_cons.mp hn with rfl | hn
    · exact hexchange.le
    · rw [List.mem_singleton.mp hn]
      exact hkey.le
  have hlength := sent_length buf hshort
  rw [if_pos hroom] at hlength
  have hsent := sent_eq buf hshort hlen hroom
  have hholds := holds_ofBytes (image (m.filled buf).fields)
  have hfits := fits_fields hfilled
  have hsmall : m.iMsgLen < 2 ^ 16 := Nat.lt_of_le_of_lt hroom (by decide)
  have hpackLen : readUShort (Mem.ofBytes (image (m.filled buf).fields)) 0 = m.iMsgLen :=
    readUShort_field (a := 0) [] hholds hfits hsmall
  have hcmd : readUShort (Mem.ofBytes (image (m.filled buf).fields)) 6 = cmdCreatePublish :=
    readUShort_field (a := 0) [writeUShort m.iMsgLen, writeInt m.index] hholds hfits (by decide)
  have hexchange : cstr (m.filled buf).exchangeName = some m.exchangeName :=
    cstr_filled.mpr ⟨h.zero _ List.mem_cons_self, h.short _ List.mem_cons_self, h.exchangeEnd⟩
  have hmem : m.routingKey ∈ [m.exchangeName, m.routingKey] :=
    List.mem_cons_of_mem _ List.mem_cons_self
  have hkey : cstr (m.filled buf).routingKey = some m.routingKey :=
    cstr_filled.mpr ⟨h.zero _ hmem, h.short _ hmem, h.keyEnd⟩
  have hdecoded := decodePublish_filled buf h.range hshort
  rw [hexchange, hkey] at hdecoded
  rw [hsent] at hlength ⊢
  exact ⟨hpackLen.trans hlength.symm, hcmd, hdecoded⟩

/-- The server reads the message from what went out exactly when it could be sent. -/
theorem publishes_iff :
    m.Publishes (m.getMessagePack buf maxClintPackageLength).sent ↔ m.Sendable buf := by
  refine ⟨?_, publishes_of_sendable⟩
  rintro ⟨-, -, hdecoded⟩
  have hwhole := hdecoded
  obtain ⟨e, he, hrest⟩ := Option.bind_eq_some_iff.mp hdecoded
  obtain ⟨k, hk, heq⟩ := Option.map_eq_some_iff.mp hrest
  injection heq with hexchange hkey hpriority _ hseq hlevel hbodyLen _
  subst hexchange
  subst hkey
  have hshort : ∀ n ∈ [m.exchangeName, m.routingKey], n.length < maxNameLength := by
    intro n hn
    rcases List.mem_cons.mp hn with rfl | hn
    · exact LogicServer.readName_length he
    · rw [List.mem_singleton.mp hn]
      exact LogicServer.readName_length hk
  have hshort' : ∀ n ∈ [m.exchangeName, m.routingKey], n.length ≤ maxNameLength :=
    fun n hn => (hshort n hn).le
  have hhead : sizeofClientPackageHead = 8 := rfl
  have hoff : LogicServer.publishBodyOffset = 72 := rfl
  have hmax : maxClintPackageLength = 11264 := rfl
  -- the length of the body tells that of the package
  have hlen : sizeofClientPackageHead + LogicServer.publishBodyOffset + m.msgBody.length ≤
      maxClintPackageLength := by
    have hsum : sizeofClientPackageHead + maxNameLength + maxNameLength + 2 + 1 + 4 + 1 =
        sizeofClientPackageHead + LogicServer.publishBodyOffset := rfl
    rw [sent_length buf hshort'] at hbodyLen
    split at hbodyLen
    · omega
    · next hroom =>
      rw [iMsgLen, hsum, ushort] at hroom
      omega
  have hrange : (Request.createPublish m).InRange := by
    refine ⟨hpriority ▸ fitsInt_readShort _ _, hseq ▸ fitsInt_readInt _ _, ?_, hlen⟩
    rw [← hlevel]
    exact UInt8.toNat_lt _
  have hmem : m.routingKey ∈ [m.exchangeName, m.routingKey] :=
    List.mem_cons_of_mem _ List.mem_cons_self
  have hread := decodePublish_filled buf hrange hshort'
  have hroom : m.iMsgLen ≤ maxClintPackageLength := (iMsgLen_eq hrange).trans_le hlen
  rw [← sent_eq buf hshort' (iMsgLen_eq hrange) hroom, hwhole] at hread
  obtain ⟨e, he', hrest⟩ := Option.bind_eq_some_iff.mp hread.symm
  obtain ⟨k, hk', heq⟩ := Option.map_eq_some_iff.mp hrest
  injection heq with hexchange hkey
  rw [hexchange] at he'
  rw [hkey] at hk'
  obtain ⟨hzero, hlt, hend⟩ := cstr_filled.mp he'
  obtain ⟨hzero', hlt', hend'⟩ := cstr_filled.mp hk'
  refine ⟨hrange, fun n hn => ?_, hshort, hend, hend'⟩
  rcases List.mem_cons.mp hn with rfl | hn
  · exact hzero
  · rw [List.mem_singleton.mp hn]
    exact hzero'

end Filled

end CreatePublishMessage

end Wsmq
