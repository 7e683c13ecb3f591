import Wsmq.ConnectServer
import Wsmq.LogicServer.Orders

/-!
# Lengths and capacities of the encoders

Every encoder computes the size of its package in an `unsigned short`, compares it with the
capacity, and writes.  All but two leave the size in `*iopBuffLen`.
-/

namespace Wsmq
open Lib.ByteString Lib.Packing

/-! ## The reported length -/

/-- An object of a class derived from `Message`. -/
inductive AnyMessage
  | createExchange (m : CreateExchangeMessage)
  | createQueue (m : CreateQueueMessage)
  | createBinding (m : CreateBindingMessage)
  | createPublish (m : CreatePublishMessage)
  | createRecv (m : CreateRecvMessage)
  | createSubscribe (m : CreateSubscribeMessage)
  | deleteExchange (m : DeleteExchangeMessage)
  | deleteQueue (m : DeleteQueueMessage)
  | cancelSubscribe (m : CancelSubscribeMessage)
  | severStore (m : SeverStoreMessage)
  | actReply (m : ActReplyMessage)
  | clientAck (m : ClientAckMessage)
  | serverAck (m : ServerAckMessage)
  | clientExit (m : ClientExitMessage)

namespace AnyMessage

def getMessagePack : AnyMessage → Mem → Int → Packed
  | .createExchange m => m.getMessagePack
  | .createQueue m => m.getMessagePack
  | .createBinding m => m.getMessagePack
  | .createPublish m => m.getMessagePack
  | .createRecv m => m.getMessagePack
  | .createSubscribe m => m.getMessagePack
  | .deleteExchange m => m.getMessagePack
  | .deleteQueue m => m.getMessagePack
  | .cancelSubscribe m => m.getMessagePack
  | .severStore m => m.getMessagePack
  | .actReply m => m.getMessagePack
  | .clientAck m => m.getMessagePack
  | .serverAck m => m.getMessagePack
  | .clientExit m => m.getMessagePack

/-- The size of what follows the head.  A name takes its whole field, and the text of a reply
ends with a zero byte. -/
def bodySize : AnyMessage → Nat
  | .createExchange _ => maxNameLength + 2 + 1 + 1
  | .createQueue _ => maxNameLength + 2 + 1 + 1
  | .createBinding _ => maxNameLength + maxNameLength + maxNameLength
  | .createPublish m => maxNameLength + maxNameLength + 2 + 1 + 4 + 1 + m.msgBody.length
  | .createRecv _ => maxNameLength + 1
  | .createSubscribe _ => maxNameLength + 1
  | .deleteExchange _ => maxNameLength
  | .deleteQueue _ => maxNameLength
  | .cancelSubscribe _ => maxNameLength
  | .severStore m => 1 + 4 + m.msgBody.length
  | .actReply m => 1 + m.msgBody.length + 1
  | .clientAck _ => 1 + 4
  | .serverAck _ => 4
  | .clientExit _ => 0

/-- The classes whose encoder ends with `*iopBuffLen=iMsgLen`. -/
def setsLength : AnyMessage → Bool
  | .cancelSubscribe _ => false
  | .clientExit _ => false
  | _ => true

/-- The length that is left for the caller is the length in the package, and the true one. -/
structure Reports (m : AnyMessage) (p : Packed) : Prop where
  packLen : p.iopBuffLen = readUShort p.buf 0
  size : p.iopBuffLen = sizeofClientPackageHead + m.bodySize

end AnyMessage

/-- What an encoder leaves that has not failed. -/
structure Encodes (p : Packed) (buf : Mem) (len : Int) (iMsgLen : Nat) : Prop where
  iopBuffLen : p.iopBuffLen = len
  head : ∃ fs, p.buf = place buf 0 (writeUShort iMsgLen :: fs)

section Encodes

variable {buf : Mem} {cap : Int} {iMsgLen : Nat} {fs : List Field} {names : List Name} {p : Packed}

theorem encodes_pack
    (h : (pack buf cap iMsgLen (writeUShort iMsgLen :: fs)).ret = Message.success) :
    Encodes (pack buf cap iMsgLen (writeUShort iMsgLen :: fs)) buf iMsgLen iMsgLen := by
  refine ⟨?_, fs, pack_success h⟩
  unfold pack at h ⊢
  split at h
  · cases h
  · next hroom => rw [if_neg hroom]

theorem encodes_packNames
    (h : (packNames names buf cap (pack buf cap iMsgLen (writeUShort iMsgLen :: fs))).ret =
      Message.success) :
    Encodes (packNames names buf cap (pack buf cap iMsgLen (writeUShort iMsgLen :: fs))) buf
      iMsgLen iMsgLen := by
  unfold packNames at h ⊢
  split at h
  · cases h
  · next hshort =>
    rw [if_neg hshort]
    exact encodes_pack h

theorem Encodes.keepsLength {len : Int} (h : Encodes p buf len iMsgLen) :
    Encodes { p with iopBuffLen := cap } buf cap iMsgLen := ⟨rfl, h.head⟩

/-- The first field is still there when the others are written. -/
theorem Encodes.packLen {len : Int} (h : Encodes p buf len iMsgLen) (hlt : iMsgLen < 2 ^ 16) :
    readUShort p.buf 0 = iMsgLen := by
  obtain ⟨fs, hbuf⟩ := h.head
  have hread : p.buf.read 0 2 = be 2 iMsgLen := by
    rw [hbuf, place]
    have hfirst : (place (buf.write 0 (be 2 iMsgLen)) 2 fs).read 0 2 =
        (buf.write 0 (be 2 iMsgLen)).read 0 2 :=
      Mem.read_congr fun i hi => place_of_lt _ _ (by omega)
    exact hfirst.trans (Mem.read_write_same buf 0 (be 2 iMsgLen))
  rw [readUShort, hread, ofBe_be_of_lt hlt]

end Encodes

theorem CreatePublishMessage.getMessagePack_eq (m : CreatePublishMessage) (buf : Mem) (cap : Int) :
    m.getMessagePack buf cap =
      packNames [m.exchangeName, m.routingKey] buf cap (pack buf cap m.iMsgLen m.fields) := by
  unfold CreatePublishMessage.getMessagePack packNames
  by_cases hexchange : m.exchangeName.length > maxNameLength
  · rw [if_pos hexchange, if_pos ⟨_, List.mem_cons_self, hexchange⟩]
  · by_cases hkey : m.routingKey.length > maxNameLength
    · rw [if_neg hexchange, if_pos hkey,
        if_pos ⟨_, List.mem_cons_of_mem _ List.mem_cons_self, hkey⟩]
    · rw [if_neg hexchange, if_neg hkey, if_neg (by
        simpa using ⟨Nat.not_lt.mp hexchange, Nat.not_lt.mp hkey⟩)]

namespace AnyMessage

variable {m : AnyMessage} {buf : Mem} {cap : Int}

/-- `iMsgLen` is the size of the package, cut to sixteen bits. -/
theorem encodes (hret : (m.getMessagePack buf cap).ret = Message.success) :
    Encodes (m.getMessagePack buf cap) buf
      (if m.setsLength then ushort (sizeofClientPackageHead + m.bodySize) else cap)
      (ushort (sizeofClientPackageHead + m.bodySize)) := by
  cases m with
  | createExchange m => exact encodes_packNames hret
  | createQueue m => exact encodes_packNames hret
  | createBinding m => exact encodes_packNames hret
  | createPublish m =>
    have hlen : ushort (sizeofClientPackageHead + bodySize (.createPublish m)) = m.iMsgLen := by
      simp only [bodySize, CreatePublishMessage.iMsgLen, Nat.add_assoc]
    have hpack : (createPublish m).getMessagePack buf cap =
        packNames [m.exchangeName, m.routingKey] buf cap (pack buf cap m.iMsgLen m.fields) :=
      CreatePublishMessage.getMessagePack_eq m buf cap
    rw [hpack] at hret ⊢
    rw [hlen]
    exact encodes_packNames hret
  | createRecv m => exact encodes_packNames hret
  | createSubscribe m => exact encodes_packNames hret
  | deleteExchange m => exact encodes_packNames hret
  | deleteQueue m => exact encodes_packNames hret
  | cancelSubscribe m => exact (encodes_packNames hret).keepsLength
  | severStore m =>
    have hlen : ushort (sizeofClientPackageHead + bodySize (.severStore m)) = m.iMsgLen := by
      simp only [bodySize, SeverStoreMessage.iMsgLen, Nat.add_assoc]
    rw [hlen]
    exact encodes_pack hret
  | actReply m =>
    have hlen : ushort (sizeofClientPackageHead + bodySize (.actReply m)) = m.iMsgLen := by
      simp only [bodySize, ActReplyMessage.iMsgLen, Nat.add_assoc]
    rw [hlen]
    exact encodes_pack hret
  | clientAck m => exact encodes_pack hret
  | serverAck m => exact encodes_pack hret
  | clientExit m => exact (encodes_pack hret).keepsLength

/-- The reported length is the true one, unless the class does not report it and the caller has
not passed it in. -/
theorem reports_iff (hret : (m.getMessagePack buf cap).ret = Message.success)
    (hsize : sizeofClientPackageHead + m.bodySize < 2 ^ 16) :
    Reports m (m.getMessagePack buf cap) ↔
      m.setsLength ∨ cap = sizeofClientPackageHead + m.bodySize := by
  have henc := encodes hret
  have hlen : ushort (sizeofClientPackageHead + m.bodySize) =
      sizeofClientPackageHead + m.bodySize := Nat.mod_eq_of_lt hsize
  rw [hlen] at henc
  have hhead := henc.packLen hsize
  have hleft := henc.iopBuffLen
  constructor
  · intro h
    cases hsets : m.setsLength with
    | true => exact Or.inl rfl
    | false =>
      rw [hsets] at hleft
      exact Or.inr (hleft.symm.trans h.size)
  · intro h
    have hsame : (m.getMessagePack buf cap).iopBuffLen =
        ((sizeofClientPackageHead + m.bodySize : Nat) : Int) := by
      rw [hleft]
      split
      · rfl
      · next hnot => exact (h.resolve_left hnot)
    exact ⟨by rw [hsame, hhead], by rw [hsame]; push_cast; rfl⟩

/-- A reply. -/
theorem reports_reply : Reports (.actReply ⟨1, true, ascii "ok"⟩)
    (getMessagePack (.actReply ⟨1, true, ascii "ok"⟩) zeroed maxClintPackageLength) :=
  (reports_iff (m := .actReply ⟨1, true, ascii "ok"⟩) (by decide) (by decide)).mpr
    (Or.inl rfl)

/-- What the connection server reports to the logic server is sent with the size of its buffer. -/
theorem clientExit_not_reported :
    (getMessagePack (.clientExit ⟨1⟩) zeroed maxClintPackageLength).ret = Message.success ∧
      ¬ Reports (.clientExit ⟨1⟩)
        (getMessagePack (.clientExit ⟨1⟩) zeroed maxClintPackageLength) := by
  refine ⟨by decide, fun h => ?_⟩
  have hsize := h.size
  revert hsize
  decide

end AnyMessage

/-! ## Encoders of unbounded content -/

section Contained

variable [Platform]

/-- An encoder whose length depends on its object.  The queues of an exchange exist. -/
inductive Encoder
  | publish (m : CreatePublishMessage)
  | store (m : SeverStoreMessage)
  | durable (m : SeverStoreMessage)
  | reply (m : ActReplyMessage)
  | bindings (e : Exchange) (heap : QueueId → Option MessageQueue)
    (live : ∀ b ∈ e.bindingQueues.entries, ∀ id ∈ b.2, (heap id).isSome)

namespace Encoder

/-- `GetMessagePack`, `SerializeDurableToString` or `SerializeBindingToString`.  No result when
the last one writes past the buffer. -/
def encode : Encoder → Mem → Int → Option Packed
  | .publish m, buf, n => some (m.getMessagePack buf n)
  | .store m, buf, n => some (m.getMessagePack buf n)
  | .durable m, buf, n => some (m.serializeDurableToString buf n)
  | .reply m, buf, n => some (m.getMessagePack buf n)
  | .bindings e heap _, buf, n => e.serializeBindingToString heap buf n

/-- The true size. -/
def size : Encoder → Nat
  | .publish m => sizeofClientPackageHead + (AnyMessage.createPublish m).bodySize
  | .store m => sizeofClientPackageHead + (AnyMessage.severStore m).bodySize
  | .durable m => 2 + 2 + maxNameLength + 4 + 2 + m.msgBody.length
  | .reply m => sizeofClientPackageHead + (AnyMessage.actReply m).bodySize
  | .bindings e _ _ => 2 + 2 + maxNameLength + 2 +
      (e.bindingQueues.entries.map fun b => maxNameLength + 2 + b.2.length * maxNameLength).sum

/-- The encoder checks names, and one is too long. -/
def NameTooLong : Encoder → Prop
  | .publish m => m.exchangeName.length > maxNameLength ∨ m.routingKey.length > maxNameLength
  | _ => False

/-- Where a name ends whose length is not checked. -/
def nameEnd : Encoder → Nat
  | .durable m => 4 + m.queueName.length
  | .bindings e _ _ => 4 + e.exchangeName.length
  | _ => 0

/-- With this capacity there is an error, or the length is the true one and no byte behind the
buffer is touched. -/
def Contained (enc : Encoder) (n : Nat) : Prop :=
  ∀ buf, ∃ p, enc.encode buf n = some p ∧ (p.ret = Message.success →
    (∀ x, n ≤ x → p.buf x = buf x) ∧ p.iopBuffLen = enc.size)

variable {enc : Encoder} {n : Nat} {fields : List Field}

/-- What the encoder does at a capacity, with the fields it writes. -/
structure Writes (enc : Encoder) (n : Nat) (fields : List Field) : Prop where
  refused : (enc.NameTooLong ∨ n < enc.size % 2 ^ 16) → ∀ buf, ∃ p, enc.encode buf n = some p ∧
    p.ret ≠ Message.success
  done : ¬ (enc.NameTooLong ∨ n < enc.size % 2 ^ 16) → ∀ buf p, enc.encode buf n = some p →
    p = ⟨Message.success, place buf 0 fields, (enc.size % 2 ^ 16 : Nat)⟩
  total : ¬ (enc.NameTooLong ∨ n < enc.size % 2 ^ 16) → enc.size ≤ n → ∀ buf,
    (enc.encode buf n).isSome
  within : ¬ enc.NameTooLong → ∀ x, Written x 0 fields → x < max enc.size enc.nameEnd
  name : 4 < enc.nameEnd → Written (enc.nameEnd - 1) 0 fields
  room : 4 ≤ enc.size

theorem Writes.contained (h : Writes enc n fields) : Contained enc n ↔
    enc.NameTooLong ∨ n < enc.size % 2 ^ 16 ∨ (enc.size < 2 ^ 16 ∧ enc.nameEnd ≤ n) := by
  have hroom := h.room
  by_cases hrefused : enc.NameTooLong ∨ n < enc.size % 2 ^ 16
  · refine iff_of_true (fun buf => ?_) (or_assoc.mp (Or.inl hrefused))
    obtain ⟨p, hp, hret⟩ := h.refused hrefused buf
    exact ⟨p, hp, fun hsuccess => absurd hsuccess hret⟩
  · obtain ⟨hname, hpasses⟩ := not_or.mp hrefused
    rw [or_iff_right hname, or_iff_right hpasses]
    constructor
    · intro hcontained
      have heq : enc.size % 2 ^ 16 = enc.size := by
        obtain ⟨p, hp, hin⟩ := hcontained zeroed
        cases h.done hrefused zeroed p hp
        exact Int.ofNat.inj (hin rfl).2
      have hunchanged : ∀ buf x, n ≤ x → place buf 0 fields x = buf x := by
        intro buf x hx
        obtain ⟨p, hp, hin⟩ := hcontained buf
        cases h.done hrefused buf p hp
        exact (hin rfl).1 x hx
      refine ⟨by omega, ?_⟩
      by_cases hend : 4 < enc.nameEnd
      · have hlast := place_unchanged_iff.mp hunchanged _ (h.name hend)
        omega
      · omega
    · rintro ⟨hlt, hend⟩ buf
      have heq : enc.size % 2 ^ 16 = enc.size := Nat.mod_eq_of_lt hlt
      obtain ⟨p, hp⟩ := Option.isSome_iff_exists.mp (h.total hrefused (by omega) buf)
      cases h.done hrefused buf p hp
      refine ⟨_, hp, fun _ => ⟨?_, congrArg Nat.cast heq⟩⟩
      refine place_unchanged_iff.mpr (fun x hx => ?_) buf
      have hin := h.within hname x hx
      omega

/-- The three encoders that check the capacity and write. -/
theorem writes_of_pack (hnamed : enc.nameEnd = 0) (hroom : 4 ≤ enc.size)
    (hencode : ∀ buf, ¬ enc.NameTooLong →
      enc.encode buf n = some (pack buf n (enc.size % 2 ^ 16) fields))
    (hlong : enc.NameTooLong → ∀ buf, ∃ p, enc.encode buf n = some p ∧ p.ret ≠ Message.success)
    (hsize : Lib.Packing.size fields ≤ enc.size)
    (hfits : ¬ enc.NameTooLong → ∀ f ∈ fields, f.Fits) : Writes enc n fields := by
  constructor
  · intro hrefused buf
    by_cases hname : enc.NameTooLong
    · exact hlong hname buf
    · refine ⟨_, hencode buf hname, ?_⟩
      rw [pack, if_pos (Int.ofNat_lt.mpr (hrefused.resolve_left hname))]
      show Message.errMsgBufTooSmall ≠ Message.success
      decide
  · intro hpasses buf p hp
    obtain ⟨hname, hpasses⟩ := not_or.mp hpasses
    rw [hencode buf hname, pack, if_neg (fun hlt => hpasses (Int.ofNat_lt.mp hlt))] at hp
    exact (Option.some.inj hp).symm
  · intro hpasses _ buf
    rw [hencode buf (not_or.mp hpasses).1]
    rfl
  · intro hname x hx
    have hlt := hx.lt (hfits hname)
    omega
  · intro hend
    omega
  · exact hroom

omit [Platform] in
/-- The fields of the two serialisations: a name comes third, and the others keep inside. -/
theorem written_named {x a b : Nat} {name : Name} {rest : List Field} :
    Written x 0 (writeUShort a :: writeUShort b :: writeName name :: rest) ↔
      x < 4 + name.length ∨ Written x (4 + maxNameLength) rest := by
  simp only [Written, writeUShort, writeName, be_length, ← or_assoc]
  refine or_congr_left ?_
  omega

omit [Platform] in
theorem within_named {a b : Nat} {name : Name} {rest : List Field}
    (hrest : ∀ f ∈ rest, f.Fits) {x : Nat}
    (hx : Written x 0 (writeUShort a :: writeUShort b :: writeName name :: rest)) :
    x < max (4 + maxNameLength + Lib.Packing.size rest) (4 + name.length) := by
  rcases written_named.mp hx with hlt | hlast
  · omega
  · have hlt := hlast.lt hrest
    omega

theorem writes_durable (m : SeverStoreMessage) (n : Nat) :
    Writes (.durable m) n m.durableFields := by
  have hlen : m.durableLen = (Encoder.durable m).size % 2 ^ 16 := rfl
  constructor
  · rintro (hname | hlt) buf
    · exact hname.elim
    · refine ⟨_, rfl, ?_⟩
      rw [SeverStoreMessage.serializeDurableToString, hlen, if_pos (Int.ofNat_lt.mpr hlt)]
      show Message.error ≠ Message.success
      decide
  · intro hpasses buf p hp
    have hroom : ¬ (((Encoder.durable m).size % 2 ^ 16 : Nat) : Int) > n := by
      intro hlt
      exact (not_or.mp hpasses).2 (Int.ofNat_lt.mp hlt)
    cases hp
    rw [SeverStoreMessage.serializeDurableToString, hlen, if_neg hroom]
  · intro _ _ buf
    rfl
  · intro _ x hx
    refine (within_named ?_ hx).trans_le ?_
    · simp [Field.Fits, writeInt, writeShort, writeBody]
    · simp only [size_cons, size_nil, writeInt, writeShort, writeBody, Encoder.size, nameEnd]
      omega
  · intro hend
    exact written_named.mpr (Or.inl (Nat.sub_lt (by omega) Nat.one_pos))
  · simp only [Encoder.size]
    omega

omit [Platform] in
theorem mapM_isSome {α β : Type} {f : α → Option β} {l : List α} (h : ∀ a ∈ l, (f a).isSome) :
    ∃ bs, l.mapM f = some bs := by
  induction l with
  | nil => exact ⟨[], rfl⟩
  | cons a l ih =>
    obtain ⟨b, hb⟩ := Option.isSome_iff_exists.mp (h a List.mem_cons_self)
    obtain ⟨bs, hbs⟩ := ih fun x hx => h x (List.mem_cons_of_mem _ hx)
    exact ⟨b :: bs, by rw [List.mapM_cons, hb, hbs]; rfl⟩

omit [Platform] in
/-- The size computed key by key, as the source does. -/
theorem sum_entries (entries : List (Σ _ : Name, List QueueId)) :
    (entries.map fun b => maxNameLength + 2 + b.2.length * maxNameLength).sum =
      entries.length * (maxNameLength + 2) +
        (entries.map fun b => b.2.length).sum * maxNameLength := by
  induction entries with
  | nil => rfl
  | cons b entries ih =>
    rw [List.map_cons, List.sum_cons, ih, List.map_cons, List.sum_cons, List.length_cons,
      Nat.add_mul, Nat.add_mul, Nat.one_mul]
    omega

/-- The queues of each key have names. -/
theorem mapM_bindingFields (e : Exchange) {heap : QueueId → Option MessageQueue}
    (live : ∀ b ∈ e.bindingQueues.entries, ∀ id ∈ b.2, (heap id).isSome) :
    ∃ bindings, (e.bindingQueues.entries.mapM fun b =>
      Exchange.bindingFields heap b.1 b.2) = some bindings := by
  refine mapM_isSome fun b hb => ?_
  have hnames : ∃ names, (b.2.mapM fun id => (heap id).map MessageQueue.queueName) =
      some names := mapM_isSome fun id hid => by
    rw [Option.isSome_map]
    exact live b hb id hid
  obtain ⟨names, hnames⟩ := hnames
  rw [Exchange.bindingFields, hnames]
  rfl

/-- The package has the size that was computed for it. -/
theorem encode_bindings (e : Exchange) (heap : QueueId → Option MessageQueue)
    (live : ∀ b ∈ e.bindingQueues.entries, ∀ id ∈ b.2, (heap id).isSome) (n : Nat) :
    ∃ rest, (∀ f ∈ rest, Field.Fits f) ∧
      4 + maxNameLength + Lib.Packing.size rest = (Encoder.bindings e heap live).size ∧
      ∀ buf, (Encoder.bindings e heap live).encode buf n =
        if (((Encoder.bindings e heap live).size % 2 ^ 16 : Nat) : Int) > n then
          some ⟨Exchange.error, buf, n⟩
        else if ((Encoder.bindings e heap live).size : Int) > n then none
        else some ⟨Exchange.success, place buf 0
          (writeUShort ((Encoder.bindings e heap live).size % 2 ^ 16) ::
            writeUShort cmdCreateBinding :: writeName e.exchangeName :: rest),
          ((Encoder.bindings e heap live).size % 2 ^ 16 : Nat)⟩ := by
  obtain ⟨bindings, hbindings⟩ := mapM_bindingFields e live
  obtain ⟨hfits, hflat⟩ :=
    LogicServer.bindingFields_entries (LogicServer.forall₂_mapM hbindings)
  have hcount : e.getBindingSize = e.bindingQueues.entries.length := by
    rw [Exchange.getBindingSize, AList.keys, List.keys, List.length_map]
  generalize henc : Encoder.bindings e heap live = enc
  have hsize : 2 + 2 + maxNameLength + 2 + e.getBindingSize * (maxNameLength + 2) +
      (e.bindingQueues.entries.map fun b => b.2.length).sum * maxNameLength = enc.size := by
    simp only [← henc, Encoder.size]
    rw [sum_entries, hcount]
    omega
  have htotal : 4 + maxNameLength +
      Lib.Packing.size (writeUShort e.getBindingSize :: bindings.flatten) = enc.size := by
    simp only [size_cons, writeUShort]
    rw [hflat, ← hsize, hcount]
    omega
  refine ⟨writeUShort e.getBindingSize :: bindings.flatten, fun f hf => ?_, htotal, fun buf => ?_⟩
  · rcases List.mem_cons.mp hf with rfl | hf
    · exact (be_length _ _).le
    · exact hfits f hf
  · have hfields : Lib.Packing.size (writeUShort (enc.size % 2 ^ 16) ::
        writeUShort cmdCreateBinding :: writeName e.exchangeName ::
          writeUShort e.getBindingSize :: bindings.flatten) = enc.size := by
      rw [← htotal]
      simp only [size_cons, writeUShort, writeName]
      omega
    rw [← henc]
    show e.serializeBindingToString heap buf n = _
    unfold Exchange.serializeBindingToString
    dsimp only
    rw [henc, hsize, hbindings, ushort]
    refine if_congr Iff.rfl rfl ?_
    rw [← hfields]
    rfl

theorem writes_bindings (e : Exchange) (heap : QueueId → Option MessageQueue)
    (live : ∀ b ∈ e.bindingQueues.entries, ∀ id ∈ b.2, (heap id).isSome) (n : Nat) :
    ∃ fields, Writes (.bindings e heap live) n fields := by
  obtain ⟨rest, hrest, htotal, hencode⟩ := encode_bindings e heap live n
  have hsmall : ¬ ((Encoder.bindings e heap live).NameTooLong ∨
      n < (Encoder.bindings e heap live).size % 2 ^ 16) →
        ¬ (((Encoder.bindings e heap live).size % 2 ^ 16 : Nat) : Int) > n :=
    fun hpasses hlt => (not_or.mp hpasses).2 (Int.ofNat_lt.mp hlt)
  refine ⟨writeUShort ((Encoder.bindings e heap live).size % 2 ^ 16) ::
    writeUShort cmdCreateBinding :: writeName e.exchangeName :: rest, ?_, ?_, ?_, ?_, ?_, ?_⟩
  · rintro (hname | hlt) buf
    · exact hname.elim
    · refine ⟨_, (hencode buf).trans (if_pos (Int.ofNat_lt.mpr hlt)), ?_⟩
      show Exchange.error ≠ Message.success
      decide
  · intro hpasses buf p hp
    rw [hencode buf, if_neg (hsmall hpasses)] at hp
    split at hp
    · cases hp
    · exact (Option.some.inj hp).symm
  · intro hpasses hroom buf
    rw [hencode buf, if_neg (hsmall hpasses), if_neg (Int.not_lt.mpr (Int.ofNat_le.mpr hroom))]
    rfl
  · intro _ x hx
    have hlt := within_named hrest hx
    rwa [htotal] at hlt
  · intro hend
    exact written_named.mpr (Or.inl (Nat.sub_lt (by omega) Nat.one_pos))
  · rw [← htotal]
    omega

theorem writes_publish (m : CreatePublishMessage) (n : Nat) :
    Writes (.publish m) n m.fields := by
  have hlen : m.iMsgLen = (Encoder.publish m).size % 2 ^ 16 := by
    simp only [Encoder.size, AnyMessage.bodySize, CreatePublishMessage.iMsgLen, ushort,
      Nat.add_assoc]
  have hshort : ¬ (Encoder.publish m).NameTooLong →
      m.exchangeName.length ≤ maxNameLength ∧ m.routingKey.length ≤ maxNameLength := fun hname =>
    ⟨Nat.not_lt.mp fun hlt => hname (Or.inl hlt), Nat.not_lt.mp fun hlt => hname (Or.inr hlt)⟩
  refine writes_of_pack rfl (Nat.le_add_right_of_le (by decide)) ?_ ?_ ?_ ?_
  · intro buf hname
    obtain ⟨hexchange, hkey⟩ := hshort hname
    show some (m.getMessagePack buf n) = _
    rw [CreatePublishMessage.getMessagePack, if_neg (Nat.not_lt.mpr hexchange),
      if_neg (Nat.not_lt.mpr hkey), hlen]
  · intro hname buf
    refine ⟨_, rfl, ?_⟩
    have hlong : ∃ k ∈ [m.exchangeName, m.routingKey], k.length > maxNameLength := by
      rcases hname with hexchange | hkey
      · exact ⟨_, List.mem_cons_self, hexchange⟩
      · exact ⟨_, List.mem_cons_of_mem _ List.mem_cons_self, hkey⟩
    rw [m.getMessagePack_eq, packNames, if_pos hlong]
    show Message.errMsgNameTooLong ≠ Message.success
    decide
  · simp [CreatePublishMessage.fields, packHead, Encoder.size, AnyMessage.bodySize, writeUShort,
      writeInt, writeByte, writeBody, writeName, writeShort, writeBool, sizeofClientPackageHead]
    omega
  · intro hname
    obtain ⟨hexchange, hkey⟩ := hshort hname
    simp [CreatePublishMessage.fields, packHead, Field.Fits, writeUShort, writeInt, writeByte,
      writeBody, writeName, writeShort, writeBool, hexchange, hkey]

/-- An encoder keeps to the buffer when it fails, or when its size is below 2^16 and a name that
is not checked ends inside. -/
theorem contained_iff (enc : Encoder) (n : Nat) : Contained enc n ↔
    enc.NameTooLong ∨ n < enc.size % 2 ^ 16 ∨ (enc.size < 2 ^ 16 ∧ enc.nameEnd ≤ n) := by
  cases enc with
  | publish m => exact (writes_publish m n).contained
  | store m =>
    have hlen : m.iMsgLen = (Encoder.store m).size % 2 ^ 16 := by
      simp only [Encoder.size, AnyMessage.bodySize, SeverStoreMessage.iMsgLen, ushort,
        Nat.add_assoc]
    refine (@writes_of_pack _ (.store m) n m.fields rfl
      (Nat.le_add_right_of_le (by decide)) (fun buf _ => ?_) (fun hname => ?_) ?_
      fun _ => ?_).contained
    · rw [← hlen]
      rfl
    · cases hname
    · simp [SeverStoreMessage.fields, packHead, Encoder.size, AnyMessage.bodySize, writeUShort,
        writeInt, writeByte, writeBody, sizeofClientPackageHead]
      omega
    · exact m.fits
  | durable m => exact (writes_durable m n).contained
  | reply m =>
    have hlen : m.iMsgLen = (Encoder.reply m).size % 2 ^ 16 := by
      simp only [Encoder.size, AnyMessage.bodySize, ActReplyMessage.iMsgLen, ushort,
        Nat.add_assoc]
    refine (@writes_of_pack _ (.reply m) n m.fields rfl
      (Nat.le_add_right_of_le (by decide)) (fun buf _ => ?_) (fun hname => ?_) ?_
      fun _ => ?_).contained
    · rw [← hlen]
      rfl
    · cases hname
    · simp [ActReplyMessage.fields, packHead, Encoder.size, AnyMessage.bodySize, writeUShort,
        writeInt, writeBool, writeBody, sizeofClientPackageHead]
      omega
    · exact m.fits
  | bindings e heap live =>
    obtain ⟨fields, hwrites⟩ := writes_bindings e heap live n
    exact hwrites.contained

end Encoder

end Contained

section Runs

attribute [local instance] Platform.plain

theorem Encoder.size_publish {body : Bytes} (hlen : body.length = 65456) :
    (Encoder.publish ⟨-1, ascii "e", ascii "k", -1, false, -1, 0, body⟩).size = 65536 := by
  rw [Encoder.size, AnyMessage.bodySize, hlen]
  rfl

theorem Encoder.not_contained_of_length {body : Bytes} (hlen : body.length = 65456) :
    ¬ Contained (.publish ⟨-1, ascii "e", ascii "k", -1, false, -1, 0, body⟩) 11264 := by
  rw [(writes_publish _ _).contained, size_publish hlen]
  rintro (hname | hlt | ⟨hlt, _⟩)
  · revert hname
    simp only [NameTooLong]
    decide
  · omega
  · omega

/-- With a body of 65456 bytes the length is 0, and any buffer is large enough. -/
theorem Encoder.publish_not_contained : ¬ Contained
    (.publish ⟨-1, ascii "e", ascii "k", -1, false, -1, 0, List.replicate 65456 0⟩) 11264 :=
  not_contained_of_length List.length_replicate

end Runs

end Wsmq
