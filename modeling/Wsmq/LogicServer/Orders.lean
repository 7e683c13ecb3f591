import Wsmq.LogicServer.Recovery
import Wsmq.PersistenceServer.Metadata

/-!
# What the packets of the logic server ask for

A packet is length, command and body.  Names that were read from a package end within their
field, so the persistence server finds them again.
-/

namespace Wsmq
open Lib Lib.ByteString Lib.Packing Lib.Files

/-- A name that was read from a field. -/
structure IsName (n : Name) : Prop where
  zero : 0 ∉ n
  short : n.length < maxNameLength

instance (n : Name) : Decidable (IsName n) :=
  decidable_of_iff (0 ∉ n ∧ n.length < maxNameLength)
    ⟨fun h => ⟨h.1, h.2⟩, fun h => ⟨h.zero, h.short⟩⟩

theorem isName_of_readName {m : Mem} {a : Nat} {n : Name} (h : readName m a = some n) : IsName n := by
  refine ⟨cstr_no_zero h, ?_⟩
  simpa using cstr_length h

namespace PersistenceServer

/-- The bytes of a packet. -/
def packet (iCmdId : Nat) (body : Bytes) : Bytes :=
  be 2 (4 + body.length) ++ be 2 iCmdId ++ body

section Packet

variable {iCmdId : Nat} {body : Bytes}

@[simp] theorem packet_length (iCmdId : Nat) (body : Bytes) :
    (packet iCmdId body).length = 4 + body.length := by
  simp only [packet, List.length_append, be_length]

theorem packetBody_packet (iCmdId : Nat) (body : Bytes) :
    packetBody (packet iCmdId body) = Mem.ofBytes body := by
  funext x
  have hhead : (be 2 (4 + body.length) ++ be 2 iCmdId).length = 4 := by simp
  rw [packetBody, shift, ← hhead, packet, Mem.ofBytes_append_right]

@[simp] theorem bodyOf_packet (iCmdId : Nat) (body : Bytes) : bodyOf (packet iCmdId body) = body := by
  rw [bodyOf, packetBody_packet, packet_length, Nat.add_sub_cancel_left]
  exact holds_ofBytes body

theorem ownPacket_packet (h : 4 + body.length < 2 ^ 16) : OwnPacket (packet iCmdId body) := by
  refine ⟨by simp, ?_⟩
  have hread : (Mem.ofBytes (packet iCmdId body)).read 0 2 = be 2 (4 + body.length) := by
    have h := Mem.read_ofBytes_append [] (be 2 (4 + body.length)) (be 2 iCmdId ++ body)
    simpa [packet] using h
  rw [readUShort, hread, ofBe_be_of_lt h, packet_length]

theorem packetCmd_packet (h : iCmdId < 2 ^ 16) : packetCmd (packet iCmdId body) = iCmdId := by
  have hread : (Mem.ofBytes (packet iCmdId body)).read 2 2 = be 2 iCmdId := by
    have h := Mem.read_ofBytes_append (be 2 (4 + body.length)) (be 2 iCmdId) body
    simpa [packet] using h
  rw [packetCmd, readUShort, hread, ofBe_be_of_lt h]

/-- The packet that is written field by field. -/
theorem image_packet (iCmdId : Nat) {fs : List Field} (hf : ∀ f ∈ fs, f.Fits) :
    image (writeUShort (4 + size fs) :: writeUShort iCmdId :: fs) = packet iCmdId (image fs) := by
  simp [packet, image_length hf, writeUShort, pad]

end Packet

end PersistenceServer

namespace LogicServer

open PersistenceServer (packet packetBody Carries Order)

section Packets

variable {n : Name} {body : Bytes} {iCmdId : Nat}

theorem persisPacket_eq (h : 4 + body.length < 2 ^ 16) :
    persisPacket iCmdId body = packet iCmdId body := by
  have hfits : ∀ f ∈ [writeUShort (4 + body.length), writeUShort iCmdId, writeBody body],
      f.Fits := by
    simp [Field.Fits, writeUShort, writeBody]
  have hlen : ushort (2 + 2 + body.length) = 4 + body.length := Nat.mod_eq_of_lt h
  have hsize : size [writeUShort (4 + body.length), writeUShort iCmdId, writeBody body] =
      4 + body.length := by
    simp only [size_cons, size_nil, writeUShort, writeBody]
    omega
  have hread := read_place hfits fun x (_ : 0 ≤ x) => (rfl : zeroed x = 0)
  rw [hsize] at hread
  rw [persisPacket, hlen]
  refine hread.trans ?_
  simp [packet, writeUShort, writeBody, pad]

theorem readName_body (h : readName (Mem.ofBytes body) 0 = some n) :
    readName (packetBody (packet iCmdId body)) 0 = some n := by
  rw [PersistenceServer.packetBody_packet]
  exact h

/-- The fields of a request come from its first bytes. -/
theorem readName_request {buf : Mem} {iLen : Nat} (hlen : maxNameLength ≤ iLen)
    (h : readName buf 0 = some n) : readName (Mem.ofBytes (buf.read 0 iLen)) 0 = some n := by
  rw [readName, Mem.read_ofBytes_read _ _ (by omega)]
  exact h

theorem carries_create {k : PersistenceServer.Kind} (hlen : 4 + body.length < 2 ^ 16)
    (hname : readName (Mem.ofBytes body) 0 = some n) (hn : Plain n) :
    Carries (persisPacket (PersistenceServer.createCmd k) body) (.create k n body) := by
  have hcmd : PersistenceServer.createCmd k < 2 ^ 16 := by cases k <;> decide
  have h := Carries.create k n (PersistenceServer.ownPacket_packet hlen)
    (PersistenceServer.packetCmd_packet hcmd) (readName_body hname) hn
  rwa [PersistenceServer.bodyOf_packet, ← persisPacket_eq hlen] at h

theorem carries_remove {k : PersistenceServer.Kind} (hlen : 4 + body.length < 2 ^ 16)
    (hname : readName (Mem.ofBytes body) 0 = some n) (hn : Plain n) :
    Carries (persisPacket (PersistenceServer.deleteCmd k) body) (.remove k n) := by
  have hcmd : PersistenceServer.deleteCmd k < 2 ^ 16 := by cases k <;> decide
  rw [persisPacket_eq hlen]
  exact .remove k n (PersistenceServer.ownPacket_packet hlen)
    (PersistenceServer.packetCmd_packet hcmd) (readName_body hname) hn

theorem consumePacket_form (hn : n.length ≤ maxNameLength) (iDurableIndex : Int) :
    consumePacket iCmdId n iDurableIndex =
      packet iCmdId (image [writeName n, writeInt iDurableIndex]) := by
  have hfits : ∀ f ∈ [writeName n, writeInt iDurableIndex], f.Fits := by
    simp [Field.Fits, writeName, writeInt, hn]
  have hsize : size [writeName n, writeInt iDurableIndex] = 36 := rfl
  rw [← PersistenceServer.image_packet iCmdId hfits, hsize]
  refine read_place (fun f hf => ?_) fun _ _ => rfl
  rcases List.mem_cons.mp hf with rfl | hf
  · exact (be_length _ _).le
  · rcases List.mem_cons.mp hf with rfl | hf
    · exact (be_length _ _).le
    · exact hfits f hf

theorem carries_consume (hn : IsName n) (hcmd : iCmdId = cmdCreateRecv ∨
    iCmdId = cmdServerPushMessage ∨ iCmdId = cmdClientAckMessage) (iDurableIndex : Int) :
    Carries (consumePacket iCmdId n iDurableIndex) .other := by
  have hfits : ∀ f ∈ [writeName n, writeInt iDurableIndex], f.Fits := by
    simp [Field.Fits, writeName, writeInt, hn.short.le]
  have hsize : size [writeName n, writeInt iDurableIndex] = 36 := rfl
  have hshort : iCmdId < 2 ^ 16 := by rcases hcmd with rfl | rfl | rfl <;> decide
  have hname : readName (Mem.ofBytes (image [writeName n, writeInt iDurableIndex])) 0 = some n :=
    readName_field [] (holds_ofBytes _) hfits hn.zero hn.short
  rw [consumePacket_form hn.short.le]
  refine .consume n (PersistenceServer.ownPacket_packet ?_) ?_ (readName_body hname)
  · rw [image_length hfits, hsize]
    decide
  · rw [PersistenceServer.packetCmd_packet hshort]
    exact hcmd

theorem durablePacket_form {m : SeverStoreMessage} (hm : DurableMessage m) :
    durablePacket m = packet cmdCreatePublish (image [writeName m.queueName,
      writeInt m.durableIndex, writeShort m.priority, writeBody m.msgBody]) := by
  have hfits := durableFields_fit hm
  have hbody : ∀ f ∈ [writeName m.queueName, writeInt m.durableIndex, writeShort m.priority,
      writeBody m.msgBody], f.Fits := fun f hf =>
    hfits f (List.mem_cons_of_mem _ (List.mem_cons_of_mem _ hf))
  have hlen : m.durableLen = 4 + size [writeName m.queueName, writeInt m.durableIndex,
      writeShort m.priority, writeBody m.msgBody] := by
    rw [durableLen_eq hm]
    simp only [size_cons, size_nil, writeName, writeInt, writeShort, writeBody, maxNameLength]
    omega
  rw [durablePacket_eq hm, ← PersistenceServer.image_packet _ hbody, ← hlen]
  rfl

theorem carries_publish {m : SeverStoreMessage} (hm : DurableMessage m) (hn : Plain m.queueName) :
    Carries (durablePacket m) (.publish m.queueName m.durableIndex) := by
  have hholds : Holds (Mem.ofBytes (durablePacket m)) 0 (image m.durableFields) := by
    rw [durablePacket_eq hm]
    exact holds_ofBytes _
  have hname : readName (Mem.ofBytes (durablePacket m)) 4 = some m.queueName :=
    readName_field [writeUShort m.durableLen, writeUShort cmdCreatePublish] hholds
      (durableFields_fit hm) hm.zero hm.short
  have hindex : readInt (Mem.ofBytes (durablePacket m)) (4 + maxNameLength) = m.durableIndex :=
    readInt_field [writeUShort m.durableLen, writeUShort cmdCreatePublish, writeName m.queueName]
      hholds (durableFields_fit hm) hm.index.fits
  have hown := ownLength_packet hm
  have hlen : 4 ≤ (durablePacket m).length := by
    rw [durablePacket_form hm, PersistenceServer.packet_length]
    exact Nat.le_add_right _ _
  have h := Carries.publish m.queueName ⟨hlen, hown.2⟩ ?_ ?_ hn
  · rwa [hindex] at h
  · rw [durablePacket_form hm]
    exact PersistenceServer.packetCmd_packet (by decide)
  · rw [PersistenceServer.readName_packetBody]
    exact hname

theorem carries_subscribe (hcmd : iCmdId = cmdCreateSubcribe ∨ iCmdId = cmdCancelSubcribe)
    (hlen : 4 + body.length < 2 ^ 16) (hname : readName (Mem.ofBytes body) 0 = some n)
    (hn : Plain n) : Carries (packet iCmdId body) (.subscribe n body) := by
  have hshort : iCmdId < 2 ^ 16 := by rcases hcmd with rfl | rfl <;> decide
  have h := Carries.subscribe n (PersistenceServer.ownPacket_packet hlen)
    (by rwa [PersistenceServer.packetCmd_packet hshort]) (readName_body hname) hn
  rwa [PersistenceServer.bodyOf_packet] at h

theorem carries_bind (hlen : 4 + body.length < 2 ^ 16)
    (hname : readName (Mem.ofBytes body) 0 = some n) (hn : Plain n) :
    Carries (packet cmdCreateBinding body) (.bind n body) := by
  have h := Carries.bind n (PersistenceServer.ownPacket_packet hlen)
    (PersistenceServer.packetCmd_packet (by decide)) (readName_body hname) hn
  rwa [PersistenceServer.bodyOf_packet] at h

/-- A zeroed buffer says that it has no bytes. -/
theorem carries_zeroed : Carries (zeroed.read 0 maxClintPackageLength) .other := by
  refine .ignored ?_
  have hread : (Mem.ofBytes (zeroed.read 0 maxClintPackageLength)).read 0 2 = [0, 0] := by
    rw [Mem.read_ofBytes_read _ _ (by decide)]
    rfl
  rw [readUShort, hread, Mem.read_length]
  decide

end Packets

section Serialized

variable [Platform]

/-! ## Subscribers and bindings -/

theorem writeString_fits (str : Bytes) : (writeString str).Fits := List.length_take_le _ _

/-- Whatever stands behind a string, its name is read. -/
theorem readName_string {n : Name} (hn : IsName n) {m : Mem} {a : Nat} {pre post : List Field}
    (h : Holds m a (image (pre ++ writeString n :: post)))
    (hf : ∀ f ∈ pre ++ writeString n :: post, f.Fits) : readName m (a + size pre) = some n := by
  have hread := h.field hf
  obtain ⟨k, hk⟩ : ∃ k, maxNameLength - n.length = k + 1 :=
    ⟨maxNameLength - n.length - 1, by have hlt := hn.short; omega⟩
  have htake : ∀ g : Bytes, (n ++ 0 :: g).take maxNameLength = n ++ 0 :: g.take k := by
    intro g
    rw [List.take_append, List.take_of_length_le hn.short.le, hk, List.take_succ_cons]
  rw [readName]
  refine (congrArg cstr hread).trans ?_
  simp only [writeString, htake, pad, List.append_assoc, List.cons_append]
  exact cstr_append_zero hn.zero _

theorem readName_writeString {n : Name} (hn : IsName n) {fs : List Field}
    (hf : ∀ f ∈ fs, f.Fits) : readName (Mem.ofBytes (image (writeString n :: fs))) 0 = some n := by
  refine @readName_string _ _ hn _ _ [] fs (holds_ofBytes _) ?_
  intro f hin
  rcases List.mem_cons.mp hin with rfl | hin
  · exact writeString_fits n
  · exact hf f hin

/-- What is behind length and command in the packet about the subscribers. -/
def subscribeBody (q : MessageQueue) : Bytes :=
  image ([writeString q.queueName, writeByte q.confirmLevel,
    writeUShort q.subscribeConsumers.length] ++ q.subscribeConsumers.map writeInt)

/-- A packet that is too long for the buffer says nothing. -/
def subscribeOrder (q : MessageQueue) : Order :=
  if 4 + (subscribeBody q).length ≤ maxClintPackageLength then
    .subscribe q.queueName (subscribeBody q)
  else .other

theorem fits_subscribe (q : MessageQueue) : ∀ f ∈ [writeString q.queueName,
    writeByte q.confirmLevel, writeUShort q.subscribeConsumers.length] ++
      q.subscribeConsumers.map writeInt, f.Fits := by
  intro f hf
  rcases List.mem_append.mp hf with hf | hf
  · simp only [List.mem_cons, List.not_mem_nil, or_false] at hf
    rcases hf with rfl | rfl | rfl
    · exact writeString_fits _
    · exact (be_length _ _).le
    · exact (be_length _ _).le
  · obtain ⟨c, _, rfl⟩ := List.mem_map.mp hf
    exact (beInt_length _ _).le

omit [Platform] in
theorem size_map_writeInt (cs : List Int) : size (cs.map writeInt) = 4 * cs.length := by
  induction cs with
  | nil => rfl
  | cons c cs ih =>
    rw [List.map_cons, size_cons, ih, List.length_cons]
    simp only [writeInt]
    omega

theorem length_subscribeBody (q : MessageQueue) :
    (subscribeBody q).length = 35 + 4 * q.subscribeConsumers.length := by
  rw [subscribeBody, image_length (fits_subscribe q), size_append, size_map_writeInt]
  rfl

theorem carries_subscribers {q : MessageQueue} (hn : IsName q.queueName) (hplain : Plain q.queueName)
    {bIsCreate : Bool} {packed : Packed}
    (h : q.serializeSubcribeToString zeroed maxClintPackageLength bIsCreate = some packed) :
    Carries packed.sent (subscribeOrder q) := by
  have hbody := length_subscribeBody q
  have hmax : maxClintPackageLength = 11264 := rfl
  have hfits := fits_subscribe q
  have hsize : ∀ iLen, size (q.subcribeFields iLen bIsCreate) = 4 + (subscribeBody q).length := by
    intro iLen
    rw [hbody, MessageQueue.subcribeFields, size_append, size_map_writeInt]
    simp only [size_cons, size_nil, writeUShort, writeString, writeByte, maxNameLength]
    omega
  have hle : ushort (2 + 2 + maxNameLength + 1 + 2 + q.subscribeConsumers.length * 4) ≤
      4 + (subscribeBody q).length := by
    refine (Nat.mod_le _ _).trans ?_
    rw [hbody]
    simp only [maxNameLength]
    omega
  unfold MessageQueue.serializeSubcribeToString at h
  dsimp only at h
  rw [subscribeOrder]
  split at h
  · cases h
    rw [if_neg (by omega)]
    exact carries_zeroed
  · split at h
    · cases h
    · next hroom =>
      cases h
      rw [hsize] at hroom
      have hlen : ushort (2 + 2 + maxNameLength + 1 + 2 + q.subscribeConsumers.length * 4) =
          4 + (subscribeBody q).length := by
        have hsum : 2 + 2 + maxNameLength + 1 + 2 + q.subscribeConsumers.length * 4 =
            4 + (subscribeBody q).length := by
          rw [hbody]
          simp only [maxNameLength]
          omega
        rw [hsum]
        exact Nat.mod_eq_of_lt (by omega)
      have hlong : 4 + size ([writeString q.queueName, writeByte q.confirmLevel,
          writeUShort q.subscribeConsumers.length] ++ q.subscribeConsumers.map writeInt) =
          4 + (subscribeBody q).length := by rw [subscribeBody, image_length hfits]
      have hall : ∀ f ∈ q.subcribeFields (4 + (subscribeBody q).length) bIsCreate, f.Fits := by
        intro f hf
        rcases List.mem_cons.mp hf with rfl | hf
        · exact (be_length _ _).le
        · rcases List.mem_cons.mp hf with rfl | hf
          · exact (be_length _ _).le
          · exact hfits f hf
      have hsent := read_place hall fun x (_ : 0 ≤ x) => (rfl : zeroed x = 0)
      rw [hsize] at hsent
      rw [if_pos (by omega), hlen, Packed.sent, Int.toNat_natCast]
      have hform := PersistenceServer.image_packet
        (if bIsCreate then cmdCreateSubcribe else cmdCancelSubcribe) hfits
      rw [hlong] at hform
      rw [hsent]
      refine Eq.mpr (congrArg (fun p => Carries p _) hform) ?_
      have hlt : 4 + (subscribeBody q).length < 2 ^ 16 := by omega
      refine carries_subscribe ?_ hlt
        (readName_writeString hn fun f hf => hfits f (List.mem_cons_of_mem _ hf)) hplain
      cases bIsCreate with
      | true => exact Or.inl rfl
      | false => exact Or.inr rfl

/-- The fields behind length and command in the packet about the bindings. -/
def bindingFields (heap : QueueId → Option MessageQueue) (e : Exchange) : Option (List Field) :=
  (e.bindingQueues.entries.mapM fun b => Exchange.bindingFields heap b.1 b.2).map fun bindings =>
    [writeName e.exchangeName, writeUShort e.getBindingSize] ++ bindings.flatten

/-- A packet that is too long for the buffer says nothing. -/
def bindOrder (heap : QueueId → Option MessageQueue) (e : Exchange) : Order :=
  match bindingFields heap e with
  | none => .other
  | some fields =>
    if 4 + (image fields).length ≤ maxClintPackageLength then .bind e.exchangeName (image fields)
    else .other

section Bindings

variable {heap : QueueId → Option MessageQueue} {e : Exchange}

omit [Platform] in
/-- What comes out for each element in turn. -/
theorem forall₂_mapM {α β : Type} {f : α → Option β} {as : List α} {bs : List β}
    (h : as.mapM f = some bs) : List.Forall₂ (fun a b => f a = some b) as bs := by
  induction as generalizing bs with
  | nil =>
    cases h
    exact .nil
  | cons a as ih =>
    rw [List.mapM_cons] at h
    obtain ⟨b, hb, h⟩ := Option.bind_eq_some_iff.mp h
    obtain ⟨rest, hrest, h⟩ := Option.bind_eq_some_iff.mp h
    cases h
    exact .cons hb (ih hrest)

theorem bindingFields_key {key : Name} {queues : List QueueId} {fs : List Field}
    (h : Exchange.bindingFields heap key queues = some fs) :
    (∀ f ∈ fs, f.Fits) ∧ size fs = maxNameLength + 2 + queues.length * maxNameLength := by
  obtain ⟨names, hnames, h⟩ := Option.bind_eq_some_iff.mp h
  cases h
  have hlen : names.length = queues.length := (forall₂_mapM hnames).length_eq.symm
  have hsize : ∀ l : List Name, size (l.map writeString) = l.length * maxNameLength := by
    intro l
    induction l with
    | nil => simp
    | cons n l ih =>
      rw [List.map_cons, size_cons, ih, List.length_cons, Nat.succ_mul, Nat.add_comm]
      rfl
  constructor
  · intro f hf
    simp only [List.mem_append, List.mem_cons, List.not_mem_nil, or_false, List.mem_map] at hf
    rcases hf with (rfl | rfl) | ⟨n, _, rfl⟩
    · exact writeString_fits _
    · exact (be_length _ _).le
    · exact writeString_fits _
  · rw [size_append, hsize, hlen]
    rfl

theorem bindingFields_entries {entries : List (Σ _ : Name, List QueueId)}
    {bindings : List (List Field)}
    (h : List.Forall₂ (fun b fs => Exchange.bindingFields heap b.1 b.2 = some fs) entries
      bindings) :
    (∀ f ∈ bindings.flatten, f.Fits) ∧ size bindings.flatten =
      entries.length * (maxNameLength + 2) +
        (entries.map fun b => b.2.length).sum * maxNameLength := by
  induction h with
  | nil => exact ⟨fun _ hf => (nomatch hf), rfl⟩
  | cons hfs _ ih =>
    obtain ⟨hfits, hsize⟩ := bindingFields_key hfs
    obtain ⟨hfits', hsize'⟩ := ih
    constructor
    · intro f hf
      rw [List.flatten_cons, List.mem_append] at hf
      exact hf.elim (hfits f) (hfits' f)
    · rw [List.flatten_cons, size_append, hsize, hsize', List.map_cons, List.sum_cons,
        List.length_cons, Nat.add_mul, Nat.add_mul, Nat.one_mul]
      omega

/-- The fields fit, and take as much room as the source computes. -/
theorem fits_bindingFields {fields : List Field} (hname : IsName e.exchangeName)
    (h : bindingFields heap e = some fields) :
    (∀ f ∈ fields, f.Fits) ∧ 2 + 2 + maxNameLength + 2 +
      e.getBindingSize * (maxNameLength + 2) +
        (e.bindingQueues.entries.map fun b => b.2.length).sum * maxNameLength = 4 + size fields := by
  obtain ⟨bindings, hbindings, rfl⟩ := Option.map_eq_some_iff.mp h
  obtain ⟨hfits, hsize⟩ := bindingFields_entries (forall₂_mapM hbindings)
  have hcount : e.getBindingSize = e.bindingQueues.entries.length := by
    rw [Exchange.getBindingSize, AList.keys, List.keys, List.length_map]
  constructor
  · intro f hf
    rcases List.mem_append.mp hf with hf | hf
    · simp only [List.mem_cons, List.not_mem_nil, or_false] at hf
      rcases hf with rfl | rfl
      · exact hname.short.le
      · exact (be_length _ _).le
    · exact hfits f hf
  · rw [size_append, hsize, hcount]
    simp only [size_cons, size_nil, writeName, writeUShort]
    omega

theorem carries_bindings (hname : IsName e.exchangeName) (hplain : Plain e.exchangeName)
    {packed : Packed}
    (h : e.serializeBindingToString heap zeroed maxClintPackageLength = some packed) :
    Carries packed.sent (bindOrder heap e) := by
  have hmax : maxClintPackageLength = 11264 := rfl
  unfold Exchange.serializeBindingToString at h
  dsimp only at h
  split at h
  · next hlong =>
    cases h
    have hother : bindOrder heap e = .other := by
      rw [bindOrder]
      split
      · rfl
      · next fields hfields =>
        obtain ⟨hfits, hsize⟩ := fits_bindingFields hname hfields
        rw [hsize] at hlong
        have hle := Nat.mod_le (4 + size fields) (2 ^ 16)
        rw [image_length hfits, if_neg]
        rw [ushort] at hlong
        omega
    rw [hother]
    exact carries_zeroed
  · obtain ⟨bindings, hbindings, h⟩ := Option.bind_eq_some_iff.mp h
    split at h
    · cases h
    · next hroom =>
      cases h
      let fields := [writeName e.exchangeName, writeUShort e.getBindingSize] ++ bindings.flatten
      have hfields : bindingFields heap e = some fields :=
        Option.map_eq_some_iff.mpr ⟨bindings, hbindings, rfl⟩
      obtain ⟨hfits, hsize⟩ := fits_bindingFields hname hfields
      have hall : ∀ iLen, size (writeUShort iLen :: writeUShort cmdCreateBinding :: fields) =
          4 + size fields := fun iLen => by
        simp only [size_cons, writeUShort]
        omega
      rw [hsize] at hroom ⊢
      have hshort : ¬ ((size (writeUShort (ushort (4 + size fields)) ::
          writeUShort cmdCreateBinding :: fields) : Nat) : Int) > maxClintPackageLength := hroom
      rw [hall] at hshort
      have hlen : ushort (4 + size fields) = 4 + size fields := Nat.mod_eq_of_lt (by omega)
      have hsent : (place zeroed 0 (writeUShort (4 + size fields) ::
          writeUShort cmdCreateBinding :: fields)).read 0 (4 + size fields) =
            packet cmdCreateBinding (image fields) := by
        rw [← PersistenceServer.image_packet _ hfits]
        have hread := @read_place zeroed 0 (writeUShort (4 + size fields) ::
          writeUShort cmdCreateBinding :: fields) (fun f hf => ?_) fun _ _ => rfl
        · rwa [hall] at hread
        · rcases List.mem_cons.mp hf with rfl | hf
          · exact (be_length _ _).le
          · rcases List.mem_cons.mp hf with rfl | hf
            · exact (be_length _ _).le
            · exact hfits f hf
      have hbody : readName (Mem.ofBytes (image fields)) 0 = some e.exchangeName :=
        readName_field [] (holds_ofBytes _) hfits hname.zero hname.short
      have himage := image_length hfits
      rw [hlen, bindOrder, hfields]
      dsimp only
      rw [if_pos (by omega)]
      refine Eq.mpr (congrArg (fun p => Carries p _) hsent) ?_
      exact carries_bind (by omega) hbody hplain

end Bindings

end Serialized

end LogicServer

end Wsmq
