import Wsmq.LogicServer.Request

/-!
# Which bytes of the receive buffer a package is interpreted from

The handlers read all fields of their command whatever the length of the package; the
buffer of the drain loop still holds bytes of earlier packages behind it.
-/

namespace Wsmq.LogicServer
open Lib Lib.ByteString Lib.Packing

/-- The bytes behind the package head that the handler of a command reads before it looks
at anything else. -/
def fixedLen (iCmdId : Nat) : Nat :=
  if iCmdId = cmdCreateExcnange ∨ iCmdId = cmdCreateQueue then maxNameLength + 2 + 1 + 1
  else if iCmdId = cmdCreateBinding then maxNameLength + maxNameLength + maxNameLength
  else if iCmdId = cmdCreatePublish then publishBodyOffset
  else if iCmdId = cmdCreateRecv ∨ iCmdId = cmdCreateSubcribe then maxNameLength + 1
  else if iCmdId = cmdDeleteExchange ∨ iCmdId = cmdDeleteQueue ∨ iCmdId = cmdCancelSubcribe then
    maxNameLength
  else if iCmdId = cmdClientAckMessage then 1 + 4
  else 0

/-- The same package in a buffer with other remains. -/
structure SamePackage (p q : Package) : Prop where
  len : q.len = p.len
  bytes : ∀ i < p.len, q.buf i = p.buf i

section

variable [Platform]

end

/-! ## Long enough packages -/

variable {p q : Package}

namespace SamePackage

theorem read (h : SamePackage p q) {a n : Nat} (hle : a + n ≤ p.len) :
    q.buf.read a n = p.buf.read a n :=
  Mem.read_congr fun i hi => h.bytes (a + i) (by omega)

theorem body (h : SamePackage p q) {a n : Nat} (hle : a + n ≤ p.bodyLen) :
    q.body.read a n = p.body.read a n := by
  have hlen : p.bodyLen + sizeofClientPackageHead = p.len := Nat.sub_add_cancel p.len_ge
  exact Mem.read_congr fun i hi => h.bytes (sizeofClientPackageHead + (a + i)) (by omega)

theorem packLen (h : SamePackage p q) : q.packLen = p.packLen := by
  have height : 8 ≤ p.len := p.len_ge
  exact congrArg ofBe (h.read (by omega))

theorem clientIndex (h : SamePackage p q) : q.clientIndex = p.clientIndex := by
  have height : 8 ≤ p.len := p.len_ge
  exact congrArg ofBeInt (h.read (by omega))

theorem cmdId (h : SamePackage p q) : q.cmdId = p.cmdId := by
  have height : 8 ≤ p.len := p.len_ge
  exact congrArg ofBe (h.read (by omega))

theorem bodyLen (h : SamePackage p q) : q.bodyLen = p.bodyLen :=
  congrArg (· - sizeofClientPackageHead) h.len

theorem readName (h : SamePackage p q) {a : Nat} (hle : a + maxNameLength ≤ p.bodyLen) :
    readName q.body a = Wsmq.readName p.body a :=
  congrArg cstr (h.body hle)

theorem readUShort (h : SamePackage p q) {a : Nat} (hle : a + 2 ≤ p.bodyLen) :
    readUShort q.body a = Wsmq.readUShort p.body a :=
  congrArg ofBe (h.body hle)

theorem readShort (h : SamePackage p q) {a : Nat} (hle : a + 2 ≤ p.bodyLen) :
    readShort q.body a = Wsmq.readShort p.body a :=
  congrArg ofBeInt (h.body hle)

theorem readInt (h : SamePackage p q) {a : Nat} (hle : a + 4 ≤ p.bodyLen) :
    readInt q.body a = Wsmq.readInt p.body a :=
  congrArg ofBeInt (h.body hle)

theorem cell (h : SamePackage p q) {a : Nat} (hle : a + 1 ≤ p.bodyLen) : q.body a = p.body a := by
  have hlen : p.bodyLen + sizeofClientPackageHead = p.len := Nat.sub_add_cancel p.len_ge
  exact h.bytes (sizeofClientPackageHead + a) (by omega)

theorem readByte (h : SamePackage p q) {a : Nat} (hle : a + 1 ≤ p.bodyLen) :
    readByte q.body a = Wsmq.readByte p.body a :=
  congrArg UInt8.toNat (h.cell hle)

theorem readBool (h : SamePackage p q) {a : Nat} (hle : a + 1 ≤ p.bodyLen) :
    readBool q.body a = Wsmq.readBool p.body a := by
  rw [Wsmq.readBool, Wsmq.readBool, h.cell hle]

theorem decodePublish (h : SamePackage p q) (hlen : publishBodyOffset ≤ p.bodyLen) :
    decodePublish q.body q.bodyLen = LogicServer.decodePublish p.body p.bodyLen := by
  have hoffset : publishBodyOffset = 72 := rfl
  have hname : maxNameLength = 32 := rfl
  have hbytes := h.body (a := publishBodyOffset)
    (n := ((p.bodyLen : Int) - publishBodyOffset).toNat) (by omega)
  simp only [LogicServer.decodePublish]
  rw [h.bodyLen, h.readName (by omega), h.readName (by omega), h.readShort (by omega),
    h.readBool (by omega), h.readInt (by omega), h.readByte (by omega), hbytes]

/-- The handlers find the same fields in both buffers. -/
theorem decode (h : SamePackage p q) (hlen : fixedLen p.cmdId ≤ p.bodyLen) :
    decode q = LogicServer.decode p := by
  have hname : maxNameLength = 32 := rfl
  unfold LogicServer.decode decodeBody
  rw [h.cmdId, h.clientIndex]
  by_cases h₁ : p.cmdId = cmdCreateExcnange
  · have hfix : fixedLen cmdCreateExcnange = 36 := rfl
    rw [h₁, hfix] at hlen
    rw [if_pos h₁, if_pos h₁, decodeCreateExchange, h.readName (by omega), h.readUShort (by omega),
      h.readBool (by omega), h.readBool (by omega)]
    rfl
  rw [if_neg h₁, if_neg h₁]
  by_cases h₂ : p.cmdId = cmdCreateQueue
  · have hfix : fixedLen cmdCreateQueue = 36 := rfl
    rw [h₂, hfix] at hlen
    rw [if_pos h₂, if_pos h₂, decodeCreateQueue, h.readName (by omega), h.readShort (by omega),
      h.readBool (by omega), h.readBool (by omega)]
    rfl
  rw [if_neg h₂, if_neg h₂]
  by_cases h₃ : p.cmdId = cmdCreateBinding
  · have hfix : fixedLen cmdCreateBinding = 96 := rfl
    rw [h₃, hfix] at hlen
    rw [if_pos h₃, if_pos h₃, decodeCreateBinding, h.readName (by omega), h.readName (by omega),
      h.readName (by omega)]
    rfl
  rw [if_neg h₃, if_neg h₃]
  by_cases h₄ : p.cmdId = cmdCreatePublish
  · have hfix : fixedLen cmdCreatePublish = publishBodyOffset := rfl
    rw [h₄, hfix] at hlen
    rw [if_pos h₄, if_pos h₄, h.decodePublish hlen]
  rw [if_neg h₄, if_neg h₄]
  by_cases h₅ : p.cmdId = cmdCreateRecv
  · have hfix : fixedLen cmdCreateRecv = 33 := rfl
    rw [h₅, hfix] at hlen
    rw [if_pos h₅, if_pos h₅, decodeCreateRecv, h.readName (by omega), h.readByte (by omega)]
    rfl
  rw [if_neg h₅, if_neg h₅]
  by_cases h₆ : p.cmdId = cmdCreateSubcribe
  · have hfix : fixedLen cmdCreateSubcribe = 33 := rfl
    rw [h₆, hfix] at hlen
    rw [if_pos h₆, if_pos h₆, decodeCreateSubscribe, h.readName (by omega), h.readByte (by omega)]
    rfl
  rw [if_neg h₆, if_neg h₆]
  by_cases h₇ : p.cmdId = cmdDeleteExchange
  · have hfix : fixedLen cmdDeleteExchange = 32 := rfl
    rw [h₇, hfix] at hlen
    rw [if_pos h₇, if_pos h₇, decodeDeleteExchange, h.readName (by omega)]
    rfl
  rw [if_neg h₇, if_neg h₇]
  by_cases h₈ : p.cmdId = cmdDeleteQueue
  · have hfix : fixedLen cmdDeleteQueue = 32 := rfl
    rw [h₈, hfix] at hlen
    rw [if_pos h₈, if_pos h₈, decodeDeleteQueue, h.readName (by omega)]
    rfl
  rw [if_neg h₈, if_neg h₈]
  by_cases h₉ : p.cmdId = cmdCancelSubcribe
  · have hfix : fixedLen cmdCancelSubcribe = 32 := rfl
    rw [h₉, hfix] at hlen
    rw [if_pos h₉, if_pos h₉, decodeCancelSubscribe, h.readName (by omega)]
    rfl
  rw [if_neg h₉, if_neg h₉]
  by_cases h₁₀ : p.cmdId = cmdClientAckMessage
  · have hfix : fixedLen cmdClientAckMessage = 5 := rfl
    rw [h₁₀, hfix] at hlen
    rw [if_pos h₁₀, if_pos h₁₀, decodeClientAck, h.readByte (by omega), h.readInt (by omega)]
    rfl
  rw [if_neg h₁₀, if_neg h₁₀]

end SamePackage

section Handlers

variable [Platform]

section Short

variable {iCmdId len : Nat} (bs : Bytes) (hlen : sizeofClientPackageHead ≤ len)
  (hle : len ≤ maxClintPackageLength)

end Short

/-! ## A state for each command in which its last byte matters -/

/-- A server with one queue, whose name is empty. -/
def oneQueue (q : MessageQueue) : LogicServer :=
  { start none none with
    unSubcribeQueues := AList.insert [] 0 ∅
    queues := fun _ => some q }

end Handlers

section Runs

attribute [local instance] Platform.plain

end Runs

end Wsmq.LogicServer
