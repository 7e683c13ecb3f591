import Mathlib.Data.Nat.Digits.Defs
import Wsmq.ComDef
import Wsmq.Lib.Packing

/-!
# Reading and writing packages (`mq_util/mq_util.cpp`)

Numbers travel in network byte order.  A `Write` call with the pointer step that
follows it in every encoder is a `Field`.
-/

namespace Wsmq
open Lib.ByteString Lib.Packing

/-! ## Writing -/

def writeBool (bVal : Bool) : Field := ⟨[if bVal then 1 else 0], 1⟩

def writeByte (iVal : Nat) : Field := ⟨be 1 iVal, 1⟩

/-- `WriteShort` of an `unsigned short`. -/
def writeUShort (iVal : Nat) : Field := ⟨be 2 iVal, 2⟩

def writeShort (iVal : Int) : Field := ⟨beInt 2 iVal, 2⟩

def writeInt (iVal : Int) : Field := ⟨beInt 4 iVal, 4⟩

/-- `WriteBuf` of a name; the pointer moves by `MAX_NAME_LENGTH`. -/
def writeName (strName : Name) : Field := ⟨strName, maxNameLength⟩

/-- `WriteBuf` of the last field of a package. -/
def writeBody (strBody : Bytes) : Field := ⟨strBody, strBody.length⟩

/-! ## Reading -/

/-- The memory seen through a pointer `k` bytes further on. -/
def shift (m : Mem) (k : Nat) : Mem := fun x => m (k + x)

def readBool (m : Mem) (a : Nat) : Bool := m a ≠ 0

def readByte (m : Mem) (a : Nat) : Nat := (m a).toNat

def readUShort (m : Mem) (a : Nat) : Nat := ofBe (m.read a 2)

def readShort (m : Mem) (a : Nat) : Int := ofBeInt (m.read a 2)

def readInt (m : Mem) (a : Nat) : Int := ofBeInt (m.read a 4)

theorem fitsInt_readInt (m : Mem) (a : Nat) : FitsInt 4 (readInt m a) :=
  fitsInt_ofBeInt (by decide) (Mem.read_length _ _ _)

theorem fitsInt_readShort (m : Mem) (a : Nat) : FitsInt 2 (readShort m a) :=
  fitsInt_ofBeInt (by decide) (Mem.read_length _ _ _)

/-- `ReadBuf` into a `char[MAX_NAME_LENGTH]` of which a `string` is made.  With no
zero byte among the 32 the construction runs past the array. -/
def readName (m : Mem) (a : Nat) : Option Name := cstr (m.read a maxNameLength)

/-! ## Reading back -/

section ReadBack

variable {m : Mem} {a : Nat} (pre : List Field) {post : List Field}

theorem readUShort_field {v : Nat} (h : Holds m a (image (pre ++ writeUShort v :: post)))
    (hf : ∀ f ∈ pre ++ writeUShort v :: post, f.Fits) (hv : v < 2 ^ 16) :
    readUShort m (a + size pre) = v := by
  have hread : m.read (a + size pre) 2 = be 2 v := by
    simpa [writeUShort, pad] using h.field hf
  rw [readUShort, hread, ofBe_be_of_lt hv]

theorem readByte_field {v : Nat} (h : Holds m a (image (pre ++ writeByte v :: post)))
    (hf : ∀ f ∈ pre ++ writeByte v :: post, f.Fits) (hv : v < 2 ^ 8) :
    readByte m (a + size pre) = v := by
  have hread : m.read (a + size pre) 1 = be 1 v := by simpa [writeByte, pad] using h.field hf
  have hcell : [m (a + size pre)] = be 1 v := by simpa [Mem.read] using hread
  have hval := congrArg ofBe hcell
  rw [ofBe_be_of_lt hv] at hval
  simpa [readByte, ofBe] using hval

theorem readShort_field {v : Int} (h : Holds m a (image (pre ++ writeShort v :: post)))
    (hf : ∀ f ∈ pre ++ writeShort v :: post, f.Fits) (hv : FitsInt 2 v) :
    readShort m (a + size pre) = v := by
  have hread : m.read (a + size pre) 2 = beInt 2 v := by
    simpa [writeShort, pad] using h.field hf
  rw [readShort, hread, ofBeInt_beInt hv]

theorem readInt_field {v : Int} (h : Holds m a (image (pre ++ writeInt v :: post)))
    (hf : ∀ f ∈ pre ++ writeInt v :: post, f.Fits) (hv : FitsInt 4 v) :
    readInt m (a + size pre) = v := by
  have hread : m.read (a + size pre) 4 = beInt 4 v := by simpa [writeInt, pad] using h.field hf
  rw [readInt, hread, ofBeInt_beInt hv]

theorem readBool_field {v : Bool} (h : Holds m a (image (pre ++ writeBool v :: post)))
    (hf : ∀ f ∈ pre ++ writeBool v :: post, f.Fits) : readBool m (a + size pre) = v := by
  have hcell : m (a + size pre) = if v then 1 else 0 := by
    simpa [writeBool, pad, Mem.read] using h.field hf
  rw [readBool, hcell]
  cases v <;> decide

/-- A name without zero bytes that is shorter than its field comes back. -/
theorem readName_field {n : Name} (h : Holds m a (image (pre ++ writeName n :: post)))
    (hf : ∀ f ∈ pre ++ writeName n :: post, f.Fits) (hzero : 0 ∉ n)
    (hlen : n.length < maxNameLength) : readName m (a + size pre) = some n := by
  have hread : m.read (a + size pre) maxNameLength = pad maxNameLength n := h.field hf
  rw [readName, hread, cstr_pad hzero hlen]

theorem read_body_field {bs : Bytes} (h : Holds m a (image (pre ++ writeBody bs :: post)))
    (hf : ∀ f ∈ pre ++ writeBody bs :: post, f.Fits) :
    m.read (a + size pre) bs.length = bs := by
  simpa [writeBody, pad] using h.field hf

end ReadBack

/-! ## Decimal texts -/

def decimalNat (n : Nat) : Bytes :=
  if n = 0 then ascii "0" else ((Nat.digits 10 n).map fun d => UInt8.ofNat (48 + d)).reverse

/-- `std::to_string`. -/
def toString (v : Int) : Bytes :=
  if v < 0 then ascii "-" ++ decimalNat v.natAbs else decimalNat v.natAbs

end Wsmq
