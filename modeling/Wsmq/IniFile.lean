import Mathlib.Data.List.DropRight
import Wsmq.Lib.ByteString
import Wsmq.Lib.Search

/-!
# Configuration files (`ini_file/ini_file.cpp`)

Pointers into `m_szBuffer` are offsets.
-/

namespace Wsmq
open Lib.ByteString Lib.Search

namespace CIniFile

def success : Int := 0
def eIniFile : Int := -401

/-! ## Characters -/

def leftBracket : UInt8 := 91
def rightBracket : UInt8 := 93
def equalSign : UInt8 := 61
def semicolon : UInt8 := 59
def tab : UInt8 := 9
def newline : UInt8 := 10
def carriageReturn : UInt8 := 13
def space : UInt8 := 32

def IsBlank (c : UInt8) : Prop := c = space ∨ c = tab

instance (c : UInt8) : Decidable (IsBlank c) := inferInstanceAs (Decidable (_ ∨ _))

def IsWhite (c : UInt8) : Prop := IsBlank c ∨ c = carriageReturn ∨ c = newline

instance (c : UInt8) : Decidable (IsWhite c) := inferInstanceAs (Decidable (_ ∨ _))

/-- `TrimString`, first at the right end. -/
def trimString (szString : Bytes) : Bytes :=
  (szString.rdropWhile fun c => IsWhite c).dropWhile fun c => IsWhite c

end CIniFile

/-- A `CIniFile` object; the buffer ends with a zero byte behind `m_iSize` others. -/
structure CIniFile where
  szBuffer : Option Bytes

namespace CIniFile

/-- The constructor, which is given what is in the file, if there is one.  An empty file is not
loaded. -/
def ofFile : Option Bytes → CIniFile
  | none => ⟨none⟩
  | some text => if text = [] then ⟨none⟩ else ⟨some text⟩

def isValid (f : CIniFile) : Bool := f.szBuffer.any fun szBuffer => 0 < szBuffer.length

/-! ## Searching -/

/-- The byte at `p`. -/
def charAt (szBuffer : Bytes) (p : Nat) : UInt8 := szBuffer.getD p 0

/-- `strstr` from `p` on, up to the first zero byte. -/
def strstr (szBuffer : Bytes) (p : Nat) (pat : Bytes) : Option Nat :=
  (find pat ((szBuffer.drop p).takeWhile (· ≠ 0))).map (p + ·)

/-- The section name at `p` stands between brackets, and these at the beginning of a line. -/
def SectionAt (szBuffer szSection : Bytes) (p : Nat) : Prop :=
  charAt szBuffer (p - 1) = leftBracket ∧
    charAt szBuffer (p + szSection.length) = rightBracket ∧
    (1 < p → charAt szBuffer (p - 2) = newline)

instance (szBuffer szSection : Bytes) (p : Nat) : Decidable (SectionAt szBuffer szSection p) :=
  inferInstanceAs (Decidable (_ ∧ _ ∧ _))

/-- The item name at `p` stands at the beginning of a line, and a blank or `=` follows. -/
def ItemAt (szBuffer szItem : Bytes) (p : Nat) : Prop :=
  charAt szBuffer (p - 1) = newline ∧
    (IsBlank (charAt szBuffer (p + szItem.length)) ∨
      charAt szBuffer (p + szItem.length) = equalSign)

instance (szBuffer szItem : Bytes) (p : Nat) : Decidable (ItemAt szBuffer szItem p) :=
  inferInstanceAs (Decidable (_ ∧ _))

/-- The first loop; it gives up where the name begins the text. -/
def locateSection (szBuffer szSection : Bytes) : Option Located :=
  locate (fun pszTemp => strstr szBuffer pszTemp szSection) szBuffer.length szSection.length
    (fun pszSection => pszSection = 0) (SectionAt szBuffer szSection) (szBuffer.length + 1) 0

/-- The second loop: the next bracket at the beginning of a line, or the end of the text. -/
def nextSection (szBuffer : Bytes) : Nat → Nat → Option Nat
  | 0, _ => none
  | n + 1, pszTestSection =>
    match strstr szBuffer pszTestSection [leftBracket] with
    | none => some szBuffer.length
    | some pszNextSection =>
      if charAt szBuffer (pszNextSection - 1) = newline then some pszNextSection
      else nextSection szBuffer n (pszNextSection + 1)

/-- The third loop, up to where an item is found. -/
def locateItem (szBuffer szItem : Bytes) (pszNextSection pszTemp : Nat) : Option Located :=
  locate (fun pszTemp => strstr szBuffer pszTemp szItem) szBuffer.length szItem.length
    (fun pszItem => pszNextSection ≤ pszItem) (ItemAt szBuffer szItem) (szBuffer.length + 1)
    pszTemp

/-! ## Values -/

/-- The loop over the value.  `bStart` says that `n` is 0, and `szValue` has `iPos` bytes. -/
def copyValue (iValueLen : Nat) : Bool → Bytes → Bytes → Bytes
  | _, szValue, [] => szValue
  | bStart, szValue, c :: pszValue =>
    if ¬ szValue.length < iValueLen - 1 ∨ c = carriageReturn ∨ c = newline ∨ c = 0 then szValue
    else if IsBlank c ∧ szValue = [] then copyValue iValueLen false szValue pszValue
    else if c = semicolon then
      if bStart then szValue
      else
        match pszValue with
        | [] => szValue
        | c' :: pszValue =>
          if c' = semicolon then copyValue iValueLen false (szValue ++ [c]) pszValue else szValue
    else copyValue iValueLen false (szValue ++ [c]) pszValue

/-- What is left of the default in `szValue`; no zero byte follows where it fills the buffer. -/
def defaultValue (szDefault : Bytes) (iValueLen : Nat) : Bytes := szDefault.take iValueLen

/-- `GetString`: what it returns, and the string in `szValue`.  It has no result when
`TrimString` runs over the end of `szValue`. -/
def getString (f : CIniFile) (szSection szItem szDefault : Bytes) (iValueLen : Nat) :
    Option (Int × Bytes) :=
  let failed := some (eIniFile, defaultValue szDefault iValueLen)
  match f.szBuffer with
  | none => failed
  | some szBuffer =>
    if szBuffer.length = 0 then failed
    else
      (locateSection szBuffer szSection).bind fun located =>
        match located with
        | .failed => failed
        | .ranOut pszTemp | .found pszTemp =>
          (nextSection szBuffer (szBuffer.length + 1) pszTemp).bind fun pszNextSection =>
            (locateItem szBuffer szItem pszNextSection pszTemp).bind fun located =>
              match located with
              | .failed => failed
              | .ranOut _ =>
                if szDefault.length < iValueLen then
                  some (success, trimString (defaultValue szDefault iValueLen))
                else none
              | .found pszItem =>
                match strstr szBuffer pszItem [equalSign] with
                | none => failed
                | some pszValue =>
                  if szBuffer.length ≤ pszValue + 1 then failed
                  else
                    some (success, trimString
                      (copyValue iValueLen true [] (szBuffer.drop (pszValue + 1))))

/-! ## Numbers -/

/-- The digits of a number; `digit` gives the value of a digit. -/
def number (base : Int) (digit : UInt8 → Option Int) : Int → Bytes → Int
  | v, [] => v
  | v, c :: s =>
    match digit c with
    | none => v
    | some d => number base digit (base * v + d) s

def decimalDigit (c : UInt8) : Option Int :=
  if 48 ≤ c.toNat ∧ c.toNat ≤ 57 then some (c.toNat - 48) else none

def hexDigit (c : UInt8) : Option Int :=
  if 48 ≤ c.toNat ∧ c.toNat ≤ 57 then some (c.toNat - 48)
  else if 97 ≤ c.toNat ∧ c.toNat ≤ 102 then some (c.toNat - 87)
  else if 65 ≤ c.toNat ∧ c.toNat ≤ 70 then some (c.toNat - 55)
  else none

/-- White space is skipped, and a sign is read. -/
def signed (s : Bytes) : Bool × Bytes :=
  match s.dropWhile fun c => c = space ∨ (9 ≤ c.toNat ∧ c.toNat ≤ 13) with
  | 45 :: s => (true, s)
  | 43 :: s => (false, s)
  | s => (false, s)

/-- `atoi`: a `long`, of which the lower bits are taken. -/
def atoi (s : Bytes) : Int :=
  let (bMinus, s) := signed s
  let v := number 10 decimalDigit 0 s
  (if bMinus then max (-v) (-2 ^ 63) else min v (2 ^ 63 - 1)).bmod (2 ^ 32)

/-- `sscanf` with `%x`, which may assign nothing. -/
def sscanfHex (s : Bytes) (value : Int) : Int :=
  let (bMinus, s) := signed s
  let s := if s.take 2 = [48, 120] ∨ s.take 2 = [48, 88] then s.drop 2 else s
  if (s.head?.bind hexDigit).isNone then value
  else
    let v := number 16 hexDigit 0 s
    (if 2 ^ 64 ≤ v then -1 else if bMinus then -v else v).bmod (2 ^ 32)

/-- `GetInt`: what it returns, and what `*piValue` is then. -/
def getInt (f : CIniFile) (szSection szItem : Bytes) (iDefault piValue : Int) :
    Option (Int × Int) :=
  if ¬ f.isValid then some (eIniFile, piValue)
  else
    (f.getString szSection szItem [] 32).map fun (ret, szInt) =>
      if ret ≠ 0 then (eIniFile, iDefault)
      else if szInt.take 2 = [48, 120] ∨ szInt.take 2 = [48, 88] then
        (success, sscanfHex (szInt.drop 2) piValue)
      else (success, atoi szInt)

end CIniFile

end Wsmq
