import Nimmesh.Lib.Checked
import Nimmesh.Lib.Regroup
import Nimmesh.Swap.Wire

/-! @src nimiq/address.rs | name:User-friendly addresses | layer:model

    `NQ`, two check digits and twenty bytes in the base32 alphabet of the chain. The parser slices the text
    at bytes and runs the checksum before it looks at the alphabet, so a text can stop it with a fault:
    `fromUserFriendly` keeps each slice and each subtraction as a step that may fault. -/

namespace Nimmesh
open Checked Regroup

variable {ε : Type}

/-! ### Texts -/

/-- A text is the list of its characters. -/
abbrev Text := List Char

namespace Text

/-- `str::len`: the bytes of the text. -/
def byteLen (s : Text) : ℕ := (s.map Char.utf8Size).sum

/-- What is before and behind byte `n`, if a character starts there. -/
def splitAtByte : ℕ → Text → Option (Text × Text)
  | 0, s => some ([], s)
  | _ + 1, [] => none
  | n + 1, c :: s =>
    if c.utf8Size ≤ n + 1 then (splitAtByte (n + 1 - c.utf8Size) s).map fun p => (c :: p.1, p.2) else none

/-- `str::is_char_boundary`. -/
def isCharBoundary (s : Text) (n : ℕ) : Bool := (splitAtByte n s).isSome

def sliceTo (s : Text) (n : ℕ) : Result ε Text :=
  match splitAtByte n s with
  | some p => .ok p.1
  | none => fault .slice

def sliceFrom (s : Text) (n : ℕ) : Result ε Text :=
  match splitAtByte n s with
  | some p => .ok p.2
  | none => fault .slice

def slice (s : Text) (lo hi : ℕ) : Result ε Text := do
  let front ← sliceTo s hi
  sliceFrom front lo

/-- `char::is_whitespace`. -/
def isWhitespace (c : Char) : Bool :=
  let n := c.toNat
  (0x09 ≤ n ∧ n ≤ 0x0D) ∨ n = 0x20 ∨ n = 0x85 ∨ n = 0xA0 ∨ n = 0x1680 ∨ (0x2000 ≤ n ∧ n ≤ 0x200A) ∨
    n = 0x2028 ∨ n = 0x2029 ∨ n = 0x202F ∨ n = 0x205F ∨ n = 0x3000

/-- `char::to_ascii_uppercase`. -/
def toAsciiUppercase (c : Char) : Char :=
  if 'a' ≤ c ∧ c ≤ 'z' then Char.ofNat (c.toNat - 32) else c

/-- `char::to_digit(10)`. -/
def toDigit (c : Char) : Option ℕ := if '0' ≤ c ∧ c ≤ '9' then some (c.toNat - '0'.toNat) else none

end Text

open Text

inductive AddressError where
  | wrongLength (n : ℕ)
  | missingPrefix
  | badChecksum
  | badBase32Char (c : Char)
  deriving DecidableEq, Repr

namespace NimAddress

/-! ### The checksum -/

/-- A digit is one decimal place, any other character two; the sums are of 32 bits. -/
def ibanMod97Step (tmp : ℕ) (c : Char) : Result ε ℕ :=
  match toDigit c with
  | some d => do
    let t ← fit 32 (tmp * 10 + d)
    return t % 97
  | none => do
    let above ← sub (toAsciiUppercase c).toNat 'A'.toNat
    let v ← fit 32 (above + 10)
    let t ← fit 32 (tmp * 10 + v / 10)
    let u ← fit 32 (t % 97 * 10 + v % 10)
    return u % 97

def ibanMod97 (s : Text) : Result ε ℕ := s.foldlM ibanMod97Step 0

/-! ### Base32 -/

/-- The alphabet leaves out the ambiguous letters. -/
def base32Alphabet : Text :=
  ['0', '1', '2', '3', '4', '5', '6', '7', '8', '9', 'A', 'B', 'C', 'D', 'E', 'F', 'G', 'H', 'J', 'K', 'L', 'M',
   'N', 'P', 'Q', 'R', 'S', 'T', 'U', 'V', 'X', 'Y']

/-- The symbol of a masked group: the mask keeps it below 32. -/
def base32Symbol (idx : ℕ) : Char := base32Alphabet.getD idx '0'

/-- One byte goes in; every full group is taken. -/
def base32EncodeStep (s : Acc) (b : UInt8) : Acc :=
  let s := s.push 8 b.toNat
  s.drain 5 s.bits

def base32Encode (bytes : Bytes) : Text := (bytes.foldl base32EncodeStep {}).out.map base32Symbol

/-- One character goes in; a full byte is stored at the next index of the address. -/
def base32DecodeStep (s : Acc) (c : Char) : Result AddressError Acc :=
  if base32Alphabet.idxOf c < base32Alphabet.length then
    let s := s.push 5 (base32Alphabet.idxOf c)
    if 8 ≤ s.bits then
      if s.out.length < nimAddressLen then .ok (s.take 8) else fault .index
    else .ok s
  else fail (.badBase32Char c)

def base32Decode (s : Text) : Result AddressError NimAddress := do
  let acc ← s.foldlM base32DecodeStep {}
  return List.Vector.ofFn fun i => (acc.out.getD i 0).toUInt8

/-! ### The two forms -/

/-- Without whitespace and in upper case. -/
def compact (input : Text) : Text := (input.filter fun c => !isWhitespace c).map toAsciiUppercase

def fromUserFriendly (input : Text) : Result AddressError NimAddress := do
  let s := compact input
  if byteLen s ≠ 36 then fail (.wrongLength (byteLen s))
  else
    let country ← sliceTo s 2
    if country ≠ ['N', 'Q'] then fail .missingPrefix
    else
      let check ← slice s 2 4
      let base32 ← sliceFrom s 4
      let m ← ibanMod97 (base32 ++ ['N', 'Q'] ++ check)
      if m ≠ 1 then fail .badChecksum
      else base32Decode base32

/-- A number of at least two digits. -/
def twoDigits (n : ℕ) : Text := if n < 10 then '0' :: Nat.toDigits 10 n else Nat.toDigits 10 n

/-- A blank before every fourth character but the first. -/
def grouped (s : Text) : Text :=
  s.zipIdx.flatMap fun p => if 0 < p.2 ∧ p.2 % 4 = 0 then [' ', p.1] else [p.1]

def toUserFriendly (a : NimAddress) : Result ε Text := do
  let base32 := base32Encode a.1
  let m ← ibanMod97 (base32 ++ ['N', 'Q', '0', '0'])
  let check ← sub 98 m
  return grouped (['N', 'Q'] ++ twoDigits check ++ base32)

end NimAddress

end Nimmesh
