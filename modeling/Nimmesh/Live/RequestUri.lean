import Nimmesh.Live.AddressTypos
import Nimmesh.Utf8

/-! @src request_uri.rs | name:Payment request links | layer:model

    `nimiq:<address>?amount=<NIM>&message=<text>`. The amount is a decimal number of at most five places, the
    message is percent-encoded byte by byte. Only the address can fault: all else is read with checks. -/

namespace Nimmesh
open Checked Text

def lunaPerNim : ℕ := 100000

def nimDecimals : ℕ := 5

structure PaymentRequest where
  address : Text
  amountLuna : UInt64
  message : Option Text
  deriving DecidableEq

/-! ### Amounts -/

/-- Zeros behind the number, up to a width: `{:0<width$}`. -/
def padRight (width : ℕ) (s : Text) : Text := s ++ List.replicate (width - s.length) '0'

/-- Zeros before the number, up to a width: `{:0width$}`. -/
def padLeft (width : ℕ) (s : Text) : Text := List.replicate (width - s.length) '0' ++ s

/-- `str::trim_end_matches('0')`. -/
def trimZeros (s : Text) : Text := (s.reverse.dropWhile (· == '0')).reverse

def formatNim (luna : UInt64) : Text :=
  let int := luna.toNat / lunaPerNim
  let frac := luna.toNat % lunaPerNim
  if frac = 0 then Nat.toDigits 10 int
  else Nat.toDigits 10 int ++ '.' :: trimZeros (padLeft nimDecimals (Nat.toDigits 10 frac))

/-- `str::split_once`. -/
def splitOnce (sep : Char) (s : Text) : Option (Text × Text) :=
  if sep ∈ s then some (s.takeWhile (· != sep), (s.dropWhile (· != sep)).drop 1) else none

/-- `str::parse::<u64>` of a text of digits. -/
def parseU64 (s : Text) : Option ℕ := let n := Nat.ofDigitChars 10 s 0; if n < 2 ^ 64 then some n else none

/-- What is before and behind the point. -/
def amountParts (s : Text) : Text × Text := (splitOnce '.' s).getD (s, [])

def parseNim (s : Text) : Option UInt64 :=
  let int := (amountParts s).1
  let frac := (amountParts s).2
  if s = [] then none
  else if int = [] ∨ int.all Char.isDigit = false then none
  else if nimDecimals < byteLen frac ∨ frac.all Char.isDigit = false then none
  else do
    let i ← parseU64 int
    let f ← if padRight nimDecimals frac = [] then some 0 else parseU64 (padRight nimDecimals frac)
    if i * lunaPerNim < 2 ^ 64 ∧ i * lunaPerNim + f < 2 ^ 64 then some (i * lunaPerNim + f).toUInt64 else none

/-! ### Percent encoding -/

def isUnreserved (b : UInt8) : Bool :=
  let c := Char.ofNat b.toNat
  c.isAlphanum || c == '-' || c == '_' || c == '.' || c == '~'

/-- `{:X}` of a number below 16. -/
def hexDigit (n : ℕ) : Char := if n < 10 then Char.ofNat (n + 48) else Char.ofNat (n + 55)

def percentEncodeByte (b : UInt8) : Text :=
  if isUnreserved b then [Char.ofNat b.toNat] else ['%', hexDigit (b.toNat / 16), hexDigit (b.toNat % 16)]

def percentEncode (s : Text) : Text := (utf8Bytes (String.ofList s)).flatMap percentEncodeByte

/-- `char::to_digit(16)`. -/
def toDigit16 (b : UInt8) : Option ℕ :=
  let n := b.toNat
  if 48 ≤ n ∧ n ≤ 57 then some (n - 48)
  else if 97 ≤ n ∧ n ≤ 102 then some (n - 87)
  else if 65 ≤ n ∧ n ≤ 70 then some (n - 55)
  else none

/-- The escapes resolved, a plus read as a blank. -/
def percentDecodeBytes : Bytes → Option Bytes
  | [] => some []
  | b :: rest =>
    if b = '%'.toNat.toUInt8 then
      match rest with
      | hi :: lo :: rest => do
        let hi ← toDigit16 hi
        let lo ← toDigit16 lo
        let out ← percentDecodeBytes rest
        return (hi * 16 + lo).toUInt8 :: out
      | _ => none
    else do
      let out ← percentDecodeBytes rest
      return (if b = '+'.toNat.toUInt8 then ' '.toNat.toUInt8 else b) :: out

def percentDecode (s : Text) : Option Text := do
  let out ← percentDecodeBytes (utf8Bytes (String.ofList s))
  let text ← fromUtf8 out
  return text.toList

/-! ### The link -/

def scheme : Text := "nimiq:".toList

def amountKey : Text := "amount".toList

def messageKey : Text := "message".toList

/-- The parameters of a link, in their order. -/
def requestParams (amountLuna : UInt64) (message : Option Text) : List Text :=
  (if 0 < amountLuna then [amountKey ++ '=' :: formatNim amountLuna] else []) ++
    (message.filter (· ≠ [])).toList.map fun msg => messageKey ++ '=' :: percentEncode msg

def buildRequestUri (address : Text) (amountLuna : UInt64) (message : Option Text) : Result Unit Text := do
  let addr ← ok? (NimAddress.fromUserFriendly address)
  let t ← NimAddress.toUserFriendly addr
  let params := requestParams amountLuna message
  return scheme ++ t.filter (fun c => !isWhitespace c) ++
    if params = [] then [] else '?' :: ['&'].intercalate params

/-- Take one parameter up; a later one replaces an earlier one. -/
def readParam (st : UInt64 × Option Text) (pair : Text) : Result Unit (UInt64 × Option Text) :=
  let (key, value) := (splitOnce '=' pair).getD (pair, [])
  if key = amountKey then
    match parseNim value with
    | some amount => .ok (amount, st.2)
    | none => fail ()
  else if key = messageKey then
    match percentDecode value with
    | some decoded => .ok (st.1, if decoded = [] then st.2 else some decoded)
    | none => fail ()
  else .ok st

/-- The address and the query of what is behind the scheme. -/
def splitQuery (rest : Text) : Text × Option Text :=
  match splitOnce '?' rest with
  | some (addr, query) => (addr, some query)
  | none => (rest, none)

/-- The address part of a link. -/
def addressPart (uri : Text) : Option Text := (uri.dropPrefix? scheme).map fun rest => (splitQuery rest).1

def parseRequestUri (uri : Text) : Result Unit PaymentRequest :=
  match uri.dropPrefix? scheme with
  | none => fail ()
  | some rest => do
    let addr ← ok? (NimAddress.fromUserFriendly (splitQuery rest).1)
    let address ← NimAddress.toUserFriendly addr
    let pairs := ((splitQuery rest).2.map fun query => (query.splitOn '&').filter (· ≠ [])).getD []
    let (amountLuna, message) ← pairs.foldlM readParam (0, none)
    return { address, amountLuna, message }

end Nimmesh
