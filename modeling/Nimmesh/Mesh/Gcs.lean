import Nimmesh.Lib.Rlp
import Nimmesh.Lib.Word
import Nimmesh.Packet
import Mathlib.Data.List.Sort

/-! @src gcs.rs | name:Golomb-coded set filter | layer:model

    The filter a node advertises: the ids it holds, mapped into a range, sorted, and written as
    Golomb-Rice coded differences. A bit stream is a list of bits, most significant first. -/

namespace Nimmesh
open Rlp Word

def gcsM : UInt64 := 100

def gcsP : ℕ := 6

/-- The most ids one advertised filter carries. -/
def gcsMaxItems : ℕ := 360

/-- Murmur3's 64-bit finalizer. -/
def mix64 (z : UInt64) : UInt64 :=
  let z := (z ^^^ (z >>> 33)) * 0xff51afd7ed558ccd
  let z := (z ^^^ (z >>> 33)) * 0xc4ceb9fe1a85ec53
  z ^^^ (z >>> 33)

/-- Map an id into `[0, range)`: the upper word of a 128-bit product. -/
def hashToRange (id range : UInt64) : UInt64 :=
  if range = 0 then 0 else ((mix64 id).toNat * range.toNat / 2 ^ 64).toUInt64

/-! ### Bits -/

/-- The low `n` bits of a word. -/
def bitsOf (v : UInt64) (n : ℕ) : List Bool := (List.range n).reverse.map fun i => v.toNat.testBit i

/-- The bits of a byte string. -/
def bitStream (bytes : Bytes) : List Bool := bytes.flatMap fun b => bitsOf b.toUInt64 8

/-- The byte that eight bits make; missing bits are zero. -/
def packByte (bits : List Bool) : UInt8 :=
  (List.range 8).foldl (fun acc i => acc <<< 1 ||| if bits.getD i false then 1 else 0) 0

/-- The bytes of a bit stream, the last one filled up with zeros. -/
def packBits (bits : List Bool) : Bytes :=
  (List.range ((bits.length + 7) / 8)).map fun i => packByte (bits.drop (8 * i))

/-- `read_bits`: a number of `n` bits, if they are there. -/
def readBits (n : ℕ) (bits : List Bool) : Option (UInt64 × List Bool) :=
  if bits.length < n then none
  else some ((bits.take n).foldl (fun v b => v <<< 1 ||| if b then 1 else 0) 0, bits.drop n)

/-- Golomb-Rice: the quotient in unary, a zero, the remainder in `gcsP` bits. -/
def riceEncode (v : UInt64) : List Bool :=
  List.replicate (v.toNat >>> gcsP) true ++ false :: bitsOf (v &&& 63) gcsP

/-- The unary quotient: the ones up to the next zero. -/
def readUnary : List Bool → Option (UInt64 × List Bool)
  | [] => none
  | false :: bits => some (0, bits)
  | true :: bits => (readUnary bits).map fun r => (r.1 + 1, r.2)

def riceDecode (bits : List Bool) : Option (UInt64 × List Bool) := do
  let (q, bits) ← readUnary bits
  let (rem, bits) ← readBits gcsP bits
  return (q <<< 6 ||| rem, bits)

/-! ### The filter -/

structure GcsFilter where
  n : UInt32
  data : Bytes
  deriving DecidableEq

namespace GcsFilter

/-- Code the differences of a sorted list. -/
def codeDeltas : UInt64 → List UInt64 → List Bool
  | _, [] => []
  | last, v :: vs => riceEncode (v - last) ++ codeDeltas v vs

def build (ids : List UInt64) : GcsFilter :=
  if ids.isEmpty then ⟨0, []⟩
  else
    let range := ids.length.toUInt64 * gcsM
    let mapped := (ids.map (hashToRange · range)).insertionSort (· ≤ ·)
    ⟨ids.length.toUInt32, packBits (codeDeltas 0 mapped)⟩

/-- Read up to `n` differences until their sum meets or passes the target. -/
def scan (target : UInt64) : ℕ → UInt64 → List Bool → Bool
  | 0, _, _ => false
  | n + 1, acc, bits =>
    match riceDecode bits with
    | none => false
    | some (delta, bits) =>
      let acc := satAdd acc delta
      if acc = target then true
      else if target < acc then false
      else scan target n acc bits

def contains (f : GcsFilter) (id : UInt64) : Bool :=
  if f.n = 0 then false
  else scan (hashToRange id (f.n.toUInt64 * gcsM)) f.n.toNat 0 (bitStream f.data)

def toBytes (f : GcsFilter) : Bytes := beBytesOf 2 f.n.toNat ++ f.data

def fromBytes (bytes : Bytes) : Option GcsFilter :=
  if bytes.length < 2 then none else some ⟨(ofBe (bytes.take 2)).toUInt32, bytes.drop 2⟩

end GcsFilter

end Nimmesh
