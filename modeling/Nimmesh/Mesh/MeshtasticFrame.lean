import Nimmesh.Lib.Logged
import Nimmesh.Lib.Varint
import Nimmesh.Packet

/-! @src shared/MeshtasticFrame.swift | name:Meshtastic frames | layer:model

    A payload inside the protobuf messages of a LoRa radio, and the walker that takes one out of a message from a
    stranger. It reads varints into words of 64 bits and drops what does not fit; a length that is no signed
    integer faults. -/

namespace Nimmesh.MeshtasticFrame
open Checked

def privateAppPortnum : ℕ := 256

def maxPayloadBytes : ℕ := 237 - 16

inductive FrameError where
  | payloadTooLarge (bytes limit : ℕ)
  | malformed (reason : String)
  deriving DecidableEq, Repr

inductive WireType where | varint | fixed64 | lengthDelimited | fixed32
  deriving DecidableEq, Repr

def WireType.rawValue : WireType → ℕ
  | .varint => 0
  | .fixed64 => 1
  | .lengthDelimited => 2
  | .fixed32 => 5

def WireType.ofRawValue (n : ℕ) : Option WireType :=
  if n = 0 then some .varint else if n = 1 then some .fixed64 else if n = 2 then some .lengthDelimited
  else if n = 5 then some .fixed32 else none

/-! ### Encoding -/

/-- Groups of seven bits until the number is used up; ten of them hold a word. -/
def varintFrom : ℕ → ℕ → Bytes
  | 0, _ => []
  | fuel + 1, v =>
    let byte := (v &&& 0x7F).toUInt8
    let v := v >>> 7
    if v ≠ 0 then (byte ||| 0x80) :: varintFrom fuel v else [byte]

def varint (value : ℕ) : Bytes := varintFrom 10 value

def tag (field : ℕ) (wire : WireType) : Bytes := varint ((field <<< 3) ||| wire.rawValue)

def fixed32 (value : UInt32) : Bytes :=
  [(value &&& 0xFF).toUInt8, ((value >>> 8) &&& 0xFF).toUInt8, ((value >>> 16) &&& 0xFF).toUInt8,
   ((value >>> 24) &&& 0xFF).toUInt8]

/-- `Data { portnum = 1, payload = 2 }`. -/
def dataMessage (payload : Bytes) : Bytes :=
  tag 1 .varint ++ varint privateAppPortnum ++ tag 2 .lengthDelimited ++ varint payload.length ++ payload

/-- `MeshPacket { to = 2, decoded = 4, id = 6, hop_limit = 9 }`. -/
def meshPacket (data : Bytes) (packetId destination : UInt32) (hopLimit : UInt64) : Bytes :=
  tag 2 .fixed32 ++ fixed32 destination ++ tag 4 .lengthDelimited ++ varint data.length ++ data ++
    tag 6 .fixed32 ++ fixed32 packetId ++ tag 9 .varint ++ varint hopLimit.toNat

/-- `ToRadio { packet = 1 }`. -/
def encodeToRadio (payload : Bytes) (packetId destination : UInt32) (hopLimit : UInt64) : Except FrameError Bytes :=
  if payload.length ≤ maxPayloadBytes then
    let packet := meshPacket (dataMessage payload) packetId destination hopLimit
    .ok (tag 1 .lengthDelimited ++ varint packet.length ++ packet)
  else .error (.payloadTooLarge payload.length maxPayloadBytes)

/-! ### The reader of varints -/

/-- A run of the walker, with each varint that it accepted: its bytes and its value. -/
abbrev Walk := Logged (Bytes × ℕ) FrameError

/-- The loop of `readVarint`: it ends with the bytes, and refuses a shift past 63. -/
def readVarintFrom (shift value : ℕ) : Bytes → Option (ℕ × Bytes)
  | [] => none
  | byte :: rest =>
    if 63 < shift then none
    else
      let value := value ||| ((byte &&& 0x7F).toNat <<< shift) % 2 ^ 64
      if byte &&& 0x80 = 0 then some (value, rest) else readVarintFrom (shift + 7) value rest

/-- Take a varint off the front, or find none. -/
def readVarint (bytes : Bytes) : Walk (Option (ℕ × Bytes)) :=
  match readVarintFrom 0 0 bytes with
  | some (value, rest) => Logged.accept (bytes.take (bytes.length - rest.length), value) (some (value, rest))
  | none => pure none

/-! ### The walker -/

/-- `Int(len)`. -/
def toInt (len : ℕ) : Walk ℕ := Logged.lift (if len < 2 ^ 63 then .ok len else fault .conversion)

/-- The content of a field and what follows it. -/
def fieldContent (wire : WireType) (bytes : Bytes) : Walk (Bytes × Bytes) :=
  match wire with
  | .varint => do
    match ← readVarint bytes with
    | none => Logged.throw (.malformed "truncated varint")
    | some (_, next) => return (bytes.take (bytes.length - next.length), next)
  | .fixed32 =>
    if 4 ≤ bytes.length then pure (bytes.take 4, bytes.drop 4) else Logged.throw (.malformed "truncated fixed field")
  | .fixed64 =>
    if 8 ≤ bytes.length then pure (bytes.take 8, bytes.drop 8) else Logged.throw (.malformed "truncated fixed field")
  | .lengthDelimited => do
    match ← readVarint bytes with
    | none => Logged.throw (.malformed "truncated length prefix")
    | some (len, afterLen) => do
      let len ← toInt len
      if len ≤ afterLen.length then return (afterLen.take len, afterLen.drop len)
      else Logged.throw (.malformed "length prefix overruns the buffer")

/-- Walk the fields until the visitor says stop. Each round takes at least one byte, so the length of the message is
    fuel enough. -/
def scan {σ : Type} (visit : σ → ℕ → WireType → Bytes → σ × Bool) : ℕ → Bytes → σ → Walk σ
  | _, [], st => pure st
  | 0, _ :: _, _ => Logged.lift (fault .index)
  | fuel + 1, b :: bs, st => do
    match ← readVarint (b :: bs) with
    | none => Logged.throw (.malformed "truncated field key")
    | some (key, rest) =>
      match WireType.ofRawValue (key &&& 0x07) with
      | none => Logged.throw (.malformed ("unsupported wire type " ++ toString (key &&& 0x07)))
      | some wire => do
        let (content, rest) ← fieldContent wire rest
        let (st, go) := visit st (key >>> 3) wire content
        if go then scan visit fuel rest st else return st

/-- The visitor of `firstField`. -/
def seek (field : ℕ) (wire : WireType) (found : Option Bytes) (f : ℕ) (w : WireType) (content : Bytes) :
    Option Bytes × Bool :=
  if f = field ∧ w = wire then (some content, false) else (found, true)

/-- The content of the first field of this number and wire type. -/
def firstField (field : ℕ) (wire : WireType) (bytes : Bytes) : Walk (Option Bytes) :=
  scan (seek field wire) bytes.length bytes none

def firstVarint (field : ℕ) (bytes : Bytes) : Walk (Option ℕ) := do
  match ← firstField field .varint bytes with
  | none => return none
  | some raw =>
    match ← readVarint raw with
    | none => Logged.throw (.malformed ("bad varint in field " ++ toString field))
    | some (value, _) => return some value

/-- The four bytes of a fixed field, the least significant first. -/
def firstFixed32 (field : ℕ) (bytes : Bytes) : Walk (Option UInt32) := do
  match ← firstField field .fixed32 bytes with
  | some [b0, b1, b2, b3] =>
    return some (b0.toUInt32 ||| (b1.toUInt32 <<< 8) ||| (b2.toUInt32 <<< 16) ||| (b3.toUInt32 <<< 24))
  | _ => return none

structure Inbound where
  portnum : ℕ
  payload : Bytes
  sender : UInt32
  deriving DecidableEq

/-- A well-formed frame that is not for this application is no error. -/
def decodeFromRadio (bytes : Bytes) : Walk (Option Inbound) := do
  match ← firstField 2 .lengthDelimited bytes with
  | none => return none
  | some packetBytes =>
    match ← firstField 4 .lengthDelimited packetBytes with
    | none => return none
    | some dataBytes => do
      let sender := (← firstFixed32 1 packetBytes).getD 0
      match ← firstVarint 1 dataBytes with
      | none => return none
      | some portnum =>
        if portnum ≠ privateAppPortnum then return none
        else
          match ← firstField 2 .lengthDelimited dataBytes with
          | none => Logged.throw (.malformed "private-app packet with no payload")
          | some payload => return some { portnum, payload, sender }

end Nimmesh.MeshtasticFrame
