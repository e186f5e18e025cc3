import Mathlib.Data.Vector.Basic

/-! @src packet.rs | name:Packet message types | layer:model

    The type byte of a mesh packet. The swap protocol owns `0x40`–`0x45`; the rest of the reserved set
    is carried here because a decoder refuses everything outside it. Byte strings are lists of bytes
    and the fixed-width arrays of the source are vectors that carry their length. -/

namespace Nimmesh

/-- A byte string. -/
abbrev Bytes := List UInt8

/-- A fixed-width array `[u8; n]`. -/
abbrev ByteArr (n : ℕ) := List.Vector UInt8 n

/-- `[b; n]`. -/
def ByteArr.fill (n : ℕ) (b : UInt8) : ByteArr n := List.Vector.replicate n b

/-- `<[u8; n]>::try_from`: a slice of exactly `n` bytes. -/
def ByteArr.ofBytes? (n : ℕ) (b : Bytes) : Option (ByteArr n) :=
  if h : b.length = n then some ⟨b, h⟩ else none

theorem ByteArr.ofBytes?_val {n : ℕ} (a : ByteArr n) : ByteArr.ofBytes? n a.1 = some a := by
  rw [ByteArr.ofBytes?, dif_pos a.2]; rfl

theorem ByteArr.ofBytes?_eq_some {n : ℕ} {b : Bytes} {a : ByteArr n} : ofBytes? n b = some a ↔ b = a.1 := by
  constructor
  · intro h
    rw [ofBytes?] at h
    split_ifs at h
    cases h
    rfl
  · rintro rfl
    exact ofBytes?_val a

/-- Width of a peer id. -/
def peerIdLen : ℕ := 8

abbrev PeerId := ByteArr peerIdLen

inductive MessageType where
  | noiseEncrypted | fragment | requestSync
  | nimiqTx | nimiqTxReceipt | nimiqHeadBeacon | nimiqBalanceQuery | nimiqBalanceResponse
  | nimiqTxHistoryQuery | nimiqTxHistoryResponse | nimiqBalanceProof
  | swapPropose | swapAccept | swapFundingProof | swapPreimageReveal | swapAbort | swapIntent
  | chat
  deriving DecidableEq, Repr

/-- The on-wire type byte. -/
def MessageType.toU8 : MessageType → UInt8
  | .noiseEncrypted => 0x11
  | .fragment => 0x20
  | .requestSync => 0x21
  | .nimiqTx => 0x30
  | .nimiqTxReceipt => 0x31
  | .nimiqHeadBeacon => 0x32
  | .nimiqBalanceQuery => 0x33
  | .nimiqBalanceResponse => 0x34
  | .nimiqTxHistoryQuery => 0x35
  | .nimiqTxHistoryResponse => 0x36
  | .nimiqBalanceProof => 0x37
  | .swapPropose => 0x40
  | .swapAccept => 0x41
  | .swapFundingProof => 0x42
  | .swapPreimageReveal => 0x43
  | .swapAbort => 0x44
  | .swapIntent => 0x45
  | .chat => 0x50

/-- Parse a type byte; every value outside the reserved set is refused. -/
def MessageType.fromU8 (b : UInt8) : Option MessageType :=
  if b = 0x11 then some .noiseEncrypted
  else if b = 0x20 then some .fragment
  else if b = 0x21 then some .requestSync
  else if b = 0x30 then some .nimiqTx
  else if b = 0x31 then some .nimiqTxReceipt
  else if b = 0x32 then some .nimiqHeadBeacon
  else if b = 0x33 then some .nimiqBalanceQuery
  else if b = 0x34 then some .nimiqBalanceResponse
  else if b = 0x35 then some .nimiqTxHistoryQuery
  else if b = 0x36 then some .nimiqTxHistoryResponse
  else if b = 0x37 then some .nimiqBalanceProof
  else if b = 0x40 then some .swapPropose
  else if b = 0x41 then some .swapAccept
  else if b = 0x42 then some .swapFundingProof
  else if b = 0x43 then some .swapPreimageReveal
  else if b = 0x44 then some .swapAbort
  else if b = 0x45 then some .swapIntent
  else if b = 0x50 then some .chat
  else none

/-- CORRECT: the type byte of every message type parses back to it. -/
theorem MessageType.fromU8_toU8 (mt : MessageType) : MessageType.fromU8 mt.toU8 = some mt := by
  cases mt <;> decide

end Nimmesh
