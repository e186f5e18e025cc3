import Nimmesh.Mesh.Frame
import Nimmesh.Mesh.Handlers

/-! @src nimiq/tx.rs nimiq/address.rs | name:Basic NIM transfers | layer:model

    The 67 bytes a transfer is signed over and the 139 bytes it travels in. The wire carries the public
    key and not the sender, which is the hash of the key. -/

namespace Nimmesh
open Rlp

def publicKeyLen : ℕ := 32

/-- A transfer without data. -/
structure Transfer where
  sender : NimAddress
  recipient : NimAddress
  value : UInt64
  fee : UInt64
  validityStartHeight : UInt32
  networkId : UInt8
  deriving DecidableEq

namespace Transfer

/-- The signing payload. -/
def serializeContent (t : Transfer) : Bytes :=
  transferContent t.sender t.recipient t.value t.fee t.validityStartHeight t.networkId

def txHash (blake : Blake2b) (t : Transfer) : Hash := blake t.serializeContent

/-- The basic wire: format, proof type, key, then the fields and the signature. -/
def serializeBasic (t : Transfer) (publicKey : ByteArr publicKeyLen) (signature : ByteArr signatureLen) : Bytes :=
  [0, 0] ++ publicKey.1 ++ t.recipient.1 ++ beBytes t.value ++ beBytes t.fee ++
    beBytes32 t.validityStartHeight ++ [t.networkId] ++ signature.1

end Transfer

/-- `Address::from_public_key`: the first twenty bytes of the hash of the key. -/
def fromPublicKey (blake : Blake2b) (publicKey : ByteArr publicKeyLen) : NimAddress :=
  (blake publicKey.1).take nimAddressLen

/-- A transfer off the wire, with the key and the signature it came with. -/
structure DecodedTransfer where
  transfer : Transfer
  publicKey : ByteArr publicKeyLen
  signature : ByteArr signatureLen
  deriving DecidableEq

/-- Read the basic wire back; the sender follows from the key. -/
def decodeBasicWire (blake : Blake2b) (wire : Bytes) : Option DecodedTransfer :=
  if wire.length ≠ basicWireLen ∨ byteAt wire 0 ≠ 0 ∨ byteAt wire 1 ≠ 0 then none
  else
    let publicKey := sliceArr publicKeyLen wire 2
    some {
      transfer := {
        sender := fromPublicKey blake publicKey
        recipient := sliceArr nimAddressLen wire 34
        value := u64OfBe (slice wire 54 8)
        fee := u64OfBe (slice wire 62 8)
        validityStartHeight := u32OfBe (slice wire 70 4)
        networkId := byteAt wire 74 }
      publicKey
      signature := sliceArr signatureLen wire 75 }

/-- The relay's filter checks the signature of the transfer that the wire decodes to. -/
theorem verifyBasicWire_eq (cr : Crypto) (blake : Blake2b)
    (haddr : ∀ key, cr.addressOf key = fromPublicKey blake key) (wire : Bytes) :
    verifyBasicWire cr wire = ((decodeBasicWire blake wire).map fun d =>
      cr.verifyStrict d.publicKey d.transfer.serializeContent d.signature).getD false := by
  unfold verifyBasicWire decodeBasicWire
  split_ifs with h
  · rfl
  · have hsender : cr.addressOf (sliceArr 32 wire 2) = fromPublicKey blake (sliceArr publicKeyLen wire 2) := haddr _
    simp only [hsender, Option.map_some, Option.getD_some]
    rfl

/-! ### Parts at fixed offsets -/

section Parts

variable {parts : List Bytes} {off n : ℕ} {b : Bytes}

/-- A part of a concatenation, read where the lengths before it put it. -/
theorem slice_part (i : ℕ) (hb : parts[i]? = some b) (hoff : ((parts.map List.length).take i).sum = off)
    (hn : b.length = n) : slice parts.flatten off n = b := by
  induction parts generalizing i off with
  | nil => simp at hb
  | cons a parts ih =>
    cases i with
    | zero =>
      cases hb
      subst hn
      cases hoff
      exact slice_left b _
    | succ i =>
      rw [List.map_cons, List.take_succ_cons, List.sum_cons] at hoff
      subst hoff
      exact (slice_append a parts.flatten _ n).trans (ih i hb rfl)

/-- A part of one byte. -/
theorem getElem?_part {x : UInt8} (i : ℕ) (hb : parts[i]? = some [x])
    (hoff : ((parts.map List.length).take i).sum = off) : parts.flatten[off]? = some x := by
  have h := congrArg List.head? (slice_part i hb hoff rfl)
  simpa [slice, List.head?_take] using h

end Parts

/-! ### The basic wire, both ways -/

theorem take_two {wire : Bytes} (h : wire.length = basicWireLen) :
    wire.take 2 = [byteAt wire 0, byteAt wire 1] := by
  have hlen : wire.length = 139 := h
  rw [← take_slice wire 1 1, ← take_slice wire 0 1, slice_one (by omega), slice_one (by omega)]
  rfl

/-- The decoder takes the strings of the right length that begin with two zeros. -/
theorem decodeBasicWire_isSome_iff (blake : Blake2b) (wire : Bytes) :
    (decodeBasicWire blake wire).isSome = true ↔ wire.length = basicWireLen ∧ wire.take 2 = [0, 0] := by
  unfold decodeBasicWire
  split_ifs with h
  · simp only [Option.isSome_none, Bool.false_eq_true, false_iff, not_and]
    intro hlen htake
    rw [take_two hlen] at htake
    simp_all
  · simp only [not_or, not_not] at h
    obtain ⟨hlen, h0, h1⟩ := h
    simp [hlen, take_two hlen, h0, h1]

/-- What was read is written back as it was. -/
theorem serializeBasic_of_decode {blake : Blake2b} {wire : Bytes} {d : DecodedTransfer}
    (h : decodeBasicWire blake wire = some d) : d.transfer.serializeBasic d.publicKey d.signature = wire := by
  unfold decodeBasicWire at h
  split_ifs at h with hbad
  simp only [not_or, not_not] at hbad
  obtain ⟨hlen, h0, h1⟩ := hbad
  cases h
  have hlen : wire.length = 139 := hlen
  have hzeros : wire.take 2 = [0, 0] := by rw [take_two hlen, h0, h1]
  have hkey : (sliceArr publicKeyLen wire 2).1 = slice wire 2 32 := val_sliceArr (by simp [publicKeyLen, hlen])
  have hrecipient : (sliceArr nimAddressLen wire 34).1 = slice wire 34 20 :=
    val_sliceArr (by simp [nimAddressLen, hlen])
  have hsig : (sliceArr signatureLen wire 75).1 = slice wire 75 64 := val_sliceArr (by simp [signatureLen, hlen])
  rw [Transfer.serializeBasic, hkey, hrecipient, hsig, beBytes_u64OfBe (length_slice (by omega)),
    beBytes_u64OfBe (length_slice (by omega)), beBytes32_u32OfBe (length_slice (by omega)),
    ← slice_one (by omega), ← hzeros, take_slice, take_slice, take_slice, take_slice, take_slice, take_slice,
    take_slice, List.take_of_length_le (by omega)]

end Nimmesh
