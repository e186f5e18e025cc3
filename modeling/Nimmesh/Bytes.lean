import Nimmesh.Swap.Wire
import Nimmesh.Live.NimHtlc
import Nimmesh.Lib.Rlp

/-! @src codec.rs swap_wire.rs nimiq/htlc.rs | name:Big-endian words | layer:model

    `to_be_bytes` and `from_be_bytes` are inverse to each other. That a word survives its bytes stands
    beside their definitions; here is the other way, which the byte-exact claims about decoders need:
    the bytes a decoder read are the bytes an encoder would write. -/

namespace Nimmesh
open Rlp

theorem beBytes_eq (v : UInt64) : beBytes v = beBytesOf 8 v.toNat := by
  have hbyte : ∀ k : UInt64, k < 64 → (v >>> k).toUInt8 = (v.toNat / 2 ^ k.toNat).toUInt8 := by
    intro k hk
    rw [UInt64.lt_iff_toNat_lt] at hk
    apply UInt8.toNat_inj.mp
    rw [UInt64.toNat_toUInt8, UInt64.toNat_shiftRight, Nat.toUInt8_eq, UInt8.toNat_ofNat',
      Nat.mod_eq_of_lt (show k.toNat < 64 from hk), Nat.shiftRight_eq_div_pow]
  have hlast : v.toUInt8 = v.toNat.toUInt8 := rfl
  simp (disch := decide) only [beBytes, hbyte, hlast]
  simp [beBytesOf, List.range, List.range.loop]

theorem toNat_u64OfBe {b : Bytes} (h : b.length ≤ 8) : (u64OfBe b).toNat = ofBe b := by
  induction b using List.reverseRecOn with
  | nil => rfl
  | append_singleton b x ih =>
    rw [List.length_append, List.length_singleton] at h
    have hlt := ofBe_lt b
    have hpow : (256 : ℕ) ^ b.length ≤ 256 ^ 7 := Nat.pow_le_pow_right (by decide) (by omega)
    have hx := x.toNat_lt
    have hfold : u64OfBe (b ++ [x]) = (u64OfBe b <<< 8) ||| x.toUInt64 := by
      rw [u64OfBe, List.foldl_append]
      rfl
    rw [hfold, ofBe_append, UInt64.toNat_or, UInt64.toNat_shiftLeft, ih (by omega)]
    have hshift : (ofBe b <<< ((8 : UInt64).toNat % 64)) % 2 ^ 64 = ofBe b <<< 8 := by
      rw [show (8 : UInt64).toNat % 64 = 8 from rfl, Nat.shiftLeft_eq]
      omega
    rw [hshift, UInt8.toNat_toUInt64, ← Nat.shiftLeft_add_eq_or_of_lt (i := 8) hx, Nat.shiftLeft_eq]

/-- Eight bytes survive the word they make. -/
theorem beBytes_u64OfBe {b : Bytes} (h : b.length = 8) : beBytes (u64OfBe b) = b := by
  rw [beBytes_eq, toNat_u64OfBe h.le, ← h, beBytesOf_ofBe]

theorem beBytes32_eq (v : UInt32) : beBytes32 v = beBytesOf 4 v.toNat := by
  have hbyte : ∀ k : UInt32, k < 32 → (v >>> k).toUInt8 = (v.toNat / 2 ^ k.toNat).toUInt8 := by
    intro k hk
    rw [UInt32.lt_iff_toNat_lt] at hk
    apply UInt8.toNat_inj.mp
    rw [UInt32.toNat_toUInt8, UInt32.toNat_shiftRight, Nat.toUInt8_eq, UInt8.toNat_ofNat',
      Nat.mod_eq_of_lt (show k.toNat < 32 from hk), Nat.shiftRight_eq_div_pow]
  have hlast : v.toUInt8 = v.toNat.toUInt8 := rfl
  simp (disch := decide) only [beBytes32, hbyte, hlast]
  simp [beBytesOf, List.range, List.range.loop]

theorem toNat_u32OfBe {b : Bytes} (h : b.length ≤ 4) : (u32OfBe b).toNat = ofBe b := by
  induction b using List.reverseRecOn with
  | nil => rfl
  | append_singleton b x ih =>
    rw [List.length_append, List.length_singleton] at h
    have hlt := ofBe_lt b
    have hpow : (256 : ℕ) ^ b.length ≤ 256 ^ 3 := Nat.pow_le_pow_right (by decide) (by omega)
    have hx := x.toNat_lt
    have hfold : u32OfBe (b ++ [x]) = (u32OfBe b <<< 8) ||| x.toUInt32 := by
      rw [u32OfBe, List.foldl_append]
      rfl
    rw [hfold, ofBe_append, UInt32.toNat_or, UInt32.toNat_shiftLeft, ih (by omega)]
    have hshift : (ofBe b <<< ((8 : UInt32).toNat % 32)) % 2 ^ 32 = ofBe b <<< 8 := by
      rw [show (8 : UInt32).toNat % 32 = 8 from rfl, Nat.shiftLeft_eq]
      omega
    rw [hshift, UInt8.toNat_toUInt32, ← Nat.shiftLeft_add_eq_or_of_lt (i := 8) hx, Nat.shiftLeft_eq]

theorem beBytes32_u32OfBe {b : Bytes} (h : b.length = 4) : beBytes32 (u32OfBe b) = b := by
  rw [beBytes32_eq, toNat_u32OfBe h.le, ← h, beBytesOf_ofBe]

end Nimmesh
