import Mathlib.Data.Nat.Bitwise
import Mathlib.Data.UInt

/-! @lib bitset | name:Bits in words | scope:general

    A set of small numbers as the bits of 64-bit words: number `64 * i + j` is bit `j` of word `i`. -/

namespace Bitset

variable {n : ℕ}

/-- The bit of a slot in its word. -/
def mask (slot : ℕ) : UInt64 := 1 <<< (slot % 64).toUInt64

def set (words : Vector UInt64 n) (slot : ℕ) : Vector UInt64 n :=
  words.setIfInBounds (slot / 64) (words[slot / 64]?.getD 0 ||| mask slot)

def clear (words : Vector UInt64 n) (slot : ℕ) : Vector UInt64 n :=
  words.setIfInBounds (slot / 64) (words[slot / 64]?.getD 0 &&& ~~~mask slot)

def isSet (words : Vector UInt64 n) (slot : ℕ) : Bool := words[slot / 64]?.getD 0 &&& mask slot != 0

/-! ### One word -/

theorem toNat_mask (slot : ℕ) : (mask slot).toNat = 2 ^ (slot % 64) := by
  have hlt : slot % 64 < 64 := Nat.mod_lt _ (by decide)
  have hpow : 2 ^ (slot % 64) < 2 ^ 64 := Nat.pow_lt_pow_right (by decide) hlt
  have hshift : (slot % 64).toUInt64.toNat = slot % 64 := by
    rw [Nat.toUInt64_eq, UInt64.toNat_ofNat']
    omega
  rw [mask, UInt64.toNat_shiftLeft, hshift, Nat.mod_eq_of_lt hlt, Nat.shiftLeft_eq, UInt64.toNat_one, Nat.one_mul,
    Nat.mod_eq_of_lt hpow]

theorem testBit_mask (slot i : ℕ) : (mask slot).toNat.testBit i = decide (slot % 64 = i) := by
  rw [toNat_mask, Nat.testBit_two_pow]

theorem and_mask_ne_zero (w : UInt64) (slot : ℕ) :
    (w &&& mask slot != 0) = w.toNat.testBit (slot % 64) := by
  have hand : (w &&& mask slot).toNat = (w.toNat.testBit (slot % 64)).toNat * 2 ^ (slot % 64) := by
    rw [UInt64.toNat_and, toNat_mask, Nat.and_two_pow]
  have hpos : 0 < 2 ^ (slot % 64) := Nat.two_pow_pos _
  cases hb : w.toNat.testBit (slot % 64) with
  | true =>
    rw [hb, Bool.toNat_true, Nat.one_mul] at hand
    refine bne_iff_ne.mpr fun h0 => ?_
    rw [h0, UInt64.toNat_zero] at hand
    omega
  | false =>
    rw [hb, Bool.toNat_false, Nat.zero_mul] at hand
    have h0 : w &&& mask slot = 0 := UInt64.toNat_inj.mp hand
    rw [h0]
    rfl

theorem testBit_or_mask (w : UInt64) (slot i : ℕ) :
    (w ||| mask slot).toNat.testBit i = (decide (slot % 64 = i) || w.toNat.testBit i) := by
  rw [UInt64.toNat_or, Nat.testBit_or, testBit_mask, Bool.or_comm]

theorem testBit_and_not_mask (w : UInt64) (slot : ℕ) {i : ℕ} (hi : i < 64) :
    (w &&& ~~~mask slot).toNat.testBit i = (!decide (slot % 64 = i) && w.toNat.testBit i) := by
  have hnot : (~~~mask slot).toNat = 2 ^ 64 - ((mask slot).toNat + 1) := by
    rw [UInt64.toNat_not, UInt64.size]
    omega
  rw [UInt64.toNat_and, Nat.testBit_and, hnot, Nat.testBit_two_pow_sub_succ (mask slot).toNat_lt, testBit_mask,
    decide_eq_true hi, Bool.true_and, Bool.and_comm]

/-! ### All words -/

theorem isSet_eq (words : Vector UInt64 n) (slot : ℕ) :
    isSet words slot = (words[slot / 64]?.getD 0).toNat.testBit (slot % 64) := and_mask_ne_zero _ _

theorem slot_eq_iff (s t : ℕ) : s = t ↔ s / 64 = t / 64 ∧ s % 64 = t % 64 := by omega

/-- Setting one slot leaves the others. -/
theorem isSet_set (words : Vector UInt64 n) {s : ℕ} (hs : s / 64 < n) (t : ℕ) :
    isSet (set words s) t = (decide (s = t) || isSet words t) := by
  rw [isSet_eq, isSet_eq, set, Vector.getElem?_setIfInBounds]
  by_cases hw : s / 64 = t / 64
  · rw [if_pos hw, if_pos (hw ▸ hs), Option.getD_some, testBit_or_mask, hw]
    simp only [slot_eq_iff s t, hw, true_and]
  · have hne : s ≠ t := fun h => hw (h ▸ rfl)
    rw [if_neg hw, decide_eq_false hne, Bool.false_or]

theorem isSet_clear (words : Vector UInt64 n) {s : ℕ} (hs : s / 64 < n) (t : ℕ) :
    isSet (clear words s) t = (!decide (s = t) && isSet words t) := by
  rw [isSet_eq, isSet_eq, clear, Vector.getElem?_setIfInBounds]
  by_cases hw : s / 64 = t / 64
  · rw [if_pos hw, if_pos (hw ▸ hs), Option.getD_some, testBit_and_not_mask _ _ (Nat.mod_lt _ (by decide)), hw]
    simp only [slot_eq_iff s t, hw, true_and]
  · have hne : s ≠ t := fun h => hw (h ▸ rfl)
    rw [if_neg hw, decide_eq_false hne, Bool.not_false, Bool.true_and]

theorem isSet_replicate (t : ℕ) : isSet (Vector.replicate n 0) t = false := by
  rw [isSet_eq, Vector.getElem?_replicate]
  split_ifs <;> simp

/-- Clearing several slots. -/
theorem isSet_foldl_clear (slots : List ℕ) (words : Vector UInt64 n) (hs : ∀ s ∈ slots, s / 64 < n) (t : ℕ) :
    isSet (slots.foldl clear words) t = (!decide (t ∈ slots) && isSet words t) := by
  induction slots generalizing words with
  | nil => simp
  | cons s slots ih =>
    rw [List.foldl_cons, ih _ (fun s' h => hs s' (List.mem_cons_of_mem _ h)), isSet_clear _ (hs s List.mem_cons_self)]
    by_cases hst : s = t
    · simp [hst]
    · have hts : t ≠ s := fun h => hst h.symm
      simp [hst, hts]

end Bitset
