import Mathlib.Data.Nat.Basic
import Mathlib.Algebra.Ring.Nat

/-! @lib word | name:Saturating 64-bit arithmetic | scope:general

    The `u64` operations the swap code leans on and Lean's `UInt64` does not have: a subtraction that
    stops at zero, an addition and a product that stop at the largest word. What proofs compare comes
    with its value in `ℕ`, so that a bound on words becomes a bound on naturals and `omega` closes it. -/

namespace Word

/-- The largest 64-bit word. -/
def u64Max : UInt64 := 18446744073709551615

/-- `u64::saturating_sub`: subtraction that stops at zero. -/
def satSub (a b : UInt64) : UInt64 := if a ≤ b then 0 else a - b

/-- `u64::saturating_add`: addition that stops at the largest word. -/
def satAdd (a b : UInt64) : UInt64 := if a.toNat + b.toNat < 2 ^ 64 then a + b else u64Max

/-- `u64::saturating_mul`: a product that stops at the largest word. -/
def satMul (a b : UInt64) : UInt64 := if a.toNat * b.toNat < 2 ^ 64 then a * b else u64Max

@[simp] theorem toNat_u64Max : u64Max.toNat = 2 ^ 64 - 1 := rfl

@[simp] theorem toNat_satSub (a b : UInt64) : (satSub a b).toNat = a.toNat - b.toNat := by
  unfold satSub
  by_cases h : a ≤ b
  · rw [if_pos h]
    rw [UInt64.le_iff_toNat_le] at h
    simp only [UInt64.toNat_zero]
    omega
  · rw [if_neg h]
    rw [UInt64.not_le] at h
    exact UInt64.toNat_sub_of_le _ _ (UInt64.le_of_lt h)

theorem toNat_satAdd (a b : UInt64) : (satAdd a b).toNat = min (2 ^ 64 - 1) (a.toNat + b.toNat) := by
  unfold satAdd
  split_ifs with h
  · rw [UInt64.toNat_add, Nat.mod_eq_of_lt h]
    omega
  · rw [toNat_u64Max]
    omega

theorem min_eq (a b : UInt64) : min a b = if b.toNat < a.toNat then b else a := by
  have hmin : min a b = if a ≤ b then a else b := rfl
  rw [hmin]
  by_cases h : a ≤ b
  · rw [if_pos h, if_neg (Nat.not_lt.mpr (UInt64.le_iff_toNat_le.mp h))]
  · rw [if_neg h, if_pos (UInt64.lt_iff_toNat_lt.mp (UInt64.not_le.mp h))]

theorem toNat_min (a b : UInt64) : (min a b).toNat = min a.toNat b.toNat := by
  rw [min_eq]
  split_ifs with h
  · omega
  · omega

theorem le_u64Max (a : UInt64) : a ≤ u64Max := by
  rw [UInt64.le_iff_toNat_le, toNat_u64Max]
  have := a.toNat_lt
  omega

/-- A word that is not the largest has a strictly larger word above any given one. -/
theorem exists_gt_of_ne_max {t : UInt64} (ht : t ≠ u64Max) (h : UInt64) : ∃ h', h ≤ h' ∧ t < h' := by
  refine ⟨u64Max, le_u64Max h, ?_⟩
  rw [UInt64.lt_iff_toNat_lt, toNat_u64Max]
  have hlt := t.toNat_lt
  have hne : t.toNat ≠ 2 ^ 64 - 1 := fun h => ht (UInt64.toNat_inj.mp (by rw [h, toNat_u64Max]))
  omega

end Word
