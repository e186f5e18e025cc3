import Mathlib.Data.Int.Log
import Mathlib.Data.Rat.Floor
import Mathlib.Algebra.Order.Field.Power
import Mathlib.Tactic.Linarith
import Mathlib.Tactic.Positivity
import Mathlib.Tactic.FieldSimp
import Mathlib.Tactic.Ring

/-! @lib rounding | name:Rounding to a number of bits | scope:general

    The binary numbers of `p` bits are `m * 2 ^ e` with `m < 2 ^ p`. Rounding takes a rational to the nearest of them,
    ties to even: it leaves such a number alone, and moves any other by at most one part in `2 ^ p`. -/

namespace Rounding

/-! ### To a multiple of a unit -/

/-- The multiple of `u` nearest to `q`, of two the even one. -/
def nearest (u q : ℚ) : ℚ :=
  let m := ⌊q / u⌋
  let rest := q / u - m
  (if 1 / 2 < rest ∨ rest = 1 / 2 ∧ m % 2 = 1 then m + 1 else m) * u

variable {u q : ℚ}

theorem nearest_cases (u q : ℚ) :
    nearest u q = (⌊q / u⌋ + 1 : ℤ) * u ∧ 1 / 2 ≤ q / u - ⌊q / u⌋ ∨
      nearest u q = ⌊q / u⌋ * u ∧ q / u - ⌊q / u⌋ ≤ 1 / 2 := by
  unfold nearest
  dsimp only
  split_ifs with h
  · refine .inl ⟨by push_cast; ring, ?_⟩
    rcases h with h | h
    · exact h.le
    · exact h.1.ge
  · exact .inr ⟨rfl, not_lt.mp fun hlt => h (.inl hlt)⟩

/-- The nearest multiple is at most half a unit away. -/
theorem abs_nearest_sub_le (hu : 0 < u) : |nearest u q - q| ≤ u / 2 := by
  have hq : q = q / u * u := (div_mul_cancel₀ q hu.ne').symm
  have hlo : (⌊q / u⌋ : ℚ) ≤ q / u := Int.floor_le _
  have hhi : q / u < ⌊q / u⌋ + 1 := Int.lt_floor_add_one _
  rw [abs_le]
  rcases nearest_cases u q with ⟨h, hrest⟩ | ⟨h, hrest⟩
  · have heq : nearest u q - q = (1 - (q / u - ⌊q / u⌋)) * u := by
      rw [h]
      nth_rewrite 2 [hq]
      push_cast
      ring
    rw [heq]
    constructor
    · nlinarith
    · nlinarith
  · have heq : nearest u q - q = -((q / u - ⌊q / u⌋) * u) := by
      rw [h]
      nth_rewrite 2 [hq]
      ring
    rw [heq]
    constructor
    · nlinarith
    · nlinarith

/-- A multiple of the unit is its own nearest one. -/
theorem nearest_mul (hu : u ≠ 0) (k : ℤ) : nearest u (k * u) = k * u := by
  unfold nearest
  simp only [mul_div_cancel_right₀ _ hu, Int.floor_intCast, sub_self]
  rw [if_neg]
  rintro (h | h)
  · norm_num at h
  · norm_num at h

/-! ### To a number of bits -/

/-- The binary numbers of `p` bits. -/
def Bits (p : ℕ) (q : ℚ) : Prop := ∃ (m : ℕ) (e : ℤ), m < 2 ^ p ∧ q = m * 2 ^ e

/-- The nearest binary number of `p` bits, for a rational that is not negative. -/
def round (p : ℕ) (q : ℚ) : ℚ := if q ≤ 0 then 0 else nearest (2 ^ (Int.log 2 q + 1 - p)) q

variable {p : ℕ}

theorem bits_zero (p : ℕ) : Bits p 0 := ⟨0, 0, by positivity, by simp⟩

theorem bits_natCast {n : ℕ} (h : n < 2 ^ p) : Bits p n := ⟨n, 0, h, by simp⟩

theorem bits_two_zpow (hp : 0 < p) (e : ℤ) : Bits p (2 ^ e) := ⟨1, e, Nat.one_lt_two_pow hp.ne', by simp⟩

theorem Bits.min {a b : ℚ} (ha : Bits p a) (hb : Bits p b) : Bits p (min a b) := by
  rcases min_choice a b with h | h
  · rwa [h]
  · rwa [h]

theorem zpow_log_le (hq : 0 < q) : (2 : ℚ) ^ Int.log 2 q ≤ q := by
  exact_mod_cast Int.zpow_log_le_self (R := ℚ) one_lt_two hq

theorem lt_zpow_log (q : ℚ) : q < (2 : ℚ) ^ (Int.log 2 q + 1) := by
  exact_mod_cast Int.lt_zpow_succ_log_self (R := ℚ) one_lt_two q

/-- A number that is between two neighbouring powers has the exponent of the smaller one. -/
theorem log_eq {e : ℤ} (hlo : (2 : ℚ) ^ e ≤ q) (hhi : q < 2 ^ (e + 1)) : Int.log 2 q = e := by
  have hq : 0 < q := lt_of_lt_of_le (by positivity) hlo
  refine le_antisymm ?_ ?_
  · exact Int.lt_add_one_iff.mp ((Int.lt_zpow_iff_log_lt one_lt_two hq).mp (by exact_mod_cast hhi))
  · exact (Int.zpow_le_iff_le_log one_lt_two hq).mp (by exact_mod_cast hlo)

theorem round_of_pos (hq : 0 < q) : round p q = nearest (2 ^ (Int.log 2 q + 1 - p)) q := if_neg hq.not_ge

theorem round_zero (p : ℕ) : round p 0 = 0 := if_pos le_rfl

theorem Bits.nonneg (h : Bits p q) : 0 ≤ q := by
  obtain ⟨m, e, -, rfl⟩ := h
  positivity

theorem bits_mul_zpow (hp : 0 < p) {k : ℤ} (h0 : 0 ≤ k) (hk : k ≤ 2 ^ p) (e : ℤ) : Bits p (k * 2 ^ e) := by
  obtain ⟨n, rfl⟩ := Int.eq_ofNat_of_zero_le h0
  have hn : n ≤ 2 ^ p := by exact_mod_cast hk
  rcases hn.lt_or_eq with hlt | rfl
  · exact ⟨n, e, hlt, by simp⟩
  · have htop : (((2 ^ p : ℕ) : ℤ) : ℚ) * 2 ^ e = 2 ^ (p + e : ℤ) := by
      rw [zpow_add₀ two_ne_zero, zpow_natCast]
      push_cast
      rfl
    exact htop ▸ bits_two_zpow hp _

/-- Rounding leaves a number of `p` bits alone. -/
theorem round_of_bits (h : Bits p q) : round p q = q := by
  rcases h.nonneg.eq_or_lt with rfl | hpos
  · exact round_zero p
  · obtain ⟨m, e, hm, heq⟩ := h
    -- the last bit of the number is not below the unit of the rounding
    have hlog : Int.log 2 q < p + e := by
      refine (Int.lt_zpow_iff_log_lt one_lt_two hpos).mp ?_
      have hm' : (m : ℚ) < 2 ^ p := by exact_mod_cast hm
      rw [Nat.cast_ofNat, zpow_add₀ two_ne_zero, zpow_natCast, heq]
      exact mul_lt_mul_of_pos_right hm' (by positivity)
    obtain ⟨k, hk⟩ := Int.eq_ofNat_of_zero_le (show 0 ≤ e - (Int.log 2 q + 1 - p) by omega)
    have hmul : (((m * 2 ^ k : ℕ) : ℤ) : ℚ) * 2 ^ (Int.log 2 q + 1 - p) = q := by
      have hsplit : (2 : ℚ) ^ e = 2 ^ k * 2 ^ (Int.log 2 q + 1 - p) := by
        rw [← zpow_natCast, ← zpow_add₀ two_ne_zero]
        congr 1
        omega
      calc (((m * 2 ^ k : ℕ) : ℤ) : ℚ) * 2 ^ (Int.log 2 q + 1 - p)
          = m * (2 ^ k * 2 ^ (Int.log 2 q + 1 - p)) := by push_cast; ring
        _ = q := by rw [← hsplit, ← heq]
    have hnear := nearest_mul (u := 2 ^ (Int.log 2 q + 1 - p)) (by positivity) ((m * 2 ^ k : ℕ) : ℤ)
    rw [hmul] at hnear
    rw [round_of_pos hpos, hnear]

/-- Rounding gives a number of `p` bits. -/
theorem bits_round (hp : 0 < p) (q : ℚ) : Bits p (round p q) := by
  rcases le_or_gt q 0 with hle | hpos
  · rw [round, if_pos hle]
    exact bits_zero p
  · have hu : (0 : ℚ) < 2 ^ (Int.log 2 q + 1 - p) := by positivity
    have htop : q < 2 ^ p * 2 ^ (Int.log 2 q + 1 - p) := by
      rw [← zpow_natCast, ← zpow_add₀ two_ne_zero, add_sub_cancel]
      exact lt_zpow_log q
    have hlt : q / 2 ^ (Int.log 2 q + 1 - p) < 2 ^ p := (div_lt_iff₀ hu).mpr htop
    have hfloor : ⌊q / 2 ^ (Int.log 2 q + 1 - p)⌋ < 2 ^ p := by
      rw [Int.floor_lt]
      exact_mod_cast hlt
    have h0 : 0 ≤ ⌊q / 2 ^ (Int.log 2 q + 1 - p)⌋ := Int.floor_nonneg.mpr (by positivity)
    rw [round_of_pos hpos]
    rcases nearest_cases (2 ^ (Int.log 2 q + 1 - p)) q with ⟨h, -⟩ | ⟨h, -⟩
    · rw [h]
      exact bits_mul_zpow hp (by omega) (by omega) _
    · rw [h]
      exact bits_mul_zpow hp h0 hfloor.le _

theorem round_nonneg (hp : 0 < p) (q : ℚ) : 0 ≤ round p q := (bits_round hp q).nonneg

/-- Rounding moves a number by at most one part in `2 ^ p`. -/
theorem abs_round_sub_le (hq : 0 ≤ q) : |round p q - q| ≤ q / 2 ^ p := by
  rcases hq.eq_or_lt with rfl | hpos
  · simp [round_zero]
  · have hunit : (2 : ℚ) ^ (Int.log 2 q + 1 - p) / 2 = 2 ^ Int.log 2 q / 2 ^ p := by
      rw [zpow_sub₀ two_ne_zero, zpow_add₀ two_ne_zero, zpow_one, zpow_natCast]
      ring
    rw [round_of_pos hpos]
    calc |nearest (2 ^ (Int.log 2 q + 1 - p)) q - q| ≤ 2 ^ (Int.log 2 q + 1 - p) / 2 :=
          abs_nearest_sub_le (by positivity)
      _ = 2 ^ Int.log 2 q / 2 ^ p := hunit
      _ ≤ q / 2 ^ p := by gcongr; exact zpow_log_le hpos

theorem round_le (hq : 0 ≤ q) : round p q ≤ q * (1 + 1 / 2 ^ p) := by
  have h := (abs_le.mp (abs_round_sub_le (p := p) hq)).2
  calc round p q ≤ q + q / 2 ^ p := by linarith
    _ = q * (1 + 1 / 2 ^ p) := by ring

theorem le_round (hq : 0 ≤ q) : q * (1 - 1 / 2 ^ p) ≤ round p q := by
  have h := (abs_le.mp (abs_round_sub_le (p := p) hq)).1
  calc q * (1 - 1 / 2 ^ p) = q - q / 2 ^ p := by ring
    _ ≤ round p q := by linarith

/-- Taking one from a number of `p` bits that is not large leaves one of `p` bits. -/
theorem Bits.sub_one (h : Bits p q) (hone : 1 ≤ q) (hle : q ≤ 2 ^ p) : Bits p (q - 1) := by
  obtain ⟨m, e, hm, rfl⟩ := h
  rcases le_total e 0 with he | he
  · -- a fraction: one is a multiple of its last bit
    obtain ⟨k, hk⟩ := Int.eq_ofNat_of_zero_le (neg_nonneg.mpr he)
    have hlast : (2 : ℚ) ^ k * 2 ^ e = 1 := by
      rw [← zpow_natCast, ← hk, ← zpow_add₀ two_ne_zero, neg_add_cancel, zpow_zero]
    have hkm : 2 ^ k ≤ m := by
      have hpos : (0 : ℚ) < 2 ^ e := by positivity
      have : (2 : ℚ) ^ k * 2 ^ e ≤ m * 2 ^ e := hlast.trans_le hone
      exact_mod_cast le_of_mul_le_mul_right this hpos
    refine ⟨m - 2 ^ k, e, (Nat.sub_le _ _).trans_lt hm, ?_⟩
    rw [Nat.cast_sub hkm, sub_mul]
    push_cast
    rw [hlast]
  · -- a whole number
    obtain ⟨k, rfl⟩ := Int.eq_ofNat_of_zero_le he
    have hwhole : (m : ℚ) * 2 ^ (k : ℤ) = ((m * 2 ^ k : ℕ) : ℚ) := by
      rw [zpow_natCast]
      push_cast
      rfl
    rw [hwhole] at hone hle ⊢
    have h1 : 1 ≤ m * 2 ^ k := by exact_mod_cast hone
    have h2 : m * 2 ^ k ≤ 2 ^ p := by exact_mod_cast hle
    have hnat : ((m * 2 ^ k : ℕ) : ℚ) - 1 = ((m * 2 ^ k - 1 : ℕ) : ℚ) := by
      rw [Nat.cast_sub h1]
      simp
    rw [hnat]
    exact bits_natCast (by omega)

end Rounding
