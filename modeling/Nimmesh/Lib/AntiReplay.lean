import Mathlib.Data.List.Nodup
import Mathlib.Algebra.Order.Ring.Nat
import Mathlib.Data.Int.ModEq

/-! @lib anti-replay | name:Anti-replay windows | scope:general

    Messages are numbered from 1 and may arrive in any order. A receiver that remembers all it accepted
    would take every new number; one with a window of `width` takes those less than `width` below the
    highest. `Tracks` says what the highest number and one bit a residue must be for the bits to stand for
    the whole history: a bit is reused only once its number has left the window. -/

namespace AntiReplay

/-- The highest accepted number; zero before the first. -/
def top : List ℕ → ℕ
  | [] => 0
  | c :: seen => max c (top seen)

/-- New, not zero, and less than the width below the highest. -/
def Admits (width : ℕ) (seen : List ℕ) (c : ℕ) : Prop := 0 < c ∧ c ∉ seen ∧ top seen < c + width

theorem le_top {c : ℕ} {seen : List ℕ} (h : c ∈ seen) : c ≤ top seen := by
  induction seen with
  | nil => cases h
  | cons d seen ih =>
    rw [top]
    rcases List.mem_cons.mp h with rfl | hc
    · exact le_max_left _ _
    · exact le_max_of_le_right (ih hc)

theorem top_lt_iff {n : ℕ} (hn : 0 < n) (seen : List ℕ) : top seen < n ↔ ∀ c ∈ seen, c < n := by
  induction seen with
  | nil => exact iff_of_true hn (List.forall_mem_nil _)
  | cons d seen ih => rw [top, max_lt_iff, ih, List.forall_mem_cons]

/-- Within one window two numbers have different residues. -/
theorem eq_of_mod_eq {width a b : ℕ} (h : a % width = b % width) (hab : a ≤ b) (hb : b < a + width) : a = b := by
  have hdvd : width ∣ b - a := (Nat.modEq_iff_dvd' hab).mp h
  have hzero := Nat.eq_zero_of_dvd_of_lt hdvd (by omega)
  omega

/-- The highest number and the bits stand for what was accepted. -/
structure Tracks (width highest : ℕ) (bits : ℕ → Bool) (seen : List ℕ) : Prop where
  top_eq : highest = top seen
  nodup : seen.Nodup
  bit : ∀ c, 0 < c → c ≤ highest → highest < c + width → (bits (c % width) = true ↔ c ∈ seen)

namespace Tracks

variable {width highest : ℕ} {bits bits' : ℕ → Bool} {seen : List ℕ}

theorem empty : Tracks width 0 bits [] := ⟨rfl, List.nodup_nil, fun c hc hle _ => by omega⟩

theorem not_mem_of_lt (h : Tracks width highest bits seen) {c : ℕ} (hc : highest < c) : c ∉ seen := by
  intro hm
  have hle := le_top hm
  rw [← h.top_eq] at hle
  omega

/-- STEP: a number above the highest, if the bits in between are cleared. -/
theorem advance (h : Tracks width highest bits seen) {c : ℕ} (hc : highest < c)
    (hbits : ∀ r, bits' r = true ↔ r = c % width ∨ (bits r = true ∧ ∀ d, highest < d → d ≤ c → d % width ≠ r)) :
    Tracks width c bits' (c :: seen) := by
  refine ⟨?_, List.nodup_cons.mpr ⟨h.not_mem_of_lt hc, h.nodup⟩, ?_⟩
  · rw [top, ← h.top_eq]
    omega
  · intro e he hle hwin
    rw [hbits, List.mem_cons]
    constructor
    · rintro (hmod | ⟨hbit, hclear⟩)
      · exact .inl (eq_of_mod_eq hmod hle hwin)
      · have hlow : e ≤ highest := by
          by_contra hhigh
          exact hclear e (by omega) hle rfl
        exact .inr ((h.bit e he hlow (by omega)).mp hbit)
    · rintro (rfl | hm)
      · exact .inl rfl
      · have hlow : e ≤ highest := h.top_eq ▸ le_top hm
        refine .inr ⟨(h.bit e he hlow (by omega)).mpr hm, ?_⟩
        intro d hd hdc hmod
        have heq := eq_of_mod_eq hmod.symm (by omega) (by omega)
        omega

/-- STEP: a number a whole window above the highest, if every bit is cleared. -/
theorem jump (h : Tracks width highest bits seen) {c : ℕ} (hpos : 0 < width) (hc : highest + width ≤ c)
    (hbits : ∀ r, bits' r = true ↔ r = c % width) : Tracks width c bits' (c :: seen) := by
  refine ⟨?_, List.nodup_cons.mpr ⟨h.not_mem_of_lt (by omega), h.nodup⟩, ?_⟩
  · rw [top, ← h.top_eq]
    omega
  · intro e he hle hwin
    rw [hbits, List.mem_cons]
    constructor
    · intro hmod
      exact .inl (eq_of_mod_eq hmod hle hwin)
    · rintro (rfl | hm)
      · rfl
      · have hlow : e ≤ highest := h.top_eq ▸ le_top hm
        omega

/-- STEP: a new number inside the window. -/
theorem fill (h : Tracks width highest bits seen) {c : ℕ} (hle : c ≤ highest) (hwin : highest < c + width)
    (hnew : c ∉ seen) (hbits : ∀ r, bits' r = true ↔ r = c % width ∨ bits r = true) :
    Tracks width highest bits' (c :: seen) := by
  refine ⟨?_, List.nodup_cons.mpr ⟨hnew, h.nodup⟩, ?_⟩
  · rw [top, ← h.top_eq]
    omega
  · intro e he hle' hwin'
    rw [hbits, List.mem_cons, h.bit e he hle' hwin']
    refine or_congr_left ⟨?_, fun heq => heq ▸ rfl⟩
    intro hmod
    rcases Nat.le_total e c with hec | hce
    · exact eq_of_mod_eq hmod hec (by omega)
    · exact (eq_of_mod_eq hmod.symm hce (by omega)).symm

end Tracks

end AntiReplay
