import Mathlib.Data.Nat.Digits.Defs
import Mathlib.Tactic.Ring

/-! @lib regroup | name:Regrouping bits through a word | scope:general

    Groups of `w` bits go into an accumulator of 32 bits, and groups of `v` bits are taken from its
    low end as soon as there are enough. What is above the pending bits is never read, so nothing is
    lost when the accumulator overflows: the number that the groups spell stays the same. -/

namespace Regroup

/-- The number that digits spell, the most significant first. -/
def value (b : ℕ) (ds : List ℕ) : ℕ := Nat.ofDigits b ds.reverse

@[simp] theorem value_nil (b : ℕ) : value b [] = 0 := rfl

@[simp] theorem value_concat (b : ℕ) (ds : List ℕ) (d : ℕ) : value b (ds ++ [d]) = value b ds * b + d := by
  simp [value, Nat.ofDigits_cons]
  ring

/-- Digits are known from their number and their count. -/
theorem value_inj {b : ℕ} {ds es : List ℕ} (hb : 1 < b) (hlen : ds.length = es.length)
    (hds : ∀ d ∈ ds, d < b) (hes : ∀ d ∈ es, d < b) (h : value b ds = value b es) : ds = es := by
  have hrev := Nat.ofDigits_inj_of_len_eq hb (by simpa using hlen)
    (fun d hd => hds d (List.mem_reverse.mp hd)) (fun d hd => hes d (List.mem_reverse.mp hd)) h
  simpa using congrArg List.reverse hrev

/-- The accumulator, the number of its pending bits, and what was taken. -/
structure Acc where
  buffer : ℕ := 0
  bits : ℕ := 0
  out : List ℕ := []
  deriving DecidableEq

/-- Shift a group of `w` bits in. -/
def Acc.push (w : ℕ) (s : Acc) (x : ℕ) : Acc :=
  { s with buffer := (s.buffer <<< w) % 2 ^ 32 ||| x, bits := s.bits + w }

/-- Take a group of `v` bits. -/
def Acc.take (v : ℕ) (s : Acc) : Acc :=
  { s with bits := s.bits - v, out := s.out ++ [(s.buffer >>> (s.bits - v)) &&& (2 ^ v - 1)] }

/-- Take groups of `v` bits while there are enough; `fuel` bounds the rounds. -/
def Acc.drain (v : ℕ) : ℕ → Acc → Acc
  | 0, s => s
  | fuel + 1, s => if v ≤ s.bits then (s.take v).drain v fuel else s

/-- INVARIANT: the groups that went in spell what came out and what is pending. -/
structure Spells (w v : ℕ) (ins : List ℕ) (s : Acc) : Prop where
  number : value (2 ^ v) s.out * 2 ^ s.bits + s.buffer % 2 ^ s.bits = value (2 ^ w) ins
  count : s.out.length * v + s.bits = ins.length * w
  digits : ∀ d ∈ s.out, d < 2 ^ v

theorem spells_nil (w v : ℕ) : Spells w v [] {} := ⟨by simp, by simp, by simp⟩

theorem buffer_push (w : ℕ) (s : Acc) {x : ℕ} (hx : x < 2 ^ w) (hbits : s.bits + w ≤ 32) :
    (s.push w x).buffer % 2 ^ (s.bits + w) = s.buffer % 2 ^ s.bits * 2 ^ w + x := by
  have hsplit : (2 : ℕ) ^ 32 = 2 ^ w * 2 ^ (32 - w) := by rw [← pow_add]; congr 1; omega
  have hlow : (s.buffer <<< w) % 2 ^ 32 = (s.buffer % 2 ^ (32 - w)) <<< w := by
    rw [Nat.shiftLeft_eq, Nat.shiftLeft_eq, hsplit, Nat.mul_comm, Nat.mul_mod_mul_left, Nat.mul_comm]
  have hmod : s.buffer % 2 ^ (32 - w) % 2 ^ s.bits = s.buffer % 2 ^ s.bits :=
    Nat.mod_mod_of_dvd _ (pow_dvd_pow 2 (by omega))
  have hx_mod (k : ℕ) : (k * 2 ^ w + x) % 2 ^ w = x := by rw [Nat.mul_comm, Nat.mul_add_mod, Nat.mod_eq_of_lt hx]
  have hx_div (k : ℕ) : (k * 2 ^ w + x) / 2 ^ w = k := by
    rw [Nat.mul_comm, Nat.mul_add_div (by positivity), Nat.div_eq_of_lt hx, Nat.add_zero]
  calc (s.push w x).buffer % 2 ^ (s.bits + w)
      = (s.buffer % 2 ^ (32 - w) * 2 ^ w + x) % (2 ^ w * 2 ^ s.bits) := by
        rw [Acc.push, hlow, ← Nat.shiftLeft_add_eq_or_of_lt hx, Nat.shiftLeft_eq, Nat.add_comm s.bits, pow_add]
    _ = s.buffer % 2 ^ s.bits * 2 ^ w + x := by
        rw [Nat.mod_mul, hx_mod, hx_div, hmod]
        ring

/-- STEP: a group that goes in. -/
theorem Spells.push {w v : ℕ} {ins : List ℕ} {s : Acc} {x : ℕ} (h : Spells w v ins s) (hx : x < 2 ^ w)
    (hbits : s.bits + w ≤ 32) : Spells w v (ins ++ [x]) (s.push w x) := by
  refine ⟨?_, ?_, h.digits⟩
  · change value (2 ^ v) s.out * 2 ^ (s.bits + w) + (s.push w x).buffer % 2 ^ (s.bits + w) = _
    rw [buffer_push w s hx hbits, value_concat, ← h.number, pow_add]
    ring
  · change s.out.length * v + (s.bits + w) = _
    have hcount := h.count
    simp only [List.length_append, List.length_singleton, Nat.add_mul]
    omega

/-- STEP: a group that is taken. -/
theorem Spells.take {w v : ℕ} {ins : List ℕ} {s : Acc} (h : Spells w v ins s) (hv : v ≤ s.bits) :
    Spells w v ins (s.take v) := by
  have hpow : (2 : ℕ) ^ s.bits = 2 ^ (s.bits - v) * 2 ^ v := by rw [← pow_add]; congr 1; omega
  have hdigit : (s.buffer >>> (s.bits - v)) &&& (2 ^ v - 1) = s.buffer / 2 ^ (s.bits - v) % 2 ^ v := by
    rw [Nat.and_two_pow_sub_one_eq_mod, Nat.shiftRight_eq_div_pow]
  refine ⟨?_, ?_, ?_⟩
  · have hnumber := h.number
    change value (2 ^ v) (s.out ++ [_]) * 2 ^ (s.bits - v) + s.buffer % 2 ^ (s.bits - v) = _
    rw [value_concat, hdigit, ← hnumber, hpow, Nat.mod_mul]
    ring
  · have hcount := h.count
    change (s.out ++ [_]).length * v + (s.bits - v) = _
    simp only [List.length_append, List.length_singleton, Nat.add_mul]
    omega
  · intro d hd
    change d ∈ s.out ++ [_] at hd
    rcases List.mem_append.mp hd with hold | hnew
    · exact h.digits d hold
    · rw [List.mem_singleton.mp hnew, hdigit]
      exact Nat.mod_lt _ (by positivity)

theorem Spells.drain {w v : ℕ} {ins : List ℕ} (fuel : ℕ) {s : Acc} (h : Spells w v ins s) :
    Spells w v ins (s.drain v fuel) := by
  induction fuel generalizing s with
  | zero => exact h
  | succ fuel ih =>
    rw [Acc.drain]
    split_ifs with hv
    · exact ih (h.take hv)
    · exact h

/-- Fewer bits are left than a group takes. -/
theorem bits_drain_lt {v : ℕ} (hv : 0 < v) (fuel : ℕ) {s : Acc} (hfuel : s.bits ≤ fuel) :
    (s.drain v fuel).bits < v := by
  induction fuel generalizing s with
  | zero => rw [Acc.drain]; omega
  | succ fuel ih =>
    rw [Acc.drain]
    split_ifs with h
    · refine ih ?_
      change s.bits - v ≤ fuel
      omega
    · omega

end Regroup
