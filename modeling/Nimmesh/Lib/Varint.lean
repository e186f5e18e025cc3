import Mathlib.Data.List.Basic
import Mathlib.Tactic.Ring

/-! @lib varint | name:Numbers in groups of seven bits | scope:general

    Each byte of a varint carries seven bits, the least significant group first, and all bytes but the last
    carry the continuation bit. A reader that shifts the groups into a word of `w` bits gets the number
    modulo `2 ^ w`: what is shifted out of the last group is lost. -/

namespace Varint

/-- The number of the groups. -/
def value : List UInt8 → ℕ
  | [] => 0
  | b :: bs => b.toNat % 128 + 128 * value bs

/-- All bytes but the last carry the continuation bit. -/
def IsVarint : List UInt8 → Prop
  | [] => False
  | [b] => b.toNat < 128
  | b :: c :: bs => 128 ≤ b.toNat ∧ IsVarint (c :: bs)

/-- The shortest varint of a number; `fuel` bounds its bytes. -/
def encode : ℕ → ℕ → List UInt8
  | 0, _ => []
  | fuel + 1, n => if n < 128 then [n.toUInt8] else (n % 128 + 128).toUInt8 :: encode fuel (n / 128)

/-- Read at most `budget` bytes, the group of byte `i` shifted by `7 * i` into a word of `w` bits. -/
def read (w : ℕ) : ℕ → ℕ → ℕ → List UInt8 → Option (ℕ × List UInt8)
  | 0, _, _, _ => none
  | _ + 1, _, _, [] => none
  | budget + 1, i, acc, b :: bs =>
    let acc := acc + ((b.toNat % 128) <<< (7 * i)) % 2 ^ w
    if b.toNat < 128 then some (acc, bs) else read w budget (i + 1) acc bs

/-- The bytes of a varint, and what follows it. -/
def cut : List UInt8 → Option (List UInt8 × List UInt8)
  | [] => none
  | b :: bs => if b.toNat < 128 then some ([b], bs) else (cut bs).map fun p => (b :: p.1, p.2)

theorem IsVarint.ne_nil {gs : List UInt8} (h : IsVarint gs) : gs ≠ [] := by
  rintro rfl
  exact h

theorem isVarint_cons {b : UInt8} {gs : List UInt8} (hb : 128 ≤ b.toNat) (h : IsVarint gs) : IsVarint (b :: gs) := by
  cases gs with
  | nil => exact h.elim
  | cons c gs => exact ⟨hb, h⟩

/-- A varint is cut where its last byte is. -/
theorem cut_eq_some_iff {bs gs rest : List UInt8} : cut bs = some (gs, rest) ↔ IsVarint gs ∧ bs = gs ++ rest := by
  induction bs generalizing gs with
  | nil =>
    simp only [cut, false_iff, reduceCtorEq, not_and]
    rintro h heq
    exact h.ne_nil (List.append_eq_nil_iff.mp heq.symm).1
  | cons b bs ih =>
    rw [cut]
    split_ifs with hb
    · constructor
      · rintro h
        obtain ⟨rfl, rfl⟩ := Prod.mk.inj (Option.some.inj h)
        exact ⟨hb, rfl⟩
      · rintro ⟨h, heq⟩
        rcases gs with _ | ⟨c, _ | ⟨d, gs⟩⟩
        · exact h.elim
        · obtain ⟨rfl, rfl⟩ := List.cons.inj heq
          rfl
        · obtain ⟨rfl, -⟩ := List.cons.inj heq
          exact absurd h.1 (Nat.not_le.mpr hb)
    · rw [Option.map_eq_some_iff]
      constructor
      · rintro ⟨⟨gs', rest'⟩, hcut, heq⟩
        obtain ⟨rfl, rfl⟩ := Prod.mk.inj heq
        obtain ⟨h, rfl⟩ := ih.mp hcut
        exact ⟨isVarint_cons (Nat.not_lt.mp hb) h, rfl⟩
      · rintro ⟨h, heq⟩
        rcases gs with _ | ⟨c, _ | ⟨d, gs⟩⟩
        · exact h.elim
        · obtain ⟨rfl, -⟩ := List.cons.inj heq
          exact absurd h hb
        · obtain ⟨rfl, rfl⟩ := List.cons.inj heq
          exact ⟨(d :: gs, rest), ih.mpr ⟨h.2, rfl⟩, rfl⟩

/-! ### Reading -/

theorem shiftLeft_mod (w k : ℕ) {i : ℕ} (hi : 7 * i < w) :
    (k <<< (7 * i)) % 2 ^ w = 2 ^ (7 * i) * (k % 2 ^ (w - 7 * i)) := by
  have hsplit : (2 : ℕ) ^ w = 2 ^ (7 * i) * 2 ^ (w - 7 * i) := by rw [← pow_add]; congr 1; omega
  rw [Nat.shiftLeft_eq, Nat.mul_comm, hsplit, Nat.mul_mod_mul_left]

/-- The last group: what does not fit the word is lost. -/
theorem add_shiftLeft_mod {w acc i : ℕ} (k : ℕ) (hi : 7 * i < w) (hacc : acc < 2 ^ (7 * i)) :
    acc + (k <<< (7 * i)) % 2 ^ w = (acc + 2 ^ (7 * i) * k) % 2 ^ w := by
  have hsplit : (2 : ℕ) ^ w = 2 ^ (7 * i) * 2 ^ (w - 7 * i) := by rw [← pow_add]; congr 1; omega
  have hlt : acc + (k <<< (7 * i)) % 2 ^ w < 2 ^ w := by
    have hk : k % 2 ^ (w - 7 * i) + 1 ≤ 2 ^ (w - 7 * i) := Nat.mod_lt _ (Nat.two_pow_pos _)
    have hmul := Nat.mul_le_mul_left (2 ^ (7 * i)) hk
    rw [shiftLeft_mod w k hi]
    rw [← hsplit, Nat.mul_add] at hmul
    omega
  rw [← Nat.mod_eq_of_lt hlt, Nat.add_mod_mod, Nat.shiftLeft_eq, Nat.mul_comm]

/-- EXACT: what is read is a varint within the budget, and its number modulo the word. -/
theorem read_eq_some_iff {w : ℕ} (budget : ℕ) {i acc v : ℕ} {bs rest : List UInt8} (hw : 7 * (i + budget) < w + 7)
    (hacc : acc < 2 ^ (7 * i)) :
    read w budget i acc bs = some (v, rest) ↔ ∃ gs, IsVarint gs ∧ bs = gs ++ rest ∧ gs.length ≤ budget ∧
      v = (acc + 2 ^ (7 * i) * value gs) % 2 ^ w := by
  induction budget generalizing i acc bs with
  | zero =>
    simp only [read, false_iff, reduceCtorEq, not_exists, not_and]
    rintro gs h - hlen
    exact absurd (List.length_eq_zero_iff.mp (Nat.le_zero.mp hlen)) h.ne_nil
  | succ budget ih =>
    cases bs with
    | nil =>
      simp only [read, false_iff, reduceCtorEq, not_exists, not_and]
      rintro gs h heq
      exact absurd (List.append_eq_nil_iff.mp heq.symm).1 h.ne_nil
    | cons b bs =>
      rw [read]
      split_ifs with hb
      · have hmod : b.toNat % 128 = b.toNat := Nat.mod_eq_of_lt hb
        rw [hmod, add_shiftLeft_mod b.toNat (by omega) hacc]
        constructor
        · intro h
          obtain ⟨rfl, rfl⟩ := Prod.mk.inj (Option.some.inj h)
          exact ⟨[b], hb, rfl, by simp, by simp [value, hmod]⟩
        · rintro ⟨gs, h, heq, -, rfl⟩
          rcases gs with _ | ⟨c, _ | ⟨d, gs⟩⟩
          · exact h.elim
          · obtain ⟨rfl, rfl⟩ := List.cons.inj heq
            simp [value, hmod]
          · obtain ⟨rfl, -⟩ := List.cons.inj heq
            exact absurd h.1 (Nat.not_le.mpr hb)
      · cases budget with
        | zero =>
          simp only [read, false_iff, reduceCtorEq, not_exists, not_and]
          rintro gs h heq hlen
          rcases gs with _ | ⟨c, _ | ⟨d, gs⟩⟩
          · exact h.elim
          · obtain ⟨rfl, -⟩ := List.cons.inj heq
            exact absurd h hb
          · simp at hlen
        | succ budget =>
          have hgroup : ((b.toNat % 128) <<< (7 * i)) % 2 ^ w = 2 ^ (7 * i) * (b.toNat % 128) := by
            rw [shiftLeft_mod w _ (by omega)]
            have hle : (2 : ℕ) ^ 7 ≤ 2 ^ (w - 7 * i) := Nat.pow_le_pow_right (by decide) (by omega)
            rw [Nat.mod_eq_of_lt (show b.toNat % 128 < 2 ^ (w - 7 * i) by omega)]
          have hpow : (2 : ℕ) ^ (7 * (i + 1)) = 2 ^ (7 * i) * 128 := by rw [Nat.mul_add, pow_add]; rfl
          have hnext : acc + 2 ^ (7 * i) * (b.toNat % 128) < 2 ^ (7 * (i + 1)) := by
            have hmul := Nat.mul_le_mul_left (2 ^ (7 * i)) (show b.toNat % 128 + 1 ≤ 128 by omega)
            rw [hpow]
            rw [Nat.mul_add] at hmul
            omega
          rw [hgroup, ih (by omega) hnext, hpow]
          constructor
          · rintro ⟨gs, h, rfl, hlen, rfl⟩
            refine ⟨b :: gs, isVarint_cons (Nat.not_lt.mp hb) h, rfl, by simpa using hlen, ?_⟩
            rw [value]
            congr 1
            ring
          · rintro ⟨gs, h, heq, hlen, rfl⟩
            rcases gs with _ | ⟨c, _ | ⟨d, gs⟩⟩
            · exact h.elim
            · obtain ⟨rfl, -⟩ := List.cons.inj heq
              exact absurd h hb
            · obtain ⟨rfl, rfl⟩ := List.cons.inj heq
              refine ⟨d :: gs, h.2, rfl, by simpa using hlen, ?_⟩
              rw [value]
              congr 1
              ring

/-! ### Writing -/

theorem encode_spec (fuel : ℕ) {n : ℕ} (h : n < 128 ^ fuel) (hfuel : 0 < fuel) :
    IsVarint (encode fuel n) ∧ value (encode fuel n) = n ∧ (encode fuel n).length ≤ fuel := by
  induction fuel generalizing n with
  | zero => omega
  | succ fuel ih =>
    rw [encode]
    split_ifs with hn
    · have hbyte : n.toUInt8.toNat = n := Nat.mod_eq_of_lt (by omega)
      refine ⟨?_, ?_, by simp⟩
      · rw [IsVarint, hbyte]
        exact hn
      · rw [value, value, hbyte]
        omega
    · have hbyte : (n % 128 + 128).toUInt8.toNat = n % 128 + 128 := Nat.mod_eq_of_lt (by omega)
      have hfuel' : 0 < fuel := by
        rcases fuel with _ | fuel
        · omega
        · omega
      obtain ⟨hgs, hvalue, hlen⟩ := ih (Nat.div_lt_of_lt_mul (by rw [pow_succ, Nat.mul_comm] at h; exact h)) hfuel'
      refine ⟨isVarint_cons (by omega) hgs, ?_, by simpa using hlen⟩
      rw [value, hbyte, hvalue]
      omega

/-- A number of `k` groups has no more bytes than that. -/
theorem length_encode_le (fuel : ℕ) {k n : ℕ} (hk : 0 < k) (h : n < 128 ^ k) : (encode fuel n).length ≤ k := by
  induction fuel generalizing k n with
  | zero => exact Nat.zero_le k
  | succ fuel ih =>
    rw [encode]
    split_ifs with hn
    · exact hk
    · obtain ⟨k, rfl⟩ : ∃ j, k = j + 1 := ⟨k - 1, by omega⟩
      have hpos : 0 < k := by
        rcases k with _ | k
        · omega
        · omega
      have hle := ih hpos (Nat.div_lt_of_lt_mul (by rw [pow_succ, Nat.mul_comm] at h; exact h))
      rw [List.length_cons]
      omega

/-! ### The tenth byte -/

theorem value_append (gs hs : List UInt8) : value (gs ++ hs) = value gs + 128 ^ gs.length * value hs := by
  induction gs with
  | nil => simp [value]
  | cons b gs ih =>
    rw [List.cons_append, value, value, ih, List.length_cons, pow_succ]
    ring

theorem value_lt (gs : List UInt8) : value gs < 128 ^ gs.length := by
  induction gs with
  | nil => exact Nat.one_pos
  | cons b gs ih =>
    rw [value, List.length_cons, pow_succ]
    omega

theorem IsVarint.last_lt {gs : List UInt8} {b : UInt8} (h : IsVarint (gs ++ [b])) : b.toNat < 128 := by
  induction gs with
  | nil => exact h
  | cons c gs ih =>
    rcases gs with _ | ⟨d, gs⟩
    · exact ih h.2
    · exact ih h.2

/-- EXACT: ten bytes spell a number of 64 bits if the last of them is 0 or 1. -/
theorem value_lt_two_pow_64_iff {gs : List UInt8} (h : IsVarint gs) (hlen : gs.length ≤ 10) :
    value gs < 2 ^ 64 ↔ ∀ b, gs[9]? = some b → b.toNat ≤ 1 := by
  have h63 : (128 : ℕ) ^ 9 = 2 ^ 63 := by decide
  by_cases hnine : gs.length ≤ 9
  · have hlt := value_lt gs
    have hle : (128 : ℕ) ^ gs.length ≤ 128 ^ 9 := Nat.pow_le_pow_right (by decide) hnine
    refine ⟨fun _ b hb => ?_, fun _ => by omega⟩
    rw [List.getElem?_eq_none hnine] at hb
    cases hb
  · have hten : gs.length = 10 := by omega
    obtain ⟨front, b, rfl⟩ := (List.eq_nil_or_concat' gs).resolve_left h.ne_nil
    have hfront : front.length = 9 := by simpa using hten
    have hb := h.last_lt
    have hlt := value_lt front
    have hget : (front ++ [b])[9]? = some b := by rw [← hfront, List.getElem?_concat_length]
    rw [hfront] at hlt
    rw [value_append, hfront, value, value, Nat.mod_eq_of_lt hb, h63]
    simp only [hget, Option.some.injEq, forall_eq']
    omega

end Varint
