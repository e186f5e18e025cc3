import Nimmesh.Live.Address

/-! @src nimiq/address.rs | name:What the address parser accepts | layer:properties

    The streaming checksum is the remainder of one number, `ibanNumber`, as long as no character is below
    `A` that is not a digit; such a character makes the subtraction underflow. The slices are in bytes, so a
    character that lies across byte 2 or 4 faults. Of the texts that are accepted all but one kind is of the
    documented shape: two bytes of check digits may be a single character. -/

namespace Nimmesh
open Checked Regroup Text

namespace Text

@[simp] theorem byteLen_nil : byteLen [] = 0 := rfl

@[simp] theorem byteLen_cons (c : Char) (s : Text) : byteLen (c :: s) = c.utf8Size + byteLen s := by
  simp [byteLen]

@[simp] theorem byteLen_append (s t : Text) : byteLen (s ++ t) = byteLen s + byteLen t := by
  simp [byteLen]

theorem length_le_byteLen (s : Text) : s.length ≤ byteLen s := by
  induction s with
  | nil => simp
  | cons c s ih =>
    have hpos := c.utf8Size_pos
    simp only [List.length_cons, byteLen_cons]
    omega

theorem byteLen_of_narrow {s : Text} (h : ∀ c ∈ s, c.utf8Size = 1) : byteLen s = s.length := by
  induction s with
  | nil => rfl
  | cons c s ih =>
    rw [byteLen_cons, h c List.mem_cons_self, ih fun x hx => h x (List.mem_cons_of_mem _ hx), List.length_cons]
    omega

/-- A text splits where a character starts. -/
theorem splitAtByte_eq_some_iff {n : ℕ} {s front back : Text} :
    splitAtByte n s = some (front, back) ↔ s = front ++ back ∧ byteLen front = n := by
  induction s generalizing n front with
  | nil =>
    cases n with
    | zero =>
      simp only [splitAtByte, Option.some.injEq, Prod.mk.injEq]
      constructor
      · rintro ⟨rfl, rfl⟩
        exact ⟨rfl, rfl⟩
      · rintro ⟨h, -⟩
        simpa [eq_comm] using h
    | succ n =>
      simp only [splitAtByte, reduceCtorEq, false_iff]
      rintro ⟨h, hlen⟩
      rw [(List.append_eq_nil_iff.mp h.symm).1] at hlen
      simp at hlen
  | cons c s ih =>
    have hpos := c.utf8Size_pos
    cases n with
    | zero =>
      simp only [splitAtByte, Option.some.injEq, Prod.mk.injEq]
      constructor
      · rintro ⟨rfl, rfl⟩
        exact ⟨rfl, rfl⟩
      · rintro ⟨h, hlen⟩
        cases front with
        | nil => exact ⟨rfl, h⟩
        | cons x front =>
          have hx := x.utf8Size_pos
          rw [byteLen_cons] at hlen
          omega
    | succ n =>
      rw [splitAtByte]
      split_ifs with hle
      · rw [Option.map_eq_some_iff]
        constructor
        · rintro ⟨⟨front', back'⟩, hsplit, heq⟩
          obtain ⟨rfl, rfl⟩ := Prod.mk.injEq .. ▸ heq
          obtain ⟨rfl, hlen⟩ := ih.mp hsplit
          refine ⟨rfl, ?_⟩
          rw [byteLen_cons, hlen]
          omega
        · rintro ⟨h, hlen⟩
          cases front with
          | nil => simp at hlen
          | cons x front =>
            obtain ⟨rfl, rfl⟩ := List.cons.inj h
            rw [byteLen_cons] at hlen
            exact ⟨(front, back), ih.mpr ⟨rfl, by omega⟩, rfl⟩
      · simp only [false_iff]
        rintro ⟨h, hlen⟩
        cases front with
        | nil => simp at hlen
        | cons x front =>
          obtain ⟨rfl, -⟩ := List.cons.inj h
          rw [byteLen_cons] at hlen
          omega

theorem sliceTo_append (front back : Text) : (sliceTo (front ++ back) (byteLen front) : Result ε Text) = .ok front := by
  rw [sliceTo, splitAtByte_eq_some_iff.mpr ⟨rfl, rfl⟩]

theorem sliceFrom_append (front back : Text) :
    (sliceFrom (front ++ back) (byteLen front) : Result ε Text) = .ok back := by
  rw [sliceFrom, splitAtByte_eq_some_iff.mpr ⟨rfl, rfl⟩]

theorem exists_of_isCharBoundary {s : Text} {n : ℕ} (h : s.isCharBoundary n = true) :
    ∃ front back, s = front ++ back ∧ byteLen front = n := by
  obtain ⟨⟨front, back⟩, hsplit⟩ := Option.isSome_iff_exists.mp h
  exact ⟨front, back, splitAtByte_eq_some_iff.mp hsplit⟩

theorem isCharBoundary_append (front back : Text) : isCharBoundary (front ++ back) (byteLen front) = true := by
  rw [isCharBoundary, splitAtByte_eq_some_iff.mpr ⟨rfl, rfl⟩]
  rfl

theorem sliceTo_of_not_boundary {s : Text} {n : ℕ} (h : s.isCharBoundary n = false) :
    (sliceTo s n : Result ε Text) = fault .slice := by
  rw [sliceTo, Option.isSome_eq_false_iff.mp h |> Option.isNone_iff_eq_none.mp]

end Text

namespace NimAddress

/-! ### The checksum -/

/-- The checksum can read the character: it is a digit, or not below `A`. -/
def Spelled (c : Char) : Prop := (toDigit c).isSome = true ∨ 'A'.toNat ≤ (toAsciiUppercase c).toNat

instance : DecidablePred Spelled := fun _ => inferInstanceAs (Decidable (_ ∨ _))

/-- What a character is worth. -/
def charValue (c : Char) : ℕ := (toDigit c).getD ((toAsciiUppercase c).toNat - 'A'.toNat + 10)

/-- By what a character shifts the places before it. -/
def weight (c : Char) : ℕ := if (toDigit c).isSome then 10 else 100

/-- The number that a text spells. -/
def ibanNumber (s : Text) : ℕ := s.foldl (fun n c => n * weight c + charValue c) 0

theorem toNat_toAsciiUppercase_lt (c : Char) : (toAsciiUppercase c).toNat < 0x110000 := by
  have hvalid := (toAsciiUppercase c).valid
  simp only [UInt32.isValidChar, Nat.isValidChar] at hvalid
  change (toAsciiUppercase c).val.toNat < _
  omega

theorem toDigit_le {c : Char} {d : ℕ} (h : toDigit c = some d) : d ≤ 9 := by
  rw [toDigit] at h
  split_ifs at h with hc
  have hle : c.toNat ≤ '9'.toNat := hc.2
  have hzero : '0'.toNat = 48 := rfl
  have hnine : '9'.toNat = 57 := rfl
  cases h
  omega

/-- STEP: a character moves the remainder on, if the checksum can read it. -/
theorem ibanMod97Step_of_spelled {c : Char} (h : Spelled c) {tmp : ℕ} (ht : tmp < 97) :
    (ibanMod97Step tmp c : Result ε ℕ) = .ok ((tmp * weight c + charValue c) % 97) := by
  have hpow : (2 : ℕ) ^ 32 = 4294967296 := rfl
  cases hd : toDigit c with
  | some d =>
    have hle := toDigit_le hd
    simp only [ibanMod97Step, hd, fit_of_lt (show tmp * 10 + d < 2 ^ 32 by omega), ok_bind, weight, charValue,
      Option.isSome_some, if_true, Option.getD_some]
    rfl
  | none =>
    have hA : 'A'.toNat ≤ (toAsciiUppercase c).toNat := by
      rcases h with hsome | hA
      · simp [hd] at hsome
      · exact hA
    have hlt := toNat_toAsciiUppercase_lt c
    have hval : charValue c = (toAsciiUppercase c).toNat - 'A'.toNat + 10 := by rw [charValue, hd, Option.getD_none]
    have hweight : weight c = 100 := by simp [weight, hd]
    simp only [ibanMod97Step, hd, sub_of_le hA, ok_bind]
    rw [← hval, fit_of_lt (by omega), ok_bind, fit_of_lt (by omega), ok_bind, fit_of_lt (by omega), ok_bind, hweight]
    refine congrArg Except.ok ?_
    omega

theorem ibanMod97Step_of_not_spelled {c : Char} (h : ¬ Spelled c) (tmp : ℕ) :
    (ibanMod97Step tmp c : Result ε ℕ) = fault .overflow := by
  obtain ⟨hdigit, hA⟩ := not_or.mp h
  rw [ibanMod97Step, Option.not_isSome_iff_eq_none.mp hdigit]
  simp only
  rw [sub, if_neg hA, fault_bind]

theorem foldlM_ibanMod97Step {s : Text} (h : ∀ c ∈ s, Spelled c) (n : ℕ) :
    (s.foldlM ibanMod97Step (n % 97) : Result ε ℕ) =
      .ok (s.foldl (fun n c => n * weight c + charValue c) n % 97) := by
  induction s generalizing n with
  | nil => rfl
  | cons c s ih =>
    rw [List.foldlM_cons, ibanMod97Step_of_spelled (h c List.mem_cons_self) (Nat.mod_lt n (by decide)), ok_bind,
      List.foldl_cons, ← ih fun x hx => h x (List.mem_cons_of_mem _ hx)]
    simp only [Nat.add_mod, Nat.mul_mod, Nat.mod_mod]

/-- CORRECT: the streaming checksum is the remainder of the number. -/
theorem ibanMod97_of_spelled {s : Text} (h : ∀ c ∈ s, Spelled c) :
    (ibanMod97 s : Result ε ℕ) = .ok (ibanNumber s % 97) := foldlM_ibanMod97Step h 0

/-- EXACT: the checksum faults on every character that it cannot read. -/
theorem returns_ibanMod97_iff {s : Text} : Returns (ibanMod97 s : Result ε ℕ) ↔ ∀ c ∈ s, Spelled c := by
  have hrun (tmp : ℕ) (ht : tmp < 97) : Returns (s.foldlM ibanMod97Step tmp : Result ε ℕ) → ∀ c ∈ s, Spelled c := by
    induction s generalizing tmp with
    | nil => simp
    | cons c s ih =>
      intro hret x hx
      rw [List.foldlM_cons] at hret
      by_cases hc : Spelled c
      · rw [ibanMod97Step_of_spelled hc ht, ok_bind] at hret
        rcases List.mem_cons.mp hx with rfl | hx
        · exact hc
        · exact ih _ (Nat.mod_lt _ (by decide)) hret x hx
      · rw [ibanMod97Step_of_not_spelled hc, fault_bind] at hret
        exact absurd hret (not_returns_fault _)
  constructor
  · exact hrun 0 (by decide)
  · intro h
    rw [ibanMod97_of_spelled h]
    exact returns_ok _

/-! ### Base32 -/

theorem base32DecodeStep_of_mem {s : Acc} {c : Char} (hc : c ∈ base32Alphabet) (hlen : s.out.length < nimAddressLen) :
    base32DecodeStep s c = .ok (if 8 ≤ (s.push 5 (base32Alphabet.idxOf c)).bits then
      (s.push 5 (base32Alphabet.idxOf c)).take 8 else s.push 5 (base32Alphabet.idxOf c)) := by
  rw [base32DecodeStep, if_pos (List.idxOf_lt_length_iff.mpr hc)]
  simp only [show (s.push 5 (base32Alphabet.idxOf c)).out = s.out from rfl, if_pos hlen]
  split_ifs <;> rfl

theorem idxOf_lt {c : Char} (hc : c ∈ base32Alphabet) : base32Alphabet.idxOf c < 2 ^ 5 :=
  List.idxOf_lt_length_iff.mpr hc

/-- INVARIANT: the accumulator spells what was read, with less than a byte pending. -/
structure Decoding (ins : List ℕ) (s : Acc) : Prop where
  spells : Spells 5 8 ins s
  pending : s.bits < 8

/-- STEP: the address has room for the byte of one more symbol, if there are at most 32 of them. -/
theorem Decoding.step {ins : List ℕ} {s : Acc} (h : Decoding ins s) {c : Char} (hc : c ∈ base32Alphabet)
    (hlen : ins.length < 32) :
    ∃ s', base32DecodeStep s c = .ok s' ∧ Decoding (ins ++ [base32Alphabet.idxOf c]) s' := by
  have hcount := h.spells.count
  have hpending := h.pending
  have hpush := h.spells.push (idxOf_lt hc) (by omega)
  have hbits : (s.push 5 (base32Alphabet.idxOf c)).bits = s.bits + 5 := rfl
  by_cases hfull : 8 ≤ s.bits + 5
  · have hroom : s.out.length < nimAddressLen := by
      simp only [nimAddressLen]
      omega
    refine ⟨_, base32DecodeStep_of_mem hc hroom, ?_⟩
    rw [if_pos (by rwa [hbits])]
    refine ⟨hpush.take (by rwa [hbits]), ?_⟩
    change s.bits + 5 - 8 < 8
    omega
  · refine ⟨s.push 5 (base32Alphabet.idxOf c), ?_, hpush, by rw [hbits]; omega⟩
    rw [base32DecodeStep, if_pos (List.idxOf_lt_length_iff.mpr hc)]
    simp only [hbits, if_neg hfull]

/-- RUN: symbols of the alphabet are read to the end. -/
theorem Decoding.run {ins : List ℕ} {acc : Acc} (h : Decoding ins acc) {s : Text} (hs : ∀ c ∈ s, c ∈ base32Alphabet)
    (hlen : ins.length + s.length ≤ 32) :
    ∃ acc', s.foldlM base32DecodeStep acc = .ok acc' ∧ Decoding (ins ++ s.map base32Alphabet.idxOf) acc' := by
  induction s generalizing ins acc with
  | nil => exact ⟨acc, rfl, by simpa using h⟩
  | cons c s ih =>
    rw [List.length_cons] at hlen
    obtain ⟨acc', hstep, hnext⟩ := h.step (hs c List.mem_cons_self) (by omega)
    obtain ⟨acc'', hrun, hlast⟩ := ih hnext (fun x hx => hs x (List.mem_cons_of_mem _ hx)) (by simp; omega)
    refine ⟨acc'', ?_, by simpa using hlast⟩
    rw [List.foldlM_cons, hstep, ok_bind, hrun]

theorem decoding_nil : Decoding [] {} := ⟨spells_nil 5 8, by decide⟩

/-- What reaches a character that is not of the alphabet is rejected. -/
theorem base32Decode_returns {s : Text} (hlen : s.length ≤ 32) :
    Returns (base32Decode s) ∧ ((∃ a, base32Decode s = .ok a) ↔ ∀ c ∈ s, c ∈ base32Alphabet) := by
  have hrun : ∀ (ins : List ℕ) (acc : Acc), Decoding ins acc → ins.length + s.length ≤ 32 →
      Returns (s.foldlM base32DecodeStep acc) ∧
        ((∃ acc', s.foldlM base32DecodeStep acc = .ok acc') ↔ ∀ c ∈ s, c ∈ base32Alphabet) := by
    intro ins acc h hle
    clear hlen
    induction s generalizing ins acc with
    | nil => exact ⟨returns_pure acc, fun _ => by simp, fun _ => ⟨acc, rfl⟩⟩
    | cons c s ih =>
      rw [List.length_cons] at hle
      rw [List.foldlM_cons, List.forall_mem_cons]
      by_cases hc : c ∈ base32Alphabet
      · obtain ⟨acc', hstep, hnext⟩ := h.step hc (by omega)
        have hrest := ih _ acc' hnext (by simp; omega)
        rw [hstep, ok_bind]
        exact ⟨hrest.1, by simp only [hc, true_and]; exact hrest.2⟩
      · have hstep : base32DecodeStep acc c = fail (.badBase32Char c) := by
          rw [base32DecodeStep, if_neg fun hlt => hc (List.idxOf_lt_length_iff.mp hlt)]
        rw [hstep, fail_bind]
        exact ⟨returns_fail _, by simp [hc, fail]⟩
  obtain ⟨hret, hok⟩ := hrun [] {} decoding_nil (by simpa using hlen)
  rw [base32Decode]
  constructor
  · exact returns_bind_iff.mpr ⟨hret, fun _ _ => returns_pure _⟩
  · rw [← hok]
    constructor
    · rintro ⟨a, ha⟩
      obtain ⟨acc, hacc, -⟩ := bind_eq_ok_iff.mp ha
      exact ⟨acc, hacc⟩
    · rintro ⟨acc, hacc⟩
      exact ⟨_, bind_eq_ok_iff.mpr ⟨acc, hacc, rfl⟩⟩

/-! ### The parser -/

/-- EXACT: how the parser goes, by what the text is cut into. -/
theorem fromUserFriendly_cases (input : Text) :
    (byteLen (compact input) ≠ 36 ∧
      fromUserFriendly input = fail (.wrongLength (byteLen (compact input)))) ∨
    (byteLen (compact input) = 36 ∧ isCharBoundary (compact input) 2 = false ∧
      fromUserFriendly input = fault .slice) ∨
    (byteLen (compact input) = 36 ∧ isCharBoundary (compact input) 2 = true ∧
      (∀ rest, compact input ≠ 'N' :: 'Q' :: rest) ∧ fromUserFriendly input = fail .missingPrefix) ∨
    (∃ rest, compact input = 'N' :: 'Q' :: rest ∧ byteLen rest = 34 ∧ isCharBoundary rest 2 = false ∧
      fromUserFriendly input = fault .slice) ∨
    ∃ check base32, compact input = 'N' :: 'Q' :: (check ++ base32) ∧ byteLen check = 2 ∧ byteLen base32 = 32 ∧
      fromUserFriendly input = (do
        let m ← ibanMod97 (base32 ++ ['N', 'Q'] ++ check)
        if m ≠ 1 then fail .badChecksum else base32Decode base32) := by
  by_cases hlen : byteLen (compact input) = 36
  · cases hcut : isCharBoundary (compact input) 2 with
    | false =>
      refine .inr (.inl ⟨hlen, rfl, ?_⟩)
      simp only [fromUserFriendly, hlen, ne_eq, not_true, if_false, sliceTo_of_not_boundary hcut, fault_bind]
    | true =>
      obtain ⟨country, rest, hsplit, hcountry⟩ := exists_of_isCharBoundary hcut
      have hto : (sliceTo (compact input) 2 : Result AddressError Text) = .ok country := by
        rw [hsplit, ← hcountry, sliceTo_append]
      by_cases hNQ : country = ['N', 'Q']
      · subst hNQ
        have hrest : byteLen rest = 34 := by
          rw [hsplit, byteLen_append, hcountry] at hlen
          omega
        have hfour : splitAtByte 4 (compact input) = (splitAtByte 2 rest).map fun p => ('N' :: 'Q' :: p.1, p.2) := by
          rw [hsplit]
          simp [splitAtByte, show 'N'.utf8Size = 1 from rfl, show 'Q'.utf8Size = 1 from rfl, Function.comp_def]
        refine .inr (.inr (.inr ?_))
        cases hcut' : isCharBoundary rest 2 with
        | false =>
          refine .inl ⟨rest, hsplit, hrest, hcut', ?_⟩
          have hnone : splitAtByte 2 rest = none := by
            rwa [isCharBoundary, Option.isSome_eq_false_iff, Option.isNone_iff_eq_none] at hcut'
          have hslice : (slice (compact input) 2 4 : Result AddressError Text) = fault .slice := by
            simp only [slice, sliceTo, hfour, hnone, Option.map_none, fault_bind]
          simp only [fromUserFriendly, hlen, ne_eq, not_true, if_false, hto, ok_bind, hslice, fault_bind]
        | true =>
          obtain ⟨check, base32, hrest', hcheck⟩ := exists_of_isCharBoundary hcut'
          refine .inr ⟨check, base32, by rw [hsplit, hrest']; rfl, hcheck, ?_, ?_⟩
          · rw [hrest', byteLen_append, hcheck] at hrest
            omega
          · have hsome : splitAtByte 2 rest = some (check, base32) := splitAtByte_eq_some_iff.mpr ⟨hrest', hcheck⟩
            have hmid : (sliceFrom ('N' :: 'Q' :: check) 2 : Result AddressError Text) = .ok check :=
              sliceFrom_append ['N', 'Q'] check
            have hslice : (slice (compact input) 2 4 : Result AddressError Text) = .ok check := by
              simp only [slice, sliceTo, hfour, hsome, Option.map_some, ok_bind, hmid]
            have hfrom : (sliceFrom (compact input) 4 : Result AddressError Text) = .ok base32 := by
              simp only [sliceFrom, hfour, hsome, Option.map_some]
            simp only [fromUserFriendly, hlen, ne_eq, not_true, if_false, hto, ok_bind, hslice, hfrom]
      · refine .inr (.inr (.inl ⟨hlen, rfl, ?_, ?_⟩))
        · intro rest' h
          refine hNQ ?_
          have hsplit' := splitAtByte_eq_some_iff.mpr ⟨hsplit, hcountry⟩
          have hsplit'' := splitAtByte_eq_some_iff.mpr ⟨show compact input = ['N', 'Q'] ++ rest' from h, rfl⟩
          rw [show byteLen ['N', 'Q'] = 2 from rfl, hsplit'] at hsplit''
          exact congrArg Prod.fst (Option.some.inj hsplit'')
        · simp only [fromUserFriendly, hlen, ne_eq, not_true, if_false, hto, ok_bind, hNQ, not_false_eq_true, if_true]
  · refine .inl ⟨hlen, ?_⟩
    simp only [fromUserFriendly, ne_eq, hlen, not_false_eq_true, if_true]

/-- Of 36 bytes, the text can be cut at its bytes 2 and 4 and read by the checksum. -/
def Sliceable (s : Text) : Prop :=
  byteLen s = 36 → isCharBoundary s 2 = true ∧
    ∀ rest, s = 'N' :: 'Q' :: rest → isCharBoundary rest 2 = true ∧ ∀ c ∈ rest, Spelled c

/-- A single character of two bytes stands for both check digits, and the checksum is right. -/
def SharedCheck (s : Text) : Prop :=
  ∃ c base32, s = 'N' :: 'Q' :: c :: base32 ∧ c.utf8Size = 2 ∧ base32.length = 32 ∧
    (∀ x ∈ base32, x ∈ base32Alphabet) ∧ ibanNumber (base32 ++ ['N', 'Q'] ++ [c]) % 97 = 1

/-- `NQ` and 34 characters, the last 32 of the alphabet, with the check 1. -/
def WellFormed (s : Text) : Prop :=
  ∃ check base32, s = 'N' :: 'Q' :: (check ++ base32) ∧ check.length = 2 ∧ base32.length = 32 ∧
    (∀ x ∈ base32, x ∈ base32Alphabet) ∧ ibanNumber (base32 ++ ['N', 'Q'] ++ check) % 97 = 1

theorem spelled_N : Spelled 'N' := by decide

theorem spelled_Q : Spelled 'Q' := by decide

theorem forall_rearranged {check base32 : Text} {P : Char → Prop} (hN : P 'N') (hQ : P 'Q') :
    (∀ c ∈ base32 ++ ['N', 'Q'] ++ check, P c) ↔ ∀ c ∈ check ++ base32, P c := by
  simp only [List.forall_mem_append, List.forall_mem_cons, List.not_mem_nil, false_implies, implies_true, and_true]
  tauto

/-- What is checked symbol by symbol; to decide it over all characters takes too long. -/
theorem forall_of_all {α : Type} {p : α → Prop} [DecidablePred p] {l : List α}
    (h : l.all (fun a => decide (p a)) = true) : ∀ a ∈ l, p a :=
  fun a ha => of_decide_eq_true (List.all_eq_true.mp h a ha)

/-- Symbols are of one byte, and the checksum can read them. -/
theorem symbol_narrow : ∀ c ∈ base32Alphabet, c.utf8Size = 1 ∧ Spelled c := forall_of_all (by decide)

/-- EXACT: the parser returns if the text can be cut and read. -/
theorem returns_fromUserFriendly_iff (input : Text) :
    Returns (fromUserFriendly input) ↔ Sliceable (compact input) := by
  rcases fromUserFriendly_cases input with ⟨hlen, h⟩ | ⟨hlen, hcut, h⟩ | ⟨hlen, hcut, hNQ, h⟩ | ⟨rest, hs, hlen, hcut, h⟩ |
    ⟨check, base32, hs, hcheck, hbody, h⟩
  · rw [h]
    exact ⟨fun _ h36 => absurd h36 hlen, fun _ => returns_fail _⟩
  · rw [h]
    refine ⟨fun hret => absurd hret (not_returns_fault _), fun hs => ?_⟩
    rw [(hs hlen).1] at hcut
    cases hcut
  · rw [h]
    exact ⟨fun _ _ => ⟨hcut, fun rest hrest => absurd hrest (hNQ rest)⟩, fun _ => returns_fail _⟩
  · rw [h]
    refine ⟨fun hret => absurd hret (not_returns_fault _), fun hsl => ?_⟩
    have h36 : byteLen (compact input) = 36 := by
      rw [hs, byteLen_cons, byteLen_cons, hlen]
      rfl
    rw [((hsl h36).2 rest hs).1] at hcut
    cases hcut
  · have h36 : byteLen (compact input) = 36 := by
      rw [hs, byteLen_cons, byteLen_cons, byteLen_append, hcheck, hbody]
      rfl
    rw [h, returns_bind_iff, returns_ibanMod97_iff, forall_rearranged spelled_N spelled_Q]
    constructor
    · rintro ⟨hspelled, -⟩ -
      refine ⟨?_, fun rest hrest => ?_⟩
      · rw [hs]
        exact isCharBoundary_append ['N', 'Q'] (check ++ base32)
      · obtain rfl : rest = check ++ base32 := by rw [hs] at hrest; simpa [eq_comm] using hrest
        refine ⟨?_, hspelled⟩
        rw [← hcheck]
        exact isCharBoundary_append check base32
    · intro hsl
      refine ⟨((hsl h36).2 _ hs).2, fun m _ => ?_⟩
      split_ifs
      · exact returns_fail _
      · exact (base32Decode_returns (hbody ▸ length_le_byteLen base32)).1

/-- EXACT: the parser accepts what is cut into check digits and a body of symbols with the check 1. -/
theorem fromUserFriendly_accepts_iff (input : Text) :
    (∃ a, fromUserFriendly input = .ok a) ↔ ∃ check base32, compact input = 'N' :: 'Q' :: (check ++ base32) ∧
      byteLen check = 2 ∧ base32.length = 32 ∧ (∀ x ∈ base32, x ∈ base32Alphabet) ∧ (∀ c ∈ check, Spelled c) ∧
      ibanNumber (base32 ++ ['N', 'Q'] ++ check) % 97 = 1 := by
  constructor
  · rintro ⟨a, ha⟩
    rcases fromUserFriendly_cases input with ⟨-, h⟩ | ⟨-, -, h⟩ | ⟨-, -, -, h⟩ | ⟨rest, -, -, -, h⟩ |
      ⟨check, base32, hs, hcheck, hbody, h⟩
    · rw [h] at ha; cases ha
    · rw [h] at ha; cases ha
    · rw [h] at ha; cases ha
    · rw [h] at ha; cases ha
    · rw [h, bind_eq_ok_iff] at ha
      obtain ⟨m, hm, hrest⟩ := ha
      have hspelled := (returns_ibanMod97_iff (ε := AddressError)).mp (by rw [hm]; exact returns_ok m)
      rw [ibanMod97_of_spelled hspelled] at hm
      obtain rfl := Except.ok.inj hm
      split_ifs at hrest with hone
      · cases hrest
      · have hle := length_le_byteLen base32
        have halphabet := (base32Decode_returns (hbody ▸ hle)).2.mp ⟨a, hrest⟩
        have hlen := byteLen_of_narrow fun c hc => (symbol_narrow c (halphabet c hc)).1
        rw [forall_rearranged spelled_N spelled_Q, List.forall_mem_append] at hspelled
        exact ⟨check, base32, hs, hcheck, by omega, halphabet, hspelled.1, not_not.mp hone⟩
  · rintro ⟨check, base32, hs, hcheck, hlen, halphabet, hspelled, hone⟩
    have hbody : byteLen base32 = 32 := by
      rw [byteLen_of_narrow fun c hc => (symbol_narrow c (halphabet c hc)).1, hlen]
    have hall : ∀ c ∈ base32 ++ ['N', 'Q'] ++ check, Spelled c :=
      (forall_rearranged spelled_N spelled_Q).mpr
        (List.forall_mem_append.mpr ⟨hspelled, fun c hc => (symbol_narrow c (halphabet c hc)).2⟩)
    obtain ⟨a, ha⟩ := (base32Decode_returns hlen.le).2.mpr halphabet
    have hsplit : splitAtByte 2 (check ++ base32) = some (check, base32) := splitAtByte_eq_some_iff.mpr ⟨rfl, hcheck⟩
    have h36 : byteLen (compact input) = 36 := by
      rw [hs, byteLen_cons, byteLen_cons, byteLen_append, hcheck, hbody]
      rfl
    rcases fromUserFriendly_cases input with ⟨h, -⟩ | ⟨-, h, -⟩ | ⟨-, -, h, -⟩ | ⟨rest, h, -, h', -⟩ |
      ⟨check', base32', hs', hcheck', -, h⟩
    · exact absurd h36 h
    · rw [hs] at h
      rw [show isCharBoundary ('N' :: 'Q' :: (check ++ base32)) 2 = true from
        isCharBoundary_append ['N', 'Q'] (check ++ base32)] at h
      cases h
    · exact absurd hs (h _)
    · obtain rfl : rest = check ++ base32 := by rw [hs] at h; simpa [eq_comm] using h
      rw [isCharBoundary, hsplit] at h'
      cases h'
    · have heq : check ++ base32 = check' ++ base32' := by rw [hs] at hs'; simpa using hs'
      have hsplit' := splitAtByte_eq_some_iff.mpr ⟨heq, hcheck'⟩
      rw [hsplit] at hsplit'
      obtain ⟨rfl, rfl⟩ := Prod.mk.inj (Option.some.inj hsplit')
      refine ⟨a, ?_⟩
      rw [h, ibanMod97_of_spelled hall, ok_bind, if_neg (not_not.mpr hone), ha]

/-- Two bytes are two characters or one. -/
theorem eq_of_byteLen_two {s : Text} (h : byteLen s = 2) : s.length = 2 ∨ ∃ c, s = [c] ∧ c.utf8Size = 2 := by
  rcases s with _ | ⟨a, _ | ⟨b, _ | ⟨c, s⟩⟩⟩
  · simp at h
  · exact .inr ⟨a, rfl, by simpa using h⟩
  · exact .inl rfl
  · have ha := a.utf8Size_pos
    have hb := b.utf8Size_pos
    have hc := c.utf8Size_pos
    simp only [byteLen_cons] at h
    omega

theorem spelled_of_wide {c : Char} (h : c.utf8Size = 2) : Spelled c := by
  have hwide : 0x7f < c.val.toNat := by
    by_contra hle
    rw [Char.utf8Size, if_pos (by rw [UInt32.le_iff_toNat_le]; simpa using hle)] at h
    cases h
  refine .inr ?_
  have hz : ¬ c ≤ 'z' := fun hle => by
    have : c.val.toNat ≤ 122 := UInt32.le_iff_toNat_le.mp hle
    omega
  rw [toAsciiUppercase, if_neg fun h => hz h.2]
  change 65 ≤ c.val.toNat
  omega

/-- EXACT: what is accepted is well formed unless one character stands for both check digits. -/
theorem accepts_wellFormed_iff (input : Text) :
    (∀ a, fromUserFriendly input = .ok a → WellFormed (compact input)) ↔ ¬ SharedCheck (compact input) := by
  constructor
  · rintro h ⟨c, base32, hs, hwide, hlen, halphabet, hone⟩
    obtain ⟨a, ha⟩ := (fromUserFriendly_accepts_iff input).mpr
      ⟨[c], base32, hs, by simpa using hwide, hlen, halphabet, by simpa using spelled_of_wide hwide, hone⟩
    obtain ⟨check, base32', hs', hcheck, hlen', -⟩ := h a ha
    have hlength := congrArg List.length (hs.symm.trans hs')
    simp only [List.length_cons, List.length_append] at hlength
    omega
  · intro hno a ha
    obtain ⟨check, base32, hs, hcheck, hlen, halphabet, -, hone⟩ := (fromUserFriendly_accepts_iff input).mp ⟨a, ha⟩
    rcases eq_of_byteLen_two hcheck with htwo | ⟨c, rfl, hwide⟩
    · exact ⟨check, base32, hs, htwo, hlen, halphabet, hone⟩
    · exact absurd ⟨c, base32, hs, hwide, hlen, halphabet, hone⟩ hno

end NimAddress

end Nimmesh
