import Nimmesh.Live.AddressParse
import Mathlib.Data.List.Induction
import Mathlib.Data.Nat.ModEq

/-! @src nimiq/address.rs | name:Round trip and typos | layer:properties

    The bytes of an address come back from its text however it is spaced and cased. The check makes the number
    that the text spells 1 modulo 97; a changed character, or two that change places, move that number by less
    than 97 times a power of ten, so that it cannot be 1 again. -/

namespace Nimmesh
open Checked Regroup Text

namespace NimAddress

/-! ### Numbers -/

/-- The factor by which a text shifts what is before it. -/
def places (s : Text) : ℕ := (s.map weight).prod

theorem foldl_ibanNumber (s : Text) (n : ℕ) :
    s.foldl (fun n c => n * weight c + charValue c) n = n * places s + ibanNumber s := by
  induction s generalizing n with
  | nil => simp [places, ibanNumber]
  | cons c s ih =>
    have hcons : ibanNumber (c :: s) = charValue c * places s + ibanNumber s := by
      simp only [ibanNumber, List.foldl_cons, Nat.zero_mul, Nat.zero_add]
      exact ih _
    rw [List.foldl_cons, ih, hcons, places, places, List.map_cons, List.prod_cons]
    ring

theorem ibanNumber_append (s t : Text) : ibanNumber (s ++ t) = ibanNumber s * places t + ibanNumber t := by
  rw [ibanNumber, List.foldl_append]
  exact foldl_ibanNumber t _

theorem coprime_places (s : Text) : Nat.Coprime 97 (places s) := by
  induction s with
  | nil => exact Nat.coprime_one_right 97
  | cons c s ih =>
    have hweight : Nat.Coprime 97 (weight c) := by
      unfold weight
      split_ifs <;> decide
    exact hweight.mul_right ih

/-- Two parts of one weight, in one place, are told apart by the remainder. -/
theorem ibanNumber_part {u v m m' : Text} (hplaces : places m = places m')
    (h : ibanNumber (u ++ m ++ v) % 97 = ibanNumber (u ++ m' ++ v) % 97) : ibanNumber m % 97 = ibanNumber m' % 97 := by
  simp only [ibanNumber_append, Nat.add_mul, Nat.add_assoc, hplaces] at h
  have hcut : Nat.ModEq 97 (ibanNumber m * places v) (ibanNumber m' * places v) :=
    Nat.ModEq.add_right_cancel' (ibanNumber v) (Nat.ModEq.add_left_cancel' (ibanNumber u * places m' * places v) h)
  exact Nat.ModEq.cancel_right_of_coprime (coprime_places v) hcut

/-! ### Base32 -/

/-- RUN: less than a group is pending after each byte. -/
theorem encoding_run (bytes : Bytes) : Spells 8 5 (bytes.map UInt8.toNat) (bytes.foldl base32EncodeStep {}) ∧
    (bytes.foldl base32EncodeStep {}).bits < 5 := by
  induction bytes using List.reverseRecOn with
  | nil => exact ⟨spells_nil 8 5, by decide⟩
  | append_singleton bytes b ih =>
    obtain ⟨hspells, hbits⟩ := ih
    rw [List.foldl_append, List.map_append]
    exact ⟨(hspells.push b.toNat_lt (by omega)).drain _, bits_drain_lt (by decide) _ le_rfl⟩

/-- The groups of an address: 32 of them, and they spell it. -/
theorem base32Encode_eq (a : NimAddress) : ∃ ds : List ℕ, base32Encode a.1 = ds.map base32Symbol ∧ ds.length = 32 ∧
    (∀ d ∈ ds, d < 2 ^ 5) ∧ value (2 ^ 5) ds = value (2 ^ 8) (a.1.map UInt8.toNat) := by
  obtain ⟨hspells, hbits⟩ := encoding_run a.1
  have hcount := hspells.count
  rw [List.length_map, a.2] at hcount
  simp only [nimAddressLen] at hcount
  have hzero : (a.1.foldl base32EncodeStep {}).bits = 0 := by omega
  have hnumber := hspells.number
  rw [hzero, pow_zero, Nat.mod_one, Nat.mul_one, Nat.add_zero] at hnumber
  exact ⟨_, rfl, by omega, hspells.digits, hnumber⟩

theorem symbol_idx : ∀ d < 2 ^ 5, base32Symbol d ∈ base32Alphabet ∧ base32Alphabet.idxOf (base32Symbol d) = d := by
  decide

theorem base32Encode_alphabet (a : NimAddress) : (base32Encode a.1).length = 32 ∧
    ∀ c ∈ base32Encode a.1, c ∈ base32Alphabet := by
  obtain ⟨ds, hds, hlen, hlt, -⟩ := base32Encode_eq a
  rw [hds, List.length_map]
  refine ⟨hlen, fun c hc => ?_⟩
  obtain ⟨d, hd, rfl⟩ := List.mem_map.mp hc
  exact (symbol_idx d (hlt d hd)).1

/-- CORRECT: the symbols of an address decode to its bytes. -/
theorem base32Decode_base32Encode (a : NimAddress) : base32Decode (base32Encode a.1) = .ok a := by
  obtain ⟨ds, hds, hlen, hlt, hvalue⟩ := base32Encode_eq a
  have hidx : (ds.map base32Symbol).map base32Alphabet.idxOf = ds := by
    rw [List.map_map]
    exact (List.map_congr_left fun d hd => (symbol_idx d (hlt d hd)).2).trans (List.map_id ds)
  obtain ⟨acc, hrun, hdec⟩ := decoding_nil.run (base32Encode_alphabet a).2 (by
    rw [(base32Encode_alphabet a).1]
    exact le_rfl)
  rw [hds, hidx, List.nil_append] at hdec
  have hcount := hdec.spells.count
  have hpending := hdec.pending
  have hzero : acc.bits = 0 := by omega
  have hnumber := hdec.spells.number
  rw [hzero, pow_zero, Nat.mod_one, Nat.mul_one, Nat.add_zero, hvalue] at hnumber
  have hout : acc.out = a.1.map UInt8.toNat := by
    refine value_inj (by decide) ?_ hdec.spells.digits ?_ hnumber
    · rw [List.length_map, a.2]
      simp only [nimAddressLen]
      omega
    · intro d hd
      obtain ⟨b, -, rfl⟩ := List.mem_map.mp hd
      exact b.toNat_lt
  rw [base32Decode, hrun, ok_bind]
  refine congrArg Except.ok (Subtype.ext ?_)
  rw [show (List.Vector.ofFn _).1 = List.ofFn _ from List.Vector.toList_ofFn _, hout]
  refine List.ext_getElem (by rw [List.length_ofFn, a.2]) fun i hi hi' => ?_
  simp [List.getD_eq_getElem?_getD]

/-! ### The text of an address -/

theorem twoDigits_spec : ∀ n < 100, (twoDigits n).length = 2 ∧ ibanNumber (twoDigits n) = n ∧
    places (twoDigits n) = 100 ∧ ∀ c ∈ twoDigits n, (toDigit c).isSome = true ∧ c ∈ base32Alphabet := by
  have hall : ∀ n < 100, (twoDigits n).length = 2 ∧ ibanNumber (twoDigits n) = n ∧ places (twoDigits n) = 100 ∧
      (twoDigits n).all (fun c => decide ((toDigit c).isSome = true ∧ c ∈ base32Alphabet)) = true := by
    decide +kernel
  intro n hn
  obtain ⟨hlen, hnumber, hplaces, hsymbols⟩ := hall n hn
  exact ⟨hlen, hnumber, hplaces, forall_of_all hsymbols⟩

/-- The two check digits. -/
def checkDigits (a : NimAddress) : Text := twoDigits (98 - ibanNumber (base32Encode a.1 ++ ['N', 'Q', '0', '0']) % 97)

/-- The text of an address without its blanks. -/
def canonical (a : NimAddress) : Text := 'N' :: 'Q' :: (checkDigits a ++ base32Encode a.1)

theorem checkDigits_spec (a : NimAddress) : (checkDigits a).length = 2 ∧
    ∀ c ∈ checkDigits a, (toDigit c).isSome = true ∧ c ∈ base32Alphabet := by
  obtain ⟨hlen, -, -, hall⟩ :=
    twoDigits_spec (98 - ibanNumber (base32Encode a.1 ++ ['N', 'Q', '0', '0']) % 97) (by omega)
  exact ⟨hlen, hall⟩

theorem toUserFriendly_eq (a : NimAddress) : (toUserFriendly a : Result ε Text) = .ok (grouped (canonical a)) := by
  have hspelled : ∀ c ∈ base32Encode a.1 ++ ['N', 'Q', '0', '0'], Spelled c := by
    intro c hc
    rcases List.mem_append.mp hc with h | h
    · exact (symbol_narrow c ((base32Encode_alphabet a).2 c h)).2
    · have hfour : ∀ c ∈ ['N', 'Q', '0', '0'], Spelled c := forall_of_all (by decide)
      exact hfour c h
  rw [toUserFriendly]
  simp only [ibanMod97_of_spelled hspelled, ok_bind]
  rw [sub_of_le (show ibanNumber (base32Encode a.1 ++ ['N', 'Q', '0', '0']) % 97 ≤ 98 by omega), ok_bind]
  rfl

/-- CORRECT: the check digits make the check 1. -/
theorem check_canonical (a : NimAddress) :
    ibanNumber (base32Encode a.1 ++ ['N', 'Q'] ++ checkDigits a) % 97 = 1 := by
  obtain ⟨-, hnumber, hplaces, -⟩ :=
    twoDigits_spec (98 - ibanNumber (base32Encode a.1 ++ ['N', 'Q', '0', '0']) % 97) (by omega)
  have hzero : ibanNumber (base32Encode a.1 ++ ['N', 'Q', '0', '0']) =
      ibanNumber (base32Encode a.1 ++ ['N', 'Q']) * 100 := by
    rw [show base32Encode a.1 ++ ['N', 'Q', '0', '0'] = base32Encode a.1 ++ ['N', 'Q'] ++ ['0', '0'] by simp,
      ibanNumber_append, show places ['0', '0'] = 100 by decide, show ibanNumber ['0', '0'] = 0 by decide, Nat.add_zero]
  rw [ibanNumber_append, checkDigits, hnumber, hplaces, ← hzero]
  omega

/-! ### Respellings -/

theorem toNat_toAsciiUppercase {c : Char} (h : 'a' ≤ c ∧ c ≤ 'z') : (toAsciiUppercase c).toNat = c.toNat - 32 := by
  have hlo : 97 ≤ c.toNat := h.1
  have hhi : c.toNat ≤ 122 := h.2
  have hvalid : (c.toNat - 32).isValidChar := by
    left
    omega
  rw [toAsciiUppercase, if_pos h, Char.ofNat, dif_pos hvalid]
  rfl

theorem isWhitespace_toAsciiUppercase (c : Char) : isWhitespace (toAsciiUppercase c) = isWhitespace c := by
  by_cases h : 'a' ≤ c ∧ c ≤ 'z'
  · have hlo : 97 ≤ c.toNat := h.1
    have hhi : c.toNat ≤ 122 := h.2
    have hup := toNat_toAsciiUppercase h
    simp only [isWhitespace, decide_eq_decide]
    omega
  · rw [toAsciiUppercase, if_neg h]

theorem toDigit_toAsciiUppercase (c : Char) : toDigit (toAsciiUppercase c) = toDigit c := by
  by_cases h : 'a' ≤ c ∧ c ≤ 'z'
  · have hlo : 97 ≤ c.toNat := h.1
    have hhi : c.toNat ≤ 122 := h.2
    have hup := toNat_toAsciiUppercase h
    have hnot (x : Char) (hx : 65 ≤ x.toNat) : toDigit x = none := by
      rw [toDigit, if_neg]
      rintro ⟨-, hnine⟩
      have : x.toNat ≤ 57 := hnine
      omega
    rw [hnot _ (by omega), hnot c (by omega)]
  · rw [toAsciiUppercase, if_neg h]

@[simp] theorem compact_nil : compact [] = [] := rfl

@[simp] theorem compact_append (s t : Text) : compact (s ++ t) = compact s ++ compact t := by
  simp [compact]

theorem compact_of_blank {s : Text} (h : ∀ c ∈ s, isWhitespace c = true) : compact s = [] := by
  simpa [compact] using h

theorem compact_blank {w : Char} (h : isWhitespace w = true) : compact [w] = [] := by
  simp [compact, h]

theorem compact_singleton {c : Char} (h : isWhitespace c = false) : compact [c] = [toAsciiUppercase c] := by
  simp [compact, h]

/-- The same text up to whitespace and the case of ASCII letters. -/
inductive Respelled : Text → Text → Prop
  | nil : Respelled [] []
  | letter {c d : Char} {s t : Text} (h : toAsciiUppercase c = toAsciiUppercase d) (rest : Respelled s t) :
      Respelled (c :: s) (d :: t)
  | insert {w : Char} {s t : Text} (h : isWhitespace w = true) (rest : Respelled s t) : Respelled s (w :: t)
  | remove {w : Char} {s t : Text} (h : isWhitespace w = true) (rest : Respelled s t) : Respelled (w :: s) t

theorem Respelled.compact_eq {s t : Text} (h : Respelled s t) : compact t = compact s := by
  induction h with
  | nil => rfl
  | @letter c d s t h _ ih =>
    rw [show d :: t = [d] ++ t from rfl, show c :: s = [c] ++ s from rfl, compact_append, compact_append, ih]
    have hspace : isWhitespace d = isWhitespace c := by
      rw [← isWhitespace_toAsciiUppercase d, ← h, isWhitespace_toAsciiUppercase]
    cases hc : isWhitespace c with
    | true => rw [compact_blank (hspace.trans hc), compact_blank hc]
    | false => rw [compact_singleton (hspace.trans hc), compact_singleton hc, h]
  | @insert w s t h _ ih =>
    rw [show w :: t = [w] ++ t from rfl, compact_append, compact_blank h, List.nil_append, ih]
  | @remove w s t h _ ih =>
    rw [show w :: s = [w] ++ s from rfl, compact_append, compact_blank h, List.nil_append, ih]

theorem symbol_compact : ∀ c ∈ base32Alphabet, isWhitespace c = false ∧ toAsciiUppercase c = c :=
  forall_of_all (by decide)

theorem filter_grouped (s : Text) (h : ∀ c ∈ s, isWhitespace c = false) :
    (grouped s).filter (fun c => !isWhitespace c) = s := by
  have hrun (k : ℕ) : ((s.zipIdx k).flatMap fun p => if 0 < p.2 ∧ p.2 % 4 = 0 then [' ', p.1] else [p.1]).filter
      (fun c => !isWhitespace c) = s := by
    induction s generalizing k with
    | nil => rfl
    | cons c s ih =>
      obtain ⟨hc, hs⟩ := List.forall_mem_cons.mp h
      have hblank : isWhitespace ' ' = true := by decide
      have hone : (if 0 < k ∧ k % 4 = 0 then [' ', c] else [c]).filter (fun c => !isWhitespace c) = [c] := by
        split_ifs <;> simp [hc, hblank]
      rw [List.zipIdx_cons, List.flatMap_cons, List.filter_append, hone, ih hs (k + 1), List.singleton_append]
  exact hrun 0

theorem canonical_symbols (a : NimAddress) : ∀ c ∈ canonical a, c ∈ base32Alphabet := by
  intro c hc
  rcases List.mem_cons.mp hc with rfl | hc
  · decide
  rcases List.mem_cons.mp hc with rfl | hc
  · decide
  rcases List.mem_append.mp hc with hc | hc
  · exact ((checkDigits_spec a).2 c hc).2
  · exact (base32Encode_alphabet a).2 c hc

/-- Without its blanks, the text of an address is in upper case. -/
theorem filter_canonical (a : NimAddress) :
    (grouped (canonical a)).filter (fun c => !isWhitespace c) = canonical a :=
  filter_grouped _ fun c hc => (symbol_compact c (canonical_symbols a c hc)).1

theorem compact_canonical (a : NimAddress) : compact (grouped (canonical a)) = canonical a := by
  rw [compact, filter_canonical]
  exact (List.map_congr_left fun c hc => (symbol_compact c (canonical_symbols a c hc)).2).trans (List.map_id _)

/-! ### Typos -/

/-- Both are digits, or both are letters of the alphabet, in either case. -/
def SameClass (c d : Char) : Prop :=
  toAsciiUppercase c ∈ base32Alphabet ∧ toAsciiUppercase d ∈ base32Alphabet ∧
    (toDigit c).isSome = (toDigit d).isSome

instance (c d : Char) : Decidable (SameClass c d) := inferInstanceAs (Decidable (_ ∧ _))

theorem fromUserFriendly_of_symbols {input check base32 : Text} (hs : compact input = 'N' :: 'Q' :: (check ++ base32))
    (hcheck : check.length = 2) (hbody : base32.length = 32) (hall : ∀ c ∈ check ++ base32, c ∈ base32Alphabet) :
    fromUserFriendly input = if ibanNumber (base32 ++ ['N', 'Q'] ++ check) % 97 ≠ 1 then fail .badChecksum
      else base32Decode base32 := by
  obtain ⟨hcheck', hbody'⟩ := List.forall_mem_append.mp hall
  have hnarrow : byteLen check = 2 := by
    rw [byteLen_of_narrow fun c hc => (symbol_narrow c (hcheck' c hc)).1, hcheck]
  have hspelled : ∀ c ∈ base32 ++ ['N', 'Q'] ++ check, Spelled c :=
    (forall_rearranged spelled_N spelled_Q).mpr fun c hc => (symbol_narrow c (hall c hc)).2
  have hlen : byteLen base32 = 32 := by
    rw [byteLen_of_narrow fun c hc => (symbol_narrow c (hbody' c hc)).1, hbody]
  rcases fromUserFriendly_cases input with ⟨h, -⟩ | ⟨-, h, -⟩ | ⟨-, -, h, -⟩ | ⟨rest, h, -, h', -⟩ |
    ⟨check', base32', hs', hcheck', -, h⟩
  · refine absurd ?_ h
    rw [hs, byteLen_cons, byteLen_cons, byteLen_append, hnarrow, hlen]
    rfl
  · rw [hs] at h
    rw [show isCharBoundary ('N' :: 'Q' :: (check ++ base32)) 2 = true from
      isCharBoundary_append ['N', 'Q'] (check ++ base32)] at h
    cases h
  · exact absurd hs (h _)
  · obtain rfl : rest = check ++ base32 := by rw [hs] at h; simpa [eq_comm] using h
    rw [isCharBoundary, splitAtByte_eq_some_iff.mpr ⟨rfl, hnarrow⟩] at h'
    cases h'
  · have heq : check ++ base32 = check' ++ base32' := by rw [hs] at hs'; simpa using hs'
    have hsplit : splitAtByte 2 (check ++ base32) = some (check, base32) := splitAtByte_eq_some_iff.mpr ⟨rfl, hnarrow⟩
    rw [splitAtByte_eq_some_iff.mpr ⟨heq, hcheck'⟩] at hsplit
    obtain ⟨rfl, rfl⟩ := Prod.mk.inj (Option.some.inj hsplit)
    rw [h, ibanMod97_of_spelled hspelled, ok_bind]

theorem exists_of_append_eq {s t u v : Text} (h : s ++ t = u ++ v) (hlen : u.length ≤ s.length) :
    ∃ r, s = u ++ r ∧ v = r ++ t := by
  obtain ⟨r, rfl⟩ := List.prefix_of_prefix_length_le (h ▸ List.prefix_append u v) (List.prefix_append s t) hlen
  exact ⟨r, rfl, by simpa using h.symm⟩

/-- A part of the check digits or of the body stands in one piece of the number. -/
theorem rearranged_part {check base32 front m back : Text} (h : check ++ base32 = front ++ m ++ back)
    (hcheck : check.length = 2) (hpos : front.length + m.length ≤ 2 ∨ 2 ≤ front.length) :
    ∃ u v : Text, base32 ++ ['N', 'Q'] ++ check = u ++ m ++ v ∧ ∀ m' : Text, m'.length = m.length →
      ∃ check' base32', front ++ m' ++ back = check' ++ base32' ∧ check'.length = 2 ∧
        base32'.length = base32.length ∧ base32' ++ ['N', 'Q'] ++ check' = u ++ m' ++ v := by
  rcases hpos with hpos | hpos
  · obtain ⟨r, rfl, rfl⟩ := exists_of_append_eq h (by simpa [hcheck] using hpos)
    refine ⟨base32 ++ ['N', 'Q'] ++ front, r, by simp, fun m' hm' => ?_⟩
    refine ⟨front ++ m' ++ r, base32, by simp, ?_, rfl, by simp⟩
    simp only [List.length_append] at hcheck ⊢
    omega
  · obtain ⟨r, rfl, rfl⟩ := exists_of_append_eq ((List.append_assoc front m back ▸ h).symm) (by rw [hcheck]; exact hpos)
    refine ⟨r, back ++ ['N', 'Q'] ++ check, by simp, fun m' hm' => ?_⟩
    exact ⟨check, r ++ (m' ++ back), by simp, hcheck, by simp [hm'], by simp⟩

/-- EXACT: a part that is replaced by one with another number is noticed. -/
theorem rejects_of_part {a : NimAddress} {front m m' back : Text} (hs : compact (front ++ m ++ back) = canonical a)
    (hfront : 2 ≤ (compact front).length)
    (hpos : (compact front).length + (compact m).length ≤ 4 ∨ 4 ≤ (compact front).length)
    (hlen : (compact m').length = (compact m).length) (hplaces : places (compact m) = places (compact m'))
    (hall : ∀ c ∈ compact m', c ∈ base32Alphabet)
    (hne : ibanNumber (compact m) % 97 ≠ ibanNumber (compact m') % 97) :
    fromUserFriendly (front ++ m' ++ back) = fail .badChecksum := by
  obtain ⟨hcheck, hdigits⟩ := checkDigits_spec a
  obtain ⟨hbody, hsymbols⟩ := base32Encode_alphabet a
  simp only [compact_append] at hs
  obtain ⟨x, y, p, hp⟩ : ∃ x y p, compact front = x :: y :: p := by
    rcases hc : compact front with _ | ⟨x, _ | ⟨y, p⟩⟩
    · simp [hc] at hfront
    · simp [hc] at hfront
    · exact ⟨x, y, p, rfl⟩
  rw [hp, canonical, List.cons_append, List.cons_append, List.cons_append, List.cons_append] at hs
  obtain ⟨rfl, hQ⟩ := List.cons.inj hs
  obtain ⟨rfl, hrest⟩ := List.cons.inj hQ
  rw [hp] at hpos
  simp only [List.length_cons] at hpos
  obtain ⟨u, v, hold, hnew⟩ := rearranged_part hrest.symm hcheck (by omega)
  obtain ⟨check', base32', hs', hcheck', hbody', hnumber⟩ := hnew (compact m') hlen
  have halphabet : ∀ c ∈ check' ++ base32', c ∈ base32Alphabet := by
    have hparts : ∀ c ∈ p ++ compact m ++ compact back, c ∈ base32Alphabet := by
      rw [hrest]
      exact List.forall_mem_append.mpr ⟨fun c hc => (hdigits c hc).2, hsymbols⟩
    simp only [List.forall_mem_append] at hparts
    rw [← hs', List.forall_mem_append, List.forall_mem_append]
    exact ⟨⟨hparts.1.1, hall⟩, hparts.2⟩
  have hcompact : compact (front ++ m' ++ back) = 'N' :: 'Q' :: (check' ++ base32') := by
    rw [← hs', compact_append, compact_append, hp]
    rfl
  rw [fromUserFriendly_of_symbols hcompact hcheck' (hbody'.trans hbody) halphabet, hnumber, if_pos]
  intro hone
  have hsame : ibanNumber (u ++ compact m ++ v) % 97 = ibanNumber (u ++ compact m' ++ v) % 97 := by
    rw [hone, ← hold, check_canonical]
  exact hne (ibanNumber_part hplaces hsame)

/-- Symbols of one class are told apart by the remainder, alone and beside each other. -/
theorem symbols_apart : ∀ c ∈ base32Alphabet, ∀ d ∈ base32Alphabet, c ≠ d → weight c = weight d →
    ibanNumber [c] % 97 ≠ ibanNumber [d] % 97 ∧ ibanNumber [c, d] % 97 ≠ ibanNumber [d, c] % 97 := by
  have hall : base32Alphabet.all (fun c => base32Alphabet.all fun d => decide (c ≠ d → weight c = weight d →
      ibanNumber [c] % 97 ≠ ibanNumber [d] % 97 ∧ ibanNumber [c, d] % 97 ≠ ibanNumber [d, c] % 97)) = true := by
    decide +kernel
  intro c hc
  exact forall_of_all (List.all_eq_true.mp hall c hc)

theorem compact_symbol {c : Char} (h : toAsciiUppercase c ∈ base32Alphabet) : compact [c] = [toAsciiUppercase c] := by
  refine compact_singleton ?_
  rw [← isWhitespace_toAsciiUppercase]
  exact (symbol_compact _ h).1

theorem SameClass.weight_eq {c d : Char} (h : SameClass c d) :
    weight (toAsciiUppercase c) = weight (toAsciiUppercase d) := by
  simp only [weight, toDigit_toAsciiUppercase, h.2.2]

/-- CORRECT: an address comes back from its text in any spacing and case; a changed character of its class, or two
    of a class that change places, make the check fail. -/
theorem address_round_trip_and_typos (a : NimAddress) :
    ∃ t, (toUserFriendly a : Result AddressError Text) = .ok t ∧ ∀ s, Respelled t s →
      fromUserFriendly s = .ok a ∧
      (∀ front c d back, s = front ++ [c] ++ back → 2 ≤ (compact front).length → SameClass c d →
        toAsciiUppercase c ≠ toAsciiUppercase d → fromUserFriendly (front ++ [d] ++ back) = fail .badChecksum) ∧
      (∀ front c gap d back, s = front ++ ([c] ++ gap ++ [d]) ++ back → (∀ w ∈ gap, isWhitespace w = true) →
        (compact front).length = 2 ∨ 4 ≤ (compact front).length → SameClass c d →
        toAsciiUppercase c ≠ toAsciiUppercase d →
        fromUserFriendly (front ++ ([d] ++ gap ++ [c]) ++ back) = fail .badChecksum) := by
  refine ⟨_, toUserFriendly_eq a, fun s hs => ?_⟩
  have hcompact : compact s = canonical a := by rw [hs.compact_eq, compact_canonical]
  obtain ⟨hcheck, hdigits⟩ := checkDigits_spec a
  obtain ⟨hbody, hsymbols⟩ := base32Encode_alphabet a
  refine ⟨?_, ?_, ?_⟩
  · rw [fromUserFriendly_of_symbols hcompact hcheck hbody
      (List.forall_mem_append.mpr ⟨fun c hc => (hdigits c hc).2, hsymbols⟩),
      if_neg (not_not.mpr (check_canonical a)), base32Decode_base32Encode]
  · rintro front c d back rfl hfront hclass hne
    have hc := compact_symbol hclass.1
    have hd := compact_symbol hclass.2.1
    refine rejects_of_part hcompact hfront ?_ (by rw [hc, hd]; rfl) ?_ ?_ ?_
    · rw [hc, List.length_singleton]
      omega
    · simp [hc, hd, places, hclass.weight_eq]
    · rw [hd]
      simpa using hclass.2.1
    · rw [hc, hd]
      exact (symbols_apart _ hclass.1 _ hclass.2.1 hne hclass.weight_eq).1
  · rintro front c gap d back rfl hgap hfront hclass hne
    have hc := compact_symbol hclass.1
    have hd := compact_symbol hclass.2.1
    have hcd : compact ([c] ++ gap ++ [d]) = [toAsciiUppercase c, toAsciiUppercase d] := by
      rw [compact_append, compact_append, hc, hd, compact_of_blank hgap]
      rfl
    have hdc : compact ([d] ++ gap ++ [c]) = [toAsciiUppercase d, toAsciiUppercase c] := by
      rw [compact_append, compact_append, hc, hd, compact_of_blank hgap]
      rfl
    refine rejects_of_part hcompact (by omega) ?_ (by rw [hcd, hdc]; rfl) ?_ ?_ ?_
    · rw [hcd, List.length_cons, List.length_singleton]
      omega
    · rw [hcd, hdc]
      simp [places, hclass.weight_eq]
    · rw [hdc]
      simpa using ⟨hclass.2.1, hclass.1⟩
    · rw [hcd, hdc]
      exact (symbols_apart _ hclass.1 _ hclass.2.1 hne hclass.weight_eq).2

end NimAddress

end Nimmesh
