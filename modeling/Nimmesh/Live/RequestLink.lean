import Nimmesh.Live.RequestUri

/-! @src request_uri.rs nimiq/address.rs | name:Links round trip and faults | layer:properties

    A link read back gives the address, the amount and the message it was built from: the two separators never
    occur inside a parameter, and an amount is read only as the number it denotes. Only the address part can
    stop the reader with a fault. -/

namespace Nimmesh
open Checked Text

/-! ### Amounts -/

/-- The text is a decimal number, and in NIM it is so many luna. -/
def Denotes (s : Text) (luna : ℕ) : Prop :=
  ∃ int frac : Text, (s = int ∧ frac = [] ∨ s = int ++ '.' :: frac) ∧ int ≠ [] ∧ (∀ c ∈ int ++ frac, c.isDigit = true) ∧
    luna * 10 ^ frac.length = Nat.ofDigitChars 10 (int ++ frac) 0 * lunaPerNim

theorem splitOnce_append {sep : Char} {s : Text} (h : sep ∉ s) (t : Text) :
    splitOnce sep (s ++ sep :: t) = some (s, t) := by
  have hne : ∀ c ∈ s, (c != sep) = true := by
    intro c hc
    rw [bne_iff_ne]
    rintro rfl
    exact h hc
  rw [splitOnce, if_pos (by simp), List.takeWhile_append_of_pos hne, List.dropWhile_append_of_pos hne]
  simp

theorem splitOnce_of_not_mem {sep : Char} {s : Text} (h : sep ∉ s) : splitOnce sep s = none := if_neg h

theorem splitOnce_eq_some {sep : Char} {s front back : Text} (h : splitOnce sep s = some (front, back)) :
    s = front ++ sep :: back := by
  by_cases hmem : sep ∈ s
  · obtain ⟨front', back', rfl, hfront⟩ := List.eq_append_cons_of_mem hmem
    rw [splitOnce_append hfront] at h
    obtain ⟨rfl, rfl⟩ := Prod.mk.inj (Option.some.inj h)
    rfl
  · rw [splitOnce_of_not_mem hmem] at h
    cases h

theorem isDigit_toDigits {n : ℕ} {c : Char} (h : c ∈ Nat.toDigits 10 n) : c.isDigit = true :=
  Nat.isDigit_of_mem_toDigits (by decide) (by decide) h

theorem ofDigitChars_padRight (width : ℕ) (frac : Text) : Nat.ofDigitChars 10 (padRight width frac) 0 =
    10 ^ (width - frac.length) * Nat.ofDigitChars 10 frac 0 := by
  rw [padRight, Nat.ofDigitChars_append, Nat.ofDigitChars_replicate_zero]

theorem parseU64_eq_some_iff {s : Text} {n : ℕ} :
    parseU64 s = some n ↔ Nat.ofDigitChars 10 s 0 = n ∧ n < 2 ^ 64 := by
  simp only [parseU64]
  split_ifs with h
  · simp only [Option.some.injEq]
    constructor
    · rintro rfl
      exact ⟨rfl, h⟩
    · exact fun h => h.1
  · simp only [false_iff]
    rintro ⟨rfl, hlt⟩
    exact h hlt

theorem padRight_ne_nil (s : Text) : padRight nimDecimals s ≠ [] := by
  intro h
  have hlen := congrArg List.length h
  simp only [padRight, List.length_append, List.length_replicate, List.length_nil, nimDecimals] at hlen
  omega

theorem amountParts_spec (s : Text) :
    s = (amountParts s).1 ∧ (amountParts s).2 = [] ∨ s = (amountParts s).1 ++ '.' :: (amountParts s).2 := by
  rw [amountParts]
  cases h : splitOnce '.' s with
  | none => exact .inl ⟨rfl, rfl⟩
  | some p => exact .inr (splitOnce_eq_some h)

/-- EXACT: when an amount is read, and as what. -/
theorem parseNim_eq_some_iff {s : Text} {x : UInt64} :
    parseNim s = some x ↔ (amountParts s).1 ≠ [] ∧ (amountParts s).1.all Char.isDigit = true ∧
      byteLen (amountParts s).2 ≤ nimDecimals ∧ (amountParts s).2.all Char.isDigit = true ∧
      x.toNat = Nat.ofDigitChars 10 (amountParts s).1 0 * lunaPerNim +
        Nat.ofDigitChars 10 (padRight nimDecimals (amountParts s).2) 0 := by
  by_cases hs : s = []
  · subst hs
    exact ⟨fun h => absurd h (Option.some_ne_none x).symm, fun h => absurd rfl h.1⟩
  simp only [parseNim, if_neg hs]
  split_ifs with hint hfrac hnil
  · refine ⟨fun h => h.elim, fun h => ?_⟩
    rcases hint with hint | hint
    · exact absurd hint h.1
    · rw [h.2.1] at hint
      cases hint
  · refine ⟨fun h => h.elim, fun h => ?_⟩
    rcases hfrac with hlen | hall
    · exact absurd h.2.2.1 (Nat.not_le.mpr hlen)
    · rw [h.2.2.2.1] at hall
      cases hall
  · exact absurd hnil (padRight_ne_nil _)
  · obtain ⟨hne, hdigits⟩ := not_or.mp hint
    obtain ⟨hlen, hall⟩ := not_or.mp hfrac
    rw [Bool.not_eq_false] at hdigits hall
    simp only [Option.bind_eq_bind, Option.bind_eq_some_iff, parseU64_eq_some_iff]
    constructor
    · rintro ⟨i, ⟨rfl, hi⟩, f, ⟨rfl, hf⟩, hx⟩
      split_ifs at hx with hfit
      refine ⟨hne, hdigits, Nat.not_lt.mp hlen, hall, ?_⟩
      rw [← Option.some.inj hx]
      exact Nat.mod_eq_of_lt hfit.2
    · rintro ⟨-, -, -, -, hx⟩
      have hlt := x.toNat_lt
      have hpos : 0 < lunaPerNim := by decide
      have hle : Nat.ofDigitChars 10 (amountParts s).1 0 ≤ Nat.ofDigitChars 10 (amountParts s).1 0 * lunaPerNim :=
        Nat.le_mul_of_pos_right _ hpos
      refine ⟨_, ⟨rfl, by omega⟩, _, ⟨rfl, by omega⟩, ?_⟩
      rw [if_pos ⟨by omega, by omega⟩, ← hx]
      exact congrArg some (UInt64.ofNat_toNat)

/-- An amount is read only as the number it denotes. -/
theorem parseNim_denotes {s : Text} {x : UInt64} (h : parseNim s = some x) : Denotes s x.toNat := by
  obtain ⟨hne, hint, hlen, hfrac, hx⟩ := parseNim_eq_some_iff.mp h
  refine ⟨_, _, amountParts_spec s, hne, ?_, ?_⟩
  · rw [List.all_eq_true] at hint hfrac
    exact List.forall_mem_append.mpr ⟨hint, hfrac⟩
  · have hle := (length_le_byteLen _).trans hlen
    have hpow : 10 ^ (nimDecimals - (amountParts s).2.length) * 10 ^ (amountParts s).2.length = lunaPerNim := by
      rw [← pow_add, Nat.sub_add_cancel hle]
      rfl
    have hjoin : Nat.ofDigitChars 10 ((amountParts s).1 ++ (amountParts s).2) 0 =
        10 ^ (amountParts s).2.length * Nat.ofDigitChars 10 (amountParts s).1 0 +
          Nat.ofDigitChars 10 (amountParts s).2 0 := by
      rw [Nat.ofDigitChars_append]
      exact Nat.ofDigitChars_eq_ofDigitChars_zero
    rw [hx, ofDigitChars_padRight, hjoin, Nat.add_mul, Nat.mul_right_comm (10 ^ _), hpow]
    ring

theorem narrow_of_isDigit {c : Char} (h : c.isDigit = true) : c.utf8Size = 1 := by
  have hle : c.val ≤ 57 := by
    simp only [Char.isDigit, Bool.and_eq_true, decide_eq_true_eq] at h
    exact h.2
  have hnat : c.val.toNat ≤ 57 := UInt32.le_iff_toNat_le.mp hle
  rw [Char.utf8Size, if_pos (by rw [UInt32.le_iff_toNat_le]; exact hnat.trans (by decide))]

theorem dot_not_mem {s : Text} (h : ∀ c ∈ s, c.isDigit = true) : '.' ∉ s := by
  intro hmem
  have hdot := h '.' hmem
  cases hdot

/-- Trimmed zeros are what the padding puts back. -/
theorem padRight_trimZeros {s : Text} {width : ℕ} (h : s.length = width) : padRight width (trimZeros s) = s := by
  have hsplit : s = trimZeros s ++ List.replicate (width - (trimZeros s).length) '0' := by
    have htake : s.reverse.takeWhile (· == '0') = List.replicate (s.reverse.takeWhile (· == '0')).length '0' := by
      refine List.eq_replicate_of_mem fun c hc => ?_
      simpa using List.all_eq_true.mp List.all_takeWhile c hc
    have hrev : s = trimZeros s ++ (s.reverse.takeWhile (· == '0')).reverse := by
      rw [trimZeros, ← List.reverse_append, List.takeWhile_append_dropWhile, List.reverse_reverse]
    have hlen := congrArg List.length hrev
    rw [List.length_append, List.length_reverse] at hlen
    rw [show width - (trimZeros s).length = (s.reverse.takeWhile (· == '0')).length by omega]
    rw [htake, List.reverse_replicate] at hrev
    exact hrev
  exact hsplit.symm

theorem mem_of_mem_trimZeros {s : Text} {c : Char} (h : c ∈ trimZeros s) : c ∈ s := by
  rw [trimZeros, List.mem_reverse] at h
  exact List.mem_reverse.mp ((List.dropWhile_sublist _).mem h)

/-- CORRECT: an amount that was written is read back. -/
theorem parseNim_formatNim (x : UInt64) : parseNim (formatNim x) = some x := by
  have hdigits (n : ℕ) : ∀ c ∈ Nat.toDigits 10 n, c.isDigit = true := fun c hc => isDigit_toDigits hc
  have hdiv := Nat.div_add_mod x.toNat lunaPerNim
  have hmod : x.toNat % lunaPerNim < lunaPerNim := Nat.mod_lt _ (by decide)
  rw [parseNim_eq_some_iff, formatNim]
  split_ifs with hzero
  · have hparts : amountParts (Nat.toDigits 10 (x.toNat / lunaPerNim)) = (Nat.toDigits 10 (x.toNat / lunaPerNim), []) := by
      rw [amountParts, splitOnce_of_not_mem (dot_not_mem (hdigits _))]
      rfl
    rw [hparts]
    refine ⟨Nat.toDigits_ne_nil, List.all_eq_true.mpr (hdigits _), Nat.zero_le _, rfl, ?_⟩
    rw [Nat.ofDigitChars_ten_toDigits, show Nat.ofDigitChars 10 (padRight nimDecimals []) 0 = 0 by decide]
    rw [Nat.mul_comm] at hdiv
    omega
  · have hparts : amountParts (Nat.toDigits 10 (x.toNat / lunaPerNim) ++
        '.' :: trimZeros (padLeft nimDecimals (Nat.toDigits 10 (x.toNat % lunaPerNim)))) =
        (Nat.toDigits 10 (x.toNat / lunaPerNim),
          trimZeros (padLeft nimDecimals (Nat.toDigits 10 (x.toNat % lunaPerNim)))) := by
      rw [amountParts, splitOnce_append (dot_not_mem (hdigits _))]
      rfl
    have hfive : (padLeft nimDecimals (Nat.toDigits 10 (x.toNat % lunaPerNim))).length = nimDecimals := by
      have hle : (Nat.toDigits 10 (x.toNat % lunaPerNim)).length ≤ nimDecimals :=
        (Nat.length_toDigits_le_iff (by decide) (by decide)).mpr hmod
      rw [padLeft, List.length_append, List.length_replicate]
      omega
    have hfrac : ∀ c ∈ trimZeros (padLeft nimDecimals (Nat.toDigits 10 (x.toNat % lunaPerNim))), c.isDigit = true := by
      intro c hc
      rcases List.mem_append.mp (mem_of_mem_trimZeros hc) with hpad | hnum
      · rw [List.eq_of_mem_replicate hpad]
        rfl
      · exact hdigits _ c hnum
    rw [hparts]
    refine ⟨Nat.toDigits_ne_nil, List.all_eq_true.mpr (hdigits _), ?_, List.all_eq_true.mpr hfrac, ?_⟩
    · rw [byteLen_of_narrow fun c hc => narrow_of_isDigit (hfrac c hc)]
      have hpad := congrArg List.length (padRight_trimZeros hfive)
      rw [hfive, padRight, List.length_append] at hpad
      omega
    · rw [padRight_trimZeros hfive, padLeft, Nat.ofDigitChars_append, Nat.ofDigitChars_replicate_zero,
        Nat.mul_zero, Nat.ofDigitChars_ten_toDigits, Nat.ofDigitChars_ten_toDigits, Nat.mul_comm]
      exact hdiv.symm

/-! ### Percent encoding -/

/-- A byte that stays is one character, and is not read as anything else. -/
theorem unreserved_spec : ∀ n < 256, isUnreserved n.toUInt8 = true →
    String.utf8EncodeChar (Char.ofNat n) = [n.toUInt8] ∧ n.toUInt8 ≠ '%'.toNat.toUInt8 ∧
      n.toUInt8 ≠ '+'.toNat.toUInt8 ∧ Char.ofNat n ≠ '&' ∧ Char.ofNat n ≠ '=' := by
  decide +kernel

theorem hexDigit_spec : ∀ n < 16, toDigit16 (hexDigit n).toNat.toUInt8 = some n ∧
    String.utf8EncodeChar (hexDigit n) = [(hexDigit n).toNat.toUInt8] ∧ hexDigit n ≠ '&' ∧ hexDigit n ≠ '=' := by
  decide

theorem toUInt8_toNat (b : UInt8) : b.toNat.toUInt8 = b := UInt8.ofNat_toNat

theorem percentDecodeBytes_of_ne {b : UInt8} (hpercent : b ≠ '%'.toNat.toUInt8) (hplus : b ≠ '+'.toNat.toUInt8)
    (rest : Bytes) : percentDecodeBytes (b :: rest) = (percentDecodeBytes rest).map (b :: ·) := by
  have hstep : percentDecodeBytes (b :: rest) = (percentDecodeBytes rest).bind fun out => some (b :: out) := by
    rcases rest with _ | ⟨hi, _ | ⟨lo, rest⟩⟩ <;>
    · conv_lhs => rw [percentDecodeBytes.eq_def]
      simp only [if_neg hpercent, if_neg hplus]
      rfl
  rw [hstep]
  cases percentDecodeBytes rest <;> rfl

/-- STEP: an encoded byte decodes to itself. -/
theorem percentDecodeBytes_encoded (b : UInt8) (rest : Bytes) :
    percentDecodeBytes ((percentEncodeByte b).flatMap String.utf8EncodeChar ++ rest) =
      (percentDecodeBytes rest).map (b :: ·) := by
  rw [percentEncodeByte]
  split_ifs with h
  · obtain ⟨hbytes, hpercent, hplus, -, -⟩ := unreserved_spec b.toNat b.toNat_lt (by rwa [toUInt8_toNat])
    rw [toUInt8_toNat] at hbytes hpercent hplus
    rw [List.flatMap_singleton, hbytes, List.singleton_append, percentDecodeBytes_of_ne hpercent hplus]
  · have hb := b.toNat_lt
    obtain ⟨hhi, hhi', -, -⟩ := hexDigit_spec (b.toNat / 16) (by omega)
    obtain ⟨hlo, hlo', -, -⟩ := hexDigit_spec (b.toNat % 16) (by omega)
    have hpercent : String.utf8EncodeChar '%' = ['%'.toNat.toUInt8] := by decide
    simp only [List.flatMap_cons, List.flatMap_nil, List.append_nil, hpercent, hhi', hlo',
      List.cons_append, List.nil_append]
    rw [percentDecodeBytes, if_pos rfl]
    simp only [hhi, hlo, Option.bind_eq_bind, Option.bind_some]
    rw [show b.toNat / 16 * 16 + b.toNat % 16 = b.toNat by omega, toUInt8_toNat]
    cases percentDecodeBytes rest <;> rfl

/-- RUN: so do all bytes of a text. -/
theorem percentDecodeBytes_flatMap (bytes : Bytes) :
    percentDecodeBytes ((bytes.flatMap percentEncodeByte).flatMap String.utf8EncodeChar) = some bytes := by
  induction bytes with
  | nil => rfl
  | cons b bytes ih =>
    rw [List.flatMap_cons, List.flatMap_append, percentDecodeBytes_encoded, ih]
    rfl

/-- CORRECT: a message that was encoded is read back. -/
theorem percentDecode_percentEncode (s : Text) : percentDecode (percentEncode s) = some s := by
  rw [percentDecode, percentEncode, utf8Bytes_ofList, percentDecodeBytes_flatMap]
  simp only [Option.bind_eq_bind, Option.bind_some, fromUtf8_utf8Bytes, String.toList_ofList]
  rfl

theorem separators_not_mem_percentEncode (s : Text) : '&' ∉ percentEncode s ∧ '=' ∉ percentEncode s := by
  have hbyte (b : UInt8) : ∀ c ∈ percentEncodeByte b, c ≠ '&' ∧ c ≠ '=' := by
    intro c hc
    rw [percentEncodeByte] at hc
    split_ifs at hc with h
    · rw [List.mem_singleton.mp hc]
      obtain ⟨-, -, -, hamp, heq⟩ := unreserved_spec b.toNat b.toNat_lt (by rwa [toUInt8_toNat])
      exact ⟨hamp, heq⟩
    · have hb := b.toNat_lt
      simp only [List.mem_cons, List.not_mem_nil, or_false] at hc
      rcases hc with rfl | rfl | rfl
      · decide
      · exact (hexDigit_spec (b.toNat / 16) (by omega)).2.2
      · exact (hexDigit_spec (b.toNat % 16) (by omega)).2.2
  have hall : ∀ c ∈ percentEncode s, c ≠ '&' ∧ c ≠ '=' := by
    intro c hc
    obtain ⟨b, -, hcb⟩ := List.mem_flatMap.mp hc
    exact hbyte b c hcb
  exact ⟨fun h => (hall _ h).1 rfl, fun h => (hall _ h).2 rfl⟩

theorem formatNim_chars (x : UInt64) : ∀ c ∈ formatNim x, c.isDigit = true ∨ c = '.' := by
  intro c hc
  rw [formatNim] at hc
  split_ifs at hc
  · exact .inl (isDigit_toDigits hc)
  · rcases List.mem_append.mp hc with hint | hfrac
    · exact .inl (isDigit_toDigits hint)
    rcases List.mem_cons.mp hfrac with rfl | hfrac
    · exact .inr rfl
    rcases List.mem_append.mp (mem_of_mem_trimZeros hfrac) with hpad | hnum
    · rw [List.eq_of_mem_replicate hpad]
      exact .inl rfl
    · exact .inl (isDigit_toDigits hnum)

theorem separators_not_mem_formatNim (x : UInt64) : '&' ∉ formatNim x ∧ '=' ∉ formatNim x := by
  constructor <;>
  · intro h
    have hc := formatNim_chars x _ h
    revert hc
    decide

/-! ### Links -/

/-- The parameters hold no separator between parameters, and are not empty. -/
theorem requestParams_spec (amountLuna : UInt64) (message : Option Text) :
    ∀ p ∈ requestParams amountLuna message, '&' ∉ p ∧ p ≠ [] := by
  have hparam (key value : Text) (hkey : '&' ∉ key) (hvalue : '&' ∉ value) :
      '&' ∉ key ++ '=' :: value ∧ key ++ '=' :: value ≠ [] := by
    refine ⟨fun h => ?_, by simp⟩
    rcases List.mem_append.mp h with h | h
    · exact hkey h
    rcases List.mem_cons.mp h with h | h
    · cases h
    · exact hvalue h
  intro p hp
  rcases List.mem_append.mp hp with hp | hp
  · split_ifs at hp
    · rw [List.mem_singleton.mp hp]
      exact hparam _ _ (by decide) (separators_not_mem_formatNim amountLuna).1
    · cases hp
  · obtain ⟨msg, -, rfl⟩ := List.mem_map.mp hp
    exact hparam _ _ (by decide) (separators_not_mem_percentEncode msg).1

/-- STEP: the parameter of the amount. -/
theorem readParam_amount (st : UInt64 × Option Text) (x : UInt64) :
    readParam st (amountKey ++ '=' :: formatNim x) = .ok (x, st.2) := by
  rw [readParam, splitOnce_append (by decide), Option.getD_some]
  simp only
  rw [if_pos trivial, parseNim_formatNim]

/-- STEP: the parameter of the message. -/
theorem readParam_message (st : UInt64 × Option Text) {msg : Text} (h : msg ≠ []) :
    readParam st (messageKey ++ '=' :: percentEncode msg) = .ok (st.1, some msg) := by
  rw [readParam, splitOnce_append (by decide), Option.getD_some]
  simp only
  rw [if_neg (by decide), if_pos trivial, percentDecode_percentEncode]
  simp only [if_neg h]

/-- RUN: the parameters of a link are read back. -/
theorem foldlM_readParam (amountLuna : UInt64) (message : Option Text) (h : message ≠ some []) :
    (requestParams amountLuna message).foldlM readParam (0, none) = .ok (amountLuna, message) := by
  have hamount : (if 0 < amountLuna then [amountKey ++ '=' :: formatNim amountLuna] else []).foldlM readParam (0, none) =
      .ok (amountLuna, none) := by
    split_ifs with hpos
    · rw [List.foldlM_cons, readParam_amount, ok_bind]
      rfl
    · have hzero : amountLuna = 0 := by
        rw [UInt64.lt_iff_toNat_lt] at hpos
        exact UInt64.toNat_inj.mp (Nat.eq_zero_of_not_pos hpos)
      rw [hzero]
      rfl
  rw [requestParams, List.foldlM_append, hamount, ok_bind]
  cases message with
  | none => rfl
  | some msg =>
    have hne : msg ≠ [] := fun hnil => h (by rw [hnil])
    rw [Option.filter_some, if_pos (by simpa using hne), Option.toList_some, List.map_singleton, List.foldlM_cons,
      readParam_message _ hne, ok_bind]
    rfl

namespace NimAddress

/-- The parser sees only the compact text. -/
theorem fromUserFriendly_congr {s t : Text} (h : compact s = compact t) : fromUserFriendly s = fromUserFriendly t := by
  rw [fromUserFriendly, h]
  rfl

theorem fromUserFriendly_grouped (a : NimAddress) : fromUserFriendly (grouped (canonical a)) = .ok a := by
  obtain ⟨hcheck, hdigits⟩ := checkDigits_spec a
  obtain ⟨hbody, hsymbols⟩ := base32Encode_alphabet a
  rw [fromUserFriendly_of_symbols (compact_canonical a) hcheck hbody
    (List.forall_mem_append.mpr ⟨fun c hc => (hdigits c hc).2, hsymbols⟩),
    if_neg (not_not.mpr (check_canonical a)), base32Decode_base32Encode]

theorem fromUserFriendly_canonical (a : NimAddress) : fromUserFriendly (canonical a) = .ok a := by
  refine (fromUserFriendly_congr ?_).trans (fromUserFriendly_grouped a)
  rw [compact_canonical, compact, List.filter_eq_self.mpr fun c hc => by
    rw [(symbol_compact c (canonical_symbols a c hc)).1]; rfl]
  exact (List.map_congr_left fun c hc => (symbol_compact c (canonical_symbols a c hc)).2).trans (List.map_id _)

end NimAddress

open NimAddress

theorem buildRequestUri_eq (a : NimAddress) (amountLuna : UInt64) (message : Option Text) :
    buildRequestUri (grouped (canonical a)) amountLuna message = .ok (scheme ++ canonical a ++
      if requestParams amountLuna message = [] then [] else
        '?' :: ['&'].intercalate (requestParams amountLuna message)) := by
  rw [buildRequestUri, fromUserFriendly_grouped]
  simp only [ok?, ok_bind, toUserFriendly_eq, filter_canonical]
  rfl

theorem parseRequestUri_eq (rest : Text) : parseRequestUri (scheme ++ rest) = (do
    let addr ← ok? (fromUserFriendly (splitQuery rest).1)
    let address ← toUserFriendly addr
    let pairs := ((splitQuery rest).2.map fun query => (query.splitOn '&').filter (· ≠ [])).getD []
    let (amountLuna, message) ← pairs.foldlM readParam (0, none)
    return { address, amountLuna, message }) := by
  have hdrop : (scheme ++ rest).dropPrefix? scheme = some rest := by
    rw [List.dropPrefix?_eq_some_iff]
    exact ⟨scheme, rfl, by simp⟩
  rw [parseRequestUri, hdrop]

/-- CORRECT: a link gives back the address, the amount and the message it was built from; an amount that was
    written is read back, and one that is read is the number that the text denotes. -/
theorem request_link_round_trip :
    (∀ (a : NimAddress) (amountLuna : UInt64) (message : Option Text), message ≠ some [] →
      ∃ t uri, (toUserFriendly a : Result Unit Text) = .ok t ∧ buildRequestUri t amountLuna message = .ok uri ∧
        parseRequestUri uri = .ok ⟨t, amountLuna, message⟩) ∧
    (∀ x : UInt64, parseNim (formatNim x) = some x) ∧
    ∀ (s : Text) (x : UInt64), parseNim s = some x → Denotes s x.toNat := by
  refine ⟨fun a amountLuna message hmsg => ?_, parseNim_formatNim, fun s x h => parseNim_denotes h⟩
  refine ⟨_, _, toUserFriendly_eq a, buildRequestUri_eq a amountLuna message, ?_⟩
  have hquestion : '?' ∉ canonical a := fun h => absurd (canonical_symbols a _ h) (by decide)
  have hpairs : ((splitQuery (canonical a ++ if requestParams amountLuna message = [] then [] else
      '?' :: ['&'].intercalate (requestParams amountLuna message))).1 = canonical a) ∧
      (((splitQuery (canonical a ++ if requestParams amountLuna message = [] then [] else
        '?' :: ['&'].intercalate (requestParams amountLuna message))).2.map
          fun query => (query.splitOn '&').filter (· ≠ [])).getD []) = requestParams amountLuna message := by
    split_ifs with hnil
    · rw [List.append_nil, splitQuery, splitOnce_of_not_mem hquestion, hnil]
      exact ⟨rfl, rfl⟩
    · rw [splitQuery, splitOnce_append hquestion]
      refine ⟨rfl, ?_⟩
      have hspec := requestParams_spec amountLuna message
      simp only [Option.map_some, Option.getD_some]
      rw [List.splitOn_intercalate '&' (fun p hp => (hspec p hp).1) hnil]
      exact List.filter_eq_self.mpr fun p hp => by simpa using (hspec p hp).2
  rw [List.append_assoc, parseRequestUri_eq, hpairs.1, hpairs.2, fromUserFriendly_canonical]
  simp only [ok?, ok_bind, toUserFriendly_eq, foldlM_readParam amountLuna message hmsg]
  rfl

/-! ### Faults -/

theorem returns_readParam (st : UInt64 × Option Text) (pair : Text) : Returns (readParam st pair) := by
  rw [readParam]
  simp only
  split_ifs
  · cases parseNim ((splitOnce '=' pair).getD (pair, [])).2 <;> simp
  · cases percentDecode ((splitOnce '=' pair).getD (pair, [])).2 <;> simp
  · exact returns_ok st

theorem returns_foldlM_readParam (pairs : List Text) (st : UInt64 × Option Text) :
    Returns (pairs.foldlM readParam st) := by
  induction pairs generalizing st with
  | nil => exact returns_pure st
  | cons pair pairs ih =>
    rw [List.foldlM_cons]
    exact returns_bind_iff.mpr ⟨returns_readParam st pair, fun st' _ => ih st'⟩

theorem returns_ok?_fromUserFriendly_iff (input : Text) :
    Returns (ok? (fromUserFriendly input)) ↔ Sliceable (compact input) := by
  rw [returns_ok?_iff, returns_fromUserFriendly_iff]

/-- EXACT: parsing an address returns, and accepts only what is well formed, if the text can be cut and read and no
    single character stands for the two check digits; a link returns if the text of its address can be cut and
    read. -/
theorem address_parsing_safe_iff (input : Text) :
    ((Returns (fromUserFriendly input) ∧
        ∀ a, fromUserFriendly input = .ok a → NimAddress.WellFormed (compact input)) ↔
      Sliceable (compact input) ∧ ¬ SharedCheck (compact input)) ∧
    (∀ uri : Text, Returns (parseRequestUri uri) ↔
      ∀ addr, addressPart uri = some addr → Sliceable (compact addr)) ∧
    ∀ (address : Text) (amountLuna : UInt64) (message : Option Text),
      Returns (buildRequestUri address amountLuna message) ↔ Sliceable (compact address) := by
  refine ⟨?_, fun uri => ?_, fun address amountLuna message => ?_⟩
  · rw [returns_fromUserFriendly_iff, accepts_wellFormed_iff]
  · rw [parseRequestUri, addressPart]
    cases hdrop : uri.dropPrefix? scheme with
    | none => simp
    | some rest =>
      simp only [Option.map_some, Option.some.injEq, forall_eq']
      rw [returns_bind_iff, returns_ok?_fromUserFriendly_iff]
      refine ⟨fun h => h.1, fun h => ⟨h, fun a _ => ?_⟩⟩
      rw [toUserFriendly_eq, ok_bind, returns_bind_iff]
      exact ⟨returns_foldlM_readParam _ _, fun st _ => returns_pure _⟩
  · rw [buildRequestUri, returns_bind_iff, returns_ok?_fromUserFriendly_iff]
    refine ⟨fun h => h.1, fun h => ⟨h, fun a _ => ?_⟩⟩
    rw [toUserFriendly_eq, ok_bind]
    exact returns_pure _

/-- A sign of three bytes lies across byte 2, a hyphen is below `A`, and a letter of two bytes is taken for both
    check digits. -/
theorem address_texts_mishandled :
    fromUserFriendly ('N' :: '€' :: List.replicate 32 '0') = fault .slice ∧
      fromUserFriendly ('N' :: 'Q' :: '-' :: '-' :: List.replicate 32 '0') = fault .overflow ∧
      fromUserFriendly ('N' :: 'Q' :: 'Ā' :: List.replicate 32 '0') = .ok (ByteArr.fill 20 0) ∧
      (compact ('N' :: 'Q' :: 'Ā' :: List.replicate 32 '0')).length = 35 := by
  decide +kernel

end Nimmesh
