import Nimmesh.Lib.Rlp

/-! @lib rlp | name:Items and canonical form | scope:general

    Strings and lists, nested in each other. `decodeCanonical` is strict: it refuses a small byte behind a length,
    a long length where a short one would do and a length with a leading zero. So it accepts exactly the
    encodings: `decodeCanonical_eq_some_iff` says that an item has one byte form and that this form is read back. -/

namespace Rlp

/-- What bytes stand for: a string, or a list of items. -/
inductive Item where
  | str (data : List UInt8)
  | list (items : List Item)

mutual

def Item.encode : Item → List UInt8
  | .str data => rlpBytes data
  | .list items => rlpList (Item.encodeAll items)

def Item.encodeAll : List Item → List (List UInt8)
  | [] => []
  | item :: items => item.encode :: Item.encodeAll items

end

/-! ### Strict reading -/

/-- The length behind a first byte `b` has its only form: short, or from 56 on and without a leading zero. -/
def minimalLength (offset b : UInt8) (rest : List UInt8) : Bool :=
  let k := b.toNat - offset.toNat
  let be := rest.take (k - 55)
  decide (k < 56) || (decide (be.length = k - 55) && decide (be.head? ≠ some 0) && decide (56 ≤ ofBe be))

/-- Whether a string is a single byte that stands for itself. -/
def isSmall : List UInt8 → Bool
  | [b] => decide (b < 0x80)
  | _ => false

/-- Read whether an item is a list, and its payload. -/
def readFrame : List UInt8 → Option (Bool × List UInt8 × List UInt8)
  | [] => none
  | b :: rest =>
    if b < 0x80 then some (false, [b], rest)
    else if b < 0xc0 then
      if minimalLength 0x80 b rest then
        match readPayload 0x80 b rest with
        | some (payload, rest) => if isSmall payload then none else some (false, payload, rest)
        | none => none
      else none
    else if minimalLength 0xc0 b rest then
      match readPayload 0xc0 b rest with
      | some (payload, rest) => some (true, payload, rest)
      | none => none
    else none

/-- Read items to the end. -/
def readItems : ℕ → List UInt8 → Option (List Item)
  | _, [] => some []
  | 0, _ :: _ => none
  | fuel + 1, b :: bytes =>
    (readFrame (b :: bytes)).bind fun (nested, payload, rest) =>
      (if nested then (readItems fuel payload).map .list else some (.str payload)).bind fun item =>
        (readItems fuel rest).map fun items => item :: items

/-- Read one item that fills the whole input. -/
def decodeCanonical (bytes : List UInt8) : Option Item :=
  match readItems bytes.length bytes with
  | some [item] => some item
  | _ => none

/-! ### Frames -/

/-- The bytes around a payload. -/
def frame (nested : Bool) (payload : List UInt8) : List UInt8 :=
  if nested then rlpLength payload.length 0xc0 ++ payload else rlpBytes payload

theorem rlpBytes_of_not_small {data : List UInt8} (h : isSmall data = false) :
    rlpBytes data = rlpLength data.length 0x80 ++ data := by
  rcases data with _ | ⟨b, _ | ⟨c, data⟩⟩
  · rfl
  · have hb : ¬ b < 0x80 := of_decide_eq_false h
    simp only [rlpBytes, if_neg hb, List.length_singleton]
  · rfl

theorem isSmall_eq_true {data : List UInt8} (h : isSmall data = true) : ∃ b, data = [b] ∧ b < 0x80 := by
  rcases data with _ | ⟨b, _ | ⟨c, data⟩⟩
  · cases h
  · exact ⟨b, rfl, of_decide_eq_true h⟩
  · cases h

theorem encode_str (data : List UInt8) : (Item.str data).encode = frame false data := by
  rw [Item.encode, frame, if_neg Bool.false_ne_true]

theorem encode_list (items : List Item) :
    (Item.list items).encode = frame true (Item.encodeAll items).flatten := by
  rw [Item.encode, frame, if_pos rfl, rlpList, List.length_flatten]

theorem encodeAll_eq_map (items : List Item) : Item.encodeAll items = items.map Item.encode := by
  induction items with
  | nil => rfl
  | cons item items ih => rw [Item.encodeAll, ih, List.map_cons]

theorem length_lt_frame_true (payload : List UInt8) : payload.length < (frame true payload).length := by
  have hpos : 0 < (rlpLength payload.length 0xc0).length := by
    rw [rlpLength]
    split_ifs <;> exact Nat.succ_pos _
  rw [frame, if_pos rfl, List.length_append]
  omega

theorem frame_ne_nil (nested : Bool) (payload : List UInt8) : frame nested payload ≠ [] := by
  cases nested with
  | false => exact rlpBytes_ne_nil payload
  | true =>
    have h := length_lt_frame_true payload
    intro hnil
    rw [hnil] at h
    exact absurd h (Nat.not_lt_zero _)

/-- The writer's lengths are minimal. -/
theorem minimalLength_rlpLength (offset : UInt8) (ho : offset.toNat + 63 < 256) {p : List UInt8}
    (hp : p.length < 2 ^ 64) {b : UInt8} {rest tail : List UInt8}
    (h : rlpLength p.length offset ++ p ++ rest = b :: tail) : minimalLength offset b tail = true := by
  by_cases hs : p.length < 56
  · rw [rlpLength, if_pos hs] at h
    obtain ⟨rfl, -⟩ := List.cons.inj h
    have hb : (offset + p.length.toUInt8).toNat = offset.toNat + p.length := by
      simp only [UInt8.toNat_add, Nat.toUInt8_eq, UInt8.toNat_ofNat']
      omega
    have hk : (offset + p.length.toUInt8).toNat - offset.toNat < 56 := by omega
    simp only [minimalLength, hk, decide_true, Bool.true_or]
  · rw [rlpLength, if_neg hs, List.cons_append, List.cons_append] at h
    obtain ⟨rfl, rfl⟩ := List.cons.inj h
    have hlen := length_minimalBe p.length
    have hb : (offset + 55 + (minimalBe p.length).length.toUInt8).toNat =
        offset.toNat + 55 + (minimalBe p.length).length := by
      simp only [UInt8.toNat_add, Nat.toUInt8_eq, UInt8.toNat_ofNat', UInt8.reduceToNat]
      omega
    have hk : (offset + 55 + (minimalBe p.length).length.toUInt8).toNat - offset.toNat - 55 =
        (minimalBe p.length).length := by omega
    have hge : 56 ≤ ofBe (minimalBe p.length) := by
      rw [ofBe_minimalBe hp]
      omega
    simp only [minimalLength, hk, List.append_assoc, List.take_left, hge, head_minimalBe, ne_eq,
      not_false_eq_true, decide_true, Bool.and_true, Bool.or_true]

/-- What is written around a payload is read back. -/
theorem readFrame_frame (nested : Bool) {p : List UInt8} (hp : p.length < 2 ^ 64) (rest : List UInt8) :
    readFrame (frame nested p ++ rest) = some (nested, p, rest) := by
  cases nested with
  | true =>
    obtain ⟨b, tail, he, hlo, -, hread⟩ := readPayload_rlpLength 0xc0 (by decide) hp rest
    have hmin := minimalLength_rlpLength 0xc0 (by decide) hp he
    simp only [UInt8.reduceToNat] at hlo
    have h80 : ¬ b < 0x80 := by
      rw [UInt8.lt_iff_toNat_lt]
      simp only [UInt8.reduceToNat]
      omega
    have hc0 : ¬ b < 0xc0 := by
      rw [UInt8.lt_iff_toNat_lt]
      simp only [UInt8.reduceToNat]
      omega
    rw [frame, if_pos rfl, he, readFrame, if_neg h80, if_neg hc0, if_pos hmin, hread]
  | false =>
    rw [frame, if_neg Bool.false_ne_true]
    cases hsmall : isSmall p with
    | true =>
      obtain ⟨b, rfl, hb⟩ := isSmall_eq_true hsmall
      simp only [rlpBytes, if_pos hb, List.singleton_append, readFrame]
    | false =>
      obtain ⟨b, tail, he, hlo, hhi, hread⟩ := readPayload_rlpLength 0x80 (by decide) hp rest
      have hmin := minimalLength_rlpLength 0x80 (by decide) hp he
      simp only [UInt8.reduceToNat] at hlo hhi
      have h80 : ¬ b < 0x80 := by
        rw [UInt8.lt_iff_toNat_lt]
        simp only [UInt8.reduceToNat]
        omega
      have hc0 : b < 0xc0 := by
        rw [UInt8.lt_iff_toNat_lt]
        simp only [UInt8.reduceToNat]
        omega
      rw [rlpBytes_of_not_small hsmall, he, readFrame, if_neg h80, if_pos hc0, if_pos hmin, hread]
      simp only [hsmall, Bool.false_eq_true, if_false]

theorem takePayload_eq_some {len : ℕ} {b p rest : List UInt8} (h : takePayload len b = some (p, rest)) :
    b = p ++ rest ∧ p.length = len := by
  rw [takePayload] at h
  split_ifs at h with hle
  cases h
  exact ⟨(List.take_append_drop len b).symm, List.length_take_of_le hle⟩

/-- A minimal length is the one the writer puts there. -/
theorem readPayload_minimal {offset b : UInt8} {rest p rest' : List UInt8} (hlo : offset.toNat ≤ b.toNat)
    (hhi : b.toNat ≤ offset.toNat + 63) (hmin : minimalLength offset b rest = true)
    (h : readPayload offset b rest = some (p, rest')) : b :: rest = rlpLength p.length offset ++ p ++ rest' := by
  simp only [minimalLength, Bool.or_eq_true, Bool.and_eq_true, decide_eq_true_eq] at hmin
  rw [readPayload] at h
  split_ifs at h with hs
  · obtain ⟨rfl, hlen⟩ := takePayload_eq_some h
    have hb : offset + p.length.toUInt8 = b := by
      apply UInt8.toNat_inj.mp
      have hlt := b.toNat_lt
      simp only [UInt8.toNat_add, Nat.toUInt8_eq, UInt8.toNat_ofNat', hlen]
      omega
    rw [rlpLength, if_pos (by omega), hb]
    rfl
  · obtain ⟨⟨hbe, hhead⟩, hge⟩ := hmin.resolve_left hs
    obtain ⟨htail, hlen⟩ := takePayload_eq_some h
    have hp : minimalBe p.length = rest.take (b.toNat - offset.toNat - 55) := by
      rw [hlen]
      exact minimalBe_ofBe (by omega) hhead
    have hb : offset + 55 + (b.toNat - offset.toNat - 55).toUInt8 = b := by
      apply UInt8.toNat_inj.mp
      have hlt := b.toNat_lt
      simp only [UInt8.toNat_add, Nat.toUInt8_eq, UInt8.toNat_ofNat', UInt8.reduceToNat]
      omega
    have hrest : rest = rest.take (b.toNat - offset.toNat - 55) ++ (p ++ rest') := by
      rw [← htail, List.take_append_drop]
    rw [rlpLength, if_neg (by omega), hp, hbe, hb, List.cons_append, List.cons_append, List.append_assoc,
      ← hrest]

/-- What is read was written so. -/
theorem frame_of_readFrame {bytes : List UInt8} {nested : Bool} {p rest : List UInt8}
    (h : readFrame bytes = some (nested, p, rest)) : bytes = frame nested p ++ rest := by
  cases bytes with
  | nil => cases h
  | cons b tail =>
    have hlt := b.toNat_lt
    rw [readFrame] at h
    split_ifs at h with h80 hc0 hmin hmin
    · cases h
      simp [frame, rlpBytes, h80]
    · rw [UInt8.lt_iff_toNat_lt] at h80 hc0
      simp only [UInt8.reduceToNat] at h80 hc0
      cases hread : readPayload 0x80 b tail with
      | none => simp only [hread, reduceCtorEq] at h
      | some r =>
        obtain ⟨payload, after⟩ := r
        simp only [hread] at h
        split_ifs at h with hsmall
        cases h
        have hlo : (0x80 : UInt8).toNat ≤ b.toNat := by simp only [UInt8.reduceToNat]; omega
        have hhi : b.toNat ≤ (0x80 : UInt8).toNat + 63 := by simp only [UInt8.reduceToNat]; omega
        have hpay := readPayload_minimal hlo hhi hmin hread
        rw [hpay, frame, if_neg Bool.false_ne_true, rlpBytes_of_not_small (Bool.eq_false_iff.mpr hsmall)]
    · rw [UInt8.lt_iff_toNat_lt] at hc0
      simp only [UInt8.reduceToNat] at hc0
      cases hread : readPayload 0xc0 b tail with
      | none => simp only [hread, reduceCtorEq] at h
      | some r =>
        obtain ⟨payload, after⟩ := r
        simp only [hread] at h
        cases h
        have hlo : (0xc0 : UInt8).toNat ≤ b.toNat := by simp only [UInt8.reduceToNat]; omega
        have hhi : b.toNat ≤ (0xc0 : UInt8).toNat + 63 := by simp only [UInt8.reduceToNat]; omega
        have hpay := readPayload_minimal hlo hhi hmin hread
        rw [hpay, frame, if_pos rfl]

/-! ### Items -/

theorem readItems_of_ne_nil {fuel : ℕ} {bytes : List UInt8} (h : bytes ≠ []) :
    readItems (fuel + 1) bytes = (readFrame bytes).bind fun r =>
      (if r.1 then (readItems fuel r.2.1).map .list else some (.str r.2.1)).bind fun item =>
        (readItems fuel r.2.2).map fun items => item :: items := by
  cases bytes with
  | nil => exact absurd rfl h
  | cons b tail => rfl

/-- Written items are read back. -/
theorem readItems_encodeAll (fuel : ℕ) (items : List Item) (hf : (Item.encodeAll items).flatten.length ≤ fuel)
    (h64 : (Item.encodeAll items).flatten.length < 2 ^ 64) :
    readItems fuel (Item.encodeAll items).flatten = some items := by
  induction fuel generalizing items with
  | zero =>
    cases items with
    | nil => rfl
    | cons item items =>
      have hne : item.encode ≠ [] := by
        cases item with
        | str data => rw [encode_str]; exact frame_ne_nil _ _
        | list l => rw [encode_list]; exact frame_ne_nil _ _
      have hpos := List.length_pos_iff.mpr hne
      rw [Item.encodeAll, List.flatten_cons, List.length_append] at hf
      omega
  | succ fuel ih =>
    cases items with
    | nil => rfl
    | cons item items =>
      rw [Item.encodeAll, List.flatten_cons, List.length_append] at hf h64
      rw [Item.encodeAll, List.flatten_cons]
      cases item with
      | str data =>
        rw [encode_str] at hf h64 ⊢
        have hne := frame_ne_nil false data
        have hpos := List.length_pos_iff.mpr hne
        have hdata : data.length ≤ (frame false data).length := length_le_rlpBytes data
        rw [readItems_of_ne_nil (List.append_ne_nil_of_left_ne_nil hne _), readFrame_frame false (by omega)]
        simp only [Option.bind_some, Bool.false_eq_true, if_false, ih items (by omega) (by omega), Option.map_some]
      | list l =>
        rw [encode_list] at hf h64 ⊢
        have hne := frame_ne_nil true (Item.encodeAll l).flatten
        have hlt := length_lt_frame_true (Item.encodeAll l).flatten
        rw [readItems_of_ne_nil (List.append_ne_nil_of_left_ne_nil hne _), readFrame_frame true (by omega)]
        simp only [Option.bind_some, if_true, ih l (by omega) (by omega), ih items (by omega) (by omega),
          Option.map_some]

/-- Items that are read were written so. -/
theorem encodeAll_of_readItems (fuel : ℕ) (bytes : List UInt8) (items : List Item)
    (h : readItems fuel bytes = some items) : (Item.encodeAll items).flatten = bytes := by
  induction fuel generalizing bytes items with
  | zero =>
    cases bytes with
    | nil => cases h; rfl
    | cons b tail => cases h
  | succ fuel ih =>
    cases bytes with
    | nil => cases h; rfl
    | cons b tail =>
      rw [readItems_of_ne_nil (List.cons_ne_nil b tail)] at h
      obtain ⟨⟨nested, payload, rest⟩, hframe, h⟩ := Option.bind_eq_some_iff.mp h
      obtain ⟨item, hitem, h⟩ := Option.bind_eq_some_iff.mp h
      obtain ⟨items', hitems, rfl⟩ := Option.map_eq_some_iff.mp h
      rw [frame_of_readFrame hframe, Item.encodeAll, List.flatten_cons, ih rest items' hitems]
      congr 1
      cases nested with
      | true =>
        obtain ⟨l, hl, rfl⟩ := Option.map_eq_some_iff.mp hitem
        rw [encode_list, ih payload l hl]
      | false =>
        cases hitem
        exact encode_str payload

/-- CORRECT: an item is read back from its encoding. -/
theorem decodeCanonical_encode {item : Item} (h : item.encode.length < 2 ^ 64) :
    decodeCanonical item.encode = some item := by
  have hall : (Item.encodeAll [item]).flatten = item.encode := by simp [Item.encodeAll]
  have hread := readItems_encodeAll item.encode.length [item] (by rw [hall]) (by rw [hall]; exact h)
  rw [hall] at hread
  simp only [decodeCanonical, hread]

/-- CORRECT: the strict reader accepts nothing but the encoding, so an item has one form. -/
theorem decodeCanonical_eq_some_iff {item : Item} (h : item.encode.length < 2 ^ 64) (bytes : List UInt8) :
    decodeCanonical bytes = some item ↔ bytes = item.encode := by
  constructor
  · intro hd
    rw [decodeCanonical] at hd
    split at hd
    case h_1 x hread =>
      cases hd
      have hall := encodeAll_of_readItems _ _ _ hread
      simpa [Item.encodeAll] using hall.symm
    case h_2 => cases hd
  · rintro rfl
    exact decodeCanonical_encode h

end Rlp
