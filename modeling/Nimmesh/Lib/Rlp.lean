import Mathlib.Data.List.Induction
import Mathlib.Algebra.Ring.Nat
import Mathlib.Data.List.Basic

/-! @lib rlp | name:Recursive length prefix | scope:general

    The byte format of transactions and their lists of fields: a byte below `0x80` is itself, a longer
    string carries its length, and a list is the concatenation of its encoded items behind the length
    of the whole. `decodeList` reads a list of strings back; `decodeList_rlpList` says that it reads what was
    written, so two different lists never share their bytes. -/

namespace Rlp

/-- The last `k` bytes of a number, big-endian. -/
def beBytesOf (k n : ℕ) : List UInt8 := (List.range k).map fun i => (n / 256 ^ (k - 1 - i)).toUInt8

/-- The shortest big-endian bytes of a number; zero has none. -/
def minimalBe (n : ℕ) : List UInt8 := (beBytesOf 8 n).dropWhile (· == 0)

/-- The length of a payload of `len` bytes; `offset` is `0x80` for a string, `0xc0` for a list. -/
def rlpLength (len : ℕ) (offset : UInt8) : List UInt8 :=
  if len < 56 then [offset + len.toUInt8]
  else (offset + 55 + (minimalBe len).length.toUInt8) :: minimalBe len

/-- A byte string. -/
def rlpBytes (data : List UInt8) : List UInt8 :=
  match data with
  | [b] => if b < 0x80 then [b] else rlpLength 1 0x80 ++ [b]
  | data => rlpLength data.length 0x80 ++ data

/-- A list of encoded items. -/
def rlpList (items : List (List UInt8)) : List UInt8 :=
  rlpLength (items.map List.length).sum 0xc0 ++ items.flatten

/-! ### Reading -/

/-- The number of big-endian bytes. -/
def ofBe (b : List UInt8) : ℕ := b.foldl (fun acc x => acc * 256 + x.toNat) 0

/-- Cut a payload of `len` bytes off. -/
def takePayload (len : ℕ) (b : List UInt8) : Option (List UInt8 × List UInt8) :=
  if len ≤ b.length then some (b.take len, b.drop len) else none

/-- Read the payload behind a length whose first byte is `b`. -/
def readPayload (offset b : UInt8) (rest : List UInt8) : Option (List UInt8 × List UInt8) :=
  let k := b.toNat - offset.toNat
  if k < 56 then takePayload k rest
  else takePayload (ofBe (rest.take (k - 55))) (rest.drop (k - 55))

/-- Read one string. -/
def decodeItem : List UInt8 → Option (List UInt8 × List UInt8)
  | [] => none
  | b :: rest =>
    if b < 0x80 then some ([b], rest)
    else if b < 0xc0 then readPayload 0x80 b rest
    else none

/-- Read strings to the end. -/
def decodeItems : ℕ → List UInt8 → Option (List (List UInt8))
  | _, [] => some []
  | 0, _ => none
  | fuel + 1, b => do
    let (item, rest) ← decodeItem b
    let items ← decodeItems fuel rest
    return item :: items

/-- Read a list of strings that fills the whole input. -/
def decodeList : List UInt8 → Option (List (List UInt8))
  | [] => none
  | b :: rest =>
    if b < 0xc0 then none
    else
      match readPayload 0xc0 b rest with
      | some (payload, []) => decodeItems payload.length payload
      | _ => none

/-! ### Round trip -/

theorem ofBe_cons_zero (b : List UInt8) : ofBe (0 :: b) = ofBe b := rfl

theorem ofBe_dropWhile (b : List UInt8) : ofBe (b.dropWhile (· == 0)) = ofBe b := by
  induction b with
  | nil => rfl
  | cons x b ih =>
    by_cases hx : x = 0
    · subst hx
      rw [List.dropWhile_cons_of_pos (by rfl), ih, ofBe_cons_zero]
    · rw [List.dropWhile_cons_of_neg (by simpa using hx)]

theorem ofBe_append (b : List UInt8) (x : UInt8) : ofBe (b ++ [x]) = ofBe b * 256 + x.toNat := by
  rw [ofBe, List.foldl_append]
  rfl

theorem ofBe_cons (x : UInt8) (b : List UInt8) : ofBe (x :: b) = x.toNat * 256 ^ b.length + ofBe b := by
  induction b using List.reverseRecOn with
  | nil => simp [ofBe]
  | append_singleton b y ih =>
    rw [← List.cons_append, ofBe_append, ofBe_append, ih, List.length_append, List.length_singleton, Nat.pow_succ,
      Nat.add_mul, Nat.mul_assoc, Nat.add_assoc]

theorem ofBe_zeros (k : ℕ) (b : List UInt8) : ofBe (List.replicate k 0 ++ b) = ofBe b := by
  induction k with
  | zero => rfl
  | succ k ih => rw [List.replicate_succ, List.cons_append, ofBe_cons_zero, ih]

theorem ofBe_lt (b : List UInt8) : ofBe b < 256 ^ b.length := by
  induction b using List.reverseRecOn with
  | nil => decide
  | append_singleton b x ih =>
    have hx := x.toNat_lt
    rw [ofBe_append, List.length_append, List.length_singleton, Nat.pow_succ']
    omega

theorem beBytesOf_succ (k n : ℕ) : beBytesOf (k + 1) n = beBytesOf k (n / 256) ++ [n.toUInt8] := by
  rw [beBytesOf, List.range_succ, List.map_append]
  congr 1
  · refine List.map_congr_left fun i hi => ?_
    rw [List.mem_range] at hi
    have hexp : k + 1 - 1 - i = (k - 1 - i) + 1 := by omega
    rw [hexp, Nat.pow_succ', Nat.div_div_eq_div_mul]
  · simp

theorem ofBe_beBytesOf (k n : ℕ) : ofBe (beBytesOf k n) = n % 256 ^ k := by
  induction k generalizing n with
  | zero =>
    rw [Nat.pow_zero, Nat.mod_one]
    rfl
  | succ k ih =>
    have hpow : 256 ^ (k + 1) = 256 * 256 ^ k := Nat.pow_succ'
    rw [beBytesOf_succ, ofBe_append, ih, Nat.toUInt8_eq, UInt8.toNat_ofNat', hpow, Nat.mod_mul]
    omega

/-- Bytes survive the number they make. -/
theorem beBytesOf_ofBe (b : List UInt8) : beBytesOf b.length (ofBe b) = b := by
  induction b using List.reverseRecOn with
  | nil => rfl
  | append_singleton b x ih =>
    have hx := x.toNat_lt
    have hdiv : (ofBe b * 256 + x.toNat) / 256 = ofBe b := by omega
    have hlow : (ofBe b * 256 + x.toNat).toUInt8 = x := by
      apply UInt8.toNat_inj.mp
      simp only [Nat.toUInt8_eq, UInt8.toNat_ofNat']
      omega
    rw [List.length_append, List.length_singleton, beBytesOf_succ, ofBe_append, hdiv, hlow, ih]

theorem ofBe_minimalBe {n : ℕ} (h : n < 2 ^ 64) : ofBe (minimalBe n) = n := by
  rw [minimalBe, ofBe_dropWhile, ofBe_beBytesOf]
  exact Nat.mod_eq_of_lt h

theorem length_minimalBe (n : ℕ) : (minimalBe n).length ≤ 8 := by
  have h := (List.dropWhile_sublist (l := beBytesOf 8 n) (· == 0)).length_le
  simpa only [minimalBe, beBytesOf, List.length_map, List.length_range] using h

theorem minimalBe_ne_nil {n : ℕ} (h : n < 2 ^ 64) (hpos : 0 < n) : minimalBe n ≠ [] := by
  intro hnil
  have hof := ofBe_minimalBe h
  rw [hnil] at hof
  simp only [ofBe, List.foldl_nil] at hof
  omega

theorem takePayload_append (p rest : List UInt8) : takePayload p.length (p ++ rest) = some (p, rest) := by
  rw [takePayload, if_pos (by rw [List.length_append]; omega), List.take_left, List.drop_left]

/-- The reader of a length gives back the payload behind it. -/
theorem readPayload_rlpLength (offset : UInt8) (ho : offset.toNat + 63 < 256) {p : List UInt8}
    (hp : p.length < 2 ^ 64) (rest : List UInt8) :
    ∃ b tail, rlpLength p.length offset ++ p ++ rest = b :: tail ∧
      offset.toNat ≤ b.toNat ∧ b.toNat ≤ offset.toNat + 63 ∧
      readPayload offset b tail = some (p, rest) := by
  by_cases hs : p.length < 56
  · have hb : (offset + p.length.toUInt8).toNat = offset.toNat + p.length := by
      simp only [UInt8.toNat_add, Nat.toUInt8_eq, UInt8.toNat_ofNat']
      omega
    refine ⟨offset + p.length.toUInt8, p ++ rest, by rw [rlpLength, if_pos hs]; rfl, ?_, ?_, ?_⟩
    · omega
    · omega
    · have hk : (offset + p.length.toUInt8).toNat - offset.toNat = p.length := by omega
      simp only [readPayload, hk, if_pos hs, takePayload_append]
  · have hlen := length_minimalBe p.length
    have hpos := List.length_pos_iff.mpr (minimalBe_ne_nil hp (by omega))
    have hb : (offset + 55 + (minimalBe p.length).length.toUInt8).toNat =
        offset.toNat + 55 + (minimalBe p.length).length := by
      simp only [UInt8.toNat_add, Nat.toUInt8_eq, UInt8.toNat_ofNat', UInt8.reduceToNat]
      omega
    refine ⟨offset + 55 + (minimalBe p.length).length.toUInt8, minimalBe p.length ++ (p ++ rest), ?_, ?_, ?_, ?_⟩
    · rw [rlpLength, if_neg hs, List.cons_append, List.cons_append, List.append_assoc]
    · omega
    · omega
    · have hk : (offset + 55 + (minimalBe p.length).length.toUInt8).toNat - offset.toNat =
          55 + (minimalBe p.length).length := by omega
      have hn : ¬ 55 + (minimalBe p.length).length < 56 := by omega
      simp only [readPayload, hk, if_neg hn, Nat.add_sub_cancel_left, List.take_left, List.drop_left,
        ofBe_minimalBe hp, takePayload_append]

/-- A string behind its length is read back, if the length is not that of a single small byte. -/
theorem decodeItem_length {data : List UInt8} (h : data.length < 2 ^ 64) (rest : List UInt8) :
    decodeItem (rlpLength data.length 0x80 ++ data ++ rest) = some (data, rest) := by
  obtain ⟨b, tail, he, hlo, hhi, hread⟩ := readPayload_rlpLength 0x80 (by decide) h rest
  rw [he, decodeItem]
  simp only [UInt8.reduceToNat] at hlo hhi
  have h80 : ¬ b < 0x80 := by
    rw [UInt8.lt_iff_toNat_lt]
    simp only [UInt8.reduceToNat]
    omega
  have hc0 : b < 0xc0 := by
    rw [UInt8.lt_iff_toNat_lt]
    simp only [UInt8.reduceToNat]
    omega
  rw [if_neg h80, if_pos hc0, hread]

theorem decodeItem_rlpBytes {data : List UInt8} (h : data.length < 2 ^ 64) (rest : List UInt8) :
    decodeItem (rlpBytes data ++ rest) = some (data, rest) := by
  match data, h with
  | [], h => exact decodeItem_length h rest
  | [b], h =>
    by_cases hb : b < 0x80
    · simp only [rlpBytes, if_pos hb, List.singleton_append, decodeItem]
    · simp only [rlpBytes, if_neg hb]
      exact decodeItem_length h rest
  | _ :: _ :: _, h => exact decodeItem_length h rest

theorem length_le_rlpBytes (data : List UInt8) : data.length ≤ (rlpBytes data).length := by
  match data with
  | [] => exact Nat.zero_le _
  | [b] =>
    simp only [rlpBytes]
    split_ifs <;> simp
  | a :: b :: tl => simp [rlpBytes]

theorem length_rlpLength (len : ℕ) (offset : UInt8) : (rlpLength len offset).length ≤ 9 := by
  have h := length_minimalBe len
  simp only [rlpLength]
  split_ifs
  · exact Nat.le_of_ble_eq_true rfl
  · rw [List.length_cons]
    omega

theorem length_rlpBytes_le (data : List UInt8) : (rlpBytes data).length ≤ data.length + 9 := by
  have h := length_rlpLength data.length 0x80
  match data, h with
  | [], h => simpa [rlpBytes] using h
  | [b], h =>
    simp only [rlpBytes, List.length_singleton] at h ⊢
    split_ifs
    · rw [List.length_singleton]
      omega
    · rw [List.length_append, List.length_singleton]
      omega
  | _ :: _ :: _, h =>
    simp only [rlpBytes, List.length_append] at h ⊢
    omega

/-- Dropping the leading zeros leaves none. -/
theorem head_dropWhile_zeros (b : List UInt8) : (b.dropWhile (· == 0)).head? ≠ some 0 := by
  induction b with
  | nil =>
    intro h
    cases h
  | cons x b ih =>
    by_cases hx : x = 0
    · subst hx
      rwa [List.dropWhile_cons_of_pos (by rfl)]
    · rw [List.dropWhile_cons_of_neg (by simpa using hx)]
      intro h
      exact hx (Option.some.inj h)

theorem dropWhile_zeros_of_head {b : List UInt8} (h : b.head? ≠ some 0) : b.dropWhile (· == 0) = b := by
  cases b with
  | nil => rfl
  | cons x b =>
    have hx : x ≠ 0 := fun hx => h (congrArg some hx)
    rw [List.dropWhile_cons_of_neg (by simpa using hx)]

theorem dropWhile_replicate_zeros (k : ℕ) (b : List UInt8) :
    (List.replicate k 0 ++ b).dropWhile (· == 0) = b.dropWhile (· == 0) := by
  induction k with
  | zero => rfl
  | succ k ih => rw [List.replicate_succ, List.cons_append, List.dropWhile_cons_of_pos (by rfl), ih]

theorem head_minimalBe (n : ℕ) : (minimalBe n).head? ≠ some 0 := head_dropWhile_zeros _

/-- Bytes without a leading zero are the minimal ones of their number. -/
theorem minimalBe_ofBe {b : List UInt8} (hlen : b.length ≤ 8) (hhead : b.head? ≠ some 0) :
    minimalBe (ofBe b) = b := by
  have hpad : (List.replicate (8 - b.length) 0 ++ b).length = 8 := by
    rw [List.length_append, List.length_replicate]
    omega
  have hbytes := beBytesOf_ofBe (List.replicate (8 - b.length) 0 ++ b)
  rw [hpad, ofBe_zeros] at hbytes
  rw [minimalBe, hbytes, dropWhile_replicate_zeros, dropWhile_zeros_of_head hhead]

/-- A number below `256 ^ k` needs no more than `k` bytes. -/
theorem length_minimalBe_of_lt {k n : ℕ} (hk : k ≤ 8) (h : n < 256 ^ k) : (minimalBe n).length ≤ k := by
  have hle : ((beBytesOf k n).dropWhile (· == 0)).length ≤ k := by
    have hdrop := (List.dropWhile_sublist (l := beBytesOf k n) (· == 0)).length_le
    rwa [beBytesOf, List.length_map, List.length_range, ← beBytesOf] at hdrop
  have hof : ofBe ((beBytesOf k n).dropWhile (· == 0)) = n := by
    rw [ofBe_dropWhile, ofBe_beBytesOf, Nat.mod_eq_of_lt h]
  have hmin := minimalBe_ofBe (Nat.le_trans hle hk) (head_dropWhile_zeros (beBytesOf k n))
  rw [hof] at hmin
  rwa [hmin]

/-- Below 256 one byte is enough. -/
theorem length_minimalBe_byte {n : ℕ} (h : n < 256) : (minimalBe n).length ≤ 1 :=
  length_minimalBe_of_lt (by decide) h

/-- The header of a payload below 256 bytes. -/
theorem length_rlpLength_byte (len : ℕ) (h : len < 256) (offset : UInt8) :
    (rlpLength len offset).length ≤ if len < 56 then 1 else 2 := by
  have hbyte := length_minimalBe_byte h
  simp only [rlpLength]
  split_ifs
  · exact Nat.le_refl 1
  · rw [List.length_cons]
    omega

theorem length_rlpBytes_byte (data : List UInt8) (h : data.length < 256) :
    (rlpBytes data).length ≤ data.length + if data.length < 56 then 1 else 2 := by
  have hlen := length_rlpLength_byte data.length h 0x80
  match data, hlen with
  | [], hlen => simpa [rlpBytes] using hlen
  | [b], hlen =>
    simp only [rlpBytes]
    by_cases hb : b < 0x80
    · simp [hb]
    · rw [if_neg hb, List.length_append]
      simp only [List.length_singleton] at hlen ⊢
      omega
  | _ :: _ :: _, hlen =>
    simp only [rlpBytes, List.length_append] at hlen ⊢
    omega

/-- A list whose items take `n < 256` bytes together. -/
theorem length_rlpList_le {items : List (List UInt8)} {n : ℕ} (h : (items.map List.length).sum ≤ n)
    (hn : n < 256) : (rlpList items).length ≤ n + 2 := by
  have hheader := length_rlpLength_byte (items.map List.length).sum (by omega) 0xc0
  rw [rlpList, List.length_append, List.length_flatten]
  split_ifs at hheader <;> omega

theorem rlpBytes_ne_nil (data : List UInt8) : rlpBytes data ≠ [] := by
  match data with
  | [] => exact List.cons_ne_nil _ _
  | [b] =>
    simp only [rlpBytes]
    split_ifs <;> simp [rlpLength]
  | a :: b :: tl =>
    simp only [rlpBytes, rlpLength]
    split_ifs <;> simp

theorem decodeItems_flatMap : ∀ (fuel : ℕ) (ds : List (List UInt8)), ds.length ≤ fuel →
    (∀ d ∈ ds, d.length < 2 ^ 64) → decodeItems fuel (ds.flatMap rlpBytes) = some ds
  | fuel, [], _, _ => by cases fuel <;> rfl
  | 0, d :: ds, hf, _ => absurd hf (by simp)
  | fuel + 1, d :: ds, hf, hd => by
    have ih := decodeItems_flatMap fuel ds (by simpa using hf) fun d hm => hd d (List.mem_cons_of_mem _ hm)
    have hne : rlpBytes d ++ ds.flatMap rlpBytes ≠ [] :=
      List.append_ne_nil_of_left_ne_nil (rlpBytes_ne_nil d) _
    have hitem := decodeItem_rlpBytes (hd d List.mem_cons_self) (ds.flatMap rlpBytes)
    rw [List.flatMap_cons, decodeItems]
    · simp only [hitem, ih, Option.bind_eq_bind, Option.bind_some, Option.pure_def]
    · exact hne

/-- Every item takes at least one byte. -/
theorem length_le_flatMap (ds : List (List UInt8)) : ds.length ≤ (ds.flatMap rlpBytes).length := by
  induction ds with
  | nil => exact Nat.le_refl _
  | cons d ds ih =>
    have hpos := List.length_pos_iff.mpr (rlpBytes_ne_nil d)
    simp only [List.flatMap_cons, List.length_cons, List.length_append]
    omega

/-- CORRECT: a list of strings is read back as it was written. -/
theorem decodeList_rlpList {ds : List (List UInt8)}
    (h : ((ds.map rlpBytes).map List.length).sum < 2 ^ 64) :
    decodeList (rlpList (ds.map rlpBytes)) = some ds := by
  have hflat : (ds.map rlpBytes).flatten = ds.flatMap rlpBytes := List.flatMap_def.symm
  have hlen : (ds.flatMap rlpBytes).length = ((ds.map rlpBytes).map List.length).sum := by
    rw [← hflat, List.length_flatten]
  obtain ⟨b, tail, he, hlo, -, hread⟩ :=
    readPayload_rlpLength 0xc0 (by decide) (p := ds.flatMap rlpBytes) (by rw [hlen]; exact h) []
  rw [List.append_nil, hlen] at he
  rw [rlpList, hflat, he, decodeList]
  simp only [UInt8.reduceToNat] at hlo
  have hc0 : ¬ b < 0xc0 := by
    rw [UInt8.lt_iff_toNat_lt]
    simp only [UInt8.reduceToNat]
    omega
  have hitem : ∀ d ∈ ds, d.length < 2 ^ 64 := by
    intro d hd
    have hle := length_le_rlpBytes d
    have hsub := (List.sublist_flatten_of_mem (List.mem_map_of_mem (f := rlpBytes) hd)).length_le
    rw [List.length_flatten] at hsub
    omega
  rw [if_neg hc0, hread]
  exact decodeItems_flatMap _ ds (length_le_flatMap ds) hitem

end Rlp
