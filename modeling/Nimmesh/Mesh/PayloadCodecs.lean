import Nimmesh.Mesh.Payloads
import Nimmesh.Mesh.Frame

/-! @src envelope.rs tx_history.rs balance_proof.rs chat.rs | name:What the payload decoders accept | layer:properties

    No index of the four decoders is out of range: each is the decoder without indices. A history, a balance proof and
    a chat message are accepted in their own bytes and no others. -/

namespace Nimmesh
open Rlp Checked

/-! ### Slices that are there -/

section Steps
variable {ε : Type} {b : Bytes} {off lo hi n i : ℕ}

theorem range_slice (h : lo ≤ hi) (h' : hi ≤ b.length) : (range b lo hi : Result ε Bytes) = .ok (slice b lo (hi - lo)) := by
  rw [range_of_le h h', slice, List.drop_take]

theorem index_byteAt (h : i < b.length) : (index b i : Result ε UInt8) = .ok (byteAt b i) := by
  rw [index_of_lt h, byteAt, List.getD_eq_getElem?_getD, List.getElem?_eq_getElem h, Option.getD_some]

theorem drop_byteAt (h : i < b.length) : b.drop i = byteAt b i :: b.drop (i + 1) := by
  rw [List.drop_eq_getElem_cons h, byteAt, List.getD_eq_getElem?_getD, List.getElem?_eq_getElem h, Option.getD_some]

theorem tryInto_slice (h : off + n ≤ b.length) : Indexed.tryInto n (slice b off n) = some (sliceArr n b off) := by
  rw [Indexed.tryInto, sliceArr, ByteArr.ofBytes?, dif_pos (length_slice h)]
  rfl

theorem copyFromSlice_slice (h : off + n ≤ b.length) :
    (Indexed.copyFromSlice n (slice b off n) : Result ε (ByteArr n)) = .ok (sliceArr n b off) := by
  have hinto := tryInto_slice h
  rw [Indexed.tryInto] at hinto
  rw [Indexed.copyFromSlice, hinto]

end Steps

theorem takeBytes_eq_some_iff {n : ℕ} {b v rest : Bytes} :
    takeBytes n b = some (v, rest) ↔ v.length = n ∧ b = v ++ rest := by
  rw [takeBytes]
  split_ifs with h
  · simp only [false_iff, not_and]
    rintro rfl rfl
    simp at h
  · constructor
    · intro heq
      obtain ⟨rfl, rfl⟩ := Prod.mk.inj (Option.some.inj heq)
      exact ⟨List.length_take_of_le (Nat.not_lt.mp h), (List.take_append_drop n b).symm⟩
    · rintro ⟨rfl, rfl⟩
      simp

namespace Indexed

/-! ### Histories -/

theorem decodeHistoryRecord_eq {rec : Bytes} (h : rec.length = historyRecordLen) :
    decodeHistoryRecord rec = .ok (Nimmesh.decodeHistoryRecord rec) := by
  rw [historyRecordLen] at h
  have hhash : hashLen = 32 := rfl
  have haddr : nimAddressLen = 20 := rfl
  have hr0 : (range rec 0 32 : Result Unit Bytes) = .ok (slice rec 0 hashLen) := range_slice (by omega) (by omega)
  have hr32 : (range rec 32 (32 + nimAddressLen) : Result Unit Bytes) = .ok (slice rec 32 nimAddressLen) := by
    rw [range_slice (by omega) (by omega), Nat.add_sub_cancel_left]
  have hr52 : (range rec 52 60 : Result Unit Bytes) = .ok (slice rec 52 8) := range_slice (by omega) (by omega)
  have hr60 : (range rec 60 68 : Result Unit Bytes) = .ok (slice rec 60 8) := range_slice (by omega) (by omega)
  rw [decodeHistoryRecord, hr0, ok_bind, copyFromSlice_slice (by omega), ok_bind, hr32, ok_bind,
    copyFromSlice_slice (by omega), ok_bind, hr52, ok_bind, tryInto_slice (by omega), ofOption, ok_bind, hr60, ok_bind,
    tryInto_slice (by omega), ofOption, ok_bind, index_byteAt (by omega), ok_bind, val_sliceArr (by omega),
    val_sliceArr (by omega)]
  rfl

/-- EXACT: a history is decoded without a fault. -/
theorem decodeHistoryResponse_eq (bytes : Bytes) :
    decodeHistoryResponse bytes = ofOption (Nimmesh.decodeHistoryResponse bytes) := by
  rw [decodeHistoryResponse, Nimmesh.decodeHistoryResponse]
  split_ifs with hhead
  · rfl
  have haddr : nimAddressLen = 20 := rfl
  have hheader : historyResponseHeaderLen = 26 := rfl
  have hr0 : (range bytes 0 nimAddressLen : Result Unit Bytes) = .ok (slice bytes 0 nimAddressLen) :=
    range_slice (by omega) (by omega)
  have hr20 : (range bytes nimAddressLen (nimAddressLen + 4) : Result Unit Bytes) = .ok (slice bytes nimAddressLen 4) := by
    rw [range_slice (by omega) (by omega), Nat.add_sub_cancel_left]
  rw [hr0, ok_bind, copyFromSlice_slice (by omega), ok_bind, hr20, ok_bind, tryInto_slice (by omega), ofOption, ok_bind,
    index_byteAt (by omega), ok_bind, index_byteAt (by omega), ok_bind, val_sliceArr (by omega)]
  simp only [show nimAddressLen + 5 = 25 from rfl]
  split_ifs with hcount
  · rfl
  have hlen := not_not.mp (not_or.mp hcount).2
  rw [mapM_eq_ok (g := fun i => Nimmesh.decodeHistoryRecord
    (slice bytes (historyResponseHeaderLen + i * historyRecordLen) historyRecordLen)), ok_bind]
  · rfl
  · intro i hi
    have hle : (i + 1) * historyRecordLen ≤ (byteAt bytes 25).toNat * historyRecordLen :=
      Nat.mul_le_mul_right _ (List.mem_range.mp hi)
    rw [Nat.add_mul, Nat.one_mul] at hle
    rw [range_slice (by omega) (by omega), ok_bind, Nat.add_sub_cancel_left]
    exact decodeHistoryRecord_eq (length_slice (by omega))

/-! ### Balance proofs -/

theorem two_bytes {b : Bytes} {off : ℕ} (h : off + 2 ≤ b.length) :
    [byteAt b off, byteAt b (off + 1)] = slice b off 2 := by
  rw [slice, drop_byteAt (by omega), drop_byteAt (by omega)]
  rfl

/-- EXACT: a balance proof is decoded without a fault. -/
theorem decodeBalanceProof_eq (bytes : Bytes) :
    decodeBalanceProof bytes = ofOption (Nimmesh.decodeBalanceProof bytes) := by
  rw [decodeBalanceProof, Nimmesh.decodeBalanceProof]
  by_cases hfixed : bytes.length < balanceProofFixedLen
  · rw [if_pos hfixed, if_pos hfixed]
    rfl
  have hlen : balanceProofFixedLen = 29 := rfl
  have haddr : nimAddressLen = 20 := rfl
  have hr0 : (range bytes 0 nimAddressLen : Result Unit Bytes) = .ok (slice bytes 0 nimAddressLen) :=
    range_slice (by omega) (by omega)
  have hr20 : (range bytes nimAddressLen (nimAddressLen + 4) : Result Unit Bytes) = .ok (slice bytes nimAddressLen 4) := by
    rw [range_slice (by omega) (by omega), Nat.add_sub_cancel_left]
  rw [if_neg hfixed, if_neg hfixed, hr0, ok_bind, copyFromSlice_slice (by omega), ok_bind, hr20, ok_bind,
    copyFromSlice_slice (by omega), ok_bind, index_byteAt (by omega), ok_bind]
  simp only
  rw [index_byteAt (by omega), ok_bind, index_byteAt (by omega), ok_bind, two_bytes (by omega), val_sliceArr (by omega)]
  simp only [show nimAddressLen + 5 = 25 from rfl, show nimAddressLen + 4 = 24 from rfl, Nat.reduceAdd]
  generalize ofBe (slice bytes 25 2) = headerLen
  by_cases hheader : headerLen = 0 ∨ maxHeaderLen < headerLen
  · rw [if_pos hheader, if_pos hheader]
    rfl
  rw [if_neg hheader, if_neg hheader]
  by_cases hshort : bytes.length < 27 + headerLen + 2
  · rw [if_pos hshort, if_pos hshort]
    rfl
  rw [if_neg hshort, if_neg hshort, range_slice (by omega) (by omega), ok_bind, index_byteAt (by omega), ok_bind,
    index_byteAt (by omega), ok_bind, two_bytes (by omega), Nat.add_sub_cancel_left]
  generalize ofBe (slice bytes (27 + headerLen) 2) = proofLen
  split_ifs with hproof hexact
  · rfl
  · rfl
  · rw [range_slice (by omega) le_rfl, ok_bind, not_not.mp hexact, Nat.add_sub_cancel_left]
    rfl

/-! ### Envelopes -/

theorem eq_four {b : Bytes} (h : b.length = 4) : [byteAt b 0, byteAt b 1, byteAt b 2, byteAt b 3] = b := by
  obtain ⟨b0, b1, b2, b3, rfl⟩ := List.length_eq_four.mp h
  rfl

theorem setField_eq (f : NimiqEnvelope.Fields) (tlvType : UInt8) (value : Bytes) :
    setField f tlvType value = ofExcept (f.set (tlvType, value)) := by
  simp only [setField, NimiqEnvelope.Fields.set]
  split_ifs with hwire hnet hlen hvalid hlen hid hlen hmemo hwant hlen
  · rfl
  · rfl
  · rw [index_byteAt (by omega)]
    rfl
  · rfl
  · have hfour : value.length = 4 := not_not.mp hlen
    rw [index_byteAt (by omega), ok_bind, index_byteAt (by omega), ok_bind, index_byteAt (by omega), ok_bind,
      index_byteAt (by omega), ok_bind, eq_four hfour]
    rfl
  · rw [ByteArr.ofBytes?, dif_neg hlen]
    rfl
  · rw [copyFromSlice, ByteArr.ofBytes?, dif_pos (not_not.mp hlen)]
    rfl
  · rfl
  · rfl
  · rw [index_byteAt (by omega)]
    rfl
  · rfl

/-- STEP: the loop at an offset is the loop over what is left. -/
theorem decodeLoop_eq (bytes : Bytes) {fuel off : ℕ} (hfuel : bytes.length ≤ off + fuel) (f : NimiqEnvelope.Fields) :
    decodeLoop bytes fuel off f = ofExcept (NimiqEnvelope.decodeLoop fuel off (bytes.drop off) f) := by
  induction fuel generalizing off f with
  | zero =>
    rw [decodeLoop, if_pos (by omega), List.drop_eq_nil_of_le (by omega)]
    rfl
  | succ fuel ih =>
    rw [decodeLoop]
    split_ifs with hend htorn
    · rw [List.drop_eq_nil_of_le hend]
      rfl
    · have hone : (bytes.drop off).length = 1 := by rw [List.length_drop]; omega
      obtain ⟨b, hb⟩ := List.length_eq_one_iff.mp hone
      rw [hb]
      rfl
    · have hdrop : bytes.drop off = byteAt bytes off :: byteAt bytes (off + 1) :: bytes.drop (off + 2) := by
        rw [drop_byteAt (by omega), drop_byteAt (by omega)]
      rw [hdrop, NimiqEnvelope.decodeLoop, index_byteAt (by omega), ok_bind, index_byteAt (by omega), ok_bind]
      simp only [List.length_drop]
      by_cases hvalue : bytes.length < off + 2 + (byteAt bytes (off + 1)).toNat
      · rw [if_pos hvalue, if_pos (by omega)]
        rfl
      · rw [if_neg hvalue, if_neg (by omega), range_slice (by omega) (by omega), ok_bind, setField_eq, ofExcept_bind,
          Nat.add_sub_cancel_left]
        refine bind_congr fun f' => ?_
        rw [ih (by omega), List.drop_drop]

theorem decodeEnvelope_eq (bytes : Bytes) : decodeEnvelope bytes = ofExcept (Nimmesh.decodeEnvelope bytes) := by
  rw [decodeEnvelope, decodeLoop_eq bytes (by omega), Nimmesh.decodeEnvelope, ofExcept_bind]
  rfl

/-! ### Chat -/

/-- STEP: the cursor takes what stands in front of what is left. -/
theorem take_bind {α : Type} {payload rest : Bytes} {i : ℕ} (hi : i ≤ payload.length) (hrest : payload.drop i = rest)
    (n : ℕ) {f : Bytes × ℕ → Result Unit α} {g : Bytes × Bytes → Option α}
    (h : ∀ v rest', v.length = n → i + n ≤ payload.length → payload.drop (i + n) = rest' →
      f (v, i + n) = ofOption (g (v, rest'))) :
    (ofOption (take payload i n) >>= f) = ofOption (takeBytes n rest >>= g) := by
  subst hrest
  rw [take, takeBytes, List.length_drop]
  by_cases hn : i + n ≤ payload.length
  · rw [if_pos hn, if_neg (by omega), List.drop_drop]
    exact h _ _ (length_slice hn) hn rfl
  · rw [if_neg hn, if_pos (by omega)]
    rfl

theorem unwrap_tryInto {n : ℕ} {a : Bytes} (h : a.length = n) :
    ∃ v : ByteArr n, v.1 = a ∧ (unwrap (tryInto n a) : Result Unit (ByteArr n)) = .ok v := by
  refine ⟨⟨a, h⟩, rfl, ?_⟩
  rw [tryInto, ByteArr.ofBytes?, dif_pos h]
  rfl

/-- EXACT: chat is decoded without a fault. -/
theorem decodeChat_eq (payload : Bytes) : decodeChat payload = ofOption (Nimmesh.decodeChat payload) := by
  rw [decodeChat, Nimmesh.decodeChat]
  refine take_bind (Nat.zero_le _) rfl 1 fun v rest hv hi hrest => ?_
  obtain ⟨x, rfl⟩ := List.length_eq_one_iff.mp hv
  simp only [List.head?_cons, ofOption_some, ok_bind, ofOption_guard, show byteAt [x] 0 = x from rfl]
  by_cases hver : x = chatVersion
  swap
  · rw [if_pos hver, if_neg hver]
  rw [if_neg (not_not.mpr hver), if_pos hver]
  refine take_bind hi hrest 8 fun ts rest hts hi hrest => ?_
  obtain ⟨stamp, rfl, hstamp⟩ := unwrap_tryInto hts
  simp only [hstamp, ok_bind]
  refine take_bind hi hrest 1 fun nickLen rest hlen hi hrest => ?_
  obtain ⟨n, rfl⟩ := List.length_eq_one_iff.mp hlen
  simp only [List.head?_cons, ofOption_some, ok_bind, ofOption_guard, show byteAt [n] 0 = n from rfl]
  by_cases hnick : n.toNat ≤ maxNickBytes
  swap
  · rw [if_pos (Nat.not_le.mp hnick), if_neg hnick]
  rw [if_neg (Nat.not_lt.mpr hnick), if_pos hnick]
  refine take_bind hi hrest n.toNat fun nick rest hlen hi hrest => ?_
  rw [ofOption_bind]
  refine bind_congr fun nick => ?_
  refine take_bind hi hrest 2 fun textLen rest htext hi hrest => ?_
  obtain ⟨two, rfl, htwo⟩ := unwrap_tryInto htext
  simp only [htwo, ok_bind, ofOption_guard]
  by_cases hbudget : ofBe two.1 ≠ 0 ∧ ofBe two.1 ≤ maxTextBytes
  swap
  · rw [if_neg hbudget, if_pos (by omega)]
  rw [if_pos hbudget, if_neg (by omega)]
  refine take_bind hi hrest (ofBe two.1) fun text rest hlen hi hrest => ?_
  rw [ofOption_bind]
  refine bind_congr fun text => ?_
  rw [ofOption_guard]
  by_cases hend : rest = []
  · have hle := List.drop_eq_nil_iff.mp (hrest.trans hend)
    rw [if_pos hend, if_neg (not_not.mpr (Nat.le_antisymm hi hle))]
    rfl
  · rw [if_neg hend, if_pos]
    rintro heq
    exact hend (hrest.symm.trans (List.drop_eq_nil_of_le heq.ge))

end Indexed

/-! ### The parts of a byte string -/

theorem slice_mid {b a m c : Bytes} {off n : ℕ} (h : b = a ++ m ++ c) (ha : a.length = off) (hm : m.length = n) :
    slice b off n = m := by
  subst h ha hm
  have hslice := slice_append a (m ++ c) 0 m.length
  rw [Nat.add_zero, ← List.append_assoc] at hslice
  rw [hslice, slice_left]

theorem sliceArr_mid {b a c : Bytes} {off n : ℕ} {m : ByteArr n} (h : b = a ++ m.1 ++ c) (ha : a.length = off) :
    sliceArr n b off = m := by
  rw [sliceArr, slice_mid h ha m.2, ByteArr.ofBytes?_val]
  rfl

theorem u64_mid {b a c : Bytes} {off : ℕ} {v : UInt64} (h : b = a ++ beBytes v ++ c) (ha : a.length = off) :
    u64OfBe (slice b off 8) = v := by
  rw [slice_mid h ha (length_beBytes v), u64OfBe_beBytes]

theorem u32_mid {b a c : Bytes} {off : ℕ} {v : UInt32} (h : b = a ++ beBytes32 v ++ c) (ha : a.length = off) :
    u32OfBe (slice b off 4) = v := by
  rw [slice_mid h ha (show (beBytes32 v).length = 4 from rfl), u32OfBe_beBytes32]

theorem byteAt_mid {b a c : Bytes} {x : UInt8} {i : ℕ} (h : b = a ++ [x] ++ c) (ha : a.length = i) : byteAt b i = x := by
  subst h ha
  simp [byteAt]

theorem exists_arr {b : Bytes} {n : ℕ} (h : n ≤ b.length) : ∃ (a : ByteArr n) (rest : Bytes), b = a.1 ++ rest :=
  ⟨⟨b.take n, List.length_take_of_le h⟩, b.drop n, (List.take_append_drop n b).symm⟩

theorem exists_u64 {b : Bytes} (h : 8 ≤ b.length) : ∃ (v : UInt64) (rest : Bytes), b = beBytes v ++ rest := by
  obtain ⟨a, rest, rfl⟩ := exists_arr h
  exact ⟨u64OfBe a.1, rest, by rw [beBytes_u64OfBe a.2]⟩

theorem exists_u32 {b : Bytes} (h : 4 ≤ b.length) : ∃ (v : UInt32) (rest : Bytes), b = beBytes32 v ++ rest := by
  obtain ⟨a, rest, rfl⟩ := exists_arr h
  exact ⟨u32OfBe a.1, rest, by rw [beBytes32_u32OfBe a.2]⟩

theorem length_u16 (n : ℕ) : (beBytesOf 2 n).length = 2 := length_beBytesOf 2 n

theorem ofBe_u16 {n : ℕ} (h : n < 2 ^ 16) : ofBe (beBytesOf 2 n) = n := by
  rw [ofBe_beBytesOf]
  exact Nat.mod_eq_of_lt h

theorem u16_mid {b a c : Bytes} {off n : ℕ} (h : b = a ++ beBytesOf 2 n ++ c) (ha : a.length = off) (hn : n < 2 ^ 16) :
    ofBe (slice b off 2) = n := by
  rw [slice_mid h ha (length_u16 n), ofBe_u16 hn]

/-! ### Histories -/

theorem decode_encodeHistoryRecord (r : TxHistoryRecord) : decodeHistoryRecord (encodeHistoryRecord r) = r := by
  obtain ⟨hash, counterparty, value, timestampMs, flags⟩ := r
  have hhash := hash.2
  have hcp := counterparty.2
  rw [decodeHistoryRecord]
  congr 1
  · exact sliceArr_mid (a := []) (c := counterparty.1 ++ beBytes value ++ beBytes timestampMs ++ [flags])
      (by simp [encodeHistoryRecord]) rfl
  · exact sliceArr_mid (a := hash.1) (c := beBytes value ++ beBytes timestampMs ++ [flags])
      (by simp [encodeHistoryRecord]) hhash
  · exact u64_mid (a := hash.1 ++ counterparty.1) (c := beBytes timestampMs ++ [flags])
      (by simp [encodeHistoryRecord]) (by rw [List.length_append, hhash, hcp]; rfl)
  · exact u64_mid (a := hash.1 ++ counterparty.1 ++ beBytes value) (c := [flags])
      (by simp [encodeHistoryRecord]) (by rw [List.length_append, List.length_append, hhash, hcp]; rfl)
  · exact byteAt_mid (a := hash.1 ++ counterparty.1 ++ beBytes value ++ beBytes timestampMs) (c := [])
      (by simp [encodeHistoryRecord])
      (by rw [List.length_append, List.length_append, List.length_append, hhash, hcp]; rfl)

theorem length_encodeHistoryRecord (r : TxHistoryRecord) : (encodeHistoryRecord r).length = historyRecordLen := by
  have hhash := r.hash.2
  have hcp := r.counterparty.2
  simp only [encodeHistoryRecord, List.length_append, hhash, hcp]
  rfl

theorem exists_record {b : Bytes} (h : historyRecordLen ≤ b.length) :
    ∃ (r : TxHistoryRecord) (rest : Bytes), b = encodeHistoryRecord r ++ rest := by
  have hrec : historyRecordLen = 69 := rfl
  have hhash : hashLen = 32 := rfl
  have hcp : nimAddressLen = 20 := rfl
  obtain ⟨hash, b, rfl⟩ := exists_arr (n := hashLen) (b := b) (by omega)
  rw [List.length_append, hash.2] at h
  obtain ⟨counterparty, b, rfl⟩ := exists_arr (n := nimAddressLen) (b := b) (by omega)
  rw [List.length_append, counterparty.2] at h
  obtain ⟨value, b, rfl⟩ := exists_u64 (b := b) (by omega)
  rw [List.length_append, length_beBytes] at h
  obtain ⟨timestampMs, b, rfl⟩ := exists_u64 (b := b) (by omega)
  rw [List.length_append, length_beBytes] at h
  rcases b with _ | ⟨flags, rest⟩
  · rw [List.length_nil] at h
    omega
  · exact ⟨⟨hash, counterparty, value, timestampMs, flags⟩, rest, by simp [encodeHistoryRecord]⟩

/-- A whole number of records. -/
theorem exists_records {n : ℕ} {b : Bytes} (h : b.length = n * historyRecordLen) :
    ∃ records : List TxHistoryRecord, records.length = n ∧ b = records.flatMap encodeHistoryRecord := by
  induction n generalizing b with
  | zero => exact ⟨[], rfl, List.length_eq_zero_iff.mp (by omega)⟩
  | succ n ih =>
    rw [Nat.add_mul, Nat.one_mul] at h
    obtain ⟨r, rest, rfl⟩ := exists_record (b := b) (by omega)
    rw [List.length_append, length_encodeHistoryRecord] at h
    obtain ⟨records, hlen, rfl⟩ := ih (b := rest) (by omega)
    exact ⟨r :: records, by rw [List.length_cons, hlen], List.flatMap_cons.symm⟩

theorem length_records (records : List TxHistoryRecord) :
    (records.flatMap encodeHistoryRecord).length = records.length * historyRecordLen := by
  induction records with
  | nil => rw [List.flatMap_nil, List.length_nil, List.length_nil, Nat.zero_mul]
  | cons r records ih =>
    rw [List.flatMap_cons, List.length_append, length_encodeHistoryRecord, ih, List.length_cons, Nat.add_mul, Nat.one_mul,
      Nat.add_comm]

/-- The records are found one behind the other. -/
theorem decode_records (pre : Bytes) (records : List TxHistoryRecord) :
    ((List.range records.length).map fun i => decodeHistoryRecord
      (slice (pre ++ records.flatMap encodeHistoryRecord) (pre.length + i * historyRecordLen) historyRecordLen)) =
      records := by
  apply List.ext_getElem
  · rw [List.length_map, List.length_range]
  · intro i hi hi'
    rw [List.getElem_map, List.getElem_range]
    have hcut : records.flatMap encodeHistoryRecord = (records.take i).flatMap encodeHistoryRecord ++
        encodeHistoryRecord records[i] ++ (records.drop (i + 1)).flatMap encodeHistoryRecord := by
      rw [List.append_assoc, ← List.flatMap_cons, List.getElem_cons_drop, ← List.flatMap_append,
        List.take_append_drop]
    rw [slice_mid (a := pre ++ (records.take i).flatMap encodeHistoryRecord) (m := encodeHistoryRecord records[i])
      (c := (records.drop (i + 1)).flatMap encodeHistoryRecord) (by rw [hcut]; simp only [List.append_assoc])
      (by rw [List.length_append, length_records, List.length_take_of_le hi'.le]) (length_encodeHistoryRecord _)]
    exact decode_encodeHistoryRecord _

/-- The bytes in front of the records. -/
def historyHeader (address : NimAddress) (headHeight : UInt32) (networkId count : UInt8) : Bytes :=
  address.1 ++ beBytes32 headHeight ++ [networkId] ++ [count]

theorem length_historyHeader (address : NimAddress) (headHeight : UInt32) (networkId count : UInt8) :
    (historyHeader address headHeight networkId count).length = historyResponseHeaderLen := by
  simp only [historyHeader, List.length_append, address.2]
  rfl

theorem exists_historyHeader {b : Bytes} (h : historyResponseHeaderLen ≤ b.length) :
    ∃ address headHeight networkId count rest, b = historyHeader address headHeight networkId count ++ rest := by
  have hheader : historyResponseHeaderLen = 26 := rfl
  have hlen : nimAddressLen = 20 := rfl
  obtain ⟨address, b, rfl⟩ := exists_arr (n := nimAddressLen) (b := b) (by omega)
  rw [List.length_append, address.2] at h
  obtain ⟨headHeight, b, rfl⟩ := exists_u32 (b := b) (by omega)
  rw [List.length_append, show (beBytes32 headHeight).length = 4 from rfl] at h
  rcases b with _ | ⟨networkId, _ | ⟨count, rest⟩⟩
  · rw [List.length_nil] at h
    omega
  · rw [List.length_singleton] at h
    omega
  · exact ⟨address, headHeight, networkId, count, rest, by simp [historyHeader]⟩

theorem byteAt_historyHeader (address : NimAddress) (headHeight : UInt32) (networkId count : UInt8) (rest : Bytes) :
    byteAt (historyHeader address headHeight networkId count ++ rest) 25 = count :=
  byteAt_mid (a := address.1 ++ beBytes32 headHeight ++ [networkId]) (c := rest) (by simp [historyHeader])
    (by simp only [List.length_append, address.2]; rfl)

theorem decodeHistoryResponse_header (address : NimAddress) (headHeight : UInt32) (networkId count : UInt8)
    (records : List TxHistoryRecord) (hcount : count.toNat = records.length) (hmax : records.length ≤ historyMax) :
    decodeHistoryResponse (historyHeader address headHeight networkId count ++ records.flatMap encodeHistoryRecord) =
      some { address, headHeight, networkId, records } := by
  have hlen := length_historyHeader address headHeight networkId count
  rw [decodeHistoryResponse, if_neg (by rw [List.length_append, hlen]; omega)]
  simp only [byteAt_historyHeader, hcount]
  rw [if_neg (by rw [List.length_append, hlen, length_records]; omega), ← hlen, decode_records]
  congr 2
  · exact sliceArr_mid (a := []) (c := beBytes32 headHeight ++ [networkId] ++ [count] ++
      records.flatMap encodeHistoryRecord) (by simp [historyHeader]) rfl
  · exact u32_mid (a := address.1) (c := [networkId] ++ [count] ++ records.flatMap encodeHistoryRecord)
      (by simp [historyHeader]) address.2
  · exact byteAt_mid (a := address.1 ++ beBytes32 headHeight) (c := [count] ++ records.flatMap encodeHistoryRecord)
      (by simp [historyHeader]) (by rw [List.length_append, address.2]; rfl)

/-- EXACT: a history is accepted in its own bytes and no others. -/
theorem decodeHistoryResponse_eq_some_iff (bytes : Bytes) (r : HistoryResponse) :
    decodeHistoryResponse bytes = some r ↔ r.records.length ≤ historyMax ∧ bytes = encodeHistoryResponse r := by
  have hencode (r : HistoryResponse) (h : r.records.length ≤ historyMax) : encodeHistoryResponse r =
      historyHeader r.address r.headHeight r.networkId r.records.length.toUInt8 ++
        r.records.flatMap encodeHistoryRecord := by
    rw [encodeHistoryResponse, List.take_of_length_le h]
    rfl
  constructor
  · intro h
    by_cases hhead : bytes.length < historyResponseHeaderLen
    · rw [decodeHistoryResponse, if_pos hhead] at h
      cases h
    obtain ⟨address, headHeight, networkId, count, rest, rfl⟩ := exists_historyHeader (Nat.not_lt.mp hhead)
    by_cases hbad : historyMax < count.toNat ∨ rest.length ≠ count.toNat * historyRecordLen
    · rw [decodeHistoryResponse, if_neg hhead] at h
      simp only [byteAt_historyHeader] at h
      rw [if_pos] at h
      · cases h
      · rw [List.length_append, length_historyHeader]
        omega
    · obtain ⟨hmax, hlen⟩ := not_or.mp hbad
      obtain ⟨records, hcount, rfl⟩ := exists_records (not_not.mp hlen)
      have hle : records.length ≤ historyMax := by omega
      rw [decodeHistoryResponse_header _ _ _ _ _ hcount.symm hle] at h
      obtain rfl := Option.some.inj h
      refine ⟨hle, ?_⟩
      rw [hencode _ hle]
      simp [hcount]
  · rintro ⟨hmax, rfl⟩
    rw [hencode r hmax, decodeHistoryResponse_header _ _ _ _ _ ?_ hmax]
    have hlt : r.records.length < 256 := hmax.trans_lt (by decide)
    simpa using hlt

/-! ### Chat -/

/-- EXACT: a chat message is accepted in its own bytes and no others. -/
theorem decodeChat_eq_some_iff (payload : Bytes) (timestampMs : UInt64) (nickname text : String) :
    decodeChat payload = some (timestampMs, nickname, text) ↔ encodeChat nickname text timestampMs = some payload := by
  simp only [decodeChat, Option.bind_eq_bind, Option.bind_eq_some_iff, Prod.exists, takeBytes_eq_some_iff,
    Option.guard_eq_some', fromUtf8_eq_some_iff, exists_const, Option.pure_def, Option.some.injEq, Prod.mk.injEq]
  constructor
  · rintro ⟨v, _, ⟨hv, rfl⟩, hver, ts, _, ⟨hts, rfl⟩, nickLen, _, ⟨hlen, rfl⟩, hnick, _, _, ⟨hnlen, rfl⟩, nickname, rfl,
      textLen, _, ⟨htwo, rfl⟩, hbudget, _, _, ⟨hbody, rfl⟩, text, rfl, rfl, rfl, rfl, rfl⟩
    obtain ⟨x, rfl⟩ := List.length_eq_one_iff.mp hv
    obtain ⟨n, rfl⟩ := List.length_eq_one_iff.mp hlen
    obtain rfl : x = chatVersion := hver
    have hnlen : (utf8Bytes nickname).length = n.toNat := hnlen
    have hnick : n.toNat ≤ maxNickBytes := hnick
    have hback := beBytesOf_ofBe textLen
    rw [htwo] at hback
    rw [encodeChat, if_neg, beBytes_u64OfBe hts, hbody, hback, hnlen]
    · simp
    · rintro (hlong | hnil | hlong)
      · omega
      · rw [hnil, List.length_nil] at hbody
        exact hbudget.1 hbody.symm
      · omega
  · intro h
    rw [encodeChat] at h
    split_ifs at h with hbad
    have hnick : (utf8Bytes nickname).length ≤ maxNickBytes := Nat.not_lt.mp fun hlong => hbad (.inl hlong)
    have htext : (utf8Bytes text).length ≤ maxTextBytes := Nat.not_lt.mp fun hlong => hbad (.inr (.inr hlong))
    have hne : (utf8Bytes text).length ≠ 0 := fun hnil => hbad (.inr (.inl (List.length_eq_zero_iff.mp hnil)))
    have hbyte : (utf8Bytes nickname).length.toUInt8.toNat = (utf8Bytes nickname).length :=
      Nat.mod_eq_of_lt (hnick.trans_lt (by decide))
    have hof : ofBe (beBytesOf 2 (utf8Bytes text).length) = (utf8Bytes text).length :=
      ofBe_u16 (htext.trans_lt (by decide))
    obtain rfl := Option.some.inj h
    simp only [List.append_assoc]
    refine ⟨[chatVersion], _, ⟨rfl, rfl⟩, rfl, beBytes timestampMs, _, ⟨rfl, rfl⟩,
      [(utf8Bytes nickname).length.toUInt8], _, ⟨rfl, rfl⟩, ?_, utf8Bytes nickname, _, ⟨?_, rfl⟩, nickname, rfl,
      beBytesOf 2 (utf8Bytes text).length, _, ⟨length_u16 _, rfl⟩, ?_, utf8Bytes text, [], ⟨hof.symm, (List.append_nil _).symm⟩, text,
      rfl, rfl, u64OfBe_beBytes _, rfl, rfl⟩
    · exact hbyte.le.trans hnick
    · exact hbyte.symm
    · rw [hof]
      exact ⟨hne, htext⟩

/-! ### Balance proofs -/

/-- Both parts are there and within their caps. -/
structure BalanceProof.Framed (p : BalanceProof) : Prop where
  header_pos : 1 ≤ p.header.length
  header_le : p.header.length ≤ maxHeaderLen
  proof_pos : 1 ≤ p.proof.length
  proof_le : p.proof.length ≤ maxProofLen

theorem decode_encodeBalanceProof {p : BalanceProof} (h : p.Framed) :
    decodeBalanceProof (encodeBalanceProof p) = some p := by
  obtain ⟨address, headHeight, networkId, header, proof⟩ := p
  obtain ⟨hpos, hle, hpos', hle'⟩ := h
  simp only [maxHeaderLen, maxProofLen] at hpos hle hpos' hle'
  have haddr : address.1.length = nimAddressLen := address.2
  have hlen : (encodeBalanceProof ⟨address, headHeight, networkId, header, proof⟩).length =
      29 + header.length + proof.length := by
    simp only [encodeBalanceProof, List.length_append, haddr, length_u16]
    rw [show (beBytes32 headHeight).length = 4 from rfl, nimAddressLen, List.length_singleton]
    omega
  generalize hb : encodeBalanceProof ⟨address, headHeight, networkId, header, proof⟩ = bytes at hlen ⊢
  simp only [encodeBalanceProof] at hb
  have hheader : ofBe (slice bytes 25 2) = header.length := u16_mid (a := address.1 ++ beBytes32 headHeight ++ [networkId])
    (c := header ++ beBytesOf 2 proof.length ++ proof) (by rw [← hb]; simp)
    (by simp only [List.length_append, haddr]; rfl) (by omega)
  have hproof : ofBe (slice bytes (27 + header.length) 2) = proof.length :=
    u16_mid (a := address.1 ++ beBytes32 headHeight ++ [networkId] ++ beBytesOf 2 header.length ++ header) (c := proof)
      (by rw [← hb]) (by simp only [List.length_append, haddr, length_u16]; rfl) (by omega)
  have hfixed : balanceProofFixedLen = 29 := rfl
  have hcap : maxHeaderLen = 1024 := rfl
  have hcap' : maxProofLen = 8192 := rfl
  rw [decodeBalanceProof, if_neg (by omega)]
  simp only [hheader, hproof]
  rw [if_neg (by omega), if_neg (by omega), if_neg (by omega), if_neg (by omega)]
  congr 2
  · exact sliceArr_mid (a := []) (c := beBytes32 headHeight ++ [networkId] ++ beBytesOf 2 header.length ++ header ++
      beBytesOf 2 proof.length ++ proof) (by rw [← hb]; simp) rfl
  · exact u32_mid (a := address.1) (c := [networkId] ++ beBytesOf 2 header.length ++ header ++
      beBytesOf 2 proof.length ++ proof) (by rw [← hb]; simp) haddr
  · exact byteAt_mid (a := address.1 ++ beBytes32 headHeight) (c := beBytesOf 2 header.length ++ header ++
      beBytesOf 2 proof.length ++ proof) (by rw [← hb]; simp) (by rw [List.length_append, haddr]; rfl)
  · exact slice_mid (a := address.1 ++ beBytes32 headHeight ++ [networkId] ++ beBytesOf 2 header.length)
      (c := beBytesOf 2 proof.length ++ proof) (by rw [← hb]; simp)
      (by simp only [List.length_append, haddr, length_u16]; rfl) rfl
  · exact slice_mid (a := address.1 ++ beBytes32 headHeight ++ [networkId] ++ beBytesOf 2 header.length ++ header ++
      beBytesOf 2 proof.length) (c := []) (by rw [← hb]; simp)
      (by simp only [List.length_append, haddr, length_u16]; rfl) rfl

theorem encodeBalanceProof_of_decode {bytes : Bytes} {p : BalanceProof} (h : decodeBalanceProof bytes = some p) :
    p.Framed ∧ bytes = encodeBalanceProof p := by
  have hfixed : balanceProofFixedLen = 29 := rfl
  have haddr : nimAddressLen = 20 := rfl
  simp only [decodeBalanceProof] at h
  split_ifs at h with hlen hheader hshort hproof hexact
  obtain rfl := Option.some.inj h
  have hheaderLen : (slice bytes 27 (ofBe (slice bytes 25 2))).length = ofBe (slice bytes 25 2) :=
    length_slice (by omega)
  have hproofLen : (slice bytes (27 + ofBe (slice bytes 25 2) + 2) (ofBe (slice bytes (27 + ofBe (slice bytes 25 2)) 2))).length =
      ofBe (slice bytes (27 + ofBe (slice bytes 25 2)) 2) := length_slice (by omega)
  constructor
  · constructor
    · rw [hheaderLen]
      omega
    · rw [hheaderLen]
      omega
    · rw [hproofLen]
      omega
    · rw [hproofLen]
      omega
  · have hword (off : ℕ) (h : off + 2 ≤ bytes.length) : beBytesOf 2 (ofBe (slice bytes off 2)) = slice bytes off 2 := by
      have hback := beBytesOf_ofBe (slice bytes off 2)
      rwa [length_slice h] at hback
    have hzero : slice bytes 0 20 = bytes.take 20 := rfl
    simp only [encodeBalanceProof]
    rw [hheaderLen, hproofLen, hword 25 (by omega), hword _ (by omega), beBytes32_u32OfBe (length_slice (by omega)),
      val_sliceArr (by omega), haddr, ← slice_one (by omega), hzero, take_slice, take_slice, take_slice, take_slice,
      take_slice, take_slice, List.take_of_length_le (by omega)]

/-- EXACT: a balance proof is accepted in its own bytes and no others. -/
theorem decodeBalanceProof_eq_some_iff (bytes : Bytes) (p : BalanceProof) :
    decodeBalanceProof bytes = some p ↔ p.Framed ∧ bytes = encodeBalanceProof p := by
  constructor
  · exact encodeBalanceProof_of_decode
  · rintro ⟨h, rfl⟩
    exact decode_encodeBalanceProof h

/-- EXACT: an envelope survives its bytes; a history of at most ten records, a balance proof within its caps and a chat
    message are decoded from their own bytes and from no others; and no byte string makes a decoder fault. -/
theorem payload_codecs :
    (∀ env bytes, encodeEnvelope env = .ok bytes → Indexed.decodeEnvelope bytes = .ok env) ∧
    (∀ r bytes, Indexed.decodeHistoryResponse bytes = .ok r ↔
      r.records.length ≤ historyMax ∧ bytes = encodeHistoryResponse r) ∧
    (∀ p bytes, Indexed.decodeBalanceProof bytes = .ok p ↔ p.Framed ∧ bytes = encodeBalanceProof p) ∧
    (∀ nickname text timestampMs bytes, Indexed.decodeChat bytes = .ok (timestampMs, nickname, text) ↔
      encodeChat nickname text timestampMs = some bytes) ∧
    ∀ bytes, Returns (Indexed.decodeEnvelope bytes) ∧ Returns (Indexed.decodeHistoryResponse bytes) ∧
      Returns (Indexed.decodeBalanceProof bytes) ∧ Returns (Indexed.decodeChat bytes) := by
  refine ⟨fun env bytes h => ?_, fun r bytes => ?_, fun p bytes => ?_, fun nickname text ts bytes => ?_, fun bytes => ?_⟩
  · rw [Indexed.decodeEnvelope_eq, ofExcept_eq_ok_iff]
    exact decode_encodeEnvelope h
  · rw [Indexed.decodeHistoryResponse_eq, ofOption_eq_ok_iff]
    exact decodeHistoryResponse_eq_some_iff bytes r
  · rw [Indexed.decodeBalanceProof_eq, ofOption_eq_ok_iff]
    exact decodeBalanceProof_eq_some_iff bytes p
  · rw [Indexed.decodeChat_eq, ofOption_eq_ok_iff]
    exact decodeChat_eq_some_iff bytes ts nickname text
  · rw [Indexed.decodeEnvelope_eq, Indexed.decodeHistoryResponse_eq, Indexed.decodeBalanceProof_eq,
      Indexed.decodeChat_eq]
    exact ⟨returns_ofExcept _, returns_ofOption _, returns_ofOption _, returns_ofOption _⟩

end Nimmesh
