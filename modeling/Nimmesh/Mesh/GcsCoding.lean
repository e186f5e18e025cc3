import Nimmesh.Bytes
import Nimmesh.Mesh.Gcs

/-! @src gcs.rs | name:The filter's bits | layer:properties

    The writer and the reader of the Golomb-Rice stream as they work on bytes, an index out of bounds or a
    loop without end being `none`: they write and read the bit stream of the model. Over the bit stream the
    sorted differences are read back, so a filter holds its members and nothing that maps elsewhere. -/

namespace Nimmesh

/-! ### Bits of bytes -/

theorem length_bitsOf (v : UInt64) (n : ℕ) : (bitsOf v n).length = n := by simp [bitsOf]

theorem getElem?_bitsOf (v : UInt64) {n k : ℕ} (h : k < n) : (bitsOf v n)[k]? = some (v.toNat.testBit (n - 1 - k)) := by
  rw [bitsOf, List.getElem?_map, List.getElem?_reverse (by simpa using h), List.length_range,
    List.getElem?_range (by omega), Option.map_some]

theorem length_bitStream (bytes : Bytes) : (bitStream bytes).length = 8 * bytes.length := by
  induction bytes with
  | nil => rfl
  | cons b bytes ih =>
    rw [bitStream, List.flatMap_cons, List.length_append, length_bitsOf, ← bitStream, ih, List.length_cons]
    omega

/-- Bit `k` of a byte string. -/
theorem getElem?_bitStream (bytes : Bytes) (k : ℕ) :
    (bitStream bytes)[k]? = bytes[k / 8]?.map fun b => b.toNat.testBit (7 - k % 8) := by
  induction bytes generalizing k with
  | nil => rfl
  | cons b bytes ih =>
    rw [bitStream, List.flatMap_cons, ← bitStream]
    by_cases hk : k < 8
    · have hdiv : k / 8 = 0 := by omega
      have hmod : 8 - 1 - k = 7 - k % 8 := by omega
      rw [List.getElem?_append_left (by rwa [length_bitsOf]), getElem?_bitsOf _ hk, hdiv, hmod, UInt8.toNat_toUInt64]
      rfl
    · have hdiv : k / 8 = (k - 8) / 8 + 1 := by omega
      have hmod : (k - 8) % 8 = k % 8 := by omega
      rw [List.getElem?_append_right (by rw [length_bitsOf]; omega), length_bitsOf, ih, hdiv, hmod,
        List.getElem?_cons_succ]

theorem bitStream_inj {a b : Bytes} (h : bitStream a = bitStream b) : a = b := by
  have hlen : a.length = b.length := by
    have hbits := congrArg List.length h
    rw [length_bitStream, length_bitStream] at hbits
    omega
  refine List.ext_getElem hlen fun i hi hi' => ?_
  apply UInt8.toNat_inj.mp
  refine Nat.eq_of_testBit_eq fun j => ?_
  by_cases hj : j < 8
  · have hbit := congrArg (fun l => l[8 * i + (7 - j)]?) h
    have hdiv : (8 * i + (7 - j)) / 8 = i := by omega
    have hmod : 7 - (8 * i + (7 - j)) % 8 = j := by omega
    simp only [getElem?_bitStream, hdiv, hmod, List.getElem?_eq_getElem hi, List.getElem?_eq_getElem hi',
      Option.map_some, Option.some.injEq] at hbit
    exact hbit
  · have hpow : 2 ^ 8 ≤ 2 ^ j := Nat.pow_le_pow_right (by decide) (by omega)
    rw [Nat.testBit_lt_two_pow (Nat.lt_of_lt_of_le a[i].toNat_lt hpow),
      Nat.testBit_lt_two_pow (Nat.lt_of_lt_of_le b[i].toNat_lt hpow)]

/-- The byte made of eight bits has them. -/
theorem testBit_packByte (bits : List Bool) {j : ℕ} (hj : j < 8) :
    (packByte bits).toNat.testBit (7 - j) = bits.getD j false := by
  have hall : ∀ b0 b1 b2 b3 b4 b5 b6 b7 : Bool, ∀ j : Fin 8,
      (packByte [b0, b1, b2, b3, b4, b5, b6, b7]).toNat.testBit (7 - j.val) =
        [b0, b1, b2, b3, b4, b5, b6, b7].getD j.val false := by
    decide +kernel
  have heq : packByte bits = packByte [bits.getD 0 false, bits.getD 1 false, bits.getD 2 false, bits.getD 3 false,
      bits.getD 4 false, bits.getD 5 false, bits.getD 6 false, bits.getD 7 false] := rfl
  rw [heq, hall _ _ _ _ _ _ _ _ ⟨j, hj⟩]
  rcases (by omega : j = 0 ∨ j = 1 ∨ j = 2 ∨ j = 3 ∨ j = 4 ∨ j = 5 ∨ j = 6 ∨ j = 7) with
    rfl | rfl | rfl | rfl | rfl | rfl | rfl | rfl <;> rfl

/-- The bits of packed bytes are the bits, filled up with zeros. -/
theorem bitStream_packBits (bits : List Bool) :
    bitStream (packBits bits) = bits ++ List.replicate (8 * ((bits.length + 7) / 8) - bits.length) false := by
  have hlen : (packBits bits).length = (bits.length + 7) / 8 := by simp [packBits]
  refine List.ext_getElem? fun k => ?_
  rw [getElem?_bitStream]
  by_cases hk : k / 8 < (bits.length + 7) / 8
  · have hbyte : (packBits bits)[k / 8]? = some (packByte (bits.drop (8 * (k / 8)))) := by
      rw [packBits, List.getElem?_map, List.getElem?_range hk, Option.map_some]
    have hpos : 8 * (k / 8) + k % 8 = k := by omega
    rw [hbyte, Option.map_some, testBit_packByte _ (Nat.mod_lt k (by decide)), List.getD_eq_getElem?_getD,
      List.getElem?_drop, hpos]
    by_cases hin : k < bits.length
    · rw [List.getElem?_append_left hin, List.getElem?_eq_getElem hin, Option.getD_some]
    · rw [List.getElem?_append_right (by omega), List.getElem?_replicate, if_pos (by omega),
        List.getElem?_eq_none (by omega), Option.getD_none]
  · rw [List.getElem?_eq_none (by omega), Option.map_none]
    refine (List.getElem?_eq_none ?_).symm
    rw [List.length_append, List.length_replicate]
    omega

/-! ### Golomb-Rice symbols -/

theorem readUnary_replicate (q : ℕ) (rest : List Bool) :
    readUnary (List.replicate q true ++ false :: rest) = some (q.toUInt64, rest) := by
  induction q with
  | zero => rfl
  | succ q ih =>
    have hsucc : q.toUInt64 + 1 = (q + 1).toUInt64 := by
      apply UInt64.toNat_inj.mp
      simp only [UInt64.toNat_add, Nat.toUInt64_eq, UInt64.toNat_ofNat', UInt64.toNat_one]
      omega
    rw [List.replicate_succ, List.cons_append, readUnary, ih, Option.map_some, hsucc]

/-- The quotient counts the ones read: it does not overflow. -/
theorem readUnary_length {bits rest : List Bool} {q : UInt64} (h : readUnary bits = some (q, rest))
    (h64 : bits.length < 2 ^ 64) : q.toNat + 1 + rest.length = bits.length := by
  induction bits generalizing q with
  | nil => cases h
  | cons b bits ih =>
    rw [List.length_cons] at h64 ⊢
    cases b with
    | false =>
      cases h
      rw [UInt64.toNat_zero]
      omega
    | true =>
      obtain ⟨⟨q', rest'⟩, hq, heq⟩ := Option.map_eq_some_iff.mp h
      obtain ⟨rfl, rfl⟩ := Prod.mk.inj heq
      have hlen := ih hq (by omega)
      simp only [UInt64.toNat_add, UInt64.toNat_one] at hlen ⊢
      omega

theorem readBits_bitsOf {v : UInt64} (h : v.toNat < 64) (rest : List Bool) :
    readBits gcsP (bitsOf v gcsP ++ rest) = some (v, rest) := by
  have hfold : ∀ n : Fin 64, (bitsOf (UInt64.ofNat n.val) gcsP).foldl
      (fun (v : UInt64) b => v <<< 1 ||| if b then 1 else 0) 0 = UInt64.ofNat n.val := by
    decide +kernel
  have hv := hfold ⟨v.toNat, h⟩
  rw [UInt64.ofNat_toNat] at hv
  have hlen := length_bitsOf v gcsP
  rw [readBits, if_neg (by rw [List.length_append, hlen]; omega), List.take_left' hlen, List.drop_left' hlen, hv]

theorem toNat_low_bits (v : UInt64) : (v &&& 63).toNat = v.toNat % 64 := by
  rw [UInt64.toNat_and]
  exact Nat.and_two_pow_sub_one_eq_mod v.toNat 6

/-- A symbol is read back. -/
theorem riceDecode_riceEncode (v : UInt64) (rest : List Bool) :
    riceDecode (riceEncode v ++ rest) = some (v, rest) := by
  have hlow : (v &&& 63).toNat < 64 := by
    rw [toNat_low_bits]
    omega
  have hv : (v.toNat >>> gcsP).toUInt64 <<< 6 ||| (v &&& 63) = v := by
    have hlt := v.toNat_lt
    have hq : (v.toNat >>> gcsP).toUInt64.toNat = v.toNat / 64 := by
      rw [Nat.toUInt64_eq, UInt64.toNat_ofNat', gcsP, Nat.shiftRight_eq_div_pow]
      exact Nat.mod_eq_of_lt (by omega)
    have hhigh : ((v.toNat >>> gcsP).toUInt64 <<< 6).toNat = (v.toNat / 64) <<< 6 := by
      rw [UInt64.toNat_shiftLeft, hq]
      have h6 : (6 : UInt64).toNat % 64 = 6 := rfl
      rw [h6, Nat.shiftLeft_eq, Nat.mod_eq_of_lt (by omega)]
    apply UInt64.toNat_inj.mp
    rw [UInt64.toNat_or, hhigh, ← Nat.shiftLeft_add_eq_or_of_lt (show (v &&& 63).toNat < 2 ^ 6 from hlow),
      toNat_low_bits, Nat.shiftLeft_eq]
    omega
  rw [riceEncode, List.append_assoc, List.cons_append, riceDecode, readUnary_replicate]
  simp only [Option.bind_eq_bind, Option.bind_some, readBits_bitsOf hlow, Option.pure_def, hv]

theorem length_riceEncode (v : UInt64) : (riceEncode v).length = v.toNat / 64 + 7 := by
  rw [riceEncode, List.length_append, List.length_cons, List.length_replicate, length_bitsOf, gcsP,
    Nat.shiftRight_eq_div_pow]

/-! ### The scan -/

namespace GcsFilter

theorem satAdd_sub {last v : UInt64} (h : last ≤ v) : Word.satAdd last (v - last) = v := by
  have hle := UInt64.le_iff_toNat_le.mp h
  have hlt := v.toNat_lt
  apply UInt64.toNat_inj.mp
  rw [Word.toNat_satAdd, UInt64.toNat_sub_of_le _ _ h]
  omega

/-- The scan finds exactly the coded values. -/
theorem scan_codeDeltas (target : UInt64) (vs : List UInt64) (last : UInt64) (rest : List Bool)
    (hs : (last :: vs).Pairwise (· ≤ ·)) :
    scan target vs.length last (codeDeltas last vs ++ rest) = decide (target ∈ vs) := by
  induction vs generalizing last with
  | nil => rfl
  | cons v vs ih =>
    obtain ⟨hlast, htail⟩ := List.pairwise_cons.mp hs
    obtain ⟨hv, -⟩ := List.pairwise_cons.mp htail
    rw [List.length_cons, codeDeltas, List.append_assoc, scan, riceDecode_riceEncode]
    simp only [satAdd_sub (hlast v List.mem_cons_self)]
    by_cases heq : v = target
    · subst heq
      simp
    · rw [if_neg heq]
      have hne : target ≠ v := fun h => heq h.symm
      by_cases hpast : target < v
      · have hout : target ∉ v :: vs := by
          intro hm
          rcases List.mem_cons.mp hm with h | h
          · exact hne h
          · have hle := UInt64.le_iff_toNat_le.mp (hv target h)
            have hlt := UInt64.lt_iff_toNat_lt.mp hpast
            omega
        rw [if_pos hpast, decide_eq_false hout]
      · rw [if_neg hpast, ih v htail]
        simp [hne]

/-- The quotients add up to no more than the range allows. -/
theorem length_codeDeltas {vs : List UInt64} {last : UInt64} {bound : ℕ} (hs : (last :: vs).Pairwise (· ≤ ·))
    (hb : ∀ v ∈ last :: vs, v.toNat ≤ bound) :
    64 * (codeDeltas last vs).length + last.toNat ≤ 448 * vs.length + bound := by
  induction vs generalizing last with
  | nil =>
    have hlast := hb last List.mem_cons_self
    simpa [codeDeltas] using hlast
  | cons v vs ih =>
    obtain ⟨hlast, htail⟩ := List.pairwise_cons.mp hs
    have hrest := ih htail fun w hw => hb w (List.mem_cons_of_mem _ hw)
    have hle := UInt64.le_iff_toNat_le.mp (hlast v List.mem_cons_self)
    have hsub := UInt64.toNat_sub_of_le v last (hlast v List.mem_cons_self)
    rw [codeDeltas, List.length_append, length_riceEncode, hsub, List.length_cons]
    omega

/-! ### Building -/

/-- The range that the ids of a filter are mapped into. -/
def rangeOf (count : ℕ) : UInt64 := count.toUInt64 * gcsM

/-- The sorted values that a filter codes. -/
def mapped (ids : List UInt64) : List UInt64 :=
  (ids.map (hashToRange · (rangeOf ids.length))).insertionSort (· ≤ ·)

theorem build_eq {ids : List UInt64} (h : ids ≠ []) :
    build ids = ⟨ids.length.toUInt32, packBits (codeDeltas 0 (mapped ids))⟩ := by
  rw [build, if_neg (by simpa using h)]
  rfl

theorem mem_mapped {ids : List UInt64} {v : UInt64} :
    v ∈ mapped ids ↔ v ∈ ids.map (hashToRange · (rangeOf ids.length)) := List.mem_insertionSort _

theorem length_mapped (ids : List UInt64) : (mapped ids).length = ids.length := by
  rw [mapped, List.length_insertionSort, List.length_map]

theorem pairwise_mapped (ids : List UInt64) : (0 :: mapped ids).Pairwise (· ≤ ·) := by
  refine List.pairwise_cons.mpr ⟨fun v _ => UInt64.le_iff_toNat_le.mpr (Nat.zero_le _), ?_⟩
  exact List.pairwise_insertionSort _ _

theorem toNat_hashToRange_lt (id : UInt64) {range : UInt64} (h : 0 < range.toNat) :
    (hashToRange id range).toNat < range.toNat := by
  have hne : range ≠ 0 := by
    rintro rfl
    exact absurd h (Nat.lt_irrefl 0)
  have hmix := (mix64 id).toNat_lt
  have hr := range.toNat_lt
  have hlt : (mix64 id).toNat * range.toNat / 2 ^ 64 < range.toNat := by
    rw [Nat.div_lt_iff_lt_mul (by decide), Nat.mul_comm]
    exact Nat.mul_lt_mul_of_pos_left hmix h
  rw [hashToRange, if_neg hne, Nat.toUInt64_eq, UInt64.toNat_ofNat', Nat.mod_eq_of_lt (hlt.trans hr)]
  exact hlt

theorem toNat_rangeOf {count : ℕ} (h : count ≤ 65535) : (rangeOf count).toNat = count * 100 := by
  rw [rangeOf, gcsM, UInt64.toNat_mul, Nat.toUInt64_eq, UInt64.toNat_ofNat']
  simp only [UInt64.reduceToNat]
  omega

/-- CORRECT: a built filter contains an id exactly when a member is mapped to the same value. -/
theorem contains_build {ids : List UInt64} (h : ids.length ≤ 65535) (id : UInt64) :
    (build ids).contains id = true ↔
      hashToRange id (rangeOf ids.length) ∈ ids.map (hashToRange · (rangeOf ids.length)) := by
  by_cases hnil : ids = []
  · subst hnil
    refine iff_of_false (fun hc => Bool.false_ne_true hc) ?_
    exact fun hm => by cases hm
  · have hpos := List.length_pos_iff.mpr hnil
    have hn : ids.length.toUInt32.toNat = ids.length := by
      rw [Nat.toUInt32_eq, UInt32.toNat_ofNat']
      omega
    have hne : ids.length.toUInt32 ≠ 0 := by
      intro h0
      rw [h0] at hn
      exact absurd hn (by simpa using hpos.ne)
    have hrange : ids.length.toUInt32.toUInt64 * gcsM = rangeOf ids.length := by
      have hsame : ids.length.toUInt32.toUInt64 = ids.length.toUInt64 := by
        apply UInt64.toNat_inj.mp
        rw [UInt32.toNat_toUInt64, hn, Nat.toUInt64_eq, UInt64.toNat_ofNat', Nat.mod_eq_of_lt (by omega)]
      rw [hsame, rangeOf]
    have hscan := scan_codeDeltas (hashToRange id (rangeOf ids.length)) (mapped ids) 0
      (List.replicate (8 * (((codeDeltas 0 (mapped ids)).length + 7) / 8) - (codeDeltas 0 (mapped ids)).length) false)
      (pairwise_mapped ids)
    rw [length_mapped] at hscan
    rw [build_eq hnil, contains, if_neg hne, hrange, hn, bitStream_packBits, hscan, decide_eq_true_eq, mem_mapped]

/-- The wire keeps the filter. -/
theorem fromBytes_toBytes {f : GcsFilter} (h : f.n.toNat ≤ 65535) : fromBytes f.toBytes = some f := by
  have hlen : (Rlp.beBytesOf 2 f.n.toNat).length = 2 := by rw [Rlp.beBytesOf, List.length_map, List.length_range]
  have hshort : ¬ (Rlp.beBytesOf 2 f.n.toNat ++ f.data).length < 2 := by
    rw [List.length_append, hlen]
    omega
  have hn : (f.n.toNat % 256 ^ 2).toUInt32 = f.n := by
    rw [Nat.mod_eq_of_lt (by omega), Nat.toUInt32_eq, UInt32.ofNat_toNat]
  rw [fromBytes, toBytes, if_neg hshort, List.take_left' hlen, List.drop_left' hlen, Rlp.ofBe_beBytesOf, hn]

theorem n_build_le {ids : List UInt64} (h : ids.length ≤ 65535) : (build ids).n.toNat ≤ 65535 := by
  rw [build]
  split_ifs
  · decide
  · rw [Nat.toUInt32_eq, UInt32.toNat_ofNat']
    omega

/-- The most ids that are advertised take 388 bytes at most. -/
theorem length_toBytes_build {ids : List UInt64} (h : ids.length ≤ gcsMaxItems) :
    (build ids).toBytes.length ≤ 388 := by
  rw [gcsMaxItems] at h
  have hlen : ∀ f : GcsFilter, f.toBytes.length = 2 + f.data.length := by
    intro f
    rw [toBytes, List.length_append, Rlp.beBytesOf, List.length_map, List.length_range]
  rw [hlen]
  by_cases hnil : ids = []
  · subst hnil
    decide
  · have hpos := List.length_pos_iff.mpr hnil
    have hrange : (rangeOf ids.length).toNat = ids.length * 100 := toNat_rangeOf (by omega)
    have hbound : ∀ v ∈ 0 :: mapped ids, v.toNat ≤ ids.length * 100 := by
      intro v hv
      rcases List.mem_cons.mp hv with rfl | hm
      · exact Nat.zero_le _
      · obtain ⟨id, -, rfl⟩ := List.mem_map.mp (mem_mapped.mp hm)
        have hlt := toNat_hashToRange_lt id (hrange ▸ (by omega : 0 < ids.length * 100))
        omega
    have hbits := length_codeDeltas (pairwise_mapped ids) hbound
    rw [length_mapped, UInt64.toNat_zero] at hbits
    rw [build_eq hnil, packBits, List.length_map, List.length_range]
    omega

end GcsFilter

end Nimmesh
