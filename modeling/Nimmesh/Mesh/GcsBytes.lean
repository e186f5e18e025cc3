import Nimmesh.Mesh.GcsCoding

/-! @src gcs.rs | name:The filter's bytes | layer:model

    The bit writer and the bit reader over bytes, and the filter built and queried with them. `none` stands
    for what must not happen: an index out of bounds, a subtraction below zero, a loop that is still running
    after more rounds than there are bits. The bytes hold the bits of the model, so none of it happens. -/

namespace Nimmesh

/-! ### Writing -/

structure BitWriter where
  bytes : Bytes := []
  nbits : ℕ := 0

namespace BitWriter

def writeBit (w : BitWriter) (bit : Bool) : Option BitWriter :=
  let byteIdx := w.nbits / 8
  let bytes := if byteIdx = w.bytes.length then w.bytes ++ [0] else w.bytes
  if bit then
    let bitIdx := 7 - w.nbits % 8
    bytes[byteIdx]?.map fun b => ⟨bytes.set byteIdx (b ||| 1 <<< bitIdx.toUInt8), w.nbits + 1⟩
  else some ⟨bytes, w.nbits + 1⟩

/-- The bits of a list, one after the other. -/
def writeAll (w : BitWriter) : List Bool → Option BitWriter
  | [] => some w
  | b :: bits => (w.writeBit b).bind fun w => w.writeAll bits

def writeBits (w : BitWriter) (val : UInt64) (n : ℕ) : Option BitWriter :=
  w.writeAll ((List.range n).reverse.map fun i => val >>> i.toUInt64 &&& 1 == 1)

def riceEncode (w : BitWriter) (v : UInt64) : Option BitWriter := do
  let q := v >>> gcsP.toUInt64
  let w ← w.writeAll (List.replicate q.toNat true)
  let w ← w.writeBit false
  w.writeBits (v &&& (1 <<< gcsP.toUInt64 - 1)) gcsP

/-- The differences of a list of values, each at least the one before. -/
def writeDeltas (w : BitWriter) (last : UInt64) : List UInt64 → Option BitWriter
  | [] => some w
  | v :: vs => if v < last then none else (w.riceEncode (v - last)).bind fun w => w.writeDeltas v vs

end BitWriter

/-! ### Reading -/

structure BitReader where
  bytes : Bytes
  pos : ℕ := 0

namespace BitReader

def readBit (r : BitReader) : Option (Option Bool × BitReader) :=
  let byteIdx := r.pos / 8
  if r.bytes.length ≤ byteIdx then some (none, r)
  else
    let bitIdx := 7 - r.pos % 8
    r.bytes[byteIdx]?.map fun b => (some (b >>> bitIdx.toUInt8 &&& 1 == 1), { r with pos := r.pos + 1 })

def readBits : ℕ → UInt64 → BitReader → Option (Option UInt64 × BitReader)
  | 0, v, r => some (some v, r)
  | n + 1, v, r => r.readBit.bind fun
    | (none, r) => some (none, r)
    | (some b, r) => readBits n (v <<< 1 ||| if b then 1 else 0) r

/-- The loop over the ones of the quotient. -/
def readUnary : ℕ → UInt64 → BitReader → Option (Option UInt64 × BitReader)
  | 0, _, _ => none
  | fuel + 1, q, r => r.readBit.bind fun
    | (none, r) => some (none, r)
    | (some false, r) => some (some q, r)
    | (some true, r) => readUnary fuel (q + 1) r

def riceDecode (r : BitReader) : Option (Option UInt64 × BitReader) :=
  (readUnary (8 * r.bytes.length + 1) 0 r).bind fun
    | (none, r) => some (none, r)
    | (some q, r) => (readBits gcsP 0 r).bind fun
      | (none, r) => some (none, r)
      | (some rem, r) => some (some (q <<< gcsP.toUInt64 ||| rem), r)

end BitReader

namespace GcsFilter

def buildBytes (ids : List UInt64) : Option GcsFilter :=
  if ids.isEmpty then some ⟨0, []⟩
  else
    let range := ids.length.toUInt64 * gcsM
    let mapped := (ids.map (hashToRange · range)).insertionSort (· ≤ ·)
    (BitWriter.writeDeltas {} 0 mapped).map fun w => ⟨ids.length.toUInt32, w.bytes⟩

def scanBytes (target : UInt64) : ℕ → UInt64 → BitReader → Option Bool
  | 0, _, _ => some false
  | n + 1, acc, r => r.riceDecode.bind fun
    | (none, _) => some false
    | (some delta, r) =>
      let acc := Word.satAdd acc delta
      if acc = target then some true
      else if target < acc then some false
      else scanBytes target n acc r

def containsBytes (f : GcsFilter) (id : UInt64) : Option Bool :=
  if f.n = 0 then some false
  else scanBytes (hashToRange id (f.n.toUInt64 * gcsM)) f.n.toNat 0 ⟨f.data, 0⟩

end GcsFilter

/-! ### The writer holds a bit stream -/

/-- A bit shifted down and masked. -/
theorem shift_and_one (v : UInt64) {i : ℕ} (hi : i < 64) : (v >>> i.toUInt64 &&& 1 == 1) = v.toNat.testBit i := by
  have hshift : i.toUInt64.toNat % 64 = i := by
    rw [Nat.toUInt64_eq, UInt64.toNat_ofNat']
    omega
  have hand : (v >>> i.toUInt64 &&& 1).toNat = v.toNat >>> i % 2 := by
    rw [UInt64.toNat_and, UInt64.toNat_shiftRight, hshift, UInt64.toNat_one, Nat.and_one_is_mod]
  rw [Nat.testBit_eq_decide_div_mod_eq, ← Nat.shiftRight_eq_div_pow, ← hand, beq_eq_decide]
  exact decide_eq_decide.mpr UInt64.toNat_inj.symm

theorem byte_shift_and_one (b : UInt8) {i : ℕ} (hi : i < 8) : (b >>> i.toUInt8 &&& 1 == 1) = b.toNat.testBit i := by
  have hshift : i.toUInt8.toNat % 8 = i := by
    rw [Nat.toUInt8_eq, UInt8.toNat_ofNat']
    omega
  have hand : (b >>> i.toUInt8 &&& 1).toNat = b.toNat >>> i % 2 := by
    rw [UInt8.toNat_and, UInt8.toNat_shiftRight, hshift, UInt8.toNat_one, Nat.and_one_is_mod]
  rw [Nat.testBit_eq_decide_div_mod_eq, ← Nat.shiftRight_eq_div_pow, ← hand, beq_eq_decide]
  exact decide_eq_decide.mpr UInt8.toNat_inj.symm

/-- The bytes of the writer are the packed bits. -/
structure BitWriter.Holds (w : BitWriter) (bits : List Bool) : Prop where
  nbits : w.nbits = bits.length
  bytes : w.bytes = packBits bits

namespace BitWriter

theorem length_packBits (bits : List Bool) : (packBits bits).length = (bits.length + 7) / 8 := by simp [packBits]

theorem bitStream_append (a b : Bytes) : bitStream (a ++ b) = bitStream a ++ bitStream b := by
  simp [bitStream]

/-- The bytes with room for one more bit. -/
theorem bitStream_room (bits : List Bool) :
    bitStream (if bits.length / 8 = (packBits bits).length then packBits bits ++ [0] else packBits bits) =
      bits ++ List.replicate (8 * (bits.length / 8 + 1) - bits.length) false := by
  rw [length_packBits]
  split_ifs with hfull
  · have hzero : bitStream [0] = List.replicate 8 false := by decide
    rw [bitStream_append, bitStream_packBits, hzero, List.append_assoc, ← List.replicate_add]
    congr 2
    omega
  · rw [bitStream_packBits]
    congr 2
    omega

/-- Setting the bit `1 << (7 - pos % 8)` of byte `pos / 8` sets bit `pos`. -/
theorem bitStream_set {bytes : Bytes} {pos : ℕ} {b : UInt8} (hb : bytes[pos / 8]? = some b) :
    bitStream (bytes.set (pos / 8) (b ||| 1 <<< (7 - pos % 8).toUInt8)) = (bitStream bytes).set pos true := by
  have hlt : pos / 8 < bytes.length := (List.getElem?_eq_some_iff.mp hb).1
  have hmask : ∀ j : Fin 8, ∀ i : Fin 8,
      ((1 : UInt8) <<< (7 - j.val).toUInt8).toNat.testBit (7 - i.val) = decide (j = i) := by decide
  refine List.ext_getElem? fun k => ?_
  rw [getElem?_bitStream, List.getElem?_set, List.getElem?_set, getElem?_bitStream, length_bitStream]
  by_cases hbyte : pos / 8 = k / 8
  · rw [if_pos hbyte, if_pos hlt, Option.map_some, UInt8.toNat_or, Nat.testBit_or,
      hmask ⟨pos % 8, Nat.mod_lt _ (by decide)⟩ ⟨k % 8, Nat.mod_lt _ (by decide)⟩, ← hbyte, hb, Option.map_some]
    by_cases hpos : pos = k
    · subst hpos
      rw [if_pos rfl, if_pos (by omega), decide_eq_true rfl, Bool.or_true]
    · have hne : (⟨pos % 8, Nat.mod_lt _ (by decide)⟩ : Fin 8) ≠ ⟨k % 8, Nat.mod_lt _ (by decide)⟩ := by
        intro h
        have hmod := congrArg Fin.val h
        simp only at hmod
        omega
      rw [if_neg hpos, decide_eq_false hne, Bool.or_false]
  · have hpos : pos ≠ k := fun h => hbyte (h ▸ rfl)
    rw [if_neg hbyte, if_neg hpos]

/-- STEP: a written bit is appended. -/
theorem Holds.writeBit {w : BitWriter} {bits : List Bool} (h : w.Holds bits) (bit : Bool) :
    ∃ w', w.writeBit bit = some w' ∧ w'.Holds (bits ++ [bit]) := by
  have hroom := bitStream_room bits
  have hpad : 8 * (bits.length / 8 + 1) - bits.length = 8 * (bits.length / 8 + 1) - bits.length - 1 + 1 := by omega
  have hnext : bitStream (packBits (bits ++ [bit])) = bits ++ bit ::
      List.replicate (8 * (bits.length / 8 + 1) - bits.length - 1) false := by
    rw [bitStream_packBits, List.append_assoc, List.singleton_append, List.length_append, List.length_singleton]
    congr 3
    omega
  rw [hpad, List.replicate_succ] at hroom
  rw [BitWriter.writeBit, h.nbits, h.bytes]
  cases bit with
  | false =>
    refine ⟨_, rfl, ?_, ?_⟩
    · rw [List.length_append, List.length_singleton]
    · exact bitStream_inj (hroom.trans hnext.symm)
  | true =>
    have hlen := congrArg List.length hroom
    rw [length_bitStream, List.length_append, List.length_cons, List.length_replicate] at hlen
    have hin : bits.length / 8 <
        (if bits.length / 8 = (packBits bits).length then packBits bits ++ [0] else packBits bits).length := by
      omega
    have hget := List.getElem?_eq_getElem hin
    refine ⟨_, by rw [if_pos rfl, hget, Option.map_some], ?_, ?_⟩
    · rw [List.length_append, List.length_singleton]
    · refine bitStream_inj ?_
      rw [bitStream_set hget, hroom, hnext, List.set_append_right _ _ (Nat.le_refl _), Nat.sub_self, List.set_cons_zero]

/-- RUN: written bits are appended. -/
theorem Holds.writeAll {w : BitWriter} {bits : List Bool} (h : w.Holds bits) (more : List Bool) :
    ∃ w', w.writeAll more = some w' ∧ w'.Holds (bits ++ more) := by
  induction more generalizing w bits with
  | nil => exact ⟨w, rfl, by rwa [List.append_nil]⟩
  | cons b more ih =>
    obtain ⟨w', hw, hh⟩ := h.writeBit b
    obtain ⟨w'', hw', hh'⟩ := ih hh
    refine ⟨w'', by rw [BitWriter.writeAll, hw, Option.bind_some, hw'], ?_⟩
    rwa [List.append_assoc, List.singleton_append] at hh'

theorem Holds.riceEncode {w : BitWriter} {bits : List Bool} (h : w.Holds bits) (v : UInt64) :
    ∃ w', w.riceEncode v = some w' ∧ w'.Holds (bits ++ Nimmesh.riceEncode v) := by
  have hbits : ((List.range gcsP).reverse.map fun i => (v &&& (1 <<< gcsP.toUInt64 - 1)) >>> i.toUInt64 &&& 1 == 1) =
      bitsOf (v &&& 63) gcsP := by
    have hmask : (1 : UInt64) <<< gcsP.toUInt64 - 1 = 63 := by decide
    rw [hmask, bitsOf]
    refine List.map_congr_left fun i hi => ?_
    rw [List.mem_reverse, List.mem_range, gcsP] at hi
    exact shift_and_one _ (by omega)
  have hq : (v >>> gcsP.toUInt64).toNat = v.toNat >>> gcsP := UInt64.toNat_shiftRight v _
  obtain ⟨w₁, hw₁, hh₁⟩ := h.writeAll (List.replicate (v >>> gcsP.toUInt64).toNat true)
  obtain ⟨w₂, hw₂, hh₂⟩ := hh₁.writeBit false
  obtain ⟨w₃, hw₃, hh₃⟩ := hh₂.writeAll (bitsOf (v &&& 63) gcsP)
  refine ⟨w₃, ?_, ?_⟩
  · simp only [BitWriter.riceEncode, Option.bind_eq_bind, hw₁, Option.bind_some, hw₂, writeBits, hbits, hw₃]
  · rwa [hq, List.append_assoc, List.append_assoc, List.singleton_append] at hh₃

/-- RUN: the differences of a sorted list are appended. -/
theorem Holds.writeDeltas {w : BitWriter} {bits : List Bool} (h : w.Holds bits) {last : UInt64} {vs : List UInt64}
    (hs : (last :: vs).Pairwise (· ≤ ·)) :
    ∃ w', w.writeDeltas last vs = some w' ∧ w'.Holds (bits ++ GcsFilter.codeDeltas last vs) := by
  induction vs generalizing w bits last with
  | nil => exact ⟨w, rfl, by rwa [GcsFilter.codeDeltas, List.append_nil]⟩
  | cons v vs ih =>
    obtain ⟨hlast, htail⟩ := List.pairwise_cons.mp hs
    have hle : ¬ v < last := UInt64.not_lt.mpr (hlast v List.mem_cons_self)
    obtain ⟨w', hw, hh⟩ := h.riceEncode (v - last)
    obtain ⟨w'', hw', hh'⟩ := ih hh htail
    refine ⟨w'', by rw [BitWriter.writeDeltas, if_neg hle, hw, Option.bind_some, hw'], ?_⟩
    rwa [List.append_assoc] at hh'

end BitWriter

/-! ### The reader reads a bit stream -/

namespace BitReader

/-- The bits that are left. -/
def remaining (r : BitReader) : List Bool := (bitStream r.bytes).drop r.pos

theorem length_remaining (r : BitReader) : r.remaining.length = 8 * r.bytes.length - r.pos := by
  rw [remaining, List.length_drop, length_bitStream]

/-- STEP: one bit is read, or the stream has ended. -/
theorem readBit_cases (r : BitReader) :
    (r.remaining = [] ∧ r.readBit = some (none, r)) ∨
      ∃ b r', r.remaining = b :: r'.remaining ∧ r.readBit = some (some b, r') ∧ r'.bytes = r.bytes := by
  have hbit := getElem?_bitStream r.bytes r.pos
  rw [readBit]
  by_cases hend : r.bytes.length ≤ r.pos / 8
  · refine .inl ⟨?_, if_pos hend⟩
    rw [← List.length_eq_zero_iff, length_remaining]
    omega
  · obtain ⟨byte, hget⟩ : ∃ byte, r.bytes[r.pos / 8]? = some byte :=
      ⟨_, List.getElem?_eq_getElem (Nat.not_le.mp hend)⟩
    rw [hget, Option.map_some] at hbit
    obtain ⟨hlt, hval⟩ := List.getElem?_eq_some_iff.mp hbit
    refine .inr ⟨byte.toNat.testBit (7 - r.pos % 8), { r with pos := r.pos + 1 }, ?_, ?_, rfl⟩
    · rw [remaining, List.drop_eq_getElem_cons hlt, hval]
      rfl
    · rw [if_neg hend, hget, Option.map_some, byte_shift_and_one _ (by omega)]

/-- Bits are read as the model reads them. -/
theorem readBits_cases (n : ℕ) (v : UInt64) (r : BitReader) :
    (r.remaining.length < n ∧ ∃ r', readBits n v r = some (none, r')) ∨
      ∃ r' : BitReader, n ≤ r.remaining.length ∧ r'.remaining = r.remaining.drop n ∧ r'.bytes = r.bytes ∧
        readBits n v r = some (some ((r.remaining.take n).foldl
          (fun (v : UInt64) b => v <<< 1 ||| if b then 1 else 0) v), r') := by
  induction n generalizing v r with
  | zero => exact .inr ⟨r, Nat.zero_le _, rfl, rfl, rfl⟩
  | succ n ih =>
    rcases readBit_cases r with ⟨hnil, hread⟩ | ⟨b, r', hrem, hread, hbytes⟩
    · refine .inl ⟨?_, r, by rw [readBits, hread]; rfl⟩
      rw [hnil]
      exact Nat.succ_pos n
    · have hstep : readBits (n + 1) v r = readBits n (v <<< 1 ||| if b then 1 else 0) r' := by
        rw [readBits, hread]
        rfl
      rw [hstep, hrem, List.length_cons, List.drop_succ_cons, List.take_succ_cons, List.foldl_cons]
      rcases ih (v <<< 1 ||| if b then 1 else 0) r' with ⟨hlt, hnone⟩ | ⟨r'', hle, hdrop, hb, hsome⟩
      · exact .inl ⟨by omega, hnone⟩
      · exact .inr ⟨r'', by omega, hdrop, hb.trans hbytes, hsome⟩

/-- The loop over the quotient ends within one round a bit, as the model reads it. -/
theorem readUnary_cases {fuel : ℕ} {q : UInt64} {r : BitReader} (hf : r.remaining.length < fuel) :
    (Nimmesh.readUnary r.remaining = none ∧ ∃ r', readUnary fuel q r = some (none, r')) ∨
      ∃ k r', Nimmesh.readUnary r.remaining = some (k, r'.remaining) ∧ r'.bytes = r.bytes ∧
        readUnary fuel q r = some (some (q + k), r') := by
  induction fuel generalizing q r with
  | zero => exact absurd hf (Nat.not_lt_zero _)
  | succ fuel ih =>
    rcases readBit_cases r with ⟨hnil, hread⟩ | ⟨b, r', hrem, hread, hbytes⟩
    · refine .inl ⟨by rw [hnil]; rfl, r, by rw [readUnary, hread]; rfl⟩
    · rw [hrem] at hf ⊢
      cases b with
      | false =>
        refine .inr ⟨0, r', rfl, hbytes, ?_⟩
        rw [readUnary, hread, UInt64.add_zero]
        rfl
      | true =>
        have hstep : readUnary (fuel + 1) q r = readUnary fuel (q + 1) r' := by
          rw [readUnary, hread]
          rfl
        rw [hstep, Nimmesh.readUnary]
        rcases ih (q := q + 1) (r := r') (by simpa using hf) with ⟨hnone, hrun⟩ | ⟨k, r'', hsome, hb, hrun⟩
        · exact .inl ⟨by rw [hnone, Option.map_none], hrun⟩
        · refine .inr ⟨k + 1, r'', by rw [hsome, Option.map_some], hb.trans hbytes, ?_⟩
          rw [hrun, UInt64.add_assoc, UInt64.add_comm 1 k]

/-- A symbol is read as the model reads it. -/
theorem riceDecode_cases (r : BitReader) :
    (Nimmesh.riceDecode r.remaining = none ∧ ∃ r', r.riceDecode = some (none, r')) ∨
      ∃ v r', Nimmesh.riceDecode r.remaining = some (v, r'.remaining) ∧ r.riceDecode = some (some v, r') := by
  have hf : r.remaining.length < 8 * r.bytes.length + 1 := by
    rw [length_remaining]
    omega
  rcases readUnary_cases (q := 0) hf with ⟨hnone, r', hrun⟩ | ⟨q, r', hsome, hbytes, hrun⟩
  · refine .inl ⟨?_, r', ?_⟩
    · simp only [Nimmesh.riceDecode, hnone, Option.bind_eq_bind, Option.bind_none]
    · rw [riceDecode, hrun]
      rfl
  · rw [UInt64.zero_add] at hrun
    rcases readBits_cases gcsP 0 r' with ⟨hlt, r'', hrem⟩ | ⟨r'', hle, hdrop, -, hrem⟩
    · refine .inl ⟨?_, r'', ?_⟩
      · simp only [Nimmesh.riceDecode, hsome, Option.bind_eq_bind, Option.bind_some, Nimmesh.readBits, if_pos hlt,
          Option.bind_none]
      · rw [riceDecode, hrun, Option.bind_some]
        simp only [hrem, Option.bind_some]
    · generalize hval : (r'.remaining.take gcsP).foldl
        (fun (v : UInt64) b => v <<< 1 ||| if b then 1 else 0) 0 = low at hrem
      refine .inr ⟨q <<< 6 ||| low, r'', ?_, ?_⟩
      · simp only [Nimmesh.riceDecode, hsome, Option.bind_eq_bind, Option.bind_some, Nimmesh.readBits,
          if_neg (Nat.not_lt.mpr hle), Option.pure_def, hdrop, hval]
      · rw [riceDecode, hrun, Option.bind_some]
        simp only [hrem, Option.bind_some]
        rfl

end BitReader

namespace GcsFilter

/-- CORRECT: building in bytes ends without a failure, with the filter of the model. -/
theorem buildBytes_eq (ids : List UInt64) : buildBytes ids = some (build ids) := by
  rw [buildBytes, build]
  split_ifs with hnil
  · rfl
  · have hempty : BitWriter.Holds {} [] := ⟨rfl, rfl⟩
    obtain ⟨w, hw, hh⟩ := hempty.writeDeltas (pairwise_mapped ids)
    rw [mapped, rangeOf] at hw hh
    simp only [hw, Option.map_some, hh.bytes, List.nil_append]

/-- STEP: the scan over bytes is the scan over the bits that are left. -/
theorem scanBytes_eq (target : UInt64) (n : ℕ) (acc : UInt64) (r : BitReader) :
    scanBytes target n acc r = some (scan target n acc r.remaining) := by
  induction n generalizing acc r with
  | zero => rfl
  | succ n ih =>
    rcases r.riceDecode_cases with ⟨hnone, r', hrun⟩ | ⟨delta, r', hsome, hrun⟩
    · rw [scanBytes, hrun, scan, hnone]
      rfl
    · rw [scanBytes, hrun, scan, hsome, Option.bind_some]
      simp only [ih]
      split_ifs <;> rfl

/-- CORRECT: a query ends without a failure on any filter, with the answer of the model. -/
theorem containsBytes_eq (f : GcsFilter) (id : UInt64) : containsBytes f id = some (f.contains id) := by
  rw [containsBytes, contains]
  split_ifs
  · rfl
  · exact scanBytes_eq _ _ _ _

end GcsFilter

/-- CORRECT: of at most 65535 ids the filter is built and sent without loss, and it contains exactly the ids
    that are mapped to the value of a member; any bytes are parsed if the count is there, and any filter is
    queried to an end; at most 360 ids take at most 400 bytes. -/
theorem gcs_filter_lossless :
    (∀ ids : List UInt64, ids.length ≤ 65535 → ∃ f, GcsFilter.buildBytes ids = some f ∧
      GcsFilter.fromBytes f.toBytes = some f ∧
      ∀ id, GcsFilter.containsBytes f id = some (decide
        (hashToRange id (GcsFilter.rangeOf ids.length) ∈
          ids.map (hashToRange · (GcsFilter.rangeOf ids.length))))) ∧
    (∀ bytes : Bytes, ((GcsFilter.fromBytes bytes).isSome ↔ 2 ≤ bytes.length) ∧
      ∀ f, GcsFilter.fromBytes bytes = some f → ∀ id, ∃ b, GcsFilter.containsBytes f id = some b) ∧
    (∀ (bits rest : List Bool) (q : UInt64), bits.length < 2 ^ 64 → readUnary bits = some (q, rest) →
      q.toNat + 1 + rest.length = bits.length) ∧
    ∀ ids : List UInt64, ids.length ≤ gcsMaxItems → ∃ f, GcsFilter.buildBytes ids = some f ∧
      f.toBytes.length ≤ 400 := by
  refine ⟨?_, ?_, ?_, ?_⟩
  · intro ids h
    refine ⟨_, GcsFilter.buildBytes_eq ids, GcsFilter.fromBytes_toBytes (GcsFilter.n_build_le h), ?_⟩
    intro id
    rw [GcsFilter.containsBytes_eq]
    exact congrArg some (Bool.eq_iff_iff.mpr ((GcsFilter.contains_build h id).trans decide_eq_true_iff.symm))
  · intro bytes
    constructor
    · rw [GcsFilter.fromBytes]
      split_ifs with hshort
      · exact iff_of_false Bool.false_ne_true (Nat.not_le.mpr hshort)
      · exact iff_of_true rfl (Nat.not_lt.mp hshort)
    · intro f _ id
      exact ⟨_, GcsFilter.containsBytes_eq f id⟩
  · intro bits rest q h64 h
    exact readUnary_length h h64
  · intro ids h
    exact ⟨_, GcsFilter.buildBytes_eq ids, (GcsFilter.length_toBytes_build h).trans (by decide)⟩

/-- Three ids, one of them twice. -/
theorem sample_gcs_lossless : ∃ f, GcsFilter.buildBytes [7, 9, 7] = some f ∧ f.toBytes.length ≤ 400 ∧
    GcsFilter.containsBytes f 7 = some true ∧ GcsFilter.containsBytes f 9 = some true := by
  obtain ⟨hall, -, -, hsize⟩ := gcs_filter_lossless
  obtain ⟨f, hf, -, hmem⟩ := hall [7, 9, 7] (by decide)
  obtain ⟨g, hg, hlen⟩ := hsize [7, 9, 7] (by decide)
  obtain rfl : f = g := Option.some.inj (hf.symm.trans hg)
  refine ⟨f, hf, hlen, ?_, ?_⟩
  · rw [hmem, decide_eq_true (by simp)]
  · rw [hmem, decide_eq_true (by simp)]

end Nimmesh
