import Nimmesh.Lib.Varint
import Nimmesh.Lib.Codec
import Nimmesh.Swap.Wire

/-! @src nimiq/header.rs | name:Micro-block headers | layer:model

    The header whose hash is the hash of a block: numbers as varints, arrays as they are. A header survives its
    bytes. The reader of a varint shifts each group into 64 bits and drops what does not fit, so the tenth byte
    of a timestamp can carry bits that no field keeps. -/

namespace Nimmesh
open Codec

def vrfSeedLen : ℕ := 96

def maxExtraDataLen : ℕ := 32

/-- The smallest header: every varint of one byte, no extra data. -/
def microHeaderMinLen : ℕ := 1 + 1 + 1 + 1 + hashLen + vrfSeedLen + 1 + 4 * hashLen

/-- The largest: varints of 3, 5 and 10 bytes, 32 bytes of extra data. -/
def microHeaderMaxLen : ℕ := 1 + 3 + 5 + 10 + hashLen + vrfSeedLen + (1 + maxExtraDataLen) + 4 * hashLen

/-- The network ids that the chain accepts. -/
def knownNetworkIds : List UInt8 := [1, 2, 3, 4, 42, 5, 6, 7, 24]

structure MicroHeader where
  network : UInt8
  version : UInt16
  blockNumber : UInt32
  timestamp : UInt64
  parentHash : Hash
  seed : ByteArr vrfSeedLen
  extraData : Bytes
  stateRoot : Hash
  bodyRoot : Hash
  diffRoot : Hash
  historyRoot : Hash
  deriving DecidableEq

/-! ### Varints -/

/-- Seven bits at a time, the continuation bit on all but the last; `fuel` bounds the bytes. -/
def writeVarintFrom : ℕ → ℕ → Bytes
  | 0, _ => []
  | fuel + 1, value =>
    let byte := (value &&& 0x7F).toUInt8
    let value := value >>> 7
    if value = 0 then [byte] else (byte ||| 0x80) :: writeVarintFrom fuel value

/-- A word has at most ten groups. -/
def writeVarint (value : UInt64) : Bytes := writeVarintFrom 10 value.toNat

/-- The rounds that are left, the index of the byte and the value so far. The word is of 64 bits: a shift by 64
    and a sum past it are refused, what is shifted out is not noticed. -/
def readVarintFrom (maxValue : ℕ) : ℕ → ℕ → ℕ → Bytes → Except Unit (ℕ × Bytes)
  | 0, _, _, _ => .error ()
  | _ + 1, _, _, [] => .error ()
  | rounds + 1, i, value, byte :: rest =>
    if 64 ≤ 7 * i then .error ()
    else
      let shifted := ((byte &&& 0x7F).toNat <<< (7 * i)) % 2 ^ 64
      if 2 ^ 64 ≤ value + shifted then .error ()
      else if byte &&& 0x80 = 0 then if maxValue < value + shifted then .error () else .ok (value + shifted, rest)
      else readVarintFrom maxValue rounds (i + 1) (value + shifted) rest

def readVarint (maxBytes maxValue : ℕ) : Decoder Unit ℕ := readVarintFrom maxValue maxBytes 0 0

def readArray (n : ℕ) : Decoder Unit (ByteArr n) := fun b =>
  match ByteArr.ofBytes? n (b.take n) with
  | some a => .ok (a, b.drop n)
  | none => .error ()

/-! ### Headers -/

/-- What is written of the extra data. -/
def MicroHeader.extra (h : MicroHeader) : Bytes := h.extraData.take maxExtraDataLen

def encodeMicroHeader (h : MicroHeader) : Bytes :=
  [h.network] ++ writeVarint h.version.toUInt64 ++ writeVarint h.blockNumber.toUInt64 ++ writeVarint h.timestamp ++
    h.parentHash.1 ++ h.seed.1 ++ writeVarint h.extra.length.toUInt64 ++ h.extra ++ h.stateRoot.1 ++ h.bodyRoot.1 ++
    h.diffRoot.1 ++ h.historyRoot.1

/-- The network byte, if the chain knows it. -/
def readNetwork : Decoder Unit UInt8
  | network :: rest => if network ∈ knownNetworkIds then .ok (network, rest) else .error ()
  | [] => .error ()

/-- The fields, in the order in which they are read. -/
def readMicroHeader : Decoder Unit MicroHeader := do
  let network ← readNetwork
  let version ← readVarint 3 (2 ^ 16 - 1)
  let blockNumber ← readVarint 5 (2 ^ 32 - 1)
  let timestamp ← readVarint 10 (2 ^ 64 - 1)
  let parentHash ← readArray hashLen
  let seed ← readArray vrfSeedLen
  let extraLen ← readVarint 2 maxExtraDataLen
  let extraData ← readArray extraLen
  let stateRoot ← readArray hashLen
  let bodyRoot ← readArray hashLen
  let diffRoot ← readArray hashLen
  let historyRoot ← readArray hashLen
  return { network, version := version.toUInt16, blockNumber := blockNumber.toUInt32, timestamp := timestamp.toUInt64,
           parentHash, seed, extraData := extraData.1, stateRoot, bodyRoot, diffRoot, historyRoot }

def decodeMicroHeader (bytes : Bytes) : Option MicroHeader :=
  if bytes.length < microHeaderMinLen ∨ microHeaderMaxLen < bytes.length then none
  else
    match readMicroHeader bytes with
    | .ok (h, []) => some h
    | _ => none

/-! ### Reading and writing varints -/

theorem toNat_and_7F (b : UInt8) : (b &&& 0x7F).toNat = b.toNat % 128 := by
  rw [UInt8.toNat_and]
  exact Nat.and_two_pow_sub_one_eq_mod b.toNat 7

theorem and_80_eq_zero_iff (b : UInt8) : b &&& 0x80 = 0 ↔ b.toNat < 128 := by
  have hall : ∀ i : Fin 256, UInt8.ofFin i &&& 0x80 = 0 ↔ (UInt8.ofFin i).toNat < 128 := by decide +kernel
  exact hall b.toFin

/-- EXACT: the reader of the source is that of the library, with a bound on the number. -/
theorem readVarintFrom_eq_ok_iff (maxValue rounds : ℕ) {i acc v : ℕ} {bs rest : Bytes} (hi : 7 * (i + rounds) < 64 + 7)
    (hacc : acc < 2 ^ (7 * i)) :
    readVarintFrom maxValue rounds i acc bs = .ok (v, rest) ↔
      Varint.read 64 rounds i acc bs = some (v, rest) ∧ v ≤ maxValue := by
  induction rounds generalizing i acc bs with
  | zero => simp [readVarintFrom, Varint.read]
  | succ rounds ih =>
    cases bs with
    | nil => simp [readVarintFrom, Varint.read]
    | cons b bs =>
      have hshift : ¬ 64 ≤ 7 * i := by omega
      have hsum : ¬ 2 ^ 64 ≤ acc + ((b.toNat % 128) <<< (7 * i)) % 2 ^ 64 := by
        rw [Varint.add_shiftLeft_mod _ (by omega) hacc]
        exact Nat.not_le.mpr (Nat.mod_lt _ (by decide))
      rw [readVarintFrom, Varint.read, if_neg hshift, toNat_and_7F]
      simp only [if_neg hsum, and_80_eq_zero_iff]
      split_ifs with hb hmax
      · simp only [Option.some.injEq, Prod.mk.injEq, false_iff]
        rintro ⟨⟨rfl, -⟩, hle⟩
        exact absurd hle (Nat.not_le.mpr hmax)
      · simp only [Except.ok.injEq, Option.some.injEq, Prod.mk.injEq]
        constructor
        · rintro ⟨rfl, rfl⟩
          exact ⟨⟨rfl, rfl⟩, Nat.not_lt.mp hmax⟩
        · exact fun h => h.1
      · cases rounds with
        | zero => simp [readVarintFrom, Varint.read]
        | succ rounds =>
          refine ih (by omega) ?_
          have hpow : (2 : ℕ) ^ (7 * (i + 1)) = 2 ^ (7 * i) * 128 := by rw [Nat.mul_add, pow_add]; rfl
          have hle : (2 : ℕ) ^ 7 ≤ 2 ^ (64 - 7 * i) := Nat.pow_le_pow_right (by decide) (by omega)
          have hmul := Nat.mul_le_mul_left (2 ^ (7 * i)) (show b.toNat % 128 + 1 ≤ 128 by omega)
          rw [Varint.shiftLeft_mod 64 _ (by omega), Nat.mod_eq_of_lt (show b.toNat % 128 < 2 ^ (64 - 7 * i) by omega), hpow]
          rw [Nat.mul_add] at hmul
          omega

/-- EXACT: a varint within its budget of bytes is read modulo 2^64, if that is within its bound. -/
theorem readVarint_eq_ok_iff {maxBytes maxValue v : ℕ} {bs rest : Bytes} (h : maxBytes ≤ 10) :
    readVarint maxBytes maxValue bs = .ok (v, rest) ↔ ∃ gs, Varint.IsVarint gs ∧ bs = gs ++ rest ∧
      gs.length ≤ maxBytes ∧ v = Varint.value gs % 2 ^ 64 ∧ v ≤ maxValue := by
  rw [readVarint, readVarintFrom_eq_ok_iff maxValue maxBytes (by omega) (by decide),
    Varint.read_eq_some_iff maxBytes (by omega) (by decide)]
  simp only [Nat.mul_zero, pow_zero, Nat.one_mul, Nat.zero_add]
  constructor
  · rintro ⟨⟨gs, hgs, hbs, hlen, hv⟩, hle⟩
    exact ⟨gs, hgs, hbs, hlen, hv, hle⟩
  · rintro ⟨gs, hgs, hbs, hlen, hv, hle⟩
    exact ⟨⟨gs, hgs, hbs, hlen, hv⟩, hle⟩

theorem writeVarintFrom_eq (fuel value : ℕ) : writeVarintFrom fuel value = Varint.encode fuel value := by
  induction fuel generalizing value with
  | zero => rfl
  | succ fuel ih =>
    have hlow : value &&& 0x7F = value % 128 := Nat.and_two_pow_sub_one_eq_mod value 7
    have hhigh : value >>> 7 = value / 128 := Nat.shiftRight_eq_div_pow value 7
    have hor : ∀ i : Fin 128, i.val.toUInt8 ||| 0x80 = (i.val + 128).toUInt8 := by decide
    rw [writeVarintFrom, Varint.encode]
    simp only [hlow, hhigh, ih]
    by_cases hlt : value < 128
    · rw [if_pos (by omega), if_pos hlt, Nat.mod_eq_of_lt hlt]
    · rw [if_neg (by omega), if_neg hlt, hor ⟨value % 128, Nat.mod_lt _ (by decide)⟩]

/-- The bytes of a number that fits `k` groups. -/
theorem writeVarint_spec {value : UInt64} {k : ℕ} (hk : 0 < k) (hlt : value.toNat < 128 ^ k) :
    Varint.IsVarint (writeVarint value) ∧ Varint.value (writeVarint value) = value.toNat ∧
      (writeVarint value).length ≤ k := by
  have hten : value.toNat < 128 ^ 10 := value.toNat_lt.trans (by decide)
  obtain ⟨hgs, hvalue, -⟩ := Varint.encode_spec 10 hten (by decide)
  rw [writeVarint, writeVarintFrom_eq]
  exact ⟨hgs, hvalue, Varint.length_encode_le 10 hk hlt⟩

theorem reads_writeVarint {value : UInt64} {maxBytes maxValue : ℕ} (hbytes : 0 < maxBytes) (hten : maxBytes ≤ 10)
    (hlt : value.toNat < 128 ^ maxBytes) (hle : value.toNat ≤ maxValue) :
    Reads (readVarint maxBytes maxValue) (writeVarint value) value.toNat := by
  intro rest
  obtain ⟨hgs, hvalue, hlen⟩ := writeVarint_spec hbytes hlt
  rw [readVarint_eq_ok_iff hten]
  exact ⟨writeVarint value, hgs, rfl, hlen, by rw [hvalue, Nat.mod_eq_of_lt value.toNat_lt], hle⟩

theorem reads_readArray {n : ℕ} (a : ByteArr n) : Reads (readArray n) a.1 a := by
  intro rest
  have htake : (a.1 ++ rest).take n = a.1 := List.take_left' a.2
  have hdrop : (a.1 ++ rest).drop n = rest := List.drop_left' a.2
  rw [readArray, htake, hdrop, ByteArr.ofBytes?_val]

theorem readArray_eq_ok_iff {n : ℕ} {bs rest : Bytes} {a : ByteArr n} :
    readArray n bs = .ok (a, rest) ↔ bs = a.1 ++ rest := by
  constructor
  · intro h
    rw [readArray] at h
    cases ha : ByteArr.ofBytes? n (bs.take n) with
    | none =>
      rw [ha] at h
      cases h
    | some a' =>
      rw [ha] at h
      cases h
      rw [← ByteArr.ofBytes?_eq_some.mp ha, List.take_append_drop]
  · rintro rfl
    exact reads_readArray a rest

/-! ### Headers and their bytes -/

/-- A header that the chain knows: its network is known, and its extra data fits. -/
structure MicroHeader.Valid (h : MicroHeader) : Prop where
  network : h.network ∈ knownNetworkIds
  extraData : h.extraData.length ≤ maxExtraDataLen

theorem MicroHeader.Valid.extra_eq {h : MicroHeader} (hv : h.Valid) : h.extra = h.extraData :=
  List.take_of_length_le hv.extraData

theorem toNat_extraLen {n : ℕ} (h : n ≤ maxExtraDataLen) : n.toUInt64.toNat = n := by
  simp only [maxExtraDataLen] at h
  exact Nat.mod_eq_of_lt (by omega)

theorem readNetwork_eq_ok_iff {bs rest : Bytes} {network : UInt8} :
    readNetwork bs = .ok (network, rest) ↔ network ∈ knownNetworkIds ∧ bs = network :: rest := by
  cases bs with
  | nil => simp [readNetwork]
  | cons b bs =>
    rw [readNetwork]
    split_ifs with h
    · constructor
      · rintro ⟨⟩
        exact ⟨h, rfl⟩
      · rintro ⟨-, ⟨⟩⟩
        rfl
    · constructor
      · rintro ⟨⟩
      · rintro ⟨hn, ⟨⟩⟩
        exact absurd hn h

/-- CORRECT: the fields are read back from the bytes that are written. -/
theorem reads_microHeader {h : MicroHeader} (hv : h.Valid) : Reads readMicroHeader (encodeMicroHeader h) h := by
  obtain ⟨network, version, blockNumber, timestamp, parentHash, seed, extraData, stateRoot, bodyRoot, diffRoot,
    historyRoot⟩ := h
  have hextra : extraData.length ≤ 32 := hv.extraData
  have hver := version.toNat_lt
  have hblk := blockNumber.toNat_lt
  have hts := timestamp.toNat_lt
  have hnetwork : Reads readNetwork [network] network := fun rest => readNetwork_eq_ok_iff.mpr ⟨hv.network, rfl⟩
  have hversion : Reads (readVarint 3 (2 ^ 16 - 1)) (writeVarint version.toUInt64) version.toNat := by
    rw [← UInt16.toNat_toUInt64 version] at hver ⊢
    exact reads_writeVarint (by decide) (by decide) (by omega) (by omega)
  have hblock : Reads (readVarint 5 (2 ^ 32 - 1)) (writeVarint blockNumber.toUInt64) blockNumber.toNat := by
    rw [← UInt32.toNat_toUInt64 blockNumber] at hblk ⊢
    exact reads_writeVarint (by decide) (by decide) (by omega) (by omega)
  have htime : Reads (readVarint 10 (2 ^ 64 - 1)) (writeVarint timestamp) timestamp.toNat :=
    reads_writeVarint (by decide) (by decide) (by omega) (by omega)
  have hlen : Reads (readVarint 2 maxExtraDataLen) (writeVarint extraData.length.toUInt64) extraData.length := by
    have heq := toNat_extraLen hv.extraData
    have hread : Reads (readVarint 2 maxExtraDataLen) (writeVarint extraData.length.toUInt64)
        extraData.length.toUInt64.toNat := by
      refine reads_writeVarint (by decide) (by decide) ?_ ?_
      · rw [heq]
        exact hextra.trans_lt (by decide)
      · rw [heq]
        exact hextra
    rwa [heq] at hread
  rw [readMicroHeader, encodeMicroHeader, hv.extra_eq]
  simp only [List.append_assoc]
  refine hnetwork.bind (hversion.bind (hblock.bind (htime.bind ((reads_readArray parentHash).bind
    ((reads_readArray seed).bind (hlen.bind ((reads_readArray ⟨extraData, rfl⟩).bind ((reads_readArray stateRoot).bind
      ((reads_readArray bodyRoot).bind ((reads_readArray diffRoot).bind ?_))))))))))
  have hversion' : version.toNat.toUInt16 = version := UInt16.ofNat_toNat
  have hblock' : blockNumber.toNat.toUInt32 = blockNumber := UInt32.ofNat_toNat
  have htime' : timestamp.toNat.toUInt64 = timestamp := UInt64.ofNat_toNat
  rw [hversion', hblock', htime']
  exact (reads_readArray historyRoot).map

/-- The length of the varint of a number that fits `k` groups. -/
theorem length_writeVarint {value : UInt64} {k : ℕ} (hk : 0 < k) (hlt : value.toNat < 128 ^ k) :
    1 ≤ (writeVarint value).length ∧ (writeVarint value).length ≤ k := by
  obtain ⟨hgs, -, hlen⟩ := writeVarint_spec hk hlt
  exact ⟨List.length_pos_iff.mpr hgs.ne_nil, hlen⟩

theorem length_encodeMicroHeader {h : MicroHeader} (hv : h.Valid) :
    microHeaderMinLen ≤ (encodeMicroHeader h).length ∧ (encodeMicroHeader h).length ≤ microHeaderMaxLen := by
  have hextra : h.extraData.length ≤ 32 := hv.extraData
  have hver := h.version.toNat_lt
  have hblk := h.blockNumber.toNat_lt
  have hts := h.timestamp.toNat_lt
  have hversion := length_writeVarint (k := 3) (by decide) (show h.version.toUInt64.toNat < 128 ^ 3 by
    rw [UInt16.toNat_toUInt64]
    omega)
  have hblock := length_writeVarint (k := 5) (by decide) (show h.blockNumber.toUInt64.toNat < 128 ^ 5 by
    rw [UInt32.toNat_toUInt64]
    omega)
  have htime := length_writeVarint (k := 10) (by decide) (show h.timestamp.toNat < 128 ^ 10 by omega)
  have hlen := length_writeVarint (k := 1) (by decide) (show h.extraData.length.toUInt64.toNat < 128 ^ 1 by
    rw [toNat_extraLen hv.extraData]
    omega)
  simp only [encodeMicroHeader, hv.extra_eq, List.length_append, List.length_singleton, h.parentHash.2, h.seed.2,
    h.stateRoot.2, h.bodyRoot.2, h.diffRoot.2, h.historyRoot.2, microHeaderMinLen, microHeaderMaxLen, hashLen, vrfSeedLen,
    maxExtraDataLen]
  omega

/-- CORRECT: a valid header survives its bytes. -/
theorem decode_encodeMicroHeader {h : MicroHeader} (hv : h.Valid) :
    decodeMicroHeader (encodeMicroHeader h) = some h := by
  obtain ⟨hmin, hmax⟩ := length_encodeMicroHeader hv
  rw [decodeMicroHeader, if_neg (by omega), (reads_microHeader hv).run]

/-! ### What a decoded field is the number of -/

/-- The bytes are those of the header, each number the number of its groups. -/
def MicroHeader.Spelled (h : MicroHeader) (bytes : Bytes) : Prop :=
  ∃ version block time len : Bytes,
    bytes = h.network :: (version ++ (block ++ (time ++ (h.parentHash.1 ++ (h.seed.1 ++ (len ++ (h.extraData ++
      (h.stateRoot.1 ++ (h.bodyRoot.1 ++ (h.diffRoot.1 ++ h.historyRoot.1)))))))))) ∧
    (Varint.IsVarint version ∧ Varint.value version = h.version.toNat) ∧
    (Varint.IsVarint block ∧ Varint.value block = h.blockNumber.toNat) ∧
    (Varint.IsVarint time ∧ Varint.value time = h.timestamp.toNat) ∧
    Varint.IsVarint len ∧ Varint.value len = h.extraData.length

/-- The bytes of the third varint behind the network byte. -/
def timestampBytes (bytes : Bytes) : Option Bytes := do
  let (_, rest) ← Varint.cut (bytes.drop 1)
  let (_, rest) ← Varint.cut rest
  let (time, _) ← Varint.cut rest
  return time

/-- A tenth byte of the timestamp is 0 or 1. -/
def TimestampFits (bytes : Bytes) : Prop :=
  ∀ time, timestampBytes bytes = some time → ∀ b, time[9]? = some b → b.toNat ≤ 1

/-- EXACT: what the decoder accepts, and as what. -/
theorem decodeMicroHeader_eq_some {bytes : Bytes} {h : MicroHeader} (hdec : decodeMicroHeader bytes = some h) :
    ∃ version block time len : Bytes,
      bytes = h.network :: (version ++ (block ++ (time ++ (h.parentHash.1 ++ (h.seed.1 ++ (len ++ (h.extraData ++
        (h.stateRoot.1 ++ (h.bodyRoot.1 ++ (h.diffRoot.1 ++ h.historyRoot.1)))))))))) ∧
      (Varint.IsVarint version ∧ Varint.value version = h.version.toNat) ∧
      (Varint.IsVarint block ∧ Varint.value block = h.blockNumber.toNat) ∧
      (Varint.IsVarint time ∧ time.length ≤ 10 ∧ Varint.value time % 2 ^ 64 = h.timestamp.toNat) ∧
      Varint.IsVarint len ∧ Varint.value len = h.extraData.length := by
  have hread : readMicroHeader bytes = .ok (h, []) := by
    rw [decodeMicroHeader] at hdec
    split_ifs at hdec
    rcases hrun : readMicroHeader bytes with e | ⟨h', rest⟩
    · rw [hrun] at hdec
      cases hdec
    · rw [hrun] at hdec
      cases rest with
      | nil => rw [Option.some.inj hdec]
      | cons b rest => cases hdec
  simp only [readMicroHeader, bind_run_ok_iff] at hread
  obtain ⟨network, b1, h1, version, b2, h2, block, b3, h3, time, b4, h4, parent, b5, h5, seed, b6, h6, len, b7, h7, extra,
    b8, h8, state, b9, h9, body, b10, h10, diff, b11, h11, history, b12, h12, hpure⟩ := hread
  obtain ⟨-, rfl⟩ := readNetwork_eq_ok_iff.mp h1
  obtain ⟨vs, hvs, rfl, hvlen, rfl, hvle⟩ := (readVarint_eq_ok_iff (by decide)).mp h2
  obtain ⟨ks, hks, rfl, hklen, rfl, hkle⟩ := (readVarint_eq_ok_iff (by decide)).mp h3
  obtain ⟨ts, hts, rfl, htlen, rfl, -⟩ := (readVarint_eq_ok_iff (by decide)).mp h4
  obtain rfl := readArray_eq_ok_iff.mp h5
  obtain rfl := readArray_eq_ok_iff.mp h6
  obtain ⟨ls, hls, rfl, hllen, rfl, -⟩ := (readVarint_eq_ok_iff (by decide)).mp h7
  obtain rfl := readArray_eq_ok_iff.mp h8
  obtain rfl := readArray_eq_ok_iff.mp h9
  obtain rfl := readArray_eq_ok_iff.mp h10
  obtain rfl := readArray_eq_ok_iff.mp h11
  obtain rfl := readArray_eq_ok_iff.mp h12
  cases hpure
  have hsmall {gs : Bytes} {k : ℕ} (hlen : gs.length ≤ k) (hk : k ≤ 9) : Varint.value gs % 2 ^ 64 = Varint.value gs := by
    have hlt := Varint.value_lt gs
    have hle : (128 : ℕ) ^ gs.length ≤ 128 ^ 9 := Nat.pow_le_pow_right (by decide) (hlen.trans hk)
    exact Nat.mod_eq_of_lt (by omega)
  rw [hsmall hvlen (by decide)] at hvle
  rw [hsmall hklen (by decide)] at hkle
  refine ⟨vs, ks, ts, ls, by simp, ⟨hvs, ?_⟩, ⟨hks, ?_⟩, ⟨hts, htlen, ?_⟩, hls, ?_⟩
  · rw [hsmall hvlen (by decide)]
    exact (Nat.mod_eq_of_lt (by omega)).symm
  · rw [hsmall hklen (by decide)]
    exact (Nat.mod_eq_of_lt (by omega)).symm
  · exact (Nat.mod_eq_of_lt (Nat.mod_lt _ (by decide))).symm
  · rw [extra.2, hsmall hllen (by decide)]

/-- The groups of the timestamp are where the varints are cut. -/
theorem timestampBytes_eq {n : UInt8} {version block time rest : Bytes} (hv : Varint.IsVarint version)
    (hb : Varint.IsVarint block) (ht : Varint.IsVarint time) :
    timestampBytes (n :: (version ++ (block ++ (time ++ rest)))) = some time := by
  rw [timestampBytes, List.drop_one, List.tail_cons, Varint.cut_eq_some_iff.mpr ⟨hv, rfl⟩]
  simp only [Option.bind_eq_bind, Option.bind_some]
  rw [Varint.cut_eq_some_iff.mpr ⟨hb, rfl⟩, Option.bind_some, Varint.cut_eq_some_iff.mpr ⟨ht, rfl⟩, Option.bind_some]
  rfl

/-- EXACT: of the bytes that are accepted, each field is the number of its groups if a tenth byte of the timestamp is
    0 or 1. -/
theorem spelled_iff {bytes : Bytes} {h : MicroHeader} (hdec : decodeMicroHeader bytes = some h) :
    h.Spelled bytes ↔ TimestampFits bytes := by
  obtain ⟨version, block, time, len, hbytes, hversion, hblock, ⟨htime, htlen, hvalue⟩, hlen⟩ :=
    decodeMicroHeader_eq_some hdec
  have hstamp : timestampBytes bytes = some time := by
    rw [hbytes]
    exact timestampBytes_eq hversion.1 hblock.1 htime
  have hfits : TimestampFits bytes ↔ Varint.value time < 2 ^ 64 := by
    rw [Varint.value_lt_two_pow_64_iff htime htlen]
    simp only [TimestampFits, hstamp, Option.some.injEq, forall_eq']
  rw [hfits]
  constructor
  · rintro ⟨version', block', time', len', hbytes', hversion', hblock', htime', -⟩
    have hstamp' : timestampBytes bytes = some time' := by
      rw [hbytes']
      exact timestampBytes_eq hversion'.1 hblock'.1 htime'.1
    obtain rfl : time' = time := Option.some.inj (hstamp'.symm.trans hstamp)
    rw [htime'.2]
    exact h.timestamp.toNat_lt
  · intro hlt
    exact ⟨version, block, time, len, hbytes, hversion, hblock, ⟨htime, by rw [← hvalue, Nat.mod_eq_of_lt hlt]⟩, hlen⟩

end Nimmesh
