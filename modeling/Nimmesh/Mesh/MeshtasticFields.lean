import Nimmesh.Mesh.MeshtasticWalk

/-! @src shared/MeshtasticFrame.swift | name:What the walk finds | layer:properties

    Each round of the walk takes bytes off the message, so it ends, and the one trap in its way is a length prefix
    that is no signed integer. Over a message that is a sequence of fields, a search finds the first of them with its
    number and wire type; what `encodeToRadio` writes is such a message, three levels deep. -/

namespace Nimmesh.MeshtasticFrame
open Checked Logged

/-! ### The only trap -/

/-- If the run traps, it is on `Int(len)`. -/
def TrapsOnLength {α : Type} (x : Walk α) : Prop := ∀ f, x.outcome = .error (.fault f) → f = .conversion

theorem trapsOnLength_pure {α : Type} (a : α) : TrapsOnLength (pure a : Walk α) := by
  intro f hf
  cases hf

theorem trapsOnLength_throw {α : Type} (e : FrameError) : TrapsOnLength (throw e : Walk α) := by
  intro f hf
  cases hf

theorem trapsOnLength_bind {α β : Type} {x : Walk α} {f : α → Walk β} (hx : TrapsOnLength x)
    (hf : ∀ a, x.outcome = .ok a → TrapsOnLength (f a)) : TrapsOnLength (x >>= f) := by
  intro g hg
  rcases hout : x.outcome with e | a
  · rw [bind_of_error hout] at hg
    exact hx g (by rw [hout, ← Except.error.inj hg])
  · rw [outcome_bind_of_ok hout] at hg
    exact hf a hout g hg

theorem readVarintFrom_shorter (shift value : ℕ) {bs rest : Bytes} {v : ℕ}
    (h : readVarintFrom shift value bs = some (v, rest)) : rest.length < bs.length := by
  induction bs generalizing shift value with
  | nil => cases h
  | cons b bs ih =>
    rw [readVarintFrom] at h
    split_ifs at h with hshift hlast
    · cases h
      exact Nat.lt_succ_self _
    · exact Nat.lt_succ_of_lt (ih _ _ h)

theorem readVarint_shorter {bs rest : Bytes} {v : ℕ} (h : (readVarint bs).outcome = .ok (some (v, rest))) :
    rest.length < bs.length := by
  rw [readVarint] at h
  cases hread : readVarintFrom 0 0 bs with
  | none =>
    rw [hread] at h
    cases h
  | some p =>
    rw [hread] at h
    cases h
    exact readVarintFrom_shorter 0 0 hread

theorem trapsOnLength_readVarint (bs : Bytes) : TrapsOnLength (readVarint bs) := by
  intro f hf
  rw [readVarint] at hf
  cases hread : readVarintFrom 0 0 bs <;> rw [hread] at hf <;> cases hf

theorem trapsOnLength_fieldContent (wire : WireType) (bs : Bytes) :
    TrapsOnLength (fieldContent wire bs) := by
  cases wire with
  | varint =>
    refine trapsOnLength_bind (trapsOnLength_readVarint bs) fun r _ => ?_
    rcases r with _ | ⟨_, next⟩
    · exact trapsOnLength_throw _
    · exact trapsOnLength_pure _
  | fixed32 =>
    simp only [fieldContent]
    split_ifs
    · exact trapsOnLength_pure _
    · exact trapsOnLength_throw _
  | fixed64 =>
    simp only [fieldContent]
    split_ifs
    · exact trapsOnLength_pure _
    · exact trapsOnLength_throw _
  | lengthDelimited =>
    refine trapsOnLength_bind (trapsOnLength_readVarint bs) fun r _ => ?_
    rcases r with _ | ⟨len, afterLen⟩
    · exact trapsOnLength_throw _
    · refine trapsOnLength_bind ?_ fun n _ => ?_
      · intro f hf
        simp only [toInt, Logged.lift] at hf
        split_ifs at hf
        cases hf
        rfl
      · split_ifs
        · exact trapsOnLength_pure _
        · exact trapsOnLength_throw _

/-- What follows a field is no longer than what the field began. -/
theorem fieldContent_rest_le {wire : WireType} {bs : Bytes} {p : Bytes × Bytes}
    (h : (fieldContent wire bs).outcome = .ok p) : p.2.length ≤ bs.length := by
  cases wire with
  | varint =>
    simp only [fieldContent] at h
    rcases hread : (readVarint bs).outcome with e | r
    · rw [bind_of_error hread] at h
      cases h
    · rw [outcome_bind_of_ok hread] at h
      rcases r with _ | ⟨_, next⟩
      · cases h
      · cases h
        exact (readVarint_shorter hread).le
  | fixed32 =>
    simp only [fieldContent] at h
    split_ifs at h
    · cases h
      simp
    · cases h
  | fixed64 =>
    simp only [fieldContent] at h
    split_ifs at h
    · cases h
      simp
    · cases h
  | lengthDelimited =>
    simp only [fieldContent] at h
    rcases hread : (readVarint bs).outcome with e | r
    · rw [bind_of_error hread] at h
      cases h
    · rw [outcome_bind_of_ok hread] at h
      rcases r with _ | ⟨len, afterLen⟩
      · cases h
      · have hshort := readVarint_shorter hread
        rcases hint : (toInt len).outcome with e | n
        · simp only [bind_of_error hint] at h
          cases h
        · simp only [outcome_bind_of_ok hint] at h
          split_ifs at h
          · cases h
            simp only [List.length_drop]
            omega
          · cases h

/-- RUN: the length of the message is fuel enough for the walk. -/
theorem trapsOnLength_scan {σ : Type} (visit : σ → ℕ → WireType → Bytes → σ × Bool) {fuel : ℕ} {bs : Bytes}
    (hfuel : bs.length ≤ fuel) (st : σ) : TrapsOnLength (scan visit fuel bs st) := by
  induction fuel generalizing bs st with
  | zero =>
    obtain rfl := List.length_eq_zero_iff.mp (Nat.le_zero.mp hfuel)
    exact trapsOnLength_pure st
  | succ fuel ih =>
    cases bs with
    | nil => exact trapsOnLength_pure st
    | cons b bs =>
      refine trapsOnLength_bind (trapsOnLength_readVarint (b :: bs)) fun r hr => ?_
      rcases r with _ | ⟨key, rest⟩
      · exact trapsOnLength_throw _
      · have hkey := readVarint_shorter hr
        cases hwire : WireType.ofRawValue (key &&& 0x07) with
        | none =>
          simp only [hwire]
          exact trapsOnLength_throw _
        | some wire =>
          simp only [hwire]
          refine trapsOnLength_bind (trapsOnLength_fieldContent wire rest) fun p hp => ?_
          have hrest := fieldContent_rest_le hp
          obtain ⟨content, rest'⟩ := p
          simp only
          split_ifs
          · refine ih ?_ _
            simp only [List.length_cons] at hkey hfuel hrest
            omega
          · exact trapsOnLength_pure _

theorem trapsOnLength_firstField (field : ℕ) (wire : WireType) (bs : Bytes) :
    TrapsOnLength (firstField field wire bs) :=
  trapsOnLength_scan _ le_rfl _

theorem trapsOnLength_firstVarint (field : ℕ) (bs : Bytes) : TrapsOnLength (firstVarint field bs) := by
  refine trapsOnLength_bind (trapsOnLength_firstField field .varint bs) fun r _ => ?_
  rcases r with _ | raw
  · exact trapsOnLength_pure _
  · refine trapsOnLength_bind (trapsOnLength_readVarint raw) fun r _ => ?_
    rcases r with _ | ⟨value, rest⟩
    · exact trapsOnLength_throw _
    · exact trapsOnLength_pure _

theorem trapsOnLength_firstFixed32 (field : ℕ) (bs : Bytes) : TrapsOnLength (firstFixed32 field bs) := by
  refine trapsOnLength_bind (trapsOnLength_firstField field .fixed32 bs) fun r _ => ?_
  split
  · exact trapsOnLength_pure _
  · exact trapsOnLength_pure _

/-- SAFETY: decoding ends, and traps on nothing but a length prefix. -/
theorem trapsOnLength_decodeFromRadio (bs : Bytes) : TrapsOnLength (decodeFromRadio bs) := by
  refine trapsOnLength_bind (trapsOnLength_firstField 2 .lengthDelimited bs) fun r _ => ?_
  rcases r with _ | packetBytes
  · exact trapsOnLength_pure _
  refine trapsOnLength_bind (trapsOnLength_firstField 4 .lengthDelimited packetBytes) fun r _ => ?_
  rcases r with _ | dataBytes
  · exact trapsOnLength_pure _
  refine trapsOnLength_bind (trapsOnLength_firstFixed32 1 packetBytes) fun sender _ => ?_
  refine trapsOnLength_bind (trapsOnLength_firstVarint 1 dataBytes) fun r _ => ?_
  rcases r with _ | portnum
  · exact trapsOnLength_pure _
  simp only
  split_ifs
  · exact trapsOnLength_pure _
  · refine trapsOnLength_bind (trapsOnLength_firstField 2 .lengthDelimited dataBytes) fun r _ => ?_
    rcases r with _ | payload
    · exact trapsOnLength_throw _
    · exact trapsOnLength_pure _

/-! ### Messages of fields -/

/-- A field as the encoder writes it. -/
inductive Field where
  | varint (number value : ℕ)
  | fixed32 (number : ℕ) (value : UInt32)
  | bytes (number : ℕ) (content : Bytes)

def Field.number : Field → ℕ
  | .varint n _ => n
  | .fixed32 n _ => n
  | .bytes n _ => n

def Field.wire : Field → WireType
  | .varint .. => .varint
  | .fixed32 .. => .fixed32
  | .bytes .. => .lengthDelimited

/-- What the visitor is shown. -/
def Field.content : Field → Bytes
  | .varint _ v => MeshtasticFrame.varint v
  | .fixed32 _ v => MeshtasticFrame.fixed32 v
  | .bytes _ c => c

/-- What stands between the tag and the content. -/
def Field.length : Field → Bytes
  | .bytes _ c => MeshtasticFrame.varint c.length
  | _ => []

def Field.encode (f : Field) : Bytes := tag f.number f.wire ++ f.length ++ f.content

/-- The numbers of the field fit their words. -/
def Field.Fits : Field → Prop
  | .varint n v => n < 2 ^ 61 ∧ v < 2 ^ 64
  | .fixed32 n _ => n < 2 ^ 61
  | .bytes n c => n < 2 ^ 61 ∧ c.length < 2 ^ 63

theorem Field.Fits.number_lt {f : Field} (h : f.Fits) : f.number < 2 ^ 61 := by
  cases f with
  | varint n v => exact h.1
  | fixed32 n v => exact h
  | bytes n c => exact h.1

theorem toUInt8_or_high {n : ℕ} (h : n < 128) : n.toUInt8 ||| 0x80 = (n + 128).toUInt8 := by
  have hall : ∀ i : Fin 128, i.val.toUInt8 ||| 0x80 = (i.val + 128).toUInt8 := by decide +kernel
  exact hall ⟨n, h⟩

theorem varintFrom_eq (fuel v : ℕ) : varintFrom fuel v = Varint.encode fuel v := by
  induction fuel generalizing v with
  | zero => rfl
  | succ fuel ih =>
    have hlow : v &&& 0x7F = v % 128 := Nat.and_two_pow_sub_one_eq_mod v 7
    have hshift : v >>> 7 = v / 128 := Nat.shiftRight_eq_div_pow v 7
    rw [varintFrom, Varint.encode]
    simp only [hlow, hshift, toUInt8_or_high (Nat.mod_lt v (by decide : 0 < 128)), ih]
    by_cases hv : v < 128
    · rw [if_pos hv, if_neg (by omega), Nat.mod_eq_of_lt hv]
    · rw [if_neg hv, if_pos (by omega)]

theorem readVarint_varint {v : ℕ} (h : v < 2 ^ 64) (rest : Bytes) :
    (readVarint (varint v ++ rest)).outcome = .ok (some (v, rest)) := by
  obtain ⟨hgs, hvalue, hlen⟩ := Varint.encode_spec 10 (n := v) (h.trans (by decide)) (by decide)
  rw [varint, varintFrom_eq, readVarint_of_cut (Varint.cut_eq_some_iff.mpr ⟨hgs, rfl⟩) hlen, hvalue,
    Nat.mod_eq_of_lt h]
  rfl

theorem key_eq (field : ℕ) (wire : WireType) : (field <<< 3) ||| wire.rawValue = 8 * field + wire.rawValue := by
  have hraw := wire.rawValue_lt
  rw [← Nat.shiftLeft_add_eq_or_of_lt (i := 3) hraw, Nat.shiftLeft_eq]
  omega

theorem key_lt {field : ℕ} (h : field < 2 ^ 61) (wire : WireType) : (field <<< 3) ||| wire.rawValue < 2 ^ 64 := by
  have hraw := wire.rawValue_lt
  rw [key_eq]
  omega

theorem toInt_of_lt {len : ℕ} (h : len < 2 ^ 63) : (toInt len).outcome = .ok len := by
  rw [toInt, if_pos h]
  rfl

theorem fieldContent_field {f : Field} (h : f.Fits) (rest : Bytes) :
    (fieldContent f.wire (f.length ++ f.content ++ rest)).outcome = .ok (f.content, rest) := by
  cases f with
  | varint n v =>
    simp only [Field.wire, Field.length, Field.content, List.nil_append, fieldContent]
    rw [outcome_bind_of_ok (readVarint_varint h.2 rest)]
    simp
  | fixed32 n v => simp [Field.wire, Field.length, Field.content, fieldContent, fixed32]
  | bytes n c =>
    simp only [Field.wire, Field.length, Field.content, List.append_assoc, fieldContent]
    rw [outcome_bind_of_ok (readVarint_varint (h.2.trans (by decide)) (c ++ rest))]
    simp only [outcome_bind_of_ok (toInt_of_lt h.2)]
    simp

/-- The field is the one that is looked for. -/
def Field.Is (field : ℕ) (wire : WireType) (f : Field) : Prop := f.number = field ∧ f.wire = wire

instance (field : ℕ) (wire : WireType) : DecidablePred (Field.Is field wire) := fun f =>
  inferInstanceAs (Decidable (f.number = field ∧ f.wire = wire))

/-- STEP: a search takes the field in front, or goes on behind it. -/
theorem scan_field {f : Field} (h : f.Fits) (field : ℕ) (wire : WireType) (fuel : ℕ) (rest : Bytes) :
    (scan (seek field wire) (fuel + 1) (f.encode ++ rest) none).outcome =
      if f.Is field wire then .ok (some f.content)
      else (scan (seek field wire) fuel rest none).outcome := by
  have hread := readVarint_varint (key_lt h.number_lt f.wire) (f.length ++ f.content ++ rest)
  have hbytes : varint ((f.number <<< 3) ||| f.wire.rawValue) ++ (f.length ++ f.content ++ rest) =
      f.encode ++ rest := by
    simp [Field.encode, tag]
  rw [hbytes] at hread
  rcases hcons : f.encode ++ rest with _ | ⟨b, bs⟩
  · rw [hcons] at hread
    cases hread
  rw [hcons] at hread
  rw [scan, outcome_bind_of_ok hread]
  obtain ⟨hwire, hnumber⟩ := key_eq_iff.mp (key_eq f.number f.wire)
  simp only [hwire, hnumber]
  rw [outcome_bind_of_ok (fieldContent_field h rest)]
  by_cases his : f.Is field wire
  · simp only [seek, if_pos his, if_pos (show f.number = field ∧ f.wire = wire from his)]
    rfl
  · simp only [seek, if_neg his, if_neg (show ¬(f.number = field ∧ f.wire = wire) from his), if_true]

/-- RUN: a search over the fields of a message finds the first that is the one. -/
theorem scan_fields (fs : List Field) (h : ∀ f ∈ fs, f.Fits) (field : ℕ) (wire : WireType) {fuel : ℕ}
    (hfuel : fs.length ≤ fuel) :
    (scan (seek field wire) fuel (fs.flatMap Field.encode) none).outcome =
      .ok ((fs.find? (fun f => f.Is field wire)).map Field.content) := by
  induction fs generalizing fuel with
  | nil =>
    rw [List.flatMap_nil, scan]
    rfl
  | cons f fs ih =>
    obtain ⟨fuel, rfl⟩ : ∃ k, fuel = k + 1 := ⟨fuel - 1, by rw [List.length_cons] at hfuel; omega⟩
    rw [List.flatMap_cons, scan_field (h f List.mem_cons_self),
      ih (fun g hg => h g (List.mem_cons_of_mem f hg)) (by simpa using hfuel), List.find?_cons]
    by_cases his : f.Is field wire
    · simp [his]
    · simp [his]

theorem length_le_length_flatMap (fs : List Field) : fs.length ≤ (fs.flatMap Field.encode).length := by
  induction fs with
  | nil => exact Nat.zero_le _
  | cons f fs ih =>
    have hpos : 0 < f.encode.length := by
      rw [Field.encode, tag, varint, varintFrom]
      simp only [List.length_append]
      split_ifs
      · simp only [List.length_cons]
        omega
      · simp only [List.length_cons]
        omega
    rw [List.flatMap_cons, List.length_append, List.length_cons]
    omega

/-- EXACT: what a search over a message of fields finds. -/
theorem firstField_fields {fs : List Field} (h : ∀ f ∈ fs, f.Fits) (field : ℕ) (wire : WireType) :
    (firstField field wire (fs.flatMap Field.encode)).outcome =
      .ok ((fs.find? (fun f => f.Is field wire)).map Field.content) :=
  scan_fields fs h field wire (length_le_length_flatMap fs)

theorem firstVarint_fields {fs : List Field} (h : ∀ f ∈ fs, f.Fits) {field v : ℕ} (hv : v < 2 ^ 64)
    (hfind : (fs.find? (fun f => f.Is field .varint)).map Field.content = some (varint v)) :
    (firstVarint field (fs.flatMap Field.encode)).outcome = .ok (some v) := by
  have hread := readVarint_varint hv []
  rw [List.append_nil] at hread
  rw [firstVarint, outcome_bind_of_ok (firstField_fields h field .varint), hfind]
  simp only [outcome_bind_of_ok hread]
  rfl

theorem fixed32_join (v : UInt32) :
    (v &&& 0xFF).toUInt8.toUInt32 ||| (((v >>> 8) &&& 0xFF).toUInt8.toUInt32 <<< 8) |||
      (((v >>> 16) &&& 0xFF).toUInt8.toUInt32 <<< 16) ||| (((v >>> 24) &&& 0xFF).toUInt8.toUInt32 <<< 24) = v := by
  have hlow (n : ℕ) : n &&& 255 = n % 2 ^ 8 := Nat.and_two_pow_sub_one_eq_mod n 8
  have hbyte (n : ℕ) : n % 256 = n % 2 ^ 8 := rfl
  have hword (n : ℕ) : n % 4294967296 = n % 2 ^ 32 := rfl
  -- the byte at `k` holds the bits from `k` on
  have hpart (k i : ℕ) : (decide (k ≤ i) && (decide (i - k < 8) && v.toNat.testBit (k + (i - k)))) =
      (decide (k ≤ i ∧ i < k + 8) && v.toNat.testBit i) := by
    by_cases hk : k ≤ i
    · simp [hk, Nat.add_sub_cancel' hk, show i - k < 8 ↔ i < k + 8 by omega]
    · simp [hk]
  apply UInt32.toNat_inj.mp
  apply Nat.eq_of_testBit_eq
  intro i
  simp only [UInt32.toUInt8_and, UInt32.toUInt8_ofNat, UInt8.toUInt32_and, UInt32.toUInt32_toUInt8, Nat.lt_add_one,
    UInt8.toUInt32_ofNat, UInt32.toNat_or, UInt32.toNat_and, UInt32.toNat_mod, UInt32.reduceToNat, hlow,
    Nat.reducePow, dvd_refl, Nat.mod_mod_of_dvd, UInt32.toNat_shiftLeft, UInt32.toNat_shiftRight, Nat.reduceMod,
    Nat.testBit_or]
  simp only [hbyte, hword, Nat.testBit_mod_two_pow, Nat.testBit_shiftLeft, Nat.testBit_shiftRight, hpart]
  cases hbit : v.toNat.testBit i with
  | false => simp
  | true =>
    have hi : i < 32 := by
      by_contra hi
      have hlt : v.toNat < 2 ^ i := v.toNat_lt.trans_le (Nat.pow_le_pow_right (by decide) (Nat.not_lt.mp hi))
      rw [Nat.testBit_lt_two_pow hlt] at hbit
      cases hbit
    simp only [Bool.and_true, hi, decide_true, Bool.decide_and, Bool.true_and, and_true, Bool.or_eq_true,
      decide_eq_true_eq, Bool.and_eq_true]
    omega

theorem firstFixed32_fields {fs : List Field} (h : ∀ f ∈ fs, f.Fits) {field : ℕ} {v : UInt32}
    (hfind : (fs.find? (fun f => f.Is field .fixed32)).map Field.content = some (fixed32 v)) :
    (firstFixed32 field (fs.flatMap Field.encode)).outcome = .ok (some v) := by
  rw [firstFixed32, outcome_bind_of_ok (firstField_fields h field .fixed32), hfind, fixed32]
  simp only [outcome_pure, fixed32_join]

/-! ### What is sent -/

def dataFields (payload : Bytes) : List Field := [.varint 1 privateAppPortnum, .bytes 2 payload]

def packetFields (data : Bytes) (packetId destination : UInt32) (hopLimit : UInt64) : List Field :=
  [.fixed32 2 destination, .bytes 4 data, .fixed32 6 packetId, .varint 9 hopLimit.toNat]

theorem dataMessage_eq (payload : Bytes) : dataMessage payload = (dataFields payload).flatMap Field.encode := by
  simp [dataMessage, dataFields, Field.encode, Field.number, Field.wire, Field.length, Field.content]

theorem meshPacket_eq (data : Bytes) (packetId destination : UInt32) (hopLimit : UInt64) :
    meshPacket data packetId destination hopLimit =
      (packetFields data packetId destination hopLimit).flatMap Field.encode := by
  simp [meshPacket, packetFields, Field.encode, Field.number, Field.wire, Field.length, Field.content]

theorem dataFields_fit {payload : Bytes} (h : payload.length ≤ maxPayloadBytes) : ∀ f ∈ dataFields payload, f.Fits := by
  have hlen : payload.length < 2 ^ 63 := h.trans_lt (by decide)
  simp only [dataFields, List.forall_mem_cons]
  exact ⟨⟨by decide, by decide⟩, ⟨by decide, hlen⟩, fun f hf => absurd hf List.not_mem_nil⟩

theorem packetFields_fit {data : Bytes} (h : data.length < 2 ^ 63) (packetId destination : UInt32) (hopLimit : UInt64) :
    ∀ f ∈ packetFields data packetId destination hopLimit, f.Fits := by
  simp only [packetFields, List.forall_mem_cons]
  refine ⟨?_, ⟨by decide, h⟩, ?_, ⟨by decide, hopLimit.toNat_lt⟩, fun f hf => absurd hf List.not_mem_nil⟩
  · show 2 < 2 ^ 61
    decide
  · show 6 < 2 ^ 61
    decide

theorem length_varint_le {v : ℕ} (h : v < 2 ^ 64) : (varint v).length ≤ 10 := by
  rw [varint, varintFrom_eq]
  exact (Varint.encode_spec 10 (n := v) (h.trans (by decide)) (by decide)).2.2

theorem length_dataMessage_le {payload : Bytes} (h : payload.length ≤ maxPayloadBytes) :
    (dataMessage payload).length ≤ 235 := by
  have hlen := length_varint_le (v := payload.length) (h.trans_lt (by decide))
  have hport : (varint privateAppPortnum).length = 2 := by decide
  have htag1 : (tag 1 .varint).length = 1 := by decide
  have htag2 : (tag 2 .lengthDelimited).length = 1 := by decide
  have hmax : maxPayloadBytes = 221 := rfl
  simp only [dataMessage, List.length_append]
  omega

theorem length_meshPacket_lt {data : Bytes} (h : data.length ≤ 235) (packetId destination : UInt32)
    (hopLimit : UInt64) : (meshPacket data packetId destination hopLimit).length < 2 ^ 63 := by
  have hlen := length_varint_le (v := data.length) (h.trans_lt (by decide))
  have hhop := length_varint_le hopLimit.toNat_lt
  have htag2 : (tag 2 .fixed32).length = 1 := by decide
  have htag4 : (tag 4 .lengthDelimited).length = 1 := by decide
  have htag6 : (tag 6 .fixed32).length = 1 := by decide
  have htag9 : (tag 9 .varint).length = 1 := by decide
  simp only [meshPacket, fixed32, List.length_append, List.length_cons, List.length_nil]
  omega

/-- What a scanner reads out of a frame: the packet, its ids and hop limit, its data, and the payload on its port. -/
structure Carries (frame payload : Bytes) (packetId destination : UInt32) (hopLimit : UInt64) (packet data : Bytes) :
    Prop where
  packet_eq : (firstField 1 .lengthDelimited frame).outcome = .ok (some packet)
  packetId_eq : (firstFixed32 6 packet).outcome = .ok (some packetId)
  destination_eq : (firstFixed32 2 packet).outcome = .ok (some destination)
  hopLimit_eq : (firstVarint 9 packet).outcome = .ok (some hopLimit.toNat)
  data_eq : (firstField 4 .lengthDelimited packet).outcome = .ok (some data)
  port_eq : (firstVarint 1 data).outcome = .ok (some privateAppPortnum)
  payload_eq : (firstField 2 .lengthDelimited data).outcome = .ok (some payload)

theorem encodeToRadio_carries {payload : Bytes} (h : payload.length ≤ maxPayloadBytes) (packetId destination : UInt32)
    (hopLimit : UInt64) : ∃ frame, encodeToRadio payload packetId destination hopLimit = .ok frame ∧
      ∃ packet data, Carries frame payload packetId destination hopLimit packet data := by
  have hdata := length_dataMessage_le h
  have hpacket := length_meshPacket_lt hdata packetId destination hopLimit
  have hfits := packetFields_fit (hdata.trans_lt (by decide)) packetId destination hopLimit
  have hframe : ∀ f ∈ [Field.bytes 1 (meshPacket (dataMessage payload) packetId destination hopLimit)], f.Fits := by
    simp only [List.forall_mem_cons]
    exact ⟨⟨by decide, hpacket⟩, fun f hf => absurd hf List.not_mem_nil⟩
  refine ⟨_, if_pos h, meshPacket (dataMessage payload) packetId destination hopLimit, dataMessage payload, ?_⟩
  constructor
  · have hfind := firstField_fields hframe 1 .lengthDelimited
    simpa [Field.encode, Field.number, Field.wire, Field.length, Field.content, Field.Is] using hfind
  · rw [meshPacket_eq]
    exact firstFixed32_fields hfits rfl
  · rw [meshPacket_eq]
    exact firstFixed32_fields hfits rfl
  · rw [meshPacket_eq]
    exact firstVarint_fields hfits hopLimit.toNat_lt rfl
  · rw [meshPacket_eq, firstField_fields hfits]
    rfl
  · rw [dataMessage_eq]
    exact firstVarint_fields (dataFields_fit h) (by decide) rfl
  · rw [dataMessage_eq, firstField_fields (dataFields_fit h)]
    rfl

/-! ### Frames from strangers -/

/-- EXACT: decoding traps on no message but over a length prefix, and neither traps nor takes a varint for another
    number exactly if the numbers on its way are in range. What is encoded is found again. -/
theorem meshtastic_frames (bytes : Bytes) :
    TrapsOnLength (decodeFromRadio bytes) ∧ (Sound Exact (decodeFromRadio bytes) ↔ InRange bytes) ∧
    ∀ payload packetId destination hopLimit, payload.length ≤ maxPayloadBytes →
      ∃ frame, encodeToRadio payload packetId destination hopLimit = .ok frame ∧
        ∃ packet data, Carries frame payload packetId destination hopLimit packet data :=
  ⟨trapsOnLength_decodeFromRadio bytes, sound_decodeFromRadio_iff bytes,
    fun _ packetId destination hopLimit h => encodeToRadio_carries h packetId destination hopLimit⟩

/-- The port of its data is spelled 2^64 + 256. -/
def widePort : Bytes :=
  [0x12, 15, 0x22, 13, 0x08, 0x80, 0x82, 0x80, 0x80, 0x80, 0x80, 0x80, 0x80, 0x80, 0x02, 0x12, 0]

/-- A length prefix of 2^63 behind the tag of the packet traps; a port of more than 64 bits is taken for the private
    one. -/
theorem hostile_frames :
    (decodeFromRadio [0x12, 0x80, 0x80, 0x80, 0x80, 0x80, 0x80, 0x80, 0x80, 0x80, 0x01]).outcome =
        .error (.fault .conversion) ∧
      (decodeFromRadio widePort).outcome = .ok (some { portnum := 256, payload := [], sender := 0 }) ∧
      ∃ entry ∈ (decodeFromRadio widePort).log, ¬Exact entry := by
  refine ⟨by decide +kernel, by decide +kernel, ?_⟩
  refine ⟨([0x80, 0x82, 0x80, 0x80, 0x80, 0x80, 0x80, 0x80, 0x80, 0x02], 256), by decide +kernel, ?_⟩
  show ¬Varint.value _ = 256
  decide

end Nimmesh.MeshtasticFrame
