import Nimmesh.Lib.Codec
import Nimmesh.Lib.Tlv
import Nimmesh.Swap.Intent
import Nimmesh.Swap.Wire

/-! @src swap_wire.rs swap_intent.rs | name:What the swap wire carries | layer:properties

    The decoder of swap messages, described without its loop: it takes the streams of complete records
    in which every known type has its width and a value of its enumeration and the required types occur,
    and gives the envelope in which the last record of each type counts. An envelope and an intent
    survive their bytes. -/

namespace Nimmesh
open Codec

/-! ### Records and envelopes -/

/-- The width of a type whose values have only one. -/
def fixedLen (ty : UInt8) : Option ℕ :=
  if ty = tSwapId then some swapIdLen
  else if ty ∈ [tHashlock, tTxId, tProposePubkey] then some 32
  else if ty ∈ [tGiveAmount, tTakeAmount, tNimTimeout, tCounterpartyTimeout] then some 8
  else if ty = tNimAddress then some nimAddressLen
  else if ty ∈ [tLeg, tNetworkId, tReason] then some 1
  else if ty = tBtcPubkey then some btcPubkeyLen
  else if ty = tProposeSig then some 64
  else none

/-- A record whose value has the width and the range of its type; every unknown type is fine. -/
structure ValidField (t : Tlv.Record) : Prop where
  width : ∀ n, fixedLen t.1 = some n → t.2.length = n
  leg : t.1 = tLeg → ∃ l : SwapLegId, t.2 = [l.toU8]

/-- The envelope in which the last record of each type counts. -/
def envelopeOf (l : List Tlv.Record) : SwapEnvelope where
  swapId := ((Tlv.latest l tSwapId).bind (ByteArr.ofBytes? swapIdLen)).getD (ByteArr.fill swapIdLen 0)
  hashlock := (Tlv.latest l tHashlock).bind (ByteArr.ofBytes? hashLen)
  giveAmount := (Tlv.latest l tGiveAmount).map u64OfBe
  takeAmount := (Tlv.latest l tTakeAmount).map u64OfBe
  nimTimeout := (Tlv.latest l tNimTimeout).map u64OfBe
  counterpartyTimeout := (Tlv.latest l tCounterpartyTimeout).map u64OfBe
  nimAddress := (Tlv.latest l tNimAddress).bind (ByteArr.ofBytes? nimAddressLen)
  counterpartyAddress := Tlv.latest l tCounterpartyAddress
  leg := (Tlv.latest l tLeg).bind fun v => v.head?.bind SwapLegId.fromU8
  txWire := Tlv.latest l tTxWire
  txId := (Tlv.latest l tTxId).bind (ByteArr.ofBytes? hashLen)
  networkId := (Tlv.latest l tNetworkId).bind List.head?
  reason := (Tlv.latest l tReason).bind List.head?
  btcPubkey := (Tlv.latest l tBtcPubkey).bind (ByteArr.ofBytes? btcPubkeyLen)
  nimPubkey := (Tlv.latest l tProposePubkey).bind (ByteArr.ofBytes? 32)
  proposeSig := (Tlv.latest l tProposeSig).bind (ByteArr.ofBytes? 64)

/-- The set fields of an envelope, in ascending type order. -/
def SwapEnvelope.fields (env : SwapEnvelope) : List Tlv.Record :=
  [(tSwapId, env.swapId.1)] ++ Tlv.ofField tHashlock env.hashlock (·.1) ++
  Tlv.ofField tGiveAmount env.giveAmount beBytes ++ Tlv.ofField tTakeAmount env.takeAmount beBytes ++
  Tlv.ofField tNimTimeout env.nimTimeout beBytes ++
  Tlv.ofField tCounterpartyTimeout env.counterpartyTimeout beBytes ++
  Tlv.ofField tNimAddress env.nimAddress (·.1) ++
  Tlv.ofField tCounterpartyAddress env.counterpartyAddress id ++
  Tlv.ofField tLeg env.leg (fun l => [l.toU8]) ++ Tlv.ofField tTxWire env.txWire id ++
  Tlv.ofField tTxId env.txId (·.1) ++ Tlv.ofField tNetworkId env.networkId (fun n => [n]) ++
  Tlv.ofField tReason env.reason (fun r => [r]) ++ Tlv.ofField tBtcPubkey env.btcPubkey (·.1) ++
  Tlv.ofField tProposePubkey env.nimPubkey (·.1) ++ Tlv.ofField tProposeSig env.proposeSig (·.1)

/-! ### One record -/

section Field

variable {v : Bytes} {ty : UInt8} {e : SwapEnvelope}

/-- Storing a fixed-width value. -/
theorem readArr_field {n : ℕ} (f : Option (ByteArr n) → SwapEnvelope) :
    (readArr n v ty >>= fun a => .ok (f (some a))) = .ok e ↔ v.length = n ∧ e = f (ByteArr.ofBytes? n v) := by
  unfold readArr ByteArr.ofBytes?
  split_ifs with h
  · show Except.ok (f (some ⟨v, h⟩)) = .ok e ↔ _
    simp [h, eq_comm]
  · simp [error_bind, h]

theorem readU64_field (f : Option UInt64 → SwapEnvelope) :
    (readU64 v ty >>= fun a => .ok (f (some a))) = .ok e ↔ v.length = 8 ∧ e = f (some (u64OfBe v)) := by
  unfold readU64
  split_ifs with h
  · simp [ok_bind, h, eq_comm]
  · simp [error_bind, h]

theorem readByte_field (f : Option UInt8 → SwapEnvelope) :
    (readByte v ty >>= fun a => .ok (f (some a))) = .ok e ↔ v.length = 1 ∧ e = f v.head? := by
  rcases v with _ | ⟨b, _ | ⟨b', v⟩⟩
  · simp [readByte, error_bind]
  · simp [readByte, ok_bind, eq_comm]
  · simp [readByte, error_bind]

theorem SwapLegId.toU8_of_fromU8 {b : UInt8} {l : SwapLegId} (h : SwapLegId.fromU8 b = some l) : l.toU8 = b := by
  unfold SwapLegId.fromU8 at h
  split_ifs at h with h0 h1
  · cases h
    exact h0.symm
  · cases h
    exact h1.symm

theorem SwapLegId.fromU8_toU8 (l : SwapLegId) : SwapLegId.fromU8 l.toU8 = some l := by
  cases l <;> rfl

theorem readLeg_field (f : Option SwapLegId → SwapEnvelope) :
    (readLeg v ty >>= fun a => .ok (f (some a))) = .ok e ↔
      (∃ l : SwapLegId, v = [l.toU8]) ∧ e = f (v.head?.bind SwapLegId.fromU8) := by
  have hread : ∀ b, (∃ l : SwapLegId, [b] = [l.toU8]) ↔ ∃ l, SwapLegId.fromU8 b = some l := by
    intro b
    constructor
    · rintro ⟨l, hl⟩
      rw [(List.cons.inj hl).1]
      exact ⟨l, SwapLegId.fromU8_toU8 l⟩
    · rintro ⟨l, hl⟩
      exact ⟨l, by rw [SwapLegId.toU8_of_fromU8 hl]⟩
  rcases v with _ | ⟨b, _ | ⟨b', v⟩⟩
  · simp [readLeg, readByte, error_bind]
  · rw [hread]
    cases hb : SwapLegId.fromU8 b with
    | none => simp [readLeg, readByte, ok_bind, error_bind, hb]
    | some l => simp [readLeg, readByte, ok_bind, hb, eq_comm]
  · simp [readLeg, readByte, error_bind]

theorem validField_of_fixed {n : ℕ} (hw : fixedLen ty = some n) (hl : ty ≠ tLeg) :
    ValidField (ty, v) ↔ v.length = n := by
  constructor
  · intro h
    exact h.width n hw
  · intro h
    refine ⟨fun m hm => ?_, fun h' => absurd h' hl⟩
    rw [hw] at hm
    cases hm
    exact h

theorem validField_leg : ValidField (tLeg, v) ↔ ∃ l : SwapLegId, v = [l.toU8] := by
  constructor
  · intro h
    exact h.leg rfl
  · rintro ⟨l, rfl⟩
    refine ⟨fun n hn => ?_, fun _ => ⟨l, rfl⟩⟩
    have hone : fixedLen tLeg = some 1 := rfl
    rw [hone] at hn
    cases hn
    rfl

theorem validField_of_free (hw : fixedLen ty = none) (hl : ty ≠ tLeg) : ValidField (ty, v) := by
  refine ⟨fun n hn => ?_, fun h => absurd h hl⟩
  rw [hw] at hn
  cases hn

/-- What a record does to the envelope, from the reading of its value, its validity and the fields that
    the records so far give. -/
theorem field_step {l : List Tlv.Record} {P : Prop} {g : SwapEnvelope}
    (hread : setField (envelopeOf l) ty v = .ok e ↔ P ∧ e = g) (hvalid : ValidField (ty, v) ↔ P)
    (hcat : envelopeOf (l ++ [(ty, v)]) = g) :
    setField (envelopeOf l) ty v = .ok e ↔ ValidField (ty, v) ∧ e = envelopeOf (l ++ [(ty, v)]) := by
  rw [hread, hvalid, hcat]

theorem field_step_free {l : List Tlv.Record} {g : SwapEnvelope}
    (hread : setField (envelopeOf l) ty v = .ok g) (hvalid : ValidField (ty, v))
    (hcat : envelopeOf (l ++ [(ty, v)]) = g) :
    setField (envelopeOf l) ty v = .ok e ↔ ValidField (ty, v) ∧ e = envelopeOf (l ++ [(ty, v)]) := by
  rw [hread, hcat]
  simp [hvalid, eq_comm]

end Field

/-- The types of the fields of an envelope. -/
def knownTypes : List UInt8 :=
  [tSwapId, tHashlock, tGiveAmount, tTakeAmount, tNimTimeout, tCounterpartyTimeout, tNimAddress,
   tCounterpartyAddress, tLeg, tTxWire, tTxId, tNetworkId, tReason, tBtcPubkey, tProposePubkey, tProposeSig]

/-- An unknown type is skipped. -/
theorem setField_unknown (env : SwapEnvelope) {ty : UInt8} (h : ty ∉ knownTypes) (v : Bytes) :
    setField env ty v = .ok env := by
  simp only [knownTypes, List.mem_cons, List.not_mem_nil, or_false, not_or] at h
  simp [setField, h]

/-- An unknown type is no field of an envelope. -/
theorem envelopeOf_unknown (l : List Tlv.Record) {ty : UInt8} (h : ty ∉ knownTypes) (v : Bytes) :
    envelopeOf (l ++ [(ty, v)]) = envelopeOf l := by
  simp only [knownTypes, List.mem_cons, List.not_mem_nil, or_false, not_or] at h
  simp [envelopeOf, Tlv.latest_concat, h]

theorem fixedLen_unknown {ty : UInt8} (h : ty ∉ knownTypes) : fixedLen ty = none := by
  simp only [knownTypes, List.mem_cons, List.not_mem_nil, or_false, not_or] at h
  simp [fixedLen, h]

/-- STEP: the decoder takes a record exactly when it is valid, and then it counts for its type. -/
theorem setField_envelopeOf (l : List Tlv.Record) (t : Tlv.Record) (e : SwapEnvelope) :
    setField (envelopeOf l) t.1 t.2 = .ok e ↔ ValidField t ∧ e = envelopeOf (l ++ [t]) := by
  obtain ⟨ty, v⟩ := t
  show setField (envelopeOf l) ty v = .ok e ↔ ValidField (ty, v) ∧ e = envelopeOf (l ++ [(ty, v)])
  by_cases hk : ty ∈ knownTypes
  · simp only [knownTypes, List.mem_cons, List.not_mem_nil, or_false] at hk
    rcases hk with rfl | rfl | rfl | rfl | rfl | rfl | rfl | rfl | rfl | rfl | rfl | rfl | rfl | rfl | rfl | rfl
    · exact field_step (readArr_field fun a => { envelopeOf l with swapId := a.getD (ByteArr.fill swapIdLen 0) })
        (validField_of_fixed rfl (by decide)) (by simp only [envelopeOf, Tlv.latest_concat]; rfl)
    · exact field_step (readArr_field fun a => { envelopeOf l with hashlock := a })
        (validField_of_fixed rfl (by decide)) (by simp only [envelopeOf, Tlv.latest_concat]; rfl)
    · exact field_step (readU64_field fun a => { envelopeOf l with giveAmount := a })
        (validField_of_fixed rfl (by decide)) (by simp only [envelopeOf, Tlv.latest_concat]; rfl)
    · exact field_step (readU64_field fun a => { envelopeOf l with takeAmount := a })
        (validField_of_fixed rfl (by decide)) (by simp only [envelopeOf, Tlv.latest_concat]; rfl)
    · exact field_step (readU64_field fun a => { envelopeOf l with nimTimeout := a })
        (validField_of_fixed rfl (by decide)) (by simp only [envelopeOf, Tlv.latest_concat]; rfl)
    · exact field_step (readU64_field fun a => { envelopeOf l with counterpartyTimeout := a })
        (validField_of_fixed rfl (by decide)) (by simp only [envelopeOf, Tlv.latest_concat]; rfl)
    · exact field_step (readArr_field fun a => { envelopeOf l with nimAddress := a })
        (validField_of_fixed rfl (by decide)) (by simp only [envelopeOf, Tlv.latest_concat]; rfl)
    · exact field_step_free rfl (validField_of_free rfl (by decide))
        (by simp only [envelopeOf, Tlv.latest_concat]; rfl)
    · exact field_step (readLeg_field fun a => { envelopeOf l with leg := a }) validField_leg
        (by simp only [envelopeOf, Tlv.latest_concat]; rfl)
    · exact field_step_free rfl (validField_of_free rfl (by decide))
        (by simp only [envelopeOf, Tlv.latest_concat]; rfl)
    · exact field_step (readArr_field fun a => { envelopeOf l with txId := a })
        (validField_of_fixed rfl (by decide)) (by simp only [envelopeOf, Tlv.latest_concat]; rfl)
    · exact field_step (readByte_field fun a => { envelopeOf l with networkId := a })
        (validField_of_fixed rfl (by decide)) (by simp only [envelopeOf, Tlv.latest_concat]; rfl)
    · exact field_step (readByte_field fun a => { envelopeOf l with reason := a })
        (validField_of_fixed rfl (by decide)) (by simp only [envelopeOf, Tlv.latest_concat]; rfl)
    · exact field_step (readArr_field fun a => { envelopeOf l with btcPubkey := a })
        (validField_of_fixed rfl (by decide)) (by simp only [envelopeOf, Tlv.latest_concat]; rfl)
    · exact field_step (readArr_field fun a => { envelopeOf l with nimPubkey := a })
        (validField_of_fixed rfl (by decide)) (by simp only [envelopeOf, Tlv.latest_concat]; rfl)
    · exact field_step (readArr_field fun a => { envelopeOf l with proposeSig := a })
        (validField_of_fixed rfl (by decide)) (by simp only [envelopeOf, Tlv.latest_concat]; rfl)
  · have hleg : ty ≠ tLeg := by
      rintro rfl
      exact hk (by decide)
    exact field_step_free (setField_unknown _ hk v) (validField_of_free (fixedLen_unknown hk) hleg)
      (envelopeOf_unknown l hk v)

/-! ### A stream of records -/

/-- The end of the stream. -/
theorem decodeLoop_nil_iff (fuel off : ℕ) (l : List Tlv.Record) (present : List UInt8)
    (r : SwapEnvelope × List UInt8) :
    decodeLoop fuel off [] (envelopeOf l) present = .ok r ↔
      ∃ l', (Tlv.Fits l' ∧ [] = Tlv.bytes l') ∧ (∀ t ∈ l', ValidField t) ∧
        r = (envelopeOf (l ++ l'), present ++ Tlv.types l') := by
  have hloop : decodeLoop fuel off [] (envelopeOf l) present = .ok (envelopeOf l, present) := by
    cases fuel <;> rfl
  rw [hloop]
  constructor
  · intro h
    cases h
    exact ⟨[], ⟨by simp [Tlv.Fits], rfl⟩, by simp, by simp⟩
  · rintro ⟨l', ⟨-, hb⟩, -, rfl⟩
    rw [Tlv.bytes_eq_nil_iff.mp hb.symm]
    simp

/-- RUN: the loop takes the streams of complete valid records, and each of them counts in its turn. -/
theorem decodeLoop_ok_iff (fuel off : ℕ) (b : Bytes) (l : List Tlv.Record) (present : List UInt8)
    (r : SwapEnvelope × List UInt8) (hfuel : b.length ≤ fuel) :
    decodeLoop fuel off b (envelopeOf l) present = .ok r ↔
      ∃ l', (Tlv.Fits l' ∧ b = Tlv.bytes l') ∧ (∀ t ∈ l', ValidField t) ∧
        r = (envelopeOf (l ++ l'), present ++ Tlv.types l') := by
  induction fuel generalizing off b l present with
  | zero =>
    rw [List.length_eq_zero_iff.mp (Nat.le_zero.mp hfuel)]
    exact decodeLoop_nil_iff 0 off l present r
  | succ fuel ih =>
    rcases b with _ | ⟨ty, _ | ⟨len, rest⟩⟩
    · exact decodeLoop_nil_iff (fuel + 1) off l present r
    · simp [decodeLoop, (Tlv.bytes_ne_singleton _ ty).symm]
    · rw [decodeLoop]
      simp only [Tlv.eq_bytes_cons_iff]
      split_ifs with hlen
      · simp
        omega
      · have hle : (rest.drop len.toNat).length ≤ fuel := by
          simp only [List.length_cons, List.length_drop] at hfuel ⊢
          omega
        rw [bind_ok_iff]
        constructor
        · rintro ⟨env, hset, hloop⟩
          obtain ⟨hvalid, rfl⟩ := (setField_envelopeOf l (ty, rest.take len.toNat) env).mp hset
          obtain ⟨l', ⟨hfits, hb⟩, hall, rfl⟩ := (ih _ _ _ _ hle).mp hloop
          refine ⟨(ty, rest.take len.toNat) :: l', ⟨l', rfl, by omega, hfits, hb⟩, ?_, ?_⟩
          · exact List.forall_mem_cons.mpr ⟨hvalid, hall⟩
          · simp [Tlv.types]
        · rintro ⟨_, ⟨l', rfl, -, hfits, hb⟩, hall, rfl⟩
          obtain ⟨hvalid, hall⟩ := List.forall_mem_cons.mp hall
          refine ⟨_, (setField_envelopeOf l (ty, rest.take len.toNat) _).mpr ⟨hvalid, rfl⟩, ?_⟩
          exact (ih _ _ _ _ hle).mpr ⟨l', ⟨hfits, hb⟩, hall, by simp [Tlv.types]⟩

theorem firstMissing_eq_none_iff (required present : List UInt8) :
    firstMissing required present = none ↔ ∀ req ∈ required, req ∈ present := by
  simp [firstMissing]

/-- CORRECT: what the decoder accepts, and what it makes of it. -/
theorem decodeSwap_ok_iff (kind : SwapKind) (b : Bytes) (env : SwapEnvelope) :
    decodeSwap kind b = .ok env ↔
      ∃ l, Tlv.Fits l ∧ b = Tlv.bytes l ∧ (∀ t ∈ l, ValidField t) ∧ tSwapId ∈ Tlv.types l ∧
        (∀ req ∈ requiredFields kind, req ∈ Tlv.types l) ∧ env = envelopeOf l := by
  have hloop := decodeLoop_ok_iff b.length 0 b [] []
  rw [decodeSwap, bind_ok_iff]
  constructor
  · rintro ⟨r, hr, hend⟩
    obtain ⟨l, ⟨hfits, hb⟩, hall, rfl⟩ := (hloop r le_rfl).mp hr
    simp only [List.nil_append] at hend
    split_ifs at hend with hid
    cases hm : firstMissing (requiredFields kind) (Tlv.types l) with
    | some req => simp [hm] at hend
    | none =>
      simp only [hm, Except.ok.injEq] at hend
      refine ⟨l, hfits, hb, hall, by simpa using hid, ?_, hend.symm⟩
      exact (firstMissing_eq_none_iff _ _).mp hm
  · rintro ⟨l, hfits, hb, hall, hid, hreq, rfl⟩
    refine ⟨(envelopeOf l, Tlv.types l), (hloop _ le_rfl).mpr ⟨l, ⟨hfits, hb⟩, hall, by simp⟩, ?_⟩
    simp [hid, (firstMissing_eq_none_iff _ _).mpr hreq]

/-! ### Round trips -/

theorem pushTlv_ok {buf : Bytes} {ty : UInt8} {v : Bytes} (h : v.length ≤ maxTlvValueLen) :
    pushTlv buf ty v = .ok (buf ++ Tlv.bytes [(ty, v)]) := by
  rw [pushTlv, if_neg (Nat.not_lt.mpr h), Tlv.bytes_cons, Tlv.bytes_nil, List.append_nil]

theorem pushOpt_ok {α : Type} {buf : Bytes} {ty : UInt8} {field : Option α} {value : α → Bytes}
    (h : ∀ a, field = some a → (value a).length ≤ maxTlvValueLen) :
    pushOpt buf ty field value = .ok (buf ++ Tlv.bytes (Tlv.ofField ty field value)) := by
  cases field with
  | none => simp [pushOpt, Tlv.ofField]
  | some a => exact pushTlv_ok (h a rfl)

/-- The two fields of free length are as long as a record can be at most. -/
def SwapEnvelope.Encodable (env : SwapEnvelope) : Prop :=
  (∀ a, env.counterpartyAddress = some a → a.length ≤ maxTlvValueLen) ∧
    ∀ w, env.txWire = some w → w.length ≤ maxTlvValueLen

theorem pushArr_ok {n : ℕ} (hn : n ≤ maxTlvValueLen) (buf : Bytes) (ty : UInt8) (field : Option (ByteArr n)) :
    pushOpt buf ty field (·.1) = .ok (buf ++ Tlv.bytes (Tlv.ofField ty field (·.1))) := by
  refine pushOpt_ok fun a _ => ?_
  rw [a.2]
  exact hn

theorem pushU64_ok (buf : Bytes) (ty : UInt8) (field : Option UInt64) :
    pushOpt buf ty field beBytes = .ok (buf ++ Tlv.bytes (Tlv.ofField ty field beBytes)) :=
  pushOpt_ok fun a _ => show 8 ≤ maxTlvValueLen by decide

theorem pushByte_ok {α : Type} (buf : Bytes) (ty : UInt8) (field : Option α) (f : α → UInt8) :
    pushOpt buf ty field (fun a => [f a]) = .ok (buf ++ Tlv.bytes (Tlv.ofField ty field fun a => [f a])) :=
  pushOpt_ok fun a _ => show 1 ≤ maxTlvValueLen by decide

theorem pushRaw_ok {field : Option Bytes} (h : ∀ a, field = some a → a.length ≤ maxTlvValueLen) (buf : Bytes)
    (ty : UInt8) : pushOpt buf ty field id = .ok (buf ++ Tlv.bytes (Tlv.ofField ty field id)) := pushOpt_ok h

/-- The encoder writes the set fields. -/
theorem encodeSwap_eq {env : SwapEnvelope} (h : env.Encodable) :
    encodeSwap env = .ok (Tlv.bytes env.fields) := by
  have hid : env.swapId.1.length ≤ maxTlvValueLen := by
    rw [env.swapId.2]
    decide
  rw [encodeSwap, pushTlv_ok hid, ok_bind, pushArr_ok (by decide), ok_bind, pushU64_ok, ok_bind, pushU64_ok,
    ok_bind, pushU64_ok, ok_bind, pushU64_ok, ok_bind, pushArr_ok (by decide), ok_bind, pushRaw_ok h.1, ok_bind,
    pushByte_ok, ok_bind, pushRaw_ok h.2, ok_bind, pushArr_ok (by decide), ok_bind, pushByte_ok, ok_bind,
    pushByte_ok, ok_bind, pushArr_ok (by decide), ok_bind, pushArr_ok (by decide), ok_bind,
    pushArr_ok (by decide)]
  simp only [SwapEnvelope.fields, Tlv.bytes_append, List.nil_append]

theorem latest_singleton (ty ty' : UInt8) (v : Bytes) :
    Tlv.latest [(ty, v)] ty' = if ty = ty' then some v else none := rfl

theorem ofBytes?_map_val {n : ℕ} (field : Option (ByteArr n)) :
    (field.map fun a => a.1).bind (ByteArr.ofBytes? n) = field := by
  cases field with
  | none => rfl
  | some a => exact ByteArr.ofBytes?_val a

theorem u64OfBe_map (field : Option UInt64) : (field.map beBytes).map u64OfBe = field := by
  cases field with
  | none => rfl
  | some v => exact congrArg some (u64OfBe_beBytes v)

/-- The fields of an envelope one after the other, the last first. -/
theorem latest_fields (env : SwapEnvelope) (ty : UInt8) : Tlv.latest env.fields ty =
    (if tProposeSig = ty then env.proposeSig.map (·.1) else none).or
    ((if tProposePubkey = ty then env.nimPubkey.map (·.1) else none).or
    ((if tBtcPubkey = ty then env.btcPubkey.map (·.1) else none).or
    ((if tReason = ty then env.reason.map (fun r => [r]) else none).or
    ((if tNetworkId = ty then env.networkId.map (fun n => [n]) else none).or
    ((if tTxId = ty then env.txId.map (·.1) else none).or
    ((if tTxWire = ty then env.txWire.map id else none).or
    ((if tLeg = ty then env.leg.map (fun l => [l.toU8]) else none).or
    ((if tCounterpartyAddress = ty then env.counterpartyAddress.map id else none).or
    ((if tNimAddress = ty then env.nimAddress.map (·.1) else none).or
    ((if tCounterpartyTimeout = ty then env.counterpartyTimeout.map beBytes else none).or
    ((if tNimTimeout = ty then env.nimTimeout.map beBytes else none).or
    ((if tTakeAmount = ty then env.takeAmount.map beBytes else none).or
    ((if tGiveAmount = ty then env.giveAmount.map beBytes else none).or
    ((if tHashlock = ty then env.hashlock.map (·.1) else none).or
    (if tSwapId = ty then some env.swapId.1 else none))))))))))))))) := by
  simp only [SwapEnvelope.fields, Tlv.latest_append, Tlv.latest_ofField, latest_singleton]

/-- The fields of an envelope give the envelope. -/
theorem envelopeOf_fields (env : SwapEnvelope) : envelopeOf env.fields = env := by
  have hf := latest_fields env
  have hhead : ∀ field : Option UInt8, (field.map fun b => [b]).bind List.head? = field := by
    intro field
    cases field <;> rfl
  have hleg : (env.leg.map fun l => [l.toU8]).bind (fun v => v.head?.bind SwapLegId.fromU8) = env.leg := by
    cases env.leg with
    | none => rfl
    | some l => exact SwapLegId.fromU8_toU8 l
  have hSwapId : Tlv.latest env.fields tSwapId = some env.swapId.1 := hf _
  have hHashlock : Tlv.latest env.fields tHashlock = env.hashlock.map (·.1) := (hf _).trans Option.or_none
  have hGiveAmount : Tlv.latest env.fields tGiveAmount = env.giveAmount.map beBytes :=
    (hf _).trans Option.or_none
  have hTakeAmount : Tlv.latest env.fields tTakeAmount = env.takeAmount.map beBytes :=
    (hf _).trans Option.or_none
  have hNimTimeout : Tlv.latest env.fields tNimTimeout = env.nimTimeout.map beBytes :=
    (hf _).trans Option.or_none
  have hCounterpartyTimeout : Tlv.latest env.fields tCounterpartyTimeout = env.counterpartyTimeout.map beBytes :=
    (hf _).trans Option.or_none
  have hNimAddress : Tlv.latest env.fields tNimAddress = env.nimAddress.map (·.1) :=
    (hf _).trans Option.or_none
  have hCounterpartyAddress : Tlv.latest env.fields tCounterpartyAddress = env.counterpartyAddress.map id :=
    (hf _).trans Option.or_none
  have hLeg : Tlv.latest env.fields tLeg = env.leg.map fun l => [l.toU8] := (hf _).trans Option.or_none
  have hTxWire : Tlv.latest env.fields tTxWire = env.txWire.map id := (hf _).trans Option.or_none
  have hTxId : Tlv.latest env.fields tTxId = env.txId.map (·.1) := (hf _).trans Option.or_none
  have hNetworkId : Tlv.latest env.fields tNetworkId = env.networkId.map fun n => [n] :=
    (hf _).trans Option.or_none
  have hReason : Tlv.latest env.fields tReason = env.reason.map fun r => [r] := (hf _).trans Option.or_none
  have hBtcPubkey : Tlv.latest env.fields tBtcPubkey = env.btcPubkey.map (·.1) := (hf _).trans Option.or_none
  have hProposePubkey : Tlv.latest env.fields tProposePubkey = env.nimPubkey.map (·.1) :=
    (hf _).trans Option.or_none
  have hProposeSig : Tlv.latest env.fields tProposeSig = env.proposeSig.map (·.1) :=
    (hf _).trans Option.or_none
  rw [envelopeOf, hSwapId, hHashlock, hGiveAmount, hTakeAmount, hNimTimeout, hCounterpartyTimeout, hNimAddress,
    hCounterpartyAddress, hLeg, hTxWire, hTxId, hNetworkId, hReason, hBtcPubkey, hProposePubkey, hProposeSig]
  simp only [Option.bind_some, ByteArr.ofBytes?_val, Option.getD_some, ofBytes?_map_val, u64OfBe_map, hhead, hleg,
    Option.map_id, id]

theorem validField_ofField {α : Type} {ty : UInt8} {field : Option α} {value : α → Bytes}
    (h : ∀ a, ValidField (ty, value a)) : ∀ t ∈ Tlv.ofField ty field value, ValidField t := by
  cases field with
  | none => simp [Tlv.ofField]
  | some a => simpa [Tlv.ofField] using h a

/-- An envelope writes valid records only. -/
theorem validField_fields (env : SwapEnvelope) : ∀ t ∈ env.fields, ValidField t := by
  have harr : ∀ {n : ℕ} {ty : UInt8}, fixedLen ty = some n → ty ≠ tLeg → ∀ a : ByteArr n, ValidField (ty, a.1) :=
    fun hw hl a => (validField_of_fixed hw hl).mpr a.2
  have hword : ∀ {ty : UInt8}, fixedLen ty = some 8 → ty ≠ tLeg → ∀ v, ValidField (ty, beBytes v) :=
    fun hw hl _ => (validField_of_fixed hw hl).mpr rfl
  have hbyte : ∀ {ty : UInt8}, fixedLen ty = some 1 → ty ≠ tLeg → ∀ b : UInt8, ValidField (ty, [b]) :=
    fun hw hl _ => (validField_of_fixed hw hl).mpr rfl
  simp only [SwapEnvelope.fields, List.forall_mem_append, List.forall_mem_singleton]
  refine ⟨⟨⟨⟨⟨⟨⟨⟨⟨⟨⟨⟨⟨⟨⟨?_, ?_⟩, ?_⟩, ?_⟩, ?_⟩, ?_⟩, ?_⟩, ?_⟩, ?_⟩, ?_⟩, ?_⟩, ?_⟩, ?_⟩, ?_⟩, ?_⟩, ?_⟩
  · exact harr rfl (by decide) env.swapId
  · exact validField_ofField (harr rfl (by decide))
  · exact validField_ofField (hword rfl (by decide))
  · exact validField_ofField (hword rfl (by decide))
  · exact validField_ofField (hword rfl (by decide))
  · exact validField_ofField (hword rfl (by decide))
  · exact validField_ofField (harr rfl (by decide))
  · exact validField_ofField fun _ => validField_of_free rfl (by decide)
  · exact validField_ofField fun l => validField_leg.mpr ⟨l, rfl⟩
  · exact validField_ofField fun _ => validField_of_free rfl (by decide)
  · exact validField_ofField (harr rfl (by decide))
  · exact validField_ofField (hbyte rfl (by decide))
  · exact validField_ofField (hbyte rfl (by decide))
  · exact validField_ofField (harr rfl (by decide))
  · exact validField_ofField (harr rfl (by decide))
  · exact validField_ofField (harr rfl (by decide))

theorem fits_fields {env : SwapEnvelope} (h : env.Encodable) : Tlv.Fits env.fields := by
  have harr : ∀ {n : ℕ} {ty : UInt8} {field : Option (ByteArr n)}, n ≤ 255 →
      Tlv.Fits (Tlv.ofField ty field fun a => a.1) :=
    fun hn => (Tlv.fits_ofField _).mpr fun a _ => a.2.trans_le hn
  have hword : ∀ {ty : UInt8} {field : Option UInt64}, Tlv.Fits (Tlv.ofField ty field beBytes) :=
    (Tlv.fits_ofField _).mpr fun _ _ => show 8 ≤ 255 by decide
  have hbyte : ∀ {α : Type} {ty : UInt8} {field : Option α} {f : α → UInt8},
      Tlv.Fits (Tlv.ofField ty field fun a => [f a]) :=
    (Tlv.fits_ofField _).mpr fun _ _ => show 1 ≤ 255 by decide
  have hid : Tlv.Fits [(tSwapId, env.swapId.1)] := by
    simp [Tlv.Fits, env.swapId.2, swapIdLen]
  simp only [SwapEnvelope.fields, Tlv.fits_append]
  exact ⟨⟨⟨⟨⟨⟨⟨⟨⟨⟨⟨⟨⟨⟨⟨hid, harr (by decide)⟩, hword⟩, hword⟩, hword⟩, hword⟩, harr (by decide)⟩,
    (Tlv.fits_ofField _).mpr h.1⟩, hbyte⟩, (Tlv.fits_ofField _).mpr h.2⟩, harr (by decide)⟩, hbyte⟩, hbyte⟩,
    harr (by decide)⟩, harr (by decide)⟩, harr (by decide)⟩

/-- The required fields of a kind are set. -/
def SwapEnvelope.HasRequired (env : SwapEnvelope) (kind : SwapKind) : Prop :=
  ∀ req ∈ requiredFields kind, req ∈ Tlv.types env.fields

/-- CORRECT: an envelope with the required fields survives its bytes. -/
theorem decodeSwap_encodeSwap {kind : SwapKind} {env : SwapEnvelope} (hreq : env.HasRequired kind)
    (h : env.Encodable) : (encodeSwap env >>= decodeSwap kind) = .ok env := by
  rw [encodeSwap_eq h, ok_bind, decodeSwap_ok_iff]
  refine ⟨env.fields, fits_fields h, rfl, validField_fields env, ?_, hreq, (envelopeOf_fields env).symm⟩
  simp [SwapEnvelope.fields, Tlv.types]

/-! ### Intents -/

section Intent

theorem reads_takeArr {n : ℕ} (a : ByteArr n) : Reads (takeArr n) a.1 a := by
  intro rest
  unfold takeArr
  rw [List.take_left' a.2, List.drop_left' a.2, ByteArr.ofBytes?_val]

theorem reads_takeU64 (v : UInt64) : Reads takeU64 (beBytes v) v := by
  have h : Reads takeU64 (beBytes v) (u64OfBe (beBytes v)) := (reads_takeArr ⟨beBytes v, rfl⟩).map
  rwa [u64OfBe_beBytes] at h

theorem reads_takeAsset (a : Asset) : Reads takeAsset [assetToU8 a] a := by
  have h : Reads takeAsset ([assetToU8 a] ++ []) a := by
    refine (reads_takeArr ⟨[assetToU8 a], rfl⟩).bind fun rest => ?_
    cases a <;> rfl
  exact h

/-- CORRECT: an intent survives its bytes. -/
theorem decodeIntent_encodeIntent {i : SwapIntent} (h : i.btcAddress.length ≤ 65535) :
    decodeIntent (encodeIntent i) = .ok i := by
  have hlen : u16OfBe (beBytes16 i.btcAddress.length) = i.btcAddress.length := by
    rw [u16OfBe_beBytes16]
    omega
  have hbytes : encodeIntent i = [assetToU8 i.gives] ++ ([assetToU8 i.counterAsset] ++ (beBytes i.nimAmount ++
      (beBytes i.btcAmount ++ (beBytes i.expiryHeight ++ (beBytes i.minNim ++ (beBytes i.maxNim ++
      (i.nimPubkey.1 ++ (i.nimAddress.1 ++ (i.btcPubkey.1 ++ ([i.networkId] ++
      (beBytes16 i.btcAddress.length ++ (i.btcAddress ++ (i.evmAddress.1 ++ i.signature.1))))))))))))) := by
    simp only [encodeIntent, encodeIntentContent, List.append_assoc, List.cons_append, List.nil_append]
  rw [hbytes, decodeIntent]
  refine congrArg (Functor.map Prod.fst) (Reads.run ?_)
  refine (reads_takeAsset i.gives).bind ?_
  refine (reads_takeAsset i.counterAsset).bind ?_
  refine (reads_takeU64 i.nimAmount).bind ?_
  refine (reads_takeU64 i.btcAmount).bind ?_
  refine (reads_takeU64 i.expiryHeight).bind ?_
  refine (reads_takeU64 i.minNim).bind ?_
  refine (reads_takeU64 i.maxNim).bind ?_
  refine (reads_takeArr i.nimPubkey).bind ?_
  refine (reads_takeArr i.nimAddress).bind ?_
  refine (reads_takeArr i.btcPubkey).bind ?_
  refine (reads_takeArr ⟨[i.networkId], rfl⟩).bind ?_
  refine (reads_takeArr ⟨beBytes16 i.btcAddress.length, rfl⟩).bind ?_
  rw [hlen]
  refine (reads_takeArr ⟨i.btcAddress, rfl⟩).bind ?_
  refine (reads_takeArr i.evmAddress).bind ?_
  exact (reads_takeArr i.signature).map

end Intent

/-- CORRECT: envelopes with the required fields and intents survive their bytes; the decoder accepts
    exactly the streams of complete, valid records in which the swap id and the required types occur, and
    gives the envelope in which the last record of each type counts. -/
theorem swap_wire_codec :
    (∀ (kind : SwapKind) (env : SwapEnvelope), env.HasRequired kind → env.Encodable →
      (encodeSwap env >>= decodeSwap kind) = .ok env) ∧
    (∀ (kind : SwapKind) (b : Bytes) (env : SwapEnvelope), decodeSwap kind b = .ok env ↔
      ∃ l, Tlv.Fits l ∧ b = Tlv.bytes l ∧ (∀ t ∈ l, ValidField t) ∧ tSwapId ∈ Tlv.types l ∧
        (∀ req ∈ requiredFields kind, req ∈ Tlv.types l) ∧ env = envelopeOf l) ∧
    ∀ i : SwapIntent, i.btcAddress.length ≤ 65535 → decodeIntent (encodeIntent i) = .ok i :=
  ⟨fun _ _ hreq h => decodeSwap_encodeSwap hreq h, decodeSwap_ok_iff, fun _ h => decodeIntent_encodeIntent h⟩

/-- An abort with its reason. -/
def Sample.abortEnvelope : SwapEnvelope where
  swapId := ByteArr.fill swapIdLen 9
  reason := some 3

theorem sample_swap_wire_codec :
    (encodeSwap Sample.abortEnvelope >>= decodeSwap .abort) = .ok Sample.abortEnvelope :=
  swap_wire_codec.1 .abort Sample.abortEnvelope (by unfold SwapEnvelope.HasRequired; decide +kernel)
    (by simp [SwapEnvelope.Encodable, Sample.abortEnvelope])

end Nimmesh
