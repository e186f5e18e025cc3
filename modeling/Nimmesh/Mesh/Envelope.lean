import Nimmesh.Mesh.Wire

/-! @src envelope.rs transport.rs | name:The payment envelope | layer:model

    The payload of a `nimiqTx`: type-length-value fields around the signed transaction, which stays
    opaque here. The id of a payment is a hash of those opaque bytes. What is encoded decodes to the
    same envelope (`decode_encodeEnvelope`), the height at which it dies included. -/

namespace Nimmesh
open Rlp

/-- The receipt and dedup key of a payment. -/
abbrev TxId := Hash

namespace NimiqEnvelope

def tTxWire : UInt8 := 0x01
def tNetworkId : UInt8 := 0x02
def tValidUntil : UInt8 := 0x03
def tTxId : UInt8 := 0x04
def tEncMemo : UInt8 := 0x05
def tWantReceipt : UInt8 := 0x06

end NimiqEnvelope

/-- Nimiq testnet. -/
def defaultNetworkId : UInt8 := 5

structure NimiqEnvelope where
  txWire : Bytes
  networkId : UInt8 := defaultNetworkId
  validUntil : Option UInt32 := none
  txId : Option TxId := none
  encMemo : Option Bytes := none
  wantReceipt : Bool := false
  deriving DecidableEq

inductive EnvelopeError where
  | valueTooLong (tlvType : UInt8) (len : ℕ)
  | truncated (offset : ℕ)
  | badFieldLength (tlvType : UInt8) (len : ℕ)
  | missingRequiredField (tlvType : UInt8)
  deriving DecidableEq, Repr

namespace NimiqEnvelope

/-! ### Encoding -/

/-- Append one `type | len | value`. -/
def pushTlv (buf : Bytes) (tlv : UInt8 × Bytes) : Except EnvelopeError Bytes :=
  if maxTlvValueLen < tlv.2.length then .error (.valueTooLong tlv.1 tlv.2.length)
  else .ok (buf ++ tlv.1 :: tlv.2.length.toUInt8 :: tlv.2)

/-- The fields that are written, in ascending type order. -/
def tlvs (env : NimiqEnvelope) : List (UInt8 × Bytes) :=
  [(tTxWire, env.txWire), (tNetworkId, [env.networkId])] ++
    (env.validUntil.map fun vu => (tValidUntil, beBytes32 vu)).toList ++
    (env.txId.map fun id => (tTxId, id.1)).toList ++
    (env.encMemo.map fun memo => (tEncMemo, memo)).toList ++
    if env.wantReceipt then [(tWantReceipt, [1])] else []

/-! ### Decoding -/

/-- What the decoder has read so far. -/
structure Fields where
  txWire : Option Bytes := none
  networkId : Option UInt8 := none
  validUntil : Option UInt32 := none
  txId : Option TxId := none
  encMemo : Option Bytes := none
  wantReceipt : Bool := false

/-- Store one field; an unknown type is skipped. -/
def Fields.set (f : Fields) (tlv : UInt8 × Bytes) : Except EnvelopeError Fields :=
  let (tlvType, value) := tlv
  if tlvType = tTxWire then .ok { f with txWire := some value }
  else if tlvType = tNetworkId then
    if value.length ≠ 1 then .error (.badFieldLength tlvType value.length)
    else .ok { f with networkId := some (byteAt value 0) }
  else if tlvType = tValidUntil then
    if value.length ≠ 4 then .error (.badFieldLength tlvType value.length)
    else .ok { f with validUntil := some (u32OfBe value) }
  else if tlvType = tTxId then
    match ByteArr.ofBytes? hashLen value with
    | none => .error (.badFieldLength tlvType value.length)
    | some id => .ok { f with txId := some id }
  else if tlvType = tEncMemo then .ok { f with encMemo := some value }
  else if tlvType = tWantReceipt then
    if value.length ≠ 1 then .error (.badFieldLength tlvType value.length)
    else .ok { f with wantReceipt := byteAt value 0 != 0 }
  else .ok f

/-- The field loop. Each round takes at least two bytes, so the length of the input is fuel enough. -/
def decodeLoop : ℕ → ℕ → Bytes → Fields → Except EnvelopeError Fields
  | _, _, [], f => .ok f
  | 0, off, _, _ => .error (.truncated off)
  | _ + 1, off, [_], _ => .error (.truncated off)
  | fuel + 1, off, tlvType :: len :: rest, f =>
    if rest.length < len.toNat then .error (.truncated (off + 2))
    else do
      let f ← f.set (tlvType, rest.take len.toNat)
      decodeLoop fuel (off + 2 + len.toNat) (rest.drop len.toNat) f

/-- The two required fields. -/
def Fields.finish (f : Fields) : Except EnvelopeError NimiqEnvelope :=
  match f.txWire, f.networkId with
  | none, _ => .error (.missingRequiredField tTxWire)
  | some _, none => .error (.missingRequiredField tNetworkId)
  | some txWire, some networkId =>
    .ok { txWire, networkId, validUntil := f.validUntil, txId := f.txId, encMemo := f.encMemo,
          wantReceipt := f.wantReceipt }

end NimiqEnvelope

def encodeEnvelope (env : NimiqEnvelope) : Except EnvelopeError Bytes :=
  env.tlvs.foldlM NimiqEnvelope.pushTlv []

def decodeEnvelope (bytes : Bytes) : Except EnvelopeError NimiqEnvelope := do
  let f ← NimiqEnvelope.decodeLoop bytes.length 0 bytes {}
  f.finish

/-! ### Round trip -/

/-- A 32-bit word survives its big-endian bytes. -/
theorem u32OfBe_beBytes32 (v : UInt32) : u32OfBe (beBytes32 v) = v := by
  apply UInt32.eq_of_toBitVec_eq
  simp only [u32OfBe, beBytes32, List.foldl_cons, List.foldl_nil, UInt32.toBitVec_or,
    UInt32.toBitVec_shiftLeft, UInt8.toBitVec_toUInt32, UInt32.toBitVec_toUInt8,
    UInt32.toBitVec_shiftRight]
  ext i hi
  simp only [UInt32.toBitVec_ofNat, BitVec.ofNat_eq_ofNat, BitVec.reduceMod, BitVec.shiftLeft_eq',
    BitVec.toNat_ofNat, Nat.reducePow, Nat.reduceMod, BitVec.zero_shiftLeft, BitVec.ushiftRight_eq',
    BitVec.zero_or, BitVec.getElem_or, BitVec.getElem_shiftLeft, BitVec.getElem_setWidth,
    BitVec.getLsbD_setWidth, BitVec.getLsbD_ushiftRight]
  grind

namespace NimiqEnvelope

/-- The bytes of a list of fields. -/
def tlvBytes (l : List (UInt8 × Bytes)) : Bytes := l.flatMap fun t => t.1 :: t.2.length.toUInt8 :: t.2

theorem tlvBytes_cons (t : UInt8 × Bytes) (l : List (UInt8 × Bytes)) :
    tlvBytes (t :: l) = t.1 :: t.2.length.toUInt8 :: (t.2 ++ tlvBytes l) := List.flatMap_cons

theorem foldlM_pushTlv : ∀ (l : List (UInt8 × Bytes)) {buf out : Bytes},
    l.foldlM pushTlv buf = .ok out → out = buf ++ tlvBytes l ∧ ∀ t ∈ l, t.2.length ≤ maxTlvValueLen
  | [], buf, out, h => by
      cases h
      exact ⟨(List.append_nil _).symm, fun _ ht => absurd ht List.not_mem_nil⟩
  | t :: l, buf, out, h => by
      rw [List.foldlM_cons, pushTlv] at h
      split_ifs at h with hlen
      · cases h
      · obtain ⟨hout, hall⟩ := foldlM_pushTlv l h
        refine ⟨?_, ?_⟩
        · rw [hout, tlvBytes_cons, List.append_assoc]
          rfl
        · rintro t' ht'
          rcases List.mem_cons.mp ht' with rfl | ht'
          · exact Nat.not_lt.mp hlen
          · exact hall t' ht'

theorem foldlM_pushTlv_ok : ∀ (l : List (UInt8 × Bytes)) (buf : Bytes),
    (∀ t ∈ l, t.2.length ≤ maxTlvValueLen) → l.foldlM pushTlv buf = .ok (buf ++ tlvBytes l)
  | [], buf, _ => by rw [List.foldlM_nil, tlvBytes, List.flatMap_nil, List.append_nil]; rfl
  | t :: l, buf, h => by
      rw [List.foldlM_cons, pushTlv, if_neg (Nat.not_lt.mpr (h t List.mem_cons_self))]
      refine (foldlM_pushTlv_ok l _ fun t' ht' => h t' (List.mem_cons_of_mem _ ht')).trans ?_
      rw [tlvBytes_cons, List.append_assoc]
      rfl

theorem length_tlvBytes_le (l : List (UInt8 × Bytes)) (h : ∀ t ∈ l, t.2.length ≤ maxTlvValueLen) :
    (tlvBytes l).length ≤ l.length * (maxTlvValueLen + 2) := by
  induction l with
  | nil => exact Nat.zero_le _
  | cons t l ih =>
    have ht := h t List.mem_cons_self
    have hl := ih fun t' ht' => h t' (List.mem_cons_of_mem _ ht')
    rw [tlvBytes_cons, List.length_cons, List.length_cons, List.length_append, List.length_cons]
    simp only [maxTlvValueLen] at ht hl ⊢
    omega

/-- The loop stores the fields one by one, as they were written. -/
theorem decodeLoop_tlvBytes : ∀ (l : List (UInt8 × Bytes)) (fuel off : ℕ) (f : Fields),
    (∀ t ∈ l, t.2.length ≤ maxTlvValueLen) → (tlvBytes l).length ≤ fuel →
      decodeLoop fuel off (tlvBytes l) f = l.foldlM Fields.set f
  | [], fuel, off, f, _, _ => by
      rw [List.foldlM_nil]
      cases fuel <;> rfl
  | t :: l, fuel, off, f, hall, hfuel => by
      obtain ⟨tlvType, value⟩ := t
      have hlen : value.length.toUInt8.toNat = value.length := by
        have hle := hall _ List.mem_cons_self
        simp only [maxTlvValueLen] at hle
        simp only [Nat.toUInt8_eq, UInt8.toNat_ofNat']
        omega
      rw [tlvBytes_cons] at hfuel ⊢
      obtain ⟨fuel, rfl⟩ : ∃ k, fuel = k + 1 := ⟨fuel - 1, by simp at hfuel; omega⟩
      rw [decodeLoop, hlen, if_neg (by simp), List.take_left, List.drop_left, List.foldlM_cons]
      refine bind_congr fun f' => ?_
      refine decodeLoop_tlvBytes l fuel _ f' (fun t ht => hall t (List.mem_cons_of_mem _ ht)) ?_
      simp only [List.length_cons, List.length_append] at hfuel
      omega

/-- Storing the fields of an envelope one by one gives the envelope back. -/
theorem foldlM_set_tlvs (env : NimiqEnvelope) :
    (env.tlvs.foldlM Fields.set {} >>= Fields.finish) = .ok env := by
  obtain ⟨txWire, networkId, validUntil, txId, encMemo, wantReceipt⟩ := env
  have hid : ∀ (f : Fields) (id : TxId), f.set (tTxId, id.1) = .ok { f with txId := some id } := by
    intro f id
    have h : f.set (tTxId, id.1) = match ByteArr.ofBytes? hashLen id.1 with
      | none => .error (.badFieldLength tTxId id.1.length)
      | some id => .ok { f with txId := some id } := rfl
    rw [h, ByteArr.ofBytes?_val]
  have hvu : ∀ (f : Fields) (vu : UInt32),
      f.set (tValidUntil, beBytes32 vu) = .ok { f with validUntil := some vu } := by
    intro f vu
    have h : f.set (tValidUntil, beBytes32 vu) =
      .ok { f with validUntil := some (u32OfBe (beBytes32 vu)) } := rfl
    rw [h, u32OfBe_beBytes32]
  have hmemo : ∀ (f : Fields) (memo : Bytes), f.set (tEncMemo, memo) = .ok { f with encMemo := some memo } :=
    fun _ _ => rfl
  have hwant : ∀ f : Fields, f.set (tWantReceipt, [1]) = .ok { f with wantReceipt := true } := fun _ => rfl
  have hwire : ∀ (f : Fields) (w : Bytes), f.set (tTxWire, w) = .ok { f with txWire := some w } :=
    fun _ _ => rfl
  have hnet : ∀ (f : Fields) (b : UInt8), f.set (tNetworkId, [b]) = .ok { f with networkId := some b } :=
    fun _ _ => rfl
  have hbind : ∀ (a : Fields) (k : Fields → Except EnvelopeError Fields),
      (Except.ok a >>= k) = k a := fun _ _ => rfl
  cases validUntil <;> cases txId <;> cases encMemo <;> cases wantReceipt <;>
    simp only [tlvs, Option.map_none, Option.map_some, Option.toList_none, Option.toList_some,
      List.append_nil, List.cons_append, List.nil_append, Bool.false_eq_true, if_false, if_true,
      List.foldlM_cons, List.foldlM_nil, hwire, hnet, hid, hvu, hmemo, hwant, hbind] <;> rfl

end NimiqEnvelope

/-- CORRECT: an envelope survives its bytes. -/
theorem decode_encodeEnvelope {env : NimiqEnvelope} {bytes : Bytes} (h : encodeEnvelope env = .ok bytes) :
    decodeEnvelope bytes = .ok env := by
  obtain ⟨hbytes, hall⟩ := NimiqEnvelope.foldlM_pushTlv env.tlvs h
  rw [hbytes, List.nil_append, decodeEnvelope,
    NimiqEnvelope.decodeLoop_tlvBytes env.tlvs _ 0 {} hall le_rfl]
  exact NimiqEnvelope.foldlM_set_tlvs env

/-- An envelope always fits a packet. -/
theorem length_encodeEnvelope_le {env : NimiqEnvelope} {bytes : Bytes} (h : encodeEnvelope env = .ok bytes) :
    bytes.length ≤ 6 * 257 := by
  obtain ⟨hbytes, hall⟩ := NimiqEnvelope.foldlM_pushTlv env.tlvs h
  have hle := NimiqEnvelope.length_tlvBytes_le env.tlvs hall
  have hcount : env.tlvs.length ≤ 6 := by
    obtain ⟨txWire, networkId, validUntil, txId, encMemo, wantReceipt⟩ := env
    cases validUntil <;> cases txId <;> cases encMemo <;> cases wantReceipt <;>
      simp [NimiqEnvelope.tlvs]
  rw [hbytes, List.nil_append]
  exact hle.trans (Nat.mul_le_mul_right _ hcount)

/-! ### Payment ids -/

/-- The FNV hash of the opaque bytes, stretched to 32 bytes. -/
def mockTxId (payload : Bytes) : TxId :=
  let fnv := fun (h : UInt64) (b : UInt64) => (h ^^^ b) * 0x100000001b3
  let h := fnv (payload.foldl (fun h b => fnv h b.toUInt64) 0xcbf29ce484222325) payload.length.toUInt64
  let next := fun (h : UInt64) (chunk : UInt64) => (h * 0x100000001b3) ^^^ (chunk + 1)
  let h0 := next h 0
  let h1 := next h0 1
  let h2 := next h1 2
  let h3 := next h2 3
  ⟨beBytes h0 ++ beBytes h1 ++ beBytes h2 ++ beBytes h3, rfl⟩

end Nimmesh
