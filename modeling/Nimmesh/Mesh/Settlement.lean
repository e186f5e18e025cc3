import Nimmesh.Mesh.Envelope
import Nimmesh.Lib.Table
import Mathlib.Data.List.GetD

/-! @src settlement.rs gateway.rs | name:Receipts and the settlement ledger | layer:model

    A receipt is a payment id and one status byte. The ledger keeps what a node knows of the payments it
    sent or expects: an entry is pending until one receipt closes it, and nothing reopens it. -/

namespace Nimmesh

/-! ### Receipts -/

inductive ReceiptStatus where | accepted | expired | failed
  deriving DecidableEq, Repr

def ReceiptStatus.code : ReceiptStatus → UInt8
  | .accepted => 0
  | .expired => 1
  | .failed => 2

/-- Parse a status byte. -/
def ReceiptStatus.fromCode (code : UInt8) : ReceiptStatus :=
  if code = 1 then .expired else if code = 2 then .failed else .accepted

theorem ReceiptStatus.fromCode_code (s : ReceiptStatus) : fromCode s.code = s := by cases s <;> decide

/-- Every byte but two reads as acceptance. -/
theorem ReceiptStatus.fromCode_eq_accepted_iff (code : UInt8) :
    fromCode code = .accepted ↔ code ≠ 1 ∧ code ≠ 2 := by
  unfold fromCode
  split_ifs with h1 h2
  · simp [h1]
  · simp [h2]
  · simp [h1, h2]

def receiptPayloadLen : ℕ := 33

def encodeReceipt (txId : TxId) (status : ReceiptStatus) : Bytes := txId.1 ++ [status.code]

def decodeReceipt (payload : Bytes) : Option (TxId × ReceiptStatus) :=
  if payload.length ≠ receiptPayloadLen then none
  else some (sliceArr hashLen payload 0, .fromCode (byteAt payload 32))

/-- What a receipt payload is made of. -/
theorem decodeReceipt_eq_some_iff (payload : Bytes) (id : TxId) (status : ReceiptStatus) :
    decodeReceipt payload = some (id, status) ↔
      ∃ b, payload = id.1 ++ [b] ∧ ReceiptStatus.fromCode b = status := by
  have hread : ∀ b, decodeReceipt (id.1 ++ [b]) = some (id, .fromCode b) := by
    intro b
    have hlen : (id.1 ++ [b]).length = receiptPayloadLen := by
      rw [List.length_append, id.2]
      rfl
    have hbyte : byteAt (id.1 ++ [b]) 32 = b := by
      rw [byteAt, List.getD_append_right _ _ _ _ (by rw [id.2]; rfl), id.2]
      rfl
    rw [decodeReceipt, if_neg (not_not.mpr hlen), sliceArr_left, hbyte]
  constructor
  · intro h
    unfold decodeReceipt at h
    split_ifs at h with hlen
    obtain ⟨h1, h2⟩ := Prod.mk.inj (Option.some.inj h)
    have hlen : payload.length = 33 := not_not.mp hlen
    refine ⟨byteAt payload 32, ?_, h2⟩
    have htake : (payload.take 32).length = hashLen := by
      rw [List.length_take, hlen]
      rfl
    have hid : id.1 = payload.take 32 := by
      rw [← h1, sliceArr, slice, List.drop_zero]
      have h : ByteArr.ofBytes? hashLen (payload.take hashLen) = some ⟨payload.take 32, htake⟩ :=
        dif_pos htake
      rw [h]
      rfl
    have hlast : payload.drop 32 = [byteAt payload 32] := by
      rw [byteAt, List.getD_eq_getElem _ _ (by omega), List.drop_eq_getElem_cons (by omega),
        List.drop_eq_nil_of_le (by omega)]
    rw [hid, ← hlast, List.take_append_drop]
  · rintro ⟨b, rfl, rfl⟩
    exact hread b

theorem decodeReceipt_encodeReceipt (id : TxId) (status : ReceiptStatus) :
    decodeReceipt (encodeReceipt id status) = some (id, status) :=
  (decodeReceipt_eq_some_iff _ _ _).mpr ⟨status.code, rfl, ReceiptStatus.fromCode_code status⟩

/-! ### The ledger -/

inductive PaymentStatus where | pending | settled | failed
  deriving DecidableEq, Repr

inductive SettlementDirection where | outgoing | incoming
  deriving DecidableEq, Repr

/-- A tracked payment. -/
structure Tracked where
  status : PaymentStatus
  direction : SettlementDirection
  deriving DecidableEq, Repr

abbrev SettlementLedger := Table TxId Tracked

/-- The payment status that a receipt maps to. -/
def ReceiptStatus.payment : ReceiptStatus → PaymentStatus
  | .accepted => .settled
  | _ => .failed

namespace SettlementLedger

/-- Track a payment as pending; an entry that is there stays. -/
def record (l : SettlementLedger) (txId : TxId) (direction : SettlementDirection) : SettlementLedger :=
  match l.lookup txId with
  | some _ => l
  | none => l.insert txId ⟨.pending, direction⟩

/-- Close a tracked payment that is pending. -/
def settle (l : SettlementLedger) (txId : TxId) (status : PaymentStatus) : SettlementLedger :=
  match l.lookup txId with
  | some t => if t.status = .pending then l.insert txId { t with status } else l
  | none => l

/-- The status of a payment; an untracked one is pending. -/
def status (l : SettlementLedger) (txId : TxId) : PaymentStatus :=
  ((l.lookup txId).map (·.status)).getD .pending

theorem lookup_record (l : SettlementLedger) (a : TxId) (d : SettlementDirection) (id : TxId) :
    (l.record a d).lookup id =
      if id = a then some ((l.lookup a).getD ⟨.pending, d⟩) else l.lookup id := by
  unfold record
  cases h : l.lookup a with
  | some t =>
    split_ifs with ha
    · rw [ha, h]
      rfl
    · rfl
  | none =>
    rw [Table.lookup_insert_iff]
    rfl

theorem lookup_settle (l : SettlementLedger) (a : TxId) (s : PaymentStatus) (id : TxId) :
    (l.settle a s).lookup id =
      if id = a then (l.lookup a).map fun t => if t.status = .pending then { t with status := s } else t
      else l.lookup id := by
  unfold settle
  cases h : l.lookup a with
  | none =>
    split_ifs with ha
    · rw [ha, h]
      rfl
    · rfl
  | some t =>
    dsimp only [Option.map_some]
    by_cases hp : t.status = .pending
    · rw [if_pos hp, if_pos hp, Table.lookup_insert_iff]
    · rw [if_neg hp, if_neg hp]
      split_ifs with ha
      · rw [ha, h]
      · rfl

/-- What settling one payment does to the status of any. -/
theorem status_settle (l : SettlementLedger) (a : TxId) (s : PaymentStatus) (id : TxId) :
    (l.settle a s).status id =
      if id = a ∧ (l.lookup a).isSome ∧ l.status a = .pending then s else l.status id := by
  unfold status
  rw [lookup_settle]
  by_cases ha : id = a
  · subst ha
    rw [if_pos rfl]
    cases l.lookup id with
    | none => simp
    | some t =>
      by_cases hp : t.status = .pending
      · simp [hp]
      · simp [hp]
  · rw [if_neg ha, if_neg (fun h => ha h.1)]

end SettlementLedger

end Nimmesh
