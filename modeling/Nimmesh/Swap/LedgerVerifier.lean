import Nimmesh.Lib.Select
import Nimmesh.Swap.FundingVerify

/-! @src swap_funding_verify.rs | name:The ledger verifier | layer:model

    The reference for every chain verifier: a list of HTLCs, of which the deepest that pays us under our
    hashlock is the one that is reported. Nobody asks for its amount or its timeout before that. -/

namespace Nimmesh

/-- One HTLC as it appears on a chain. -/
structure OnChainHtlc where
  leg : SwapLegId
  hashlock : Hash
  recipient : Bytes
  amount : UInt64
  timeout : UInt64
  confirmations : UInt32
  deriving DecidableEq

structure LedgerVerifier where
  htlcs : List OnChainHtlc := []

namespace LedgerVerifier

/-- One HTLC of the leg: whether any pays us, and the deepest under our hashlock. -/
def consider (expect : HtlcExpectation) (acc : Bool × Option OnChainHtlc) (h : OnChainHtlc) :
    Bool × Option OnChainHtlc :=
  if h.recipient ≠ expect.recipient then acc
  else if h.hashlock = expect.hashlock ∧ acc.2.all fun b => b.confirmations < h.confirmations then
    (true, some h)
  else (true, acc.2)

def observe (ledger : LedgerVerifier) (expect : HtlcExpectation) : FundingObservation :=
  match (ledger.htlcs.filter (·.leg = expect.leg)).foldl (consider expect) (false, none) with
  | (_, some h) => .found h.amount h.timeout h.confirmations
  | (true, none) => .mismatch .hashlock
  | (false, none) =>
    if ledger.htlcs.any fun h => h.leg = expect.leg ∧ h.hashlock = expect.hashlock then .mismatch .recipient
    else .absent

/-- The HTLC is on the expected leg and pays the expected recipient under the expected hashlock. -/
def Matches (expect : HtlcExpectation) (h : OnChainHtlc) : Prop :=
  h.leg = expect.leg ∧ h.recipient = expect.recipient ∧ h.hashlock = expect.hashlock

instance (expect : HtlcExpectation) (h : OnChainHtlc) : Decidable (Matches expect h) :=
  inferInstanceAs (Decidable (_ ∧ _ ∧ _))

/-- The HTLC that is reported: of the matching ones the deepest, and of equally deep ones the first. -/
def reported (ledger : LedgerVerifier) (expect : HtlcExpectation) : Option OnChainHtlc :=
  (ledger.htlcs.filter (Matches expect)).argmax (·.confirmations.toNat)

theorem foldl_consider (expect : HtlcExpectation) (l : List OnChainHtlc) :
    ((l.filter (·.leg = expect.leg)).foldl (consider expect) (false, none)).2 =
      (l.filter (Matches expect)).argmax (·.confirmations.toNat) := by
  induction l using List.reverseRecOn with
  | nil => rfl
  | append_singleton l h ih =>
    rw [List.filter_append, List.filter_append, List.foldl_append]
    generalize (l.filter (·.leg = expect.leg)).foldl (consider expect) (false, none) = acc at ih
    by_cases hm : Matches expect h
    · obtain ⟨hleg, hrec, hhash⟩ := hm
      have hone : [h].filter (fun h => decide (Matches expect h)) = [h] := by
        simp [Matches, hleg, hrec, hhash]
      have hone' : [h].filter (fun h => decide (h.leg = expect.leg)) = [h] := by simp [hleg]
      rw [hone, hone', List.foldl_cons, List.foldl_nil, List.argmax_concat, ← ih, consider]
      cases hbest : acc.2 with
      | none => simp [hrec, hhash]
      | some b =>
        by_cases hlt : b.confirmations < h.confirmations
        · simp [hrec, hhash, hlt, UInt32.lt_iff_toNat_lt.mp hlt]
        · have hnat : ¬ b.confirmations.toNat < h.confirmations.toNat := fun hn =>
            hlt (UInt32.lt_iff_toNat_lt.mpr hn)
          simp [hrec, hhash, hlt, hnat]
    · have hone : [h].filter (fun h => decide (Matches expect h)) = [] := by simp [hm]
      rw [hone, List.append_nil, ← ih]
      by_cases hleg : h.leg = expect.leg
      · have hone' : [h].filter (fun h => decide (h.leg = expect.leg)) = [h] := by simp [hleg]
        rw [hone', List.foldl_cons, List.foldl_nil, consider]
        by_cases hrec : h.recipient = expect.recipient
        · have hhash : ¬ h.hashlock = expect.hashlock := fun hhash => hm ⟨hleg, hrec, hhash⟩
          simp [hrec, hhash]
        · simp [hrec]
      · have hone' : [h].filter (fun h => decide (h.leg = expect.leg)) = [] := by simp [hleg]
        rw [hone', List.foldl_nil]

/-- CORRECT: the ledger reports the deepest matching HTLC, whatever it is worth. -/
theorem observe_found_iff (ledger : LedgerVerifier) (expect : HtlcExpectation) (amount timeout : UInt64)
    (confirmations : UInt32) :
    ledger.observe expect = .found amount timeout confirmations ↔
      ∃ h, ledger.reported expect = some h ∧ h.amount = amount ∧ h.timeout = timeout ∧
        h.confirmations = confirmations := by
  have hfold := foldl_consider expect ledger.htlcs
  rw [observe, reported, ← hfold]
  generalize (ledger.htlcs.filter (·.leg = expect.leg)).foldl (consider expect) (false, none) = acc
  obtain ⟨pays, best⟩ := acc
  cases best with
  | some h => simp
  | none =>
    cases pays with
    | true => simp
    | false =>
      dsimp only
      split_ifs <;> simp

end LedgerVerifier

end Nimmesh
