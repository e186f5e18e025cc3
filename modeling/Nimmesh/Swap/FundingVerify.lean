import Nimmesh.Swap.Intent

/-! @src swap_funding_verify.rs | name:Funding verification | layer:model

    The decision layer between a chain and the swap: what the counterparty's HTLC must satisfy, what a
    verifier reports about it and about our own claim, and `requireFunded`, the one go/no-go. -/

namespace Nimmesh

/-- What the counterparty's on-chain HTLC must satisfy. -/
structure HtlcExpectation where
  leg : SwapLegId
  hashlock : Hash
  minAmount : UInt64
  minTimeout : UInt64
  recipient : Bytes
  termAnchor : UInt64
  deriving DecidableEq

inductive MismatchReason where | hashlock | recipient
  deriving DecidableEq, Repr

inductive FundingObservation where
  | found (amount timeout : UInt64) (confirmations : UInt32)
  | absent
  | mismatch (reason : MismatchReason)
  deriving DecidableEq, Repr

/-- What a verifier found for this node's own broadcast claim. -/
inductive ClaimObservation where
  | included (confirmations : UInt32)
  | notFound
  | unavailable
  deriving DecidableEq, Repr

/-- Per-chain minimum confirmation depth. -/
structure ConfirmationPolicy where
  nim : UInt32
  btc : UInt32
  usdc : UInt32
  deriving DecidableEq, Repr

namespace ConfirmationPolicy

def testnetDefaults : ConfirmationPolicy := ⟨2, 3, 5⟩

def required (p : ConfirmationPolicy) : Asset → UInt32
  | .nim => p.nim
  | .btc => p.btc
  | .usdc => p.usdc

/-- The NIM leg uses the NIM depth, the counterparty leg that of the chain the swap settles on. -/
def requiredForLeg (p : ConfirmationPolicy) (leg : SwapLegId) (counterparty : Asset) : UInt32 :=
  match leg with
  | .nim => p.nim
  | .counterparty => p.required counterparty

end ConfirmationPolicy

/-- A hard per-swap ceiling. -/
structure SwapCaps where
  maxNimLuna : UInt64
  maxUsdcMicro : UInt64
  maxBtcSat : UInt64
  deriving DecidableEq, Repr

def SwapCaps.mainnetFirstSwap : SwapCaps := ⟨50 * 100000, 5 * 1000000, 20000⟩

def SwapCaps.admits (c : SwapCaps) (nimLuna counterAmount : UInt64) (counter : Asset) : Bool :=
  if c.maxNimLuna < nimLuna then false
  else match counter with
    | .nim => true
    | .usdc => counterAmount ≤ c.maxUsdcMicro
    | .btc => counterAmount ≤ c.maxBtcSat

inductive FundingRejected where
  | notFundedYet
  | tooShallow (got need : UInt32)
  | underfunded (got need : UInt64)
  | timeoutTooShort (got need : UInt64)
  | mismatch (reason : MismatchReason)
  deriving DecidableEq, Repr

/-- Turn an observation into a go/no-go; the depth on success. -/
def requireFunded (obs : FundingObservation) (expect : HtlcExpectation) (minConfirmations : UInt32) :
    Except FundingRejected UInt32 :=
  match obs with
  | .absent => .error .notFundedYet
  | .mismatch reason => .error (.mismatch reason)
  | .found amount timeout confirmations =>
    if amount < expect.minAmount then .error (.underfunded amount expect.minAmount)
    else if timeout < expect.minTimeout then .error (.timeoutTooShort timeout expect.minTimeout)
    else if confirmations < minConfirmations then .error (.tooShallow confirmations minConfirmations)
    else .ok confirmations

/-- The observation shows an HTLC with the amount, the timeout and the depth that `expect` asks for. -/
def Funded (obs : FundingObservation) (expect : HtlcExpectation) (minConfirmations : UInt32) : Prop :=
  ∃ amount timeout confirmations, obs = .found amount timeout confirmations ∧
    expect.minAmount ≤ amount ∧ expect.minTimeout ≤ timeout ∧ minConfirmations ≤ confirmations

/-- CORRECT: `requireFunded` passes exactly the funded observations. -/
theorem requireFunded_ok_iff (obs : FundingObservation) (expect : HtlcExpectation) (need : UInt32) :
    (∃ d, requireFunded obs expect need = .ok d) ↔ Funded obs expect need := by
  constructor
  · rintro ⟨d, hd⟩
    cases obs with
    | absent => cases hd
    | mismatch r => cases hd
    | found amount timeout confirmations =>
      simp only [requireFunded] at hd
      split_ifs at hd with h1 h2 h3
      exact ⟨amount, timeout, confirmations, rfl, UInt64.not_lt.mp h1, UInt64.not_lt.mp h2,
        UInt32.not_lt.mp h3⟩
  · rintro ⟨amount, timeout, confirmations, rfl, h1, h2, h3⟩
    exact ⟨confirmations, by
      simp only [requireFunded, if_neg (UInt64.not_lt.mpr h1), if_neg (UInt64.not_lt.mpr h2),
        if_neg (UInt32.not_lt.mpr h3)]⟩

end Nimmesh
