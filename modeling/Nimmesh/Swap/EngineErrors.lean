import Nimmesh.Swap.BtcReveal

/-! @src swap_engine.rs | name:What an engine's errors leave behind | layer:properties

    A refused call leaves the engine as it was. But four calls move the state machine first and build a
    transaction then, and a transaction that cannot be built leaves them half done. -/

namespace Nimmesh

open Checked

namespace SwapEngine

/-- The phase, the fundings and the secret are as before. -/
structure Kept (e e' : SwapEngine) : Prop where
  phase : e'.phase = e.phase
  nimFundingWire : e'.nimFundingWire = e.nimFundingWire
  btcFunding : e'.btcFunding = e.btcFunding
  secret : e'.secret = e.secret

theorem Kept.refl (e : SwapEngine) : Kept e e := ⟨rfl, rfl, rfl, rfl⟩

/-- If the call is an error, it changes nothing. -/
def Atomic (env : EngineEnv) (e : SwapEngine) (op : EngineOp) : Prop :=
  ∀ err, (e.call env op).1 = fail err → Kept e (e.call env op).2

/-- If the state machine accepts the call, its transaction can be built, or building it faults. -/
def Builds (env : EngineEnv) (e : SwapEngine) : EngineOp → Prop
  | .fund head params vsh => e.Funds head params .initiator →
      ∃ wire, e.nim.buildFunding env.blake (e.fundingTerms vsh) = .ok wire
  | .revealAndClaimBtc head params => e.Reveals head params →
      (∃ tx, e.claimBtcTx env = .ok tx) ∨ ¬ Returns (e.claimBtcTx env)
  | .claimNimFromBtcClaim tx vsh => ∀ secret, e.Learns env tx secret → ∃ claim, e.claimNimTx env secret vsh = .ok claim
  | .refund head vsh => e.MayRefund head →
      (∃ tx, e.refundTx env vsh = .ok tx) ∨ ¬ Returns (e.refundTx env vsh)
  | _ => True

variable {env : EngineEnv} {e : SwapEngine} {op : EngineOp}

/-- A call that succeeds, or is refused, is atomic. -/
theorem atomic_of_ok {e' : SwapEngine} (h : e.call env op = (.ok (), e')) : Atomic env e op := by
  intro err herr
  rw [h] at herr
  cases herr

theorem atomic_of_refused {err : EngineError} (h : e.call env op = (fail err, e)) : Atomic env e op := by
  intro _ _
  rw [h]
  exact Kept.refl e

/-- A call that is an error and moves the phase is not. -/
theorem not_atomic_of_moved {e' : SwapEngine} {err : EngineError} (h : e.call env op = (fail err, e'))
    (hmoved : e'.phase ≠ e.phase) : ¬ Atomic env e op := by
  intro hatomic
  have hkept := hatomic err (by rw [h])
  rw [h] at hkept
  exact hmoved hkept.phase

/-- A call that moves the phase is atomic exactly when what it builds is no error. -/
theorem atomic_moved_iff {α : Type} {e' : SwapEngine} {x : Result EngineError α}
    (h : e.call env op = (x.map fun _ => (), e')) (hmoved : e'.phase ≠ e.phase) :
    Atomic env e op ↔ ∀ err, x ≠ fail err := by
  constructor
  · rintro hatomic err rfl
    exact not_atomic_of_moved h hmoved hatomic
  · intro hbuilt err herr
    rw [h] at herr
    rcases x with ⟨built | f⟩ | a
    · exact absurd rfl (hbuilt built)
    · cases herr
    · cases herr

theorem Funds.moved {head : UInt64} {params : LadderParams} {role : SwapRole} (h : e.Funds head params role) :
    SwapPhase.selfFunded ≠ e.phase := by
  intro hphase
  rcases h.2.1 with ⟨-, h⟩ | ⟨-, h⟩
  · exact absurd (hphase.trans h) (by decide)
  · exact absurd (hphase.trans h) (by decide)

theorem Reveals.moved {head : UInt64} {params : LadderParams} (h : e.Reveals head params) :
    SwapPhase.revealed ≠ e.phase := by
  rw [h.2.1]
  decide

theorem MayRefund.moved {head : UInt64} (h : e.MayRefund head) : SwapPhase.refunded ≠ e.phase := by
  intro hphase
  have hlocked := h.1.1
  rw [show e.swap.phase = .refunded from hphase.symm] at hlocked
  cases hlocked

/-- A funding of the initiator has to be built; the responder's is an address, which is never an error. -/
theorem atomic_fund_iff (env : EngineEnv) (e : SwapEngine) (head : UInt64) (params : LadderParams) (vsh : UInt32) :
    Atomic env e (.fund head params vsh) ↔ e.Builds env (.fund head params vsh) := by
  rcases e.fund_cases env head params vsh with ⟨hfunds, ⟨wire, hbuilt, hc⟩ | ⟨err, hfailed, hc⟩⟩ | ⟨hfunds, hc⟩ |
    ⟨hno, err, hc⟩
  · exact iff_of_true (atomic_of_ok (by rw [call, hc]; rfl)) fun _ => ⟨wire, hbuilt⟩
  · have hcall : e.call env (.fund head params vsh) = (fail (.nimLeg err), e.withPhase .selfFunded) := by
      rw [call, hc]
      rfl
    refine iff_of_false (not_atomic_of_moved hcall hfunds.moved) fun hbuilds => ?_
    obtain ⟨wire, hbuilt⟩ := hbuilds hfunds
    rw [hfailed] at hbuilt
    cases hbuilt
  · have hcall : e.call env (.fund head params vsh) =
        ((e.btc.htlcAddress env.lib).map fun _ => (), e.withPhase .selfFunded) := by
      rw [call, hc]
      cases e.btc.htlcAddress env.lib <;> rfl
    refine iff_of_true ((atomic_moved_iff hcall hfunds.moved).mpr (e.btc.htlcAddress_ne_fail env.lib)) fun hinit => ?_
    exact absurd (hfunds.1.symm.trans hinit.1) (by decide)
  · exact iff_of_true (atomic_of_refused (by rw [call, hc]; rfl)) fun hfunds => absurd hfunds (hno _)

theorem atomic_revealAndClaimBtc_iff (env : EngineEnv) (e : SwapEngine) (head : UInt64) (params : LadderParams) :
    Atomic env e (.revealAndClaimBtc head params) ↔ e.Builds env (.revealAndClaimBtc head params) := by
  rcases e.revealAndClaimBtc_cases env head params with ⟨hreveals, hc⟩ | ⟨hno, err, hc⟩
  · have hcall : e.call env (.revealAndClaimBtc head params) =
        ((e.claimBtcTx env).map fun _ => (), e.withPhase .revealed) := by
      rw [call, hc]
      cases e.claimBtcTx env <;> rfl
    rw [atomic_moved_iff hcall hreveals.moved, ne_fail_iff, Builds]
    exact ⟨fun h _ => h, fun h => h hreveals⟩
  · exact iff_of_true (atomic_of_refused (by rw [call, hc]; rfl)) fun hreveals => absurd hreveals hno

/-- The secret is stored before the claim is built, and stays when it cannot be. -/
theorem atomic_claimNimFromBtcClaim_iff (env : EngineEnv) (e : SwapEngine) (tx : Bytes) (vsh : UInt32) :
    Atomic env e (.claimNimFromBtcClaim tx vsh) ↔ e.Builds env (.claimNimFromBtcClaim tx vsh) := by
  rcases e.claimNimFromBtcClaim_cases env tx vsh with ⟨secret, hlearns, ⟨claim, hbuilt, hc⟩ | ⟨err, hfailed, hc⟩⟩ |
    ⟨hno, err, hc⟩
  · refine iff_of_true (atomic_of_ok (by rw [call, hc]; rfl)) fun secret' hlearns' => ?_
    rw [← Option.some.inj (hlearns.1.symm.trans hlearns'.1)]
    exact ⟨claim, hbuilt⟩
  · have hmoved : SwapPhase.revealed ≠ e.phase := by
      rw [hlearns.2.2.2]
      decide
    have hcall : e.call env (.claimNimFromBtcClaim tx vsh) =
        (fail err, { e.withPhase .revealed with secret := some secret }) := by
      rw [call, hc]
      rfl
    refine iff_of_false (not_atomic_of_moved hcall hmoved) fun hbuilds => ?_
    obtain ⟨claim, hbuilt⟩ := hbuilds secret hlearns
    rw [hfailed] at hbuilt
    cases hbuilt
  · exact iff_of_true (atomic_of_refused (by rw [call, hc]; rfl)) fun secret hlearns => absurd hlearns (hno secret)

theorem atomic_refund_iff (env : EngineEnv) (e : SwapEngine) (head : UInt64) (vsh : UInt32) :
    Atomic env e (.refund head vsh) ↔ e.Builds env (.refund head vsh) := by
  rcases e.refund_cases env head vsh with ⟨hmay, hc⟩ | ⟨hno, err, hc⟩
  · have hcall : e.call env (.refund head vsh) = ((e.refundTx env vsh).map fun _ => (), e.withPhase .refunded) := by
      rw [call, hc]
      cases e.refundTx env vsh <;> rfl
    rw [atomic_moved_iff hcall hmay.moved, ne_fail_iff, Builds]
    exact ⟨fun h _ => h, fun h => h hmay⟩
  · exact iff_of_true (atomic_of_refused (by rw [call, hc]; rfl)) fun hmay => absurd hmay hno

/-- STEP: an error changes nothing exactly when the transaction of an accepted call can be built. -/
theorem atomic_iff (env : EngineEnv) (e : SwapEngine) (op : EngineOp) : Atomic env e op ↔ e.Builds env op := by
  cases op with
  | fund head params vsh => exact atomic_fund_iff env e head params vsh
  | revealAndClaimBtc head params => exact atomic_revealAndClaimBtc_iff env e head params
  | claimNimFromBtcClaim tx vsh => exact atomic_claimNimFromBtcClaim_iff env e tx vsh
  | refund head vsh => exact atomic_refund_iff env e head vsh
  -- the others build nothing
  | accept head params =>
    refine iff_of_true ?_ trivial
    rcases e.accept_cases head params with hc | ⟨err, hc⟩
    · exact atomic_of_ok (by rw [call, hc]; rfl)
    · exact atomic_of_refused (by rw [call, hc]; rfl)
  | observeInitiatorFunded wire observed need =>
    refine iff_of_true ?_ trivial
    rcases e.observeInitiatorFunded_cases wire observed need with hc | ⟨err, hc⟩
    · exact atomic_of_ok (by rw [call, hc]; rfl)
    · exact atomic_of_refused (by rw [call, hc]; rfl)
  | observeBtcFunded funded observed need =>
    refine iff_of_true ?_ trivial
    rcases e.observeBtcFunded_cases funded observed need with ⟨-, hc⟩ | ⟨err, hc⟩
    · exact atomic_of_ok (by rw [call, hc]; rfl)
    · exact atomic_of_refused (by rw [call, hc]; rfl)
  | observeNimFunded own =>
    refine iff_of_true ?_ trivial
    rcases e.observeNimFunded_cases own with ⟨-, hc⟩ | ⟨err, hc⟩
    · exact atomic_of_ok (by rw [call, hc]; rfl)
    · exact atomic_of_refused (by rw [call, hc]; rfl)
  | observeSettled =>
    refine iff_of_true ?_ trivial
    rcases e.observeSettled_cases with hc | ⟨err, hc⟩
    · exact atomic_of_ok (by rw [call, hc]; rfl)
    · exact atomic_of_refused (by rw [call, hc]; rfl)
  | abort =>
    refine iff_of_true ?_ trivial
    rcases e.abort_cases with hc | ⟨err, hc⟩
    · exact atomic_of_ok (by rw [call, hc]; rfl)
    · exact atomic_of_refused (by rw [call, hc]; rfl)

/-- EXACT: in whatever state, an error changes nothing exactly when the transaction of an accepted call can be
    built; so in a run where it always can be, no error changes anything. -/
theorem engine_error_atomic_iff (env : EngineEnv) :
    (∀ e op, Atomic env e op ↔ e.Builds env op) ∧
      ∀ e ops, Run.Along (step env) (fun e op => e.Builds env op) e ops → Run.Along (step env) (Atomic env) e ops := by
  refine ⟨atomic_iff env, fun e ops h => ?_⟩
  induction ops generalizing e with
  | nil => exact trivial
  | cons op ops ih => exact ⟨(atomic_iff env e op).mpr h.1, ih _ h.2⟩

end SwapEngine

namespace Sample

def btcLeg : BtcSwapLeg where
  htlc := btcParams
  network := .signet
  key := ⟨btcParams.senderPubkey.1, fun _ => []⟩
  payoutSpk := btcPayout.scriptPubkey
  feeSat := 1000

/-- A responder that locks 0.001 BTC for 2 NIM. -/
def responderConfig : SwapConfig where
  terms := ⟨2000000000000, 1782588246000⟩
  nim := bobLeg
  btc := btcLeg
  nimAmount := 200000
  btcAmountSat := 100000
  counterpartyNimAddress := bobAddress.1

/-- The calls of a responder that has funded its leg. -/
def fundedCalls : List EngineOp :=
  [ .accept 1700000000000 {}
  , .observeInitiatorFunded [] (.found 200000 2000000000000 2) 2
  , .fund 1700000000000 {} 100 ]

def fundedResponder : SwapEngine := Run.exec (SwapEngine.step btcEnv) (.newResponder responderConfig) fundedCalls

theorem fundedResponder_reachable : SwapEngine.Reachable btcEnv fundedResponder := ⟨_, _, .inl rfl⟩

end Sample

/-- With the rest of the swap to come, an early refund leaves a funded responder untouched. -/
theorem sample_engine_error_atomic :
    SwapEngine.Atomic Sample.btcEnv Sample.fundedResponder (.refund 1700000000000 100) := by
  refine ((SwapEngine.engine_error_atomic_iff Sample.btcEnv).1 _ _).mpr fun h => ?_
  exact absurd h.2 (by decide +kernel)

/-- But a refund that is due, before the wallet's output is noted, is an error that ends the swap as refunded. -/
theorem refund_error_ends_swap :
    SwapEngine.Reachable Sample.btcEnv Sample.fundedResponder ∧ Sample.fundedResponder.phase = .selfFunded ∧
      (Sample.fundedResponder.refund Sample.btcEnv 1782588246001 100).1 =
        fail (.missingInput "no BTC funding to refund") ∧
      (Sample.fundedResponder.refund Sample.btcEnv 1782588246001 100).2.phase = .refunded :=
  ⟨Sample.fundedResponder_reachable, rfl, rfl, rfl⟩

end Nimmesh
