import Nimmesh.Lib.Run
import Nimmesh.Live.BtcHtlc
import Nimmesh.Live.NimLeg
import Nimmesh.Swap.FundingVerify
import Nimmesh.Swap.Machine

/-! @src swap_engine.rs | name:The cross-chain engine | layer:model

    One node's NIM⇄BTC swap: the state machine with the node's two legs, its secret and the fundings it knows.
    Every operation answers with what is to be done on a chain, or with an error, and leaves an engine behind;
    what an error leaves behind is to be read off each operation, not assumed. -/

namespace Nimmesh

open Checked

structure SwapConfig where
  terms : SwapTerms
  nim : NimiqLeg
  btc : BtcSwapLeg
  nimAmount : UInt64
  btcAmountSat : UInt64
  counterpartyNimAddress : Bytes

/-- What the caller must do on a chain. -/
inductive SwapEffect where
  | broadcast (leg : SwapLegId) (tx : Bytes)
  | fundBtcAddress (address : String) (amountSat : UInt64)
  deriving DecidableEq, Repr

inductive EngineError where
  | swap (err : SwapError)
  | nimLeg (err : LegBuildError)
  | btcLeg (err : BtcError)
  | missingInput (what : String)
  | badPreimage
  | fundingUnverified (reason : FundingRejected)
  deriving DecidableEq, Repr

structure SwapEngine where
  swap : Swap
  nim : NimiqLeg
  btc : BtcSwapLeg
  nimAmount : UInt64
  btcAmountSat : UInt64
  counterpartyNimAddress : Bytes
  secret : Option Hash
  nimFundingWire : Option Bytes
  btcFunding : Option FundedHtlc

/-- The hash functions and the Bitcoin library that the engine calls. -/
structure EngineEnv where
  sha256 : Bytes → Hash
  blake : Blake2b
  lib : Btc.Library

namespace SwapEngine

def fromConfig (config : SwapConfig) (role : SwapRole) (secret : Option Hash) : SwapEngine where
  swap := Swap.new role config.terms
  nim := config.nim
  btc := config.btc
  nimAmount := config.nimAmount
  btcAmountSat := config.btcAmountSat
  counterpartyNimAddress := config.counterpartyNimAddress
  secret := secret
  nimFundingWire := none
  btcFunding := none

def newInitiator (config : SwapConfig) (secret : Hash) : SwapEngine := fromConfig config .initiator (some secret)

def newResponder (config : SwapConfig) : SwapEngine := fromConfig config .responder none

def phase (e : SwapEngine) : SwapPhase := e.swap.phase

def role (e : SwapEngine) : SwapRole := e.swap.role

def hashlock (e : SwapEngine) : Hash := e.btc.params.hashRoot

def accept (e : SwapEngine) (head : UInt64) (params : LadderParams) : Except EngineError Unit × SwapEngine :=
  match e.swap.accept head params with
  | (.error err, swap) => (.error (.swap err), { e with swap })
  | (.ok (), swap) => (.ok (), { e with swap })

/-- What the initiator's HTLC must be. -/
def nimExpectation (e : SwapEngine) : HtlcExpectation where
  leg := .nim
  hashlock := e.hashlock
  minAmount := e.nimAmount
  minTimeout := e.swap.terms.nimTimeout
  recipient := e.counterpartyNimAddress
  termAnchor := 0

/-- (Responder) the initiator's funding, once it is verified. -/
def observeInitiatorFunded (e : SwapEngine) (nimFundingWire : Bytes) (observed : FundingObservation)
    (minConfirmations : UInt32) : Except EngineError Unit × SwapEngine :=
  match requireFunded observed e.nimExpectation minConfirmations with
  | .error reason => (.error (.fundingUnverified reason), e)
  | .ok _ =>
    match e.swap.observeInitiatorFunded with
    | (.error err, swap) => (.error (.swap err), { e with swap })
    | (.ok (), swap) => (.ok (), { e with swap, nimFundingWire := some nimFundingWire })

/-- Fund this node's own leg. -/
def fund (env : EngineEnv) (e : SwapEngine) (head : UInt64) (params : LadderParams) (vsh : UInt32) :
    Result EngineError SwapEffect × SwapEngine :=
  match e.swap.fund head params with
  | (.error err, swap) => (fail (.swap err), { e with swap })
  | (.ok (.fundLeg .nim timeout), swap) =>
    let terms : FundingTerms :=
      { hashlock := e.hashlock, amount := e.nimAmount, timeout, recipient := e.counterpartyNimAddress
        validityStartHeight := vsh }
    match e.nim.buildFunding env.blake terms with
    | .error err => (fail (.nimLeg err), { e with swap })
    | .ok wire => (.ok (.broadcast .nim wire), { e with swap, nimFundingWire := some wire })
  | (.ok (.fundLeg .counterparty _), swap) =>
    ((e.btc.htlcAddress env.lib).map (.fundBtcAddress · e.btcAmountSat), { e with swap })
  -- unreachable: `Swap::fund` always yields `FundLeg`
  | (.ok _, swap) => (fail (.missingInput "Swap::fund always yields FundLeg"), { e with swap })

/-- What the responder's HTLC must be. -/
def btcExpectation (e : SwapEngine) : HtlcExpectation where
  leg := .counterparty
  hashlock := e.hashlock
  minAmount := e.btcAmountSat
  minTimeout := e.swap.terms.counterpartyTimeout
  recipient := []
  termAnchor := 0

/-- (Initiator) the responder's funding, once it is verified. -/
def observeBtcFunded (e : SwapEngine) (funded : FundedHtlc) (observed : FundingObservation)
    (minConfirmations : UInt32) : Except EngineError Unit × SwapEngine :=
  match requireFunded observed e.btcExpectation minConfirmations with
  | .error reason => (.error (.fundingUnverified reason), e)
  | .ok _ =>
    match e.swap.observeCounterpartyFunded with
    | (.error err, swap) => (.error (.swap err), { e with swap })
    | (.ok (), swap) => (.ok (), { e with swap, btcFunding := some funded })

/-- (Responder) both legs are funded. -/
def observeNimFunded (e : SwapEngine) (ownBtcFunding : FundedHtlc) : Except EngineError Unit × SwapEngine :=
  match e.swap.observeCounterpartyFunded with
  | (.error err, swap) => (.error (.swap err), { e with swap })
  | (.ok (), swap) => (.ok (), { e with swap, btcFunding := some ownBtcFunding })

/-- (Initiator) claim the BTC leg, which reveals the secret. -/
def revealAndClaimBtc (env : EngineEnv) (e : SwapEngine) (head : UInt64) (params : LadderParams) :
    Result EngineError SwapEffect × SwapEngine :=
  match e.swap.revealAndClaim head params with
  | (.error err, swap) => (fail (.swap err), { e with swap })
  | (.ok _, swap) =>
    let e := { e with swap }
    match e.secret, e.btcFunding with
    | none, _ => (fail (.missingInput "initiator has no secret"), e)
    | some _, none => (fail (.missingInput "BTC funding not observed"), e)
    | some secret, some funded =>
      ((mapErr .btcLeg (e.btc.buildClaim env.lib funded secret)).map (.broadcast .counterparty), e)

/-- (Responder) read the secret off the initiator's claim and claim the NIM leg with it. -/
def claimNimFromBtcClaim (env : EngineEnv) (e : SwapEngine) (btcClaimTx : Bytes) (vsh : UInt32) :
    Except EngineError SwapEffect × SwapEngine :=
  match extractPreimage env.lib btcClaimTx with
  | none => (.error (.missingInput "no preimage in the BTC claim"), e)
  | some secret =>
    if env.sha256 secret.1 ≠ e.hashlock then (.error .badPreimage, e)
    else
      match e.swap.observeSecret with
      | (.error err, swap) => (.error (.swap err), { e with swap })
      | (.ok _, swap) =>
        let e := { e with swap, secret := some secret }
        match e.nimFundingWire with
        | none => (.error (.missingInput "NIM funding wire not observed"), e)
        | some funding =>
          match e.nim.buildClaim env.blake funding secret vsh with
          | .error err => (.error (.nimLeg err), e)
          | .ok tx => (.ok (.broadcast .nim tx), e)

def observeSettled (e : SwapEngine) : Except EngineError Unit × SwapEngine :=
  match e.swap.observeSettled with
  | (.error err, swap) => (.error (.swap err), { e with swap })
  | (.ok (), swap) => (.ok (), { e with swap })

def abort (e : SwapEngine) : Except EngineError Unit × SwapEngine :=
  match e.swap.abort with
  | (.error err, swap) => (.error (.swap err), { e with swap })
  | (.ok (), swap) => (.ok (), { e with swap })

/-- Refund this node's own leg past its timeout. -/
def refund (env : EngineEnv) (e : SwapEngine) (head : UInt64) (vsh : UInt32) :
    Result EngineError SwapEffect × SwapEngine :=
  match e.swap.refundAfterTimeout head with
  | (.error err, swap) => (fail (.swap err), { e with swap })
  | (.ok (.refundLeg .nim), swap) =>
    let e := { e with swap }
    match e.nimFundingWire with
    | none => (fail (.missingInput "no NIM funding to refund"), e)
    | some funding =>
      match e.nim.buildRefund env.blake funding vsh with
      | .error err => (fail (.nimLeg err), e)
      | .ok tx => (.ok (.broadcast .nim tx), e)
  | (.ok (.refundLeg .counterparty), swap) =>
    let e := { e with swap }
    match e.btcFunding with
    | none => (fail (.missingInput "no BTC funding to refund"), e)
    | some funded => ((mapErr .btcLeg (e.btc.buildRefund env.lib funded)).map (.broadcast .counterparty), e)
  -- unreachable: `Swap::refund_after_timeout` always yields `RefundLeg`
  | (.ok _, swap) => (fail (.missingInput "Swap::refund_after_timeout always yields RefundLeg"), { e with swap })

end SwapEngine

/-! ### What each call can do

    Either the call is refused and the engine is what it was, or the state machine has moved on; in the second
    case a transaction may still fail to be built, or the building may fault. -/

namespace SwapEngine

/-- The engine, in another phase. -/
def withPhase (e : SwapEngine) (phase : SwapPhase) : SwapEngine := { e with swap := { e.swap with phase } }

variable (env : EngineEnv)

theorem accept_cases (e : SwapEngine) (head : UInt64) (params : LadderParams) :
    e.accept head params = (.ok (), e.withPhase .accepted) ∨ ∃ err, e.accept head params = (.error err, e) := by
  rcases e.swap.accept_cases head params with ⟨-, -, h⟩ | ⟨-, err, h⟩
  · exact .inl (by rw [accept, h]; rfl)
  · exact .inr ⟨.swap err, by rw [accept, h]⟩

theorem observeInitiatorFunded_cases (e : SwapEngine) (wire : Bytes) (observed : FundingObservation) (need : UInt32) :
    e.observeInitiatorFunded wire observed need =
      (.ok (), { e.withPhase .initiatorFunded with nimFundingWire := some wire }) ∨
    ∃ err, e.observeInitiatorFunded wire observed need = (.error err, e) := by
  rw [observeInitiatorFunded]
  cases requireFunded observed e.nimExpectation need with
  | error reason => exact .inr ⟨_, rfl⟩
  | ok depth =>
    rcases e.swap.observeInitiatorFunded_cases with ⟨-, -, h⟩ | ⟨err, h⟩
    · exact .inl (by rw [h]; rfl)
    · exact .inr ⟨.swap err, by rw [h]⟩

/-- The terms that an initiator's funding is built from. -/
def fundingTerms (e : SwapEngine) (vsh : UInt32) : FundingTerms where
  hashlock := e.hashlock
  amount := e.nimAmount
  timeout := e.swap.terms.nimTimeout
  recipient := e.counterpartyNimAddress
  validityStartHeight := vsh

/-- `fund` is legal and the ladder safe. -/
def Funds (e : SwapEngine) (head : UInt64) (params : LadderParams) (role : SwapRole) : Prop :=
  e.role = role ∧ e.swap.fundable ∧ (assessLadder e.swap.terms head params).isSafe = true

theorem fund_cases (e : SwapEngine) (head : UInt64) (params : LadderParams) (vsh : UInt32) :
    (e.Funds head params .initiator ∧
      ((∃ wire, e.nim.buildFunding env.blake (e.fundingTerms vsh) = .ok wire ∧ e.fund env head params vsh =
        (.ok (.broadcast .nim wire), { e.withPhase .selfFunded with nimFundingWire := some wire })) ∨
      ∃ err, e.nim.buildFunding env.blake (e.fundingTerms vsh) = .error err ∧
        e.fund env head params vsh = (fail (.nimLeg err), e.withPhase .selfFunded))) ∨
    (e.Funds head params .responder ∧ e.fund env head params vsh =
      ((e.btc.htlcAddress env.lib).map (.fundBtcAddress · e.btcAmountSat), e.withPhase .selfFunded)) ∨
    ((∀ role, ¬ e.Funds head params role) ∧ ∃ err, e.fund env head params vsh = (fail err, e)) := by
  rcases e.swap.fund_cases head params with ⟨hlegal, hsafe, h⟩ | ⟨hno, err, h⟩
  · cases hrole : e.swap.role with
    | initiator =>
      have hleg : e.swap.ownLeg = .nim := by rw [Swap.ownLeg, hrole]
      have htimeout : e.swap.ownTimeout = e.swap.terms.nimTimeout := by rw [Swap.ownTimeout, hrole]
      refine .inl ⟨⟨hrole, hlegal, hsafe⟩, ?_⟩
      rw [fund, h, hleg, htimeout]
      cases hbuild : e.nim.buildFunding env.blake (e.fundingTerms vsh) with
      | error err => exact .inr ⟨err, rfl, by simp only [fundingTerms] at hbuild; simp only [hbuild]; rfl⟩
      | ok wire => exact .inl ⟨wire, rfl, by simp only [fundingTerms] at hbuild; simp only [hbuild]; rfl⟩
    | responder =>
      have hleg : e.swap.ownLeg = .counterparty := by rw [Swap.ownLeg, hrole]
      exact .inr (.inl ⟨⟨hrole, hlegal, hsafe⟩, by rw [fund, h, hleg]; rfl⟩)
  · refine .inr (.inr ⟨?_, .swap err, by rw [fund, h]⟩)
    rintro role ⟨-, hlegal, hsafe⟩
    rcases hno with hno | hno
    · exact hno hlegal
    · rw [hno] at hsafe
      cases hsafe

theorem observeBtcFunded_cases (e : SwapEngine) (funded : FundedHtlc) (observed : FundingObservation) (need : UInt32) :
    (e.phase = .selfFunded ∧ e.observeBtcFunded funded observed need =
      (.ok (), { e.withPhase .bothFunded with btcFunding := some funded })) ∨
    ∃ err, e.observeBtcFunded funded observed need = (.error err, e) := by
  rw [observeBtcFunded]
  cases requireFunded observed e.btcExpectation need with
  | error reason => exact .inr ⟨_, rfl⟩
  | ok depth =>
    rcases e.swap.observeCounterpartyFunded_cases with ⟨hphase, h⟩ | ⟨err, h⟩
    · exact .inl ⟨hphase, by rw [h]; rfl⟩
    · exact .inr ⟨.swap err, by rw [h]⟩

theorem observeNimFunded_cases (e : SwapEngine) (own : FundedHtlc) :
    (e.phase = .selfFunded ∧
      e.observeNimFunded own = (.ok (), { e.withPhase .bothFunded with btcFunding := some own })) ∨
    ∃ err, e.observeNimFunded own = (.error err, e) := by
  rcases e.swap.observeCounterpartyFunded_cases with ⟨hphase, h⟩ | ⟨err, h⟩
  · exact .inl ⟨hphase, by rw [observeNimFunded, h]; rfl⟩
  · exact .inr ⟨.swap err, by rw [observeNimFunded, h]⟩

/-- `reveal_and_claim` is legal and the deadline is far enough. -/
def Reveals (e : SwapEngine) (head : UInt64) (params : LadderParams) : Prop :=
  e.role = .initiator ∧ e.phase = .bothFunded ∧ (assessRevealDeadline e.swap.terms head params).isSafe = true

/-- The claim of the BTC leg, if there is all it takes. -/
def claimBtcTx (env : EngineEnv) (e : SwapEngine) : Result EngineError Bytes :=
  match e.secret, e.btcFunding with
  | none, _ => fail (.missingInput "initiator has no secret")
  | some _, none => fail (.missingInput "BTC funding not observed")
  | some secret, some funded => mapErr .btcLeg (e.btc.buildClaim env.lib funded secret)

theorem revealAndClaimBtc_cases (e : SwapEngine) (head : UInt64) (params : LadderParams) :
    (e.Reveals head params ∧ e.revealAndClaimBtc env head params =
      ((e.claimBtcTx env).map (.broadcast .counterparty), e.withPhase .revealed)) ∨
    (¬ e.Reveals head params ∧ ∃ err, e.revealAndClaimBtc env head params = (fail err, e)) := by
  rcases e.swap.revealAndClaim_cases head params with ⟨hrole, hphase, hsafe, h⟩ | ⟨hno, err, h⟩
  · refine .inl ⟨⟨hrole, hphase, hsafe⟩, ?_⟩
    rw [revealAndClaimBtc, h, claimBtcTx]
    obtain ⟨swap, nim, btc, nimAmount, btcAmountSat, address, secret, wire, funding⟩ := e
    cases secret with
    | none => rfl
    | some secret =>
      cases funding with
      | none => rfl
      | some funded => rfl
  · refine .inr ⟨?_, .swap err, by rw [revealAndClaimBtc, h]⟩
    rintro ⟨hrole, hphase, hsafe⟩
    rcases hno with hno | hno
    · exact hno ⟨hrole, hphase⟩
    · rw [hno] at hsafe
      cases hsafe

/-- The transaction shows the secret, to a responder that waits for it. -/
def Learns (env : EngineEnv) (e : SwapEngine) (btcClaimTx : Bytes) (secret : Hash) : Prop :=
  extractPreimage env.lib btcClaimTx = some secret ∧ env.sha256 secret.1 = e.hashlock ∧
    e.role = .responder ∧ e.phase = .bothFunded

/-- The claim of the NIM leg, if there is all it takes. -/
def claimNimTx (env : EngineEnv) (e : SwapEngine) (secret : Hash) (vsh : UInt32) : Except EngineError Bytes :=
  match e.nimFundingWire with
  | none => .error (.missingInput "NIM funding wire not observed")
  | some funding => (e.nim.buildClaim env.blake funding secret vsh).mapError .nimLeg

theorem claimNimFromBtcClaim_cases (e : SwapEngine) (btcClaimTx : Bytes) (vsh : UInt32) :
    (∃ secret, e.Learns env btcClaimTx secret ∧
      ((∃ tx, e.claimNimTx env secret vsh = .ok tx ∧ e.claimNimFromBtcClaim env btcClaimTx vsh =
        (.ok (.broadcast .nim tx), { e.withPhase .revealed with secret := some secret })) ∨
      ∃ err, e.claimNimTx env secret vsh = .error err ∧ e.claimNimFromBtcClaim env btcClaimTx vsh =
        (.error err, { e.withPhase .revealed with secret := some secret }))) ∨
    ((∀ secret, ¬ e.Learns env btcClaimTx secret) ∧
      ∃ err, e.claimNimFromBtcClaim env btcClaimTx vsh = (.error err, e)) := by
  rw [claimNimFromBtcClaim]
  cases hread : extractPreimage env.lib btcClaimTx with
  | none =>
    refine .inr ⟨?_, _, rfl⟩
    rintro secret ⟨h, -⟩
    rw [hread] at h
    cases h
  | some secret =>
    by_cases hopens : env.sha256 secret.1 = e.hashlock
    · rcases e.swap.observeSecret_cases with ⟨hrole, hphase, h⟩ | ⟨hno, err, h⟩
      · refine .inl ⟨secret, ⟨hread, hopens, hrole, hphase⟩, ?_⟩
        simp only [hopens, ne_eq, not_true_eq_false, if_false, h, claimNimTx]
        obtain ⟨swap, nim, btc, nimAmount, btcAmountSat, address, known, wire, funding⟩ := e
        cases wire with
        | none => exact .inr ⟨_, rfl, rfl⟩
        | some funding =>
          cases hbuild : nim.buildClaim env.blake funding secret vsh with
          | error err => exact .inr ⟨.nimLeg err, by simp only [hbuild]; rfl, by simp only [hbuild]; rfl⟩
          | ok tx => exact .inl ⟨tx, by simp only [hbuild]; rfl, by simp only [hbuild]; rfl⟩
      · refine .inr ⟨?_, .swap err, ?_⟩
        · rintro secret' ⟨-, -, hrole, hphase⟩
          exact hno ⟨hrole, hphase⟩
        · simp only [hopens, ne_eq, not_true_eq_false, if_false, h]
    · refine .inr ⟨?_, .badPreimage, ?_⟩
      · rintro secret' ⟨h, hopens', -⟩
        rw [hread] at h
        cases h
        exact hopens hopens'
      · simp only [ne_eq, hopens, not_false_eq_true, if_true]

theorem observeSettled_cases (e : SwapEngine) :
    e.observeSettled = (.ok (), e.withPhase .settled) ∨ ∃ err, e.observeSettled = (.error err, e) := by
  rcases e.swap.observeSettled_cases with ⟨-, h⟩ | ⟨-, err, h⟩
  · exact .inl (by rw [observeSettled, h]; rfl)
  · exact .inr ⟨.swap err, by rw [observeSettled, h]⟩

theorem abort_cases (e : SwapEngine) :
    e.abort = (.ok (), e.withPhase .aborted) ∨ ∃ err, e.abort = (.error err, e) := by
  rcases e.swap.abort_cases with ⟨-, -, h⟩ | ⟨err, h⟩
  · exact .inl (by rw [abort, h]; rfl)
  · exact .inr ⟨.swap err, by rw [abort, h]⟩

/-- `refund_after_timeout` is legal and the timeout is over. -/
def MayRefund (e : SwapEngine) (head : UInt64) : Prop := e.swap.refundable ∧ e.swap.ownTimeout < head

/-- The refund of this node's own leg, if there is all it takes. -/
def refundTx (env : EngineEnv) (e : SwapEngine) (vsh : UInt32) : Result EngineError Bytes :=
  match e.swap.ownLeg, e.nimFundingWire, e.btcFunding with
  | .nim, none, _ => fail (.missingInput "no NIM funding to refund")
  | .nim, some funding, _ => mapErr .nimLeg (Checked.ofExcept (e.nim.buildRefund env.blake funding vsh))
  | .counterparty, _, none => fail (.missingInput "no BTC funding to refund")
  | .counterparty, _, some funded => mapErr .btcLeg (e.btc.buildRefund env.lib funded)

theorem refund_cases (e : SwapEngine) (head : UInt64) (vsh : UInt32) :
    (e.MayRefund head ∧ e.refund env head vsh =
      ((e.refundTx env vsh).map (.broadcast e.swap.ownLeg), e.withPhase .refunded)) ∨
    (¬ e.MayRefund head ∧ ∃ err, e.refund env head vsh = (fail err, e)) := by
  rcases e.swap.refundAfterTimeout_cases head with ⟨hlegal, hpast, h⟩ | ⟨hno, err, h⟩
  · refine .inl ⟨⟨hlegal, hpast⟩, ?_⟩
    rw [refund, h, refundTx]
    obtain ⟨swap, nim, btc, nimAmount, btcAmountSat, address, secret, wire, funding⟩ := e
    cases swap.ownLeg with
    | nim =>
      cases wire with
      | none => rfl
      | some wire =>
        cases hbuild : nim.buildRefund env.blake wire vsh with
        | error err => simp only [hbuild]; rfl
        | ok tx => simp only [hbuild]; rfl
    | counterparty =>
      cases funding with
      | none => rfl
      | some funded => rfl
  · exact .inr ⟨hno, .swap err, by rw [refund, h]⟩

end SwapEngine

/-! ### Runs -/

/-- A call on an engine. -/
inductive EngineOp where
  | accept (head : UInt64) (params : LadderParams)
  | observeInitiatorFunded (nimFundingWire : Bytes) (observed : FundingObservation) (minConfirmations : UInt32)
  | fund (head : UInt64) (params : LadderParams) (vsh : UInt32)
  | observeBtcFunded (funded : FundedHtlc) (observed : FundingObservation) (minConfirmations : UInt32)
  | observeNimFunded (ownBtcFunding : FundedHtlc)
  | revealAndClaimBtc (head : UInt64) (params : LadderParams)
  | claimNimFromBtcClaim (btcClaimTx : Bytes) (vsh : UInt32)
  | observeSettled
  | abort
  | refund (head : UInt64) (vsh : UInt32)
  deriving DecidableEq

namespace SwapEngine

/-- What a call answers, without the effect: whether it is an error or a fault, and the engine it leaves behind. -/
def call (env : EngineEnv) (e : SwapEngine) : EngineOp → Result EngineError Unit × SwapEngine
  | .accept head params => Prod.map Checked.ofExcept id (e.accept head params)
  | .observeInitiatorFunded wire observed need =>
    Prod.map Checked.ofExcept id (e.observeInitiatorFunded wire observed need)
  | .fund head params vsh => Prod.map (Except.map fun _ => ()) id (e.fund env head params vsh)
  | .observeBtcFunded funded observed need => Prod.map Checked.ofExcept id (e.observeBtcFunded funded observed need)
  | .observeNimFunded own => Prod.map Checked.ofExcept id (e.observeNimFunded own)
  | .revealAndClaimBtc head params => Prod.map (Except.map fun _ => ()) id (e.revealAndClaimBtc env head params)
  | .claimNimFromBtcClaim tx vsh =>
    Prod.map (Checked.ofExcept ∘ Except.map fun _ => ()) id (e.claimNimFromBtcClaim env tx vsh)
  | .observeSettled => Prod.map Checked.ofExcept id e.observeSettled
  | .abort => Prod.map Checked.ofExcept id e.abort
  | .refund head vsh => Prod.map (Except.map fun _ => ()) id (e.refund env head vsh)

def step (env : EngineEnv) (e : SwapEngine) (op : EngineOp) : SwapEngine := (e.call env op).2

/-- The engines that calls can lead to. -/
def Reachable (env : EngineEnv) (e : SwapEngine) : Prop :=
  ∃ (config : SwapConfig) (ops : List EngineOp), e = Run.exec (step env) (newResponder config) ops ∨
    ∃ secret, e = Run.exec (step env) (newInitiator config secret) ops

end SwapEngine

end Nimmesh
