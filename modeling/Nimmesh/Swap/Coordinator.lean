import Nimmesh.Swap.FundingVerify

/-! @src swap_coordinator.rs | name:Swap coordinator | layer:model

    One side of a swap: the state machine together with the context it was agreed in, the secret when
    it is known and the claim this node has on the wire. The methods turn messages and local
    transactions into transitions of the machine. -/

namespace Nimmesh
open Word

inductive CoordError where
  | swap (e : SwapError)
  | badMessage (reason : String)
  | badPreimage
  | unauthenticProposal
  | fundingUnverified (r : FundingRejected)
  deriving DecidableEq, Repr

/-- The identity and economics a node brings to a swap. -/
structure SwapContext where
  swapId : SwapId
  terms : SwapTerms
  hashlock : Hash
  nimAddress : NimAddress
  btcAddress : Bytes
  btcPubkey : BtcPubkey
  giveAmount : UInt64
  takeAmount : UInt64
  networkId : UInt8
  termAnchor : UInt64
  deriving DecidableEq

/-- The proposal an initiator makes of its context. -/
def SwapContext.proposal (ctx : SwapContext) : SwapProposal :=
  { swapId := ctx.swapId, hashlock := ctx.hashlock, giveAmount := ctx.giveAmount,
    takeAmount := ctx.takeAmount, terms := ctx.terms, nimAddress := ctx.nimAddress,
    btcAddress := ctx.btcAddress, btcPubkey := ctx.btcPubkey, networkId := ctx.networkId }

/-- The acceptance a responder answers with. -/
def SwapContext.acceptance (ctx : SwapContext) : SwapAcceptance :=
  { swapId := ctx.swapId, nimAddress := ctx.nimAddress, btcAddress := ctx.btcAddress,
    btcPubkey := ctx.btcPubkey }

/-- The HTLC that a node of the given role must find on the other chain. -/
def SwapContext.expectation (ctx : SwapContext) : SwapRole → HtlcExpectation
  | .responder =>
    { leg := .nim, hashlock := ctx.hashlock, minAmount := ctx.giveAmount,
      minTimeout := ctx.terms.nimTimeout, recipient := ctx.nimAddress.1, termAnchor := ctx.termAnchor }
  | .initiator =>
    { leg := .counterparty, hashlock := ctx.hashlock, minAmount := ctx.takeAmount,
      minTimeout := ctx.terms.counterpartyTimeout, recipient := ctx.btcPubkey.1,
      termAnchor := ctx.termAnchor }

structure SwapCoordinator where
  swap : Swap
  ctx : SwapContext
  secret : Option Hash
  peerBtcPubkey : Option BtcPubkey
  ladder : LadderParams
  claimTx : Option Hash
  deriving DecidableEq

namespace SwapCoordinator

/-- The initiator, with the `Propose` to flood. -/
def newInitiator (ctx : SwapContext) (secret : Hash) (ladder : LadderParams) :
    SwapCoordinator × SwapEnvelope :=
  ({ swap := Swap.new .initiator ctx.terms, ctx, secret := some secret, peerBtcPubkey := none,
     ladder, claimTx := none }, ctx.proposal.toEnvelope)

/-- The responder, waiting for the initiator's `Propose`. -/
def newResponder (ctx : SwapContext) (ladder : LadderParams) : SwapCoordinator :=
  { swap := Swap.new .responder ctx.terms, ctx, secret := none, peerBtcPubkey := none, ladder,
    claimTx := none }

def phase (c : SwapCoordinator) : SwapPhase := c.swap.phase

def role (c : SwapCoordinator) : SwapRole := c.swap.role

/-- Store the swap a transition left behind and lift its error. -/
def lift {α : Type} (c : SwapCoordinator) (r : Except SwapError α × Swap) :
    Except CoordError α × SwapCoordinator :=
  (r.1.mapError .swap, { c with swap := r.2 })

def refundAfterTimeout (c : SwapCoordinator) (head : UInt64) :
    Except CoordError SwapAction × SwapCoordinator :=
  c.lift (c.swap.refundAfterTimeout head)

/-- The last head at which the swap could still be funded. -/
def lastFundable (c : SwapCoordinator) : UInt64 :=
  satSub c.ctx.terms.counterpartyTimeout c.ladder.minClaimWindowBlocks

/-- An un-funded, non-terminal swap whose head is past the last one at which it could be funded. -/
def isStale (c : SwapCoordinator) (head : UInt64) : Bool :=
  if c.phase.isTerminal || c.phase.hasFundsLocked then false else c.lastFundable < head

/-- (Responder) handle the initiator's `Propose`: authenticate, accept, learn its claim key. -/
def recvPropose (cr : Crypto) (c : SwapCoordinator) (env : SwapEnvelope) (head : UInt64) :
    Except CoordError SwapEnvelope × SwapCoordinator :=
  if !SwapProposal.verifyEnvelope cr env then (.error .unauthenticProposal, c)
  else match SwapProposal.fromEnvelope env with
    | none => (.error (.badMessage "incomplete Propose"), c)
    | some p =>
      if p.swapId ≠ c.ctx.swapId ∨ p.hashlock ≠ c.ctx.hashlock then
        (.error (.badMessage "Propose is for a different swap"), c)
      else match c.swap.accept head c.ladder with
        | (.error e, s) => (.error (.swap e), { c with swap := s })
        | (.ok _, s) =>
          (.ok c.ctx.acceptance.toEnvelope, { c with swap := s, peerBtcPubkey := some p.btcPubkey })

/-- (Initiator) handle the responder's `Accept`; the code does not look at the role here. -/
def recvAccept (c : SwapCoordinator) (env : SwapEnvelope) (head : UInt64) :
    Except CoordError Unit × SwapCoordinator :=
  match SwapAcceptance.fromEnvelope env with
  | none => (.error (.badMessage "incomplete Accept"), c)
  | some a =>
    if a.swapId ≠ c.ctx.swapId then (.error (.badMessage "Accept is for a different swap"), c)
    else match c.swap.accept head c.ladder with
      | (.error e, s) => (.error (.swap e), { c with swap := s })
      | (.ok _, s) => (.ok (), { c with swap := s, peerBtcPubkey := some a.btcPubkey })

/-- Fund this node's own leg with a transaction that is already built and broadcast. The responder
    also records that both legs are funded. -/
def fund (c : SwapCoordinator) (head : UInt64) (txWire : Bytes) (txId : Hash) :
    Except CoordError SwapEnvelope × SwapCoordinator :=
  match c.swap.fund head c.ladder with
  | (.error e, s) => (.error (.swap e), { c with swap := s })
  | (.ok _, s) =>
    let proof := txEnvelope c.ctx.swapId s.ownLeg txWire txId
    if s.role = .responder then
      match s.observeCounterpartyFunded with
      | (.error e, s') => (.error (.swap e), { c with swap := s' })
      | (.ok _, s') => (.ok proof, { c with swap := s' })
    else (.ok proof, { c with swap := s })

/-- The on-chain HTLC this node must verify: the counterparty's leg, claimable by us. -/
def counterpartyExpectation (c : SwapCoordinator) : HtlcExpectation := c.ctx.expectation c.role

/-- The phases from which a verified funding can advance. -/
def awaitsCounterpartyFunding (c : SwapCoordinator) : Bool :=
  match c.role, c.phase with
  | .responder, .accepted => true
  | .initiator, .selfFunded => true
  | _, _ => false

def revealDeadlineOk (c : SwapCoordinator) (head : UInt64) : Bool :=
  (assessRevealDeadline c.ctx.terms head c.ladder).isSafe

/-- Gate the funded transition on what the chain shows. -/
def verifyAndObserveFunding (c : SwapCoordinator) (observe : HtlcExpectation → FundingObservation)
    (minConfirmations : UInt32) : Except CoordError Unit × SwapCoordinator :=
  let expect := c.counterpartyExpectation
  let obs := observe expect
  match requireFunded obs expect minConfirmations with
  | .error r => (.error (.fundingUnverified r), c)
  | .ok _ =>
    match c.role with
    | .responder => c.lift c.swap.observeInitiatorFunded
    | .initiator => c.lift c.swap.observeCounterpartyFunded

/-- (Initiator) claim the counterparty leg, revealing the secret. -/
def claimAndReveal (c : SwapCoordinator) (head : UInt64) (txWire : Bytes) (txId : Hash) :
    Except CoordError SwapEnvelope × SwapCoordinator :=
  match c.swap.revealAndClaim head c.ladder with
  | (.error e, s) => (.error (.swap e), { c with swap := s })
  | (.ok _, s) => (.ok (txEnvelope c.ctx.swapId .counterparty txWire txId), { c with swap := s })

/-- (Responder) handle the revealed secret: it must open the hashlock. -/
def recvReveal (cr : Crypto) (c : SwapCoordinator) (secret : Hash) :
    Except CoordError Hash × SwapCoordinator :=
  if cr.sha256 secret.1 ≠ c.ctx.hashlock then (.error .badPreimage, c)
  else match c.swap.observeSecret with
    | (.error e, s) => (.error (.swap e), { c with swap := s })
    | (.ok _, s) => (.ok secret, { c with swap := s, secret := some secret })

def settle (c : SwapCoordinator) : Except CoordError Unit × SwapCoordinator :=
  c.lift c.swap.observeSettled

/-- (Responder) our claim was broadcast; the phase stays `Revealed`. -/
def noteClaimBroadcast (c : SwapCoordinator) (txId : Hash) : SwapCoordinator :=
  { c with claimTx := some txId }

def claimBroadcast (c : SwapCoordinator) : Option Hash := c.claimTx

/-- Forget a claim the chain does not know. -/
def clearClaimBroadcast (c : SwapCoordinator) : SwapCoordinator := { c with claimTx := none }

def forfeitExpiredClaim (c : SwapCoordinator) (head : UInt64) :
    Except CoordError Unit × SwapCoordinator :=
  c.lift (c.swap.forfeitClaim head)

/-! ### What each method can do -/

/-- Move the phase of a coordinator. -/
def withPhase (c : SwapCoordinator) (ph : SwapPhase) : SwapCoordinator :=
  { c with swap := { c.swap with phase := ph } }

@[simp] theorem withPhase_phase (c : SwapCoordinator) (ph : SwapPhase) : (c.withPhase ph).phase = ph := rfl
@[simp] theorem withPhase_role (c : SwapCoordinator) (ph : SwapPhase) : (c.withPhase ph).role = c.role :=
  rfl
@[simp] theorem withPhase_ctx (c : SwapCoordinator) (ph : SwapPhase) : (c.withPhase ph).ctx = c.ctx := rfl
@[simp] theorem withPhase_ladder (c : SwapCoordinator) (ph : SwapPhase) :
    (c.withPhase ph).ladder = c.ladder := rfl
@[simp] theorem withPhase_secret (c : SwapCoordinator) (ph : SwapPhase) :
    (c.withPhase ph).secret = c.secret := rfl
@[simp] theorem withPhase_claimTx (c : SwapCoordinator) (ph : SwapPhase) :
    (c.withPhase ph).claimTx = c.claimTx := rfl
@[simp] theorem withPhase_terms (c : SwapCoordinator) (ph : SwapPhase) :
    (c.withPhase ph).swap.terms = c.swap.terms := rfl

theorem refundAfterTimeout_cases (c : SwapCoordinator) (head : UInt64) :
    (c.swap.refundable ∧ c.swap.ownTimeout < head ∧
      (c.refundAfterTimeout head).2 = c.withPhase .refunded) ∨
    (¬ (c.swap.refundable ∧ c.swap.ownTimeout < head) ∧ (c.refundAfterTimeout head).2 = c) := by
  rcases c.swap.refundAfterTimeout_cases head with ⟨hr, ht, he⟩ | ⟨hn, e, he⟩
  · exact .inl ⟨hr, ht, by rw [refundAfterTimeout, lift, he]; rfl⟩
  · exact .inr ⟨hn, by rw [refundAfterTimeout, lift, he]⟩

theorem isStale_iff (c : SwapCoordinator) (head : UInt64) :
    c.isStale head = true ↔
      c.phase.isTerminal = false ∧ c.phase.hasFundsLocked = false ∧ c.lastFundable < head := by
  unfold isStale
  cases c.phase.isTerminal <;> cases c.phase.hasFundsLocked <;> simp

theorem recvPropose_cases (cr : Crypto) (c : SwapCoordinator) (env : SwapEnvelope) (head : UInt64)
    {p : SwapProposal} (hp : SwapProposal.fromEnvelope env = some p) (hid : p.swapId = c.ctx.swapId)
    (hh : p.hashlock = c.ctx.hashlock) :
    (SwapProposal.verifyEnvelope cr env = true ∧ c.phase = .proposed ∧
      (assessLadder c.swap.terms head c.ladder).isSafe = true ∧
      c.recvPropose cr env head =
        (.ok c.ctx.acceptance.toEnvelope,
          { c.withPhase .accepted with peerBtcPubkey := some p.btcPubkey })) ∨
    (¬ (SwapProposal.verifyEnvelope cr env = true ∧ c.phase = .proposed ∧
        (assessLadder c.swap.terms head c.ladder).isSafe = true) ∧
      ∃ e, c.recvPropose cr env head = (.error e, c)) := by
  unfold recvPropose
  cases hv : SwapProposal.verifyEnvelope cr env with
  | false => exact .inr ⟨by simp, .unauthenticProposal, by simp⟩
  | true =>
    have hsame : ¬ (p.swapId ≠ c.ctx.swapId ∨ p.hashlock ≠ c.ctx.hashlock) := by
      simp [hid, hh]
    simp only [hp, Bool.not_true, Bool.false_eq_true, if_false, if_neg hsame]
    rcases c.swap.accept_cases head c.ladder with ⟨hph, hs, he⟩ | ⟨hn, e, he⟩
    · exact .inl ⟨trivial, hph, hs, by rw [he]; rfl⟩
    · exact .inr ⟨fun h => hn h.2, .swap e, by rw [he]⟩

theorem recvAccept_cases (c : SwapCoordinator) (env : SwapEnvelope) (head : UInt64) :
    (∃ a, SwapAcceptance.fromEnvelope env = some a ∧ a.swapId = c.ctx.swapId ∧ c.phase = .proposed ∧
      (assessLadder c.swap.terms head c.ladder).isSafe = true ∧
      c.recvAccept env head =
        (.ok (), { c.withPhase .accepted with peerBtcPubkey := some a.btcPubkey })) ∨
    ((∀ a, SwapAcceptance.fromEnvelope env = some a → ¬ (a.swapId = c.ctx.swapId ∧
        c.phase = .proposed ∧ (assessLadder c.swap.terms head c.ladder).isSafe = true)) ∧
      ∃ e, c.recvAccept env head = (.error e, c)) := by
  unfold recvAccept
  cases hp : SwapAcceptance.fromEnvelope env with
  | none => exact .inr ⟨fun a ha => (by cases ha), _, rfl⟩
  | some a =>
    by_cases hid : a.swapId ≠ c.ctx.swapId
    · refine .inr ⟨fun a' ha' h => ?_, _, if_pos hid⟩
      cases ha'
      exact hid h.1
    · rcases c.swap.accept_cases head c.ladder with ⟨hph, hs, he⟩ | ⟨hn, e, he⟩
      · refine .inl ⟨a, rfl, not_not.mp hid, hph, hs, ?_⟩
        simp only [if_neg hid, he]
        rfl
      · refine .inr ⟨fun a' _ h => hn h.2, .swap e, ?_⟩
        simp only [if_neg hid, he]

/-- The phase a successful `fund` ends in: the responder has already seen the other leg funded. -/
def fundedPhase : SwapRole → SwapPhase
  | .initiator => .selfFunded
  | .responder => .bothFunded

theorem fundedPhase_locked (r : SwapRole) : (fundedPhase r).hasFundsLocked = true := by cases r <;> rfl

theorem fund_cases (c : SwapCoordinator) (head : UInt64) (wire : Bytes) (txId : Hash) :
    (c.swap.fundable ∧ (assessLadder c.swap.terms head c.ladder).isSafe = true ∧
      c.fund head wire txId =
        (.ok (txEnvelope c.ctx.swapId c.swap.ownLeg wire txId), c.withPhase (fundedPhase c.role))) ∨
    ((¬ c.swap.fundable ∨ (assessLadder c.swap.terms head c.ladder).isSafe = false) ∧
      ∃ e, c.fund head wire txId = (.error e, c)) := by
  unfold fund
  rcases c.swap.fund_cases head c.ladder with ⟨hf, hs, he⟩ | ⟨hn, e, he⟩
  · refine .inl ⟨hf, hs, ?_⟩
    rw [he]
    cases hr : c.swap.role with
    | initiator => simp [hr, role, withPhase, fundedPhase, Swap.ownLeg]
    | responder =>
      simp [hr, role, withPhase, fundedPhase, Swap.ownLeg, Swap.observeCounterpartyFunded]
  · exact .inr ⟨hn, .swap e, by rw [he]⟩

/-- The phase that a verified counterparty funding leads to. -/
def observedPhase : SwapRole → SwapPhase
  | .responder => .initiatorFunded
  | .initiator => .bothFunded

theorem awaitsCounterpartyFunding_iff (c : SwapCoordinator) :
    c.awaitsCounterpartyFunding = true ↔
      (c.role = .responder ∧ c.phase = .accepted) ∨ (c.role = .initiator ∧ c.phase = .selfFunded) := by
  unfold awaitsCounterpartyFunding
  cases c.role <;> cases c.phase <;> simp

theorem verifyAndObserveFunding_cases (c : SwapCoordinator)
    (observe : HtlcExpectation → FundingObservation) (need : UInt32) :
    (Funded (observe c.counterpartyExpectation) c.counterpartyExpectation need ∧
      c.awaitsCounterpartyFunding = true ∧
      c.verifyAndObserveFunding observe need = (.ok (), c.withPhase (observedPhase c.role))) ∨
    ∃ e, c.verifyAndObserveFunding observe need = (.error e, c) := by
  unfold verifyAndObserveFunding
  cases hq : requireFunded (observe c.counterpartyExpectation) c.counterpartyExpectation need with
  | error r => exact .inr ⟨.fundingUnverified r, by simp only [hq]⟩
  | ok d =>
    have hf := (requireFunded_ok_iff _ _ _).mp ⟨d, hq⟩
    cases hr : c.role with
    | responder =>
      rcases c.swap.observeInitiatorFunded_cases with ⟨-, hp, he⟩ | ⟨e, he⟩
      · refine .inl ⟨hf, (awaitsCounterpartyFunding_iff c).mpr (.inl ⟨hr, hp⟩), ?_⟩
        simp only [hq, lift, he]; rfl
      · exact .inr ⟨.swap e, by simp only [hq, lift, he]; rfl⟩
    | initiator =>
      rcases c.swap.observeCounterpartyFunded_cases with ⟨hp, he⟩ | ⟨e, he⟩
      · refine .inl ⟨hf, (awaitsCounterpartyFunding_iff c).mpr (.inr ⟨hr, hp⟩), ?_⟩
        simp only [hq, lift, he]; rfl
      · exact .inr ⟨.swap e, by simp only [hq, lift, he]; rfl⟩

theorem claimAndReveal_cases (c : SwapCoordinator) (head : UInt64) (wire : Bytes) (txId : Hash) :
    (c.role = .initiator ∧ c.phase = .bothFunded ∧
      (assessRevealDeadline c.swap.terms head c.ladder).isSafe = true ∧
      c.claimAndReveal head wire txId =
        (.ok (txEnvelope c.ctx.swapId .counterparty wire txId), c.withPhase .revealed)) ∨
    ((¬ (c.role = .initiator ∧ c.phase = .bothFunded) ∨
        (assessRevealDeadline c.swap.terms head c.ladder).isSafe = false) ∧
      ∃ e, c.claimAndReveal head wire txId = (.error e, c)) := by
  unfold claimAndReveal
  rcases c.swap.revealAndClaim_cases head c.ladder with ⟨hr, hp, hs, he⟩ | ⟨hn, e, he⟩
  · exact .inl ⟨hr, hp, hs, by rw [he]; rfl⟩
  · exact .inr ⟨hn, .swap e, by rw [he]⟩

theorem recvReveal_cases (cr : Crypto) (c : SwapCoordinator) (secret : Hash) :
    (c.role = .responder ∧ c.phase = .bothFunded ∧ cr.sha256 secret.1 = c.ctx.hashlock ∧
      c.recvReveal cr secret = (.ok secret, { c.withPhase .revealed with secret := some secret })) ∨
    (¬ (c.role = .responder ∧ c.phase = .bothFunded ∧ cr.sha256 secret.1 = c.ctx.hashlock) ∧
      ∃ e, c.recvReveal cr secret = (.error e, c)) := by
  unfold recvReveal
  by_cases hh : cr.sha256 secret.1 = c.ctx.hashlock
  · rw [if_neg (not_not.mpr hh)]
    rcases c.swap.observeSecret_cases with ⟨hr, hp, he⟩ | ⟨hn, e, he⟩
    · exact .inl ⟨hr, hp, hh, by rw [he]; rfl⟩
    · exact .inr ⟨fun h => hn ⟨h.1, h.2.1⟩, .swap e, by rw [he]⟩
  · exact .inr ⟨fun h => hh h.2.2, _, if_pos hh⟩

theorem settle_cases (c : SwapCoordinator) :
    (c.phase = .revealed ∧ c.settle = (.ok (), c.withPhase .settled)) ∨
    (c.phase ≠ .revealed ∧ ∃ e, c.settle = (.error e, c)) := by
  unfold settle
  rcases c.swap.observeSettled_cases with ⟨hp, he⟩ | ⟨hp, e, he⟩
  · exact .inl ⟨hp, by rw [lift, he]; rfl⟩
  · exact .inr ⟨hp, .swap e, by rw [lift, he]; rfl⟩

theorem forfeitExpiredClaim_cases (c : SwapCoordinator) (head : UInt64) :
    (c.role = .responder ∧ c.phase = .revealed ∧ c.swap.terms.nimTimeout < head ∧
      (c.forfeitExpiredClaim head).2 = c.withPhase .lost) ∨
    (¬ (c.role = .responder ∧ c.phase = .revealed ∧ c.swap.terms.nimTimeout < head) ∧
      (c.forfeitExpiredClaim head).2 = c) := by
  unfold forfeitExpiredClaim
  rcases c.swap.forfeitClaim_cases head with ⟨hr, hp, ht, he⟩ | ⟨hn, e, he⟩
  · exact .inl ⟨hr, hp, ht, by rw [lift, he]; rfl⟩
  · exact .inr ⟨hn, by rw [lift, he]⟩

end SwapCoordinator

end Nimmesh
