import Nimmesh.Live.Claimable
import Nimmesh.Live.InitiatorRun
import Nimmesh.Live.PerSwap

/-! @src amoy_swap_verifier.rs live_swap_signer.rs swap_coordinator.rs | name:The escrow that is withdrawn |
    layer:properties

    The initiator withdraws the slot that is recorded for its hashlock. At the gate that is the escrow
    which passed; but every later observation records what it is shown too, and nobody judges it any
    more. So the withdraw takes the verified escrow exactly as long as no later observation is shown
    another one. -/

namespace Nimmesh

namespace LiveInitiatorNode

variable {node : LiveInitiatorNode} {ch : InitiatorChains}

/-- An observation after the trace would be shown this escrow. -/
def Shows (node : LiveInitiatorNode) (ch : InitiatorChains) (tr : List Event) (expect : HtlcExpectation)
    (escrow : FoundEscrow) : Prop :=
  expect.leg = .counterparty ∧ ∃ anchor, ((node.store ch tr).anchor (ch.reads tr)).1 = some anchor ∧
    node.verifier.Offers (ch.reads tr) (ch.secondary tr) anchor expect.hashlock escrow

theorem picks_observed_iff {tr : List Event} {id : SwapId} {expect : HtlcExpectation}
    {obs : FundingObservation} {hashlock : Hash} {escrow : FoundEscrow} :
    node.picks ch tr (.observed id expect obs) = some (hashlock, escrow) ↔
      expect.hashlock = hashlock ∧ node.Shows ch tr expect escrow := by
  simp only [picks, Option.map_eq_some_iff, Prod.mk.injEq, Shows, AmoyHtlcSwapVerifier.pick_iff]
  constructor
  · rintro ⟨_, hp, rfl, rfl⟩
    exact ⟨rfl, hp⟩
  · rintro ⟨rfl, hp⟩
    exact ⟨escrow, hp, rfl, rfl⟩

/-- What an observation reports as found is the escrow it was shown, and it is recorded. -/
theorem found_recorded {tr : List Event} {id : SwapId} {expect : HtlcExpectation} {amount timeout : UInt64}
    {depth : UInt32} {base : Env}
    (h : AnsweredAt (node.env ch base) tr (.observed id expect (.found amount timeout depth))) :
    ∃ escrow, node.Shows ch tr expect escrow ∧ escrow.amount = amount ∧
      timeout = termEquivalentOfTimelockS escrow.timelockS (ch.nowS tr) expect.termAnchor node.verifier.slackS ∧
      node.recorded ch (.observed id expect (.found amount timeout depth) :: tr) expect.hashlock =
        some escrow.swapId := by
  obtain ⟨escrow, hpick, hamount, htimeout⟩ := node.verifier.observe_some (Eq.symm h)
  have hshows : node.Shows ch tr expect escrow := (node.verifier.pick_iff _ _ _ _ _).mp hpick
  refine ⟨escrow, hshows, hamount, htimeout, ?_⟩
  have hw : node.picks ch tr (.observed id expect (.found amount timeout depth)) =
      some (expect.hashlock, escrow) := picks_observed_iff.mpr ⟨rfl, hshows⟩
  rw [recorded_eq_some_iff, Record.Has, Record.record, hw]
  exact ⟨escrow, by simp, rfl⟩

/-- The recorded slot stays through a stretch of the trace exactly when no observation in it is shown
    another one under the hashlock. -/
theorem recorded_along_iff {hashlock escrow : Hash} {old : List Event}
    (h : node.recorded ch old hashlock = some escrow) (new : List Event) :
    (∀ a b, new = a ++ b → node.recorded ch (b ++ old) hashlock = some escrow) ↔
      ∀ a id expect obs b, new = a ++ .observed id expect obs :: b → expect.hashlock = hashlock →
        ∀ shown, node.Shows ch (b ++ old) expect shown → shown.swapId = escrow := by
  simp only [recorded_eq_some_iff] at h ⊢
  rw [Record.has_along_iff h]
  constructor
  · intro hall a id expect obs b hsplit hhash shown hshows
    exact hall a _ b hsplit shown (picks_observed_iff.mpr ⟨hhash, hshows⟩)
  · intro hall a ev b hsplit shown hw
    cases ev with
    | observed id expect obs =>
      obtain ⟨hhash, hshows⟩ := picks_observed_iff.mp hw
      exact hall a id expect obs b hsplit hhash shown hshows
    | _ => cases hw

theorem handed_eq_some {tr : List Event} {ctx : SwapContext} {secret : Hash} {raw : Bytes}
    (h : node.handed ch tr ctx secret = some raw) :
    ∃ escrow, node.recorded ch tr ctx.hashlock = some escrow ∧ node.lastClaim ch tr = none ∧
      node.signer.withdrawRaw (ch.amoy tr) escrow secret = some raw := by
  simp only [handed, LiveInitiator.claimHanded] at h
  split at h
  · rename_i escrow hf hl
    exact ⟨escrow, hf, hl, h⟩
  · cases h

end LiveInitiatorNode

/-- EXACT: a withdraw of an initiator comes after the gate that its swap passed; the slot recorded there
    is that of the escrow which passed, and it stays recorded until the withdraw takes it exactly when
    no observation in between is shown another escrow under the hashlock. -/
theorem withdraws_verified_iff (node : LiveInitiatorNode) (ch : InitiatorChains) (base : Env)
    (s₀ : Session) (h₀ : s₀.Fresh) (ops : List Op) (id : SwapId) (ctx : SwapContext) (secret : Hash)
    (head : UInt64) (answer : Option (Bytes × Hash)) (newer old : List Event) (raw : Bytes)
    (htr : (s₀.exec (node.env ch base) ops).trace =
      newer ++ .builtClaim id .initiator ctx secret head answer :: old)
    (hsent : node.handed ch old ctx secret = some raw) :
    ∃ pre op post amount timeout depth mid rest escrow,
      ops = pre ++ op :: post ∧
      Session.PassesGate (node.env ch base) s₀ pre op id (ctx.expectation .initiator)
        (.found amount timeout depth) rest ∧
      old = mid ++ .observed id (ctx.expectation .initiator) (.found amount timeout depth) :: rest ∧
      node.Shows ch rest (ctx.expectation .initiator) escrow ∧ escrow.amount = amount ∧
      timeout = termEquivalentOfTimelockS escrow.timelockS (ch.nowS rest) ctx.termAnchor
        node.verifier.slackS ∧
      let gate := .observed id (ctx.expectation .initiator) (.found amount timeout depth) :: rest
      ((∀ a b, mid = a ++ b → node.recorded ch (b ++ gate) ctx.hashlock = some escrow.swapId) ∧
          node.signer.withdrawRaw (ch.amoy old) escrow.swapId secret = some raw ↔
        ∀ a id' expect obs b, mid = a ++ .observed id' expect obs :: b → expect.hashlock = ctx.hashlock →
          ∀ shown, node.Shows ch (b ++ gate) expect shown → shown.swapId = escrow.swapId) := by
  obtain ⟨pre, op, post, obs, mid, rest, hops, hgate, hold⟩ := Session.claim_after_gate h₀ ops htr
  have hplace := Session.exec_inPlace (node.env ch base) h₀ ops
  rw [htr] at hplace
  have hold' := hplace.split.2
  rw [hold] at hold'
  obtain ⟨amount, timeout, depth, rfl, -, -, -⟩ := hgate.funded
  obtain ⟨escrow, hshows, hamount, htimeout, hrec⟩ :=
    LiveInitiatorNode.found_recorded hold'.split.1
  refine ⟨pre, op, post, amount, timeout, depth, mid, rest, escrow, hops, hgate, hold, hshows, hamount,
    htimeout, ?_⟩
  intro gate
  have halong := LiveInitiatorNode.recorded_along_iff hrec mid
  refine ⟨fun h => halong.mp h.1, fun h => ?_⟩
  have hkept := halong.mpr h
  refine ⟨hkept, ?_⟩
  obtain ⟨slot, hslot, -, hraw⟩ := LiveInitiatorNode.handed_eq_some hsent
  have hnow := hkept [] mid rfl
  rw [← hold] at hnow
  obtain rfl : slot = escrow.swapId := Option.some.inj (hslot.symm.trans hnow)
  exact hraw

namespace Sample

/-- The slot of one micro-USDC under the sample hashlock, until 1 005 000. -/
def cheapSlot : Hash := word32 0xb8f2fc5140cb1d92abf1f822feeae99d5139304c6cc353841c93d331dcc5b8f8

/-- The withdraw of that slot. -/
def cheapWithdraw : SignedTx :=
  ⟨withdrawTx 0 cheapSlot,
    word32 0x2af5db76320114102de1748d5605b7a5c424b2719348ab0e5baafefabd560844,
    word32 0xe7f382343e06751f5487d2ab2d6b83e5d63a095f13116a7f34a51a88a20f1797,
    word32 0x5f23225d57f8a804b5bfc061373dac91a70001ab9289f26039a22dcaad7984c7, 1,
    word32 0x6f7783671a88c63ad41a72809124482ed9df96b2ed717de751d75083818c3b52⟩

/-- The live initiator of the sample: its NIM wallet, its gas key, the escrow contract. -/
def initiatorNode : LiveInitiatorNode where
  verifier :=
    { keccak256 := keccak256
      htlc := escrowAddress
      ownClaimAddress := claimAddress }
  signer :=
    { crypto :=
        { keccak256 := fun b =>
            if b = cheapWithdraw.tx.signingRlp then cheapWithdraw.digest
            else if b = cheapWithdraw.raw then cheapWithdraw.txId
            else keccak256 b
          blake2b := claimKeys.blake2b
          addressOf := claimKeys.crypto.addressOf }
      nimKey := ⟨pubkey.1, fun _ => nimFundingSignature.1⟩
      evmGasKey := ⟨gasAddress, fun h =>
        if h = cheapWithdraw.digest then (cheapWithdraw.r, cheapWithdraw.s, cheapWithdraw.recoveryId)
        else signHash h⟩
      htlc := escrowAddress }

/-- `fund_nim` over a node at height 100 that takes every transaction. -/
def fundsNim : Env :=
  { env with
    buildFunding := fun tr ctx leg =>
      (initiatorNode.signer.buildFunding ⟨some 100, fun _ => true, fun _ => false⟩ 1000000000 (peerBook tr)
        ctx leg).1 }

/-- The `NewSwap` log of a slot. -/
def newSwapLog (slot : Hash) (amount block : UInt64) : EvmLog :=
  ⟨slot, wordU256 amount ++ hashlock.1 ++ wordU256 1005000, block⟩

/-- Reads of a node at block 200 with these logs, to which only the live slots read live. -/
def escrowReads (logs : List EvmLog) (live : Hash → Bool) : AmoyReads where
  receipt _ := some ⟨true, 100⟩
  newSwapLogsTo _ _ _ := some logs
  head := some 200
  finalizedHead := none
  escrowState slot := if live slot then some stateLive else none

def isObserved : Event → Bool
  | .observed .. => true
  | _ => false

def isClaim : Event → Bool
  | .builtClaim .. => true
  | _ => false

/-- A chain that holds the escrow of 0.1 USDC in block 100, and takes the withdraw. -/
def usdcChain : InitiatorChains where
  reads _ := escrowReads [newSwapLog escrowSlot 100000 100] (· = escrowSlot)
  secondary _ := none
  nowS _ := 1000000
  amoy _ := amoy 0 fun _ => some stateClaimed

/-- From the second observation on, another escrow has been logged and the state of the first one cannot
    be read; the node has no gas price for the first claim. -/
def flakyChain : InitiatorChains :=
  { usdcChain with
    reads := fun tr =>
      if tr.any isObserved then
        escrowReads [newSwapLog escrowSlot 100000 100, newSwapLog cheapSlot 1 101] (· = cheapSlot)
      else usdcChain.reads tr
    amoy := fun tr =>
      if tr.any isClaim then usdcChain.amoy tr else { usdcChain.amoy tr with gasPrice := none } }

/-- The responder's `Accept`, with the address that the NIM lock pays. -/
def usdcAccept : Bytes := wire { acceptance with nimAddress := claimNimAddress }.toEnvelope

/-- The proof of the USDC funding. -/
def usdcProof : Bytes :=
  wire (txEnvelope swapId .counterparty ((newSwapTx 1 1005000).signWith keccak256 ⟨funderAddress, signHash⟩)
    firstFunding.2)

/-- A swap of the initiator up to the proof of the responder's funding, at head 0. -/
def usdcRun : List Op :=
  .initiate swapId 0 :: packet .accept usdcAccept 0 ++ packet .fundingProof usdcProof 0

/-- The initiator's context of that swap, and what it asks of the funding. -/
def usdcContext : SwapContext := Session.initiatorContext intent swapId hashlock 0

def usdcExpectation : HtlcExpectation := usdcContext.expectation .initiator

/-- The trace that a run of the initiator leaves over a chain. -/
def initiatorTrace (ch : InitiatorChains) (ops : List Op) : List Event :=
  (alice.exec (initiatorNode.env ch fundsNim) ops).trace

end Sample

/-- Without another observation the verified escrow is withdrawn. -/
theorem sample_withdraws_verified :
    ∃ (pre : List Op) (op : Op) (post : List Op) (amount timeout : UInt64) (depth : UInt32)
        (rest : List Event) (escrow : FoundEscrow),
      Sample.usdcRun = pre ++ op :: post ∧
      Session.PassesGate (Sample.initiatorNode.env Sample.usdcChain Sample.fundsNim) Sample.alice pre op
        Sample.swapId Sample.usdcExpectation (.found amount timeout depth) rest ∧
      escrow.amount = amount ∧
      Sample.initiatorNode.signer.withdrawRaw (Sample.amoy 0 fun _ => some stateClaimed) escrow.swapId
        Sample.secret =
          some ((Sample.withdrawTx 0 Sample.escrowSlot).signWith Sample.keccak256
            ⟨Sample.gasAddress, Sample.signHash⟩) := by
  have hrun : (Sample.initiatorTrace Sample.usdcChain Sample.usdcRun).head? =
        some (.builtClaim Sample.swapId .initiator Sample.usdcContext Sample.secret 0
          (some Sample.firstWithdraw)) ∧
      Sample.initiatorNode.handed Sample.usdcChain
          (Sample.initiatorTrace Sample.usdcChain Sample.usdcRun).tail Sample.usdcContext Sample.secret =
        some ((Sample.withdrawTx 0 Sample.escrowSlot).signWith Sample.keccak256
          ⟨Sample.gasAddress, Sample.signHash⟩) ∧
      (Sample.initiatorTrace Sample.usdcChain Sample.usdcRun).tail.countP Sample.isObserved = 1 := by
    decide +kernel
  obtain ⟨hhead, hhanded, hcount⟩ := hrun
  obtain ⟨pre, op, post, amount, timeout, depth, mid, rest, escrow, hops, hgate, hold, -, hamount, -, hiff⟩ :=
    withdraws_verified_iff Sample.initiatorNode Sample.usdcChain Sample.fundsNim Sample.alice
      Sample.alice_fresh Sample.usdcRun _ _ _ _ _ [] _ _
      (List.eq_cons_of_mem_head? (Option.mem_def.mpr hhead)) hhanded
  refine ⟨pre, op, post, amount, timeout, depth, rest, escrow, hops, hgate, hamount, (hiff.mpr ?_).2⟩
  rintro a id expect obs b rfl
  rw [Sample.initiatorTrace, hold] at hcount
  simp only [List.countP_append, List.countP_cons, Sample.isObserved, if_true] at hcount
  omega

/-- The verified escrow holds 0.1 USDC; a second proof is observed while its state cannot be read, which
    puts one micro-USDC in its place, and that is what the secret is spent on. -/
theorem later_escrow_is_withdrawn :
    let tr := Sample.initiatorTrace Sample.flakyChain
      (Sample.usdcRun ++ Sample.packet .fundingProof Sample.usdcProof 0)
    tr.head? = some (.builtClaim Sample.swapId .initiator Sample.usdcContext Sample.secret 0
      (some (Sample.secret.1 ++ Sample.cheapWithdraw.raw, Sample.cheapWithdraw.txId))) ∧
    .observed Sample.swapId Sample.usdcExpectation (.found 100000 5900 101) ∈ tr ∧
    .observed Sample.swapId Sample.usdcExpectation (.found 1 5900 100) ∈ tr ∧
    requireFunded (.found 100000 5900 101) Sample.usdcExpectation (Sample.alice.requiredDepth .counterparty) =
      .ok 101 ∧
    requireFunded (.found 1 5900 100) Sample.usdcExpectation (Sample.alice.requiredDepth .counterparty) =
      .error (.underfunded 1 100000) ∧
    Sample.initiatorNode.recorded Sample.flakyChain tr.tail Sample.hashlock = some Sample.cheapSlot ∧
    Sample.initiatorNode.handed Sample.flakyChain tr.tail Sample.usdcContext Sample.secret =
      some Sample.cheapWithdraw.raw := by
  decide +kernel

end Nimmesh
