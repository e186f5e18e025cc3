import Nimmesh.Lib.Table
import Nimmesh.Swap.Coordinator

/-! @src swap_session.rs swap_claim.rs swap_mirror.rs swap_fast_tick.rs | name:Swap session |
    layer:model

    One node's in-flight swaps, keyed by swap id, and the routing of swap packets to them. The chain,
    the signer, the clock and the secret source are an `Env` of functions that may answer differently
    on every call: each gets the trace of everything that happened at the node's boundary before, and
    every call extends that trace. The trace is ghost state (`Session.trace`): no modelled function
    reads it except to ask the environment. -/

namespace Nimmesh
open Word

/-- What happened at the boundary of a session, per swap: which coordinators were created and
    accepted and with which peer addressing, what the chain answered, what the signer was asked. -/
inductive Event where
  | created (id : SwapId) (role : SwapRole) (peer : Option (NimAddress × Bytes))
  | accepted (id : SwapId) (peer : NimAddress × Bytes)
  | observed (id : SwapId) (expect : HtlcExpectation) (obs : FundingObservation)
  | observedClaim (id : SwapId) (txId : Hash) (obs : ClaimObservation)
  | builtFunding (id : SwapId) (role : SwapRole) (ctx : SwapContext) (head : UInt64)
      (answer : Option (Bytes × Hash))
  | builtClaim (id : SwapId) (role : SwapRole) (ctx : SwapContext) (secret : Hash) (head : UInt64)
      (answer : Option (Bytes × Hash))
  | notedPeer (id : SwapId) (peer : NimAddress × Bytes)
  | notedWire (id : SwapId) (leg : SwapLegId) (wire : Bytes)
  deriving DecidableEq

def Event.swapId : Event → SwapId
  | created id .. | accepted id .. | observed id .. | observedClaim id .. | builtFunding id ..
  | builtClaim id .. | notedPeer id .. | notedWire id .. => id

/-- The NIM identity key behind its enclave: bytes out, nothing else. -/
structure EnclaveKey where
  publicKey : Bytes
  signContent : Bytes → Bytes

/-- Everything outside the session: the verifier (`observe`, `observeClaim`), the signer
    (`buildFunding`, `buildClaim`), the secret source, the propose key and the telemetry clock. -/
structure Env extends Crypto where
  observe : List Event → HtlcExpectation → FundingObservation
  observeClaim : List Event → SwapLegId → Hash → ClaimObservation
  buildFunding : List Event → SwapContext → SwapLegId → Option (Bytes × Hash)
  buildClaim : List Event → SwapContext → Hash → Option (Bytes × Hash)
  secretSource : List Event → SwapId → Hash
  proposeSigner : Option EnclaveKey
  telemetryNowMs : List Event → UInt64

def defaultMaxConcurrentSwaps : ℕ := 16

/-- This node's fixed identity and its responder policies. -/
structure NodeIdentity where
  nimAddress : NimAddress
  btcAddress : Bytes
  btcPubkey : BtcPubkey
  ratePolicy : RatePolicy := RatePolicy.acceptAll
  maxConcurrentSwaps : ℕ := defaultMaxConcurrentSwaps
  standingIntent : Option SwapIntent := none

inductive SessionError where
  | wire (e : SwapWireError)
  | coord (e : CoordError)
  | unknownSwap
  | badPropose
  deriving DecidableEq, Repr

def retransmitTtl : UInt8 := 32

/-- The last action a node emitted for a swap, buffered for retransmit. -/
structure PendingAction where
  msgType : MessageType
  payload : Bytes
  ttl : UInt8
  deriving DecidableEq

/-- The last verification outcome of a swap, kept for display only. -/
structure SwapVerifyNote where
  text : String
  attempts : UInt32
  atMs : UInt64
  deriving DecidableEq

def fastVerifyTickMs : UInt64 := 3000

/-- Rate limiter of the fast poll. -/
structure FastTickScheduler where
  lastMs : Option UInt64 := none

/-- Whether a fast poll is due; a firing one records its time. -/
def FastTickScheduler.due (f : FastTickScheduler) (nowMs : UInt64) : Bool × FastTickScheduler :=
  match f.lastMs with
  | some t => if satSub nowMs t < fastVerifyTickMs then (false, f) else (true, ⟨some nowMs⟩)
  | none => (true, ⟨some nowMs⟩)

/-- A set of swap ids: a table with no values. -/
abbrev IdSet := Table SwapId Unit

structure Session where
  identity : NodeIdentity
  ladder : LadderParams
  coordinators : Table SwapId SwapCoordinator := ∅
  initiatedEver : IdSet := ∅
  pending : Table SwapId PendingAction := ∅
  confirmPolicy : ConfirmationPolicy := ConfirmationPolicy.testnetDefaults
  counterpartyChain : Asset := .btc
  caps : Option SwapCaps := none
  fundingProofSeen : IdSet := ∅
  verifyNotes : Table SwapId SwapVerifyNote := ∅
  fastVerify : FastTickScheduler := {}
  trace : List Event := []

/-! ### The diagnostics texts (`swap_mirror.rs`) -/

def legWord (leg : SwapLegId) (counter : Asset) : String :=
  match leg, counter with
  | .nim, _ => "NIM"
  | .counterparty, .usdc => "USDC"
  | .counterparty, .btc => "BTC"
  | .counterparty, .nim => "NIM"

def describeVerify (role : SwapRole) (leg : SwapLegId) (counter : Asset)
    (result : Except CoordError Unit) : String :=
  let cp := legWord leg counter
  match result with
  | .ok _ =>
    match role with
    | .responder => "verified — funding " ++ legWord .counterparty counter
    | .initiator => "verified — revealing S"
  | .error (.fundingUnverified r) =>
    match r with
    | .notFundedYet => cp ++ " not funded yet"
    | .tooShallow got need => cp ++ " too shallow " ++ toString got ++ "/" ++ toString need
    | .underfunded got need => cp ++ " underfunded " ++ toString got ++ "/" ++ toString need
    | .timeoutTooShort .. => cp ++ " timeout too short"
    | .mismatch .hashlock => cp ++ " hashlock mismatch"
    | .mismatch .recipient => cp ++ " recipient mismatch"
  | .error _ => cp ++ " not ready"

namespace Session

def new (identity : NodeIdentity) (ladder : LadderParams) : Session := { identity, ladder }

/-- Record a boundary event. -/
def log (s : Session) (e : Event) : Session := { s with trace := e :: s.trace }

/-- Write back the coordinator of a swap. -/
def setCoord (s : Session) (id : SwapId) (c : SwapCoordinator) : Session :=
  { s with coordinators := s.coordinators.insert id c }

def len (s : Session) : ℕ := s.coordinators.len

/-- Within the hard per-swap cap, if there is one. -/
def withinCaps (s : Session) (nimLuna counterAmount : UInt64) : Bool :=
  match s.caps with
  | none => true
  | some caps => caps.admits nimLuna counterAmount s.counterpartyChain

/-- Sign an outgoing `Propose`; without usable key material it goes out unsigned. -/
def signPropose (env : Env) (propose : SwapEnvelope) : SwapEnvelope :=
  match env.proposeSigner, SwapProposal.fromEnvelope propose with
  | some key, some proposal =>
    match ByteArr.ofBytes? proposePubkeyLen key.publicKey,
        ByteArr.ofBytes? proposeSigLen (key.signContent proposal.signingBytes) with
    | some pubkey, some signature => proposal.toSignedEnvelope pubkey signature
    | _, _ => propose
  | _, _ => propose

/-- Register an initiator coordinator; its id is tombstoned for good. -/
def addInitiator (s : Session) (swapId : SwapId) (coordinator : SwapCoordinator) : Session :=
  ({ s with initiatedEver := s.initiatedEver.insert swapId () }.setCoord swapId coordinator).log
    (.created swapId .initiator none)

def hasInitiated (s : Session) (swapId : SwapId) : Bool := (s.initiatedEver.lookup swapId).isSome

/-- The depth the policy asks of a leg. -/
def requiredDepth (s : Session) (leg : SwapLegId) : UInt32 :=
  s.confirmPolicy.requiredForLeg leg s.counterpartyChain

/-- Replace the verify note of a swap, counting the attempt. -/
def noteVerify (env : Env) (s : Session) (swapId : SwapId) (text : String) : Session :=
  let attempts := match s.verifyNotes.lookup swapId with
    | some n => if n.attempts = 4294967295 then n.attempts else n.attempts + 1
    | none => 1
  { s with verifyNotes :=
      s.verifyNotes.insert swapId { text, attempts, atMs := env.telemetryNowMs s.trace } }

/-- Run the counterparty-funding gate for a coordinator that exists and record the verdict. -/
def verifyCounterpartyFunding (env : Env) (s : Session) (swapId : SwapId) (c : SwapCoordinator) :
    Except CoordError Unit × Session :=
  let expect := c.counterpartyExpectation
  let minConfirmations := s.requiredDepth expect.leg
  let obs := env.observe s.trace expect
  let r := c.verifyAndObserveFunding (env.observe s.trace) minConfirmations
  let s := (s.setCoord swapId r.2).log (.observed swapId expect obs)
  (r.1, s.noteVerify env swapId (describeVerify c.role expect.leg s.counterpartyChain r.1))

/-! ### Routing -/

/-- The responder context of an incoming proposal. -/
def responderContext (s : Session) (p : SwapProposal) (head : UInt64) : SwapContext :=
  { swapId := p.swapId, terms := p.terms, hashlock := p.hashlock, nimAddress := s.identity.nimAddress,
    btcAddress := s.identity.btcAddress, btcPubkey := s.identity.btcPubkey, giveAmount := p.giveAmount,
    takeAmount := p.takeAmount, networkId := p.networkId, termAnchor := head }

/-- A `Propose`: dropped for a known id, past the concurrency cap, below the rate floor or above the
    hard cap; otherwise a responder coordinator is built, and kept only if it accepts. -/
def onPropose (env : Env) (s : Session) (e : SwapEnvelope) (head : UInt64) :
    Except SessionError (List (MessageType × Bytes)) × Session :=
  if e.swapId ∈ s.coordinators then (.ok [], s)
  else if s.identity.maxConcurrentSwaps ≤ s.coordinators.len then (.ok [], s)
  else match SwapProposal.fromEnvelope e with
    | none => (.error .badPropose, s)
    | some p =>
      if !s.identity.ratePolicy.accepts p.giveAmount p.takeAmount then (.ok [], s)
      else if !s.withinCaps p.giveAmount p.takeAmount then (.ok [], s)
      else
        let coord := SwapCoordinator.newResponder (s.responderContext p head) s.ladder
        match coord.recvPropose env.toCrypto e head with
        | (.error err, _) => (.error (.coord err), s)
        | (.ok accept, coord') =>
          let s' := (s.setCoord e.swapId coord').log
            (.created e.swapId .responder (some (p.nimAddress, p.btcAddress)))
          match encodeSwap accept with
          | .ok bytes => (.ok [(.swapAccept, bytes)], s')
          | .error err => (.error (.wire err), s')

def onAccept (s : Session) (e : SwapEnvelope) (head : UInt64) :
    Except SessionError (List (MessageType × Bytes)) × Session :=
  match s.coordinators.lookup e.swapId with
  | none => (.error .unknownSwap, s)
  | some c =>
    match c.recvAccept e head with
    | (.error err, c') => (.error (.coord err), s.setCoord e.swapId c')
    | (.ok _, c') =>
      let s' := s.setCoord e.swapId c'
      match SwapAcceptance.fromEnvelope e with
      | some a => (.ok [], s'.log (.accepted e.swapId (a.nimAddress, a.btcAddress)))
      | none => (.ok [], s')

/-- Hand the proof's claimed funding wire to the verifier as an untrusted hint. -/
def noteFundingWire (s : Session) (e : SwapEnvelope) : Session :=
  match e.leg, e.txWire with
  | some leg, some wire => s.log (.notedWire e.swapId leg wire)
  | _, _ => s

/-- The swap is now eligible for re-verification on the clock. -/
def markProofSeen (s : Session) (swapId : SwapId) : Session :=
  { s with fundingProofSeen := s.fundingProofSeen.insert swapId () }

/-- A `FundingProof` never advances a swap by itself: its wire is a hint for the verifier, the swap
    becomes eligible for re-verification, and the gate runs. -/
def onFundingProof (env : Env) (s : Session) (e : SwapEnvelope) :
    Except SessionError (List (MessageType × Bytes)) × Session :=
  match s.coordinators.lookup e.swapId with
  | none => (.error .unknownSwap, s)
  | some c =>
    let r := ((s.noteFundingWire e).markProofSeen e.swapId).verifyCounterpartyFunding env e.swapId c
    match r.1 with
    | .error err => (.error (.coord err), r.2)
    | .ok _ => (.ok [], r.2)

/-- Forget a swap and everything buffered for it. -/
def tearDown (s : Session) (swapId : SwapId) : Session :=
  { s with coordinators := s.coordinators.erase swapId, pending := s.pending.erase swapId,
           fundingProofSeen := s.fundingProofSeen.erase swapId,
           verifyNotes := s.verifyNotes.erase swapId }

/-- The counterparty bailed: free the slot, but never one with our funds locked. -/
def onAbort (s : Session) (e : SwapEnvelope) : Session :=
  match s.coordinators.lookup e.swapId with
  | some c => if c.phase.hasFundsLocked then s else s.tearDown e.swapId
  | none => s

/-- Route an incoming swap packet to the right coordinator. -/
def onMessage (env : Env) (s : Session) (kind : SwapKind) (payload : Bytes) (head : UInt64) :
    Except SessionError (List (MessageType × Bytes)) × Session :=
  match decodeSwap kind payload with
  | .error err => (.error (.wire err), s)
  | .ok e =>
    match kind with
    | .propose => s.onPropose env e head
    | .accept => s.onAccept e head
    | .fundingProof => s.onFundingProof env e
    | .preimageReveal =>
      match s.coordinators.lookup e.swapId with
      | none => (.error .unknownSwap, s)
      | some _ => (.ok [], s)
    | .abort => (.ok [], s.onAbort e)

/-! ### Re-verification on the clock -/

/-- Re-run the gate for one swap; the id is returned if it advanced. -/
def reverifyOne (env : Env) (acc : List SwapId × Session) (swapId : SwapId) : List SwapId × Session :=
  match acc.2.coordinators.lookup swapId with
  | none => acc
  | some c =>
    match acc.2.verifyCounterpartyFunding env swapId c with
    | (.ok _, s) => (acc.1 ++ [swapId], s)
    | (.error _, s) => (acc.1, s)

/-- The swaps that await a counterparty funding for which a proof has been seen. -/
def awaitingIds (s : Session) : List SwapId :=
  s.coordinators.keysWhere fun id c => decide (id ∈ s.fundingProofSeen) && c.awaitsCounterpartyFunding

/-- Re-run the gate for every awaiting swap; the ids that advanced. -/
def reverifyAwaitedFunding (env : Env) (s : Session) : List SwapId × Session :=
  let r := s.awaitingIds.foldl (reverifyOne env) ([], s)
  let s := r.2
  (r.1, { s with fundingProofSeen := s.fundingProofSeen.retain fun id _ =>
    match s.coordinators.lookup id with
    | some c => c.awaitsCounterpartyFunding
    | none => false })

/-! ### The responder claim ladder (`swap_claim.rs`) -/

/-- A responder at `Revealed` holds claim work. -/
def hasClaim (c : SwapCoordinator) : Bool := c.role = .responder && c.phase = .revealed

def hasClaimWork (s : Session) : Bool := !(s.coordinators.keysWhere fun _ c => hasClaim c).isEmpty

def claimsAwaitingBroadcast (s : Session) : List SwapId :=
  s.coordinators.keysWhere fun _ c => hasClaim c && c.claimBroadcast.isNone

/-- What an observation of our claim does to the coordinator. -/
def applyClaimObservation (c : SwapCoordinator) (need : UInt32) : ClaimObservation → SwapCoordinator
  | .included confirmations => if need ≤ confirmations then c.settle.2 else c
  | .notFound => c.clearClaimBroadcast
  | .unavailable => c

def describeClaim (need : UInt32) : ClaimObservation → Bool × String
  | .included confirmations =>
    if need ≤ confirmations then (true, "claim confirmed — settled")
    else (false, "claim too shallow " ++ toString confirmations ++ "/" ++ toString need)
  | .notFound => (false, "claim not on-chain — re-claiming")
  | .unavailable => (false, "claim status unavailable")

/-- One confirmation consult for our own claim: settle only on inclusion at the NIM leg's depth. -/
def confirmClaim (env : Env) (s : Session) (swapId : SwapId) : Bool × Session :=
  match s.coordinators.lookup swapId with
  | none => (false, s)
  | some c =>
    if !hasClaim c then (false, s)
    else match c.claimBroadcast with
      | none => (false, s)
      | some txId =>
        let need := s.requiredDepth .nim
        let obs := env.observeClaim s.trace .nim txId
        let (settled, text) := describeClaim need obs
        let s := (s.setCoord swapId (applyClaimObservation c need obs)).log
          (.observedClaim swapId txId obs)
        (settled, s.noteVerify env swapId text)

/-- Consult the chain for every broadcast claim. -/
def confirmPendingClaims (env : Env) (s : Session) : Session :=
  (s.coordinators.keysWhere fun _ c => hasClaim c && c.claimBroadcast.isSome).foldl
    (fun s id => (s.confirmClaim env id).2) s

/-- The gate of the fast heartbeat: work first, then the rate limiter. -/
def fastDue (s : Session) (nowMs : UInt64) : Bool × Session :=
  if !s.awaitingIds.isEmpty || s.hasClaimWork then
    let r := s.fastVerify.due nowMs
    (r.1, { s with fastVerify := r.2 })
  else (false, s)

/-! ### Removal -/

/-- Drop the side tables of coordinators that are gone. -/
def pruneDroppedSwapState (s : Session) : Session :=
  { s with fundingProofSeen := s.fundingProofSeen.retain fun id _ => decide (id ∈ s.coordinators),
           verifyNotes := s.verifyNotes.retain fun id _ => decide (id ∈ s.coordinators) }

/-- Drop every terminal coordinator. -/
def reapTerminal (s : Session) : Session :=
  { s with coordinators := s.coordinators.retain fun _ c => !c.phase.isTerminal }.pruneDroppedSwapState

/-- Forget a swap unconditionally. -/
def remove (s : Session) (swapId : SwapId) : Session :=
  { s with coordinators := s.coordinators.erase swapId,
           fundingProofSeen := s.fundingProofSeen.erase swapId,
           verifyNotes := s.verifyNotes.erase swapId }

/-- Cancel an un-funded swap, with the `Abort` to flood; a funded or unknown one is left alone. -/
def cancel (s : Session) (swapId : SwapId) : Option SwapEnvelope × Session :=
  match s.coordinators.lookup swapId with
  | none => (none, s)
  | some c =>
    if c.phase.hasFundsLocked then (none, s)
    else (some (abortEnvelope swapId 0), s.tearDown swapId)

def recordAction (s : Session) (swapId : SwapId) (msgType : MessageType) (payload : Bytes) : Session :=
  { s with pending := s.pending.insert swapId { msgType, payload, ttl := retransmitTtl } }

/-- The buffered actions to re-flood, each one's budget decremented. -/
def pendingRetransmits (s : Session) : List (MessageType × Bytes) × Session :=
  (s.pending.entries.map fun e => (e.2.msgType, e.2.payload),
   { s with pending :=
      (s.pending.mapVals fun _ a => { a with ttl := a.ttl - 1 }).retain fun _ a => 0 < a.ttl })

/-- Past `T_A`: one last consult, then the honest loss. -/
def foreclose (env : Env) (head : UInt64) (s : Session) (swapId : SwapId) : Session :=
  match s.confirmClaim env swapId with
  | (true, s) => s
  | (false, s) =>
    match s.coordinators.lookup swapId with
    | some c => s.setCoord swapId (c.forfeitExpiredClaim head).2
    | none => s

/-- The swaps a maintenance tick keeps. -/
def tickKeeps (head : UInt64) (c : SwapCoordinator) : Bool :=
  !c.phase.isTerminal && !c.isStale head

/-- The first half of a tick: refund what is due, then drop what is terminal or stale. -/
def sweep (s : Session) (head : UInt64) : List SwapId × Session :=
  let refunded := s.coordinators.mapVals fun _ c => (c.refundAfterTimeout head).2
  let stale := refunded.keysWhere fun _ c => c.isStale head
  let prune := refunded.keysWhere fun _ c =>
    (c.phase.isTerminal && c.phase ≠ .settled) || c.isStale head
  (stale, { s with coordinators := refunded.retain fun _ c => tickKeeps head c,
                   pending := prune.foldl (fun t id => t.erase id) s.pending }.pruneDroppedSwapState)

/-- The responders whose claim window has closed. -/
def expiredIds (s : Session) (head : UInt64) : List SwapId :=
  s.coordinators.keysWhere fun _ c =>
    c.role = .responder && c.phase = .revealed && decide (c.ctx.terms.nimTimeout < head)

/-- GC and safety-exit tick; the ids dropped as stale. -/
def tick (env : Env) (s : Session) (head : UInt64) : List SwapId × Session :=
  let (stale, s) := s.sweep head
  (stale, (s.expiredIds head).foldl (foreclose env head) s)

end Session

end Nimmesh
