import Nimmesh.Swap.Session

/-! @src swap_node.rs swap_claim.rs swap_fast_tick.rs swap_head_gate.rs | name:Swap node driver |
    layer:model

    The worker's swap handlers: a packet is routed to the session, then the driver takes the next
    phase-driven chain action through the signer; the maintenance ticks re-verify, refund, reap,
    confirm claims and close the match window. The radio (dedup, relay, flooding) is left out: a
    handler returns the envelopes it would flood, and any packet may reach it any number of times. -/

namespace Nimmesh
open Word

namespace Session

/-- Encode a driven envelope and tag it with its flood type. -/
def pushEnv (mt : MessageType) (e : SwapEnvelope) : List (MessageType × Bytes) :=
  match encodeSwap e with
  | .ok bytes => [(mt, bytes)]
  | .error _ => []

/-! ### The phase-driven chain actions -/

/-- Fund this node's leg: the signer builds and broadcasts first, then the coordinator funds. -/
def driveFund (env : Env) (s : Session) (swapId : SwapId) (c : SwapCoordinator) (head : UInt64)
    (leg : SwapLegId) : List (MessageType × Bytes) × Session :=
  let answer := env.buildFunding s.trace c.ctx leg
  let s := s.log (.builtFunding swapId c.role c.ctx head answer)
  match answer with
  | none => ([], s)
  | some (wire, txId) =>
    match c.fund head wire txId with
    | (.ok fp, c') => (pushEnv .swapFundingProof fp, s.setCoord swapId c')
    | (.error _, c') => ([], s.setCoord swapId c')

/-- Claim the counterparty leg: the reveal deadline is checked before the signer sees the secret. -/
def driveReveal (env : Env) (s : Session) (swapId : SwapId) (c : SwapCoordinator) (head : UInt64) :
    List (MessageType × Bytes) × Session :=
  if !c.revealDeadlineOk head then ([], s)
  else match c.secret with
    | none => ([], s)
    | some secret =>
      let answer := env.buildClaim s.trace c.ctx secret
      let s := s.log (.builtClaim swapId c.role c.ctx secret head answer)
      match answer with
      | none => ([], s)
      | some (wire, txId) =>
        match c.claimAndReveal head wire txId with
        | (.ok rev, c') => (pushEnv .swapPreimageReveal rev, s.setCoord swapId c'.settle.2)
        | (.error _, c') => ([], s.setCoord swapId c')

/-- Broadcast the responder's claim unless one is recorded (the head is for the trace only). -/
def broadcastClaim (env : Env) (s : Session) (swapId : SwapId) (c : SwapCoordinator) (head : UInt64) :
    Session :=
  match c.claimBroadcast, c.secret with
  | none, some secret =>
    let answer := env.buildClaim s.trace c.ctx secret
    let s := s.log (.builtClaim swapId c.role c.ctx secret head answer)
    match answer with
    | none => s
    | some (_, txId) => s.setCoord swapId (c.noteClaimBroadcast txId)
  | _, _ => s

/-- The `(Responder, Revealed)` arm: broadcast if needed, then one confirmation consult. -/
def attemptResponderClaim (env : Env) (s : Session) (swapId : SwapId) (c : SwapCoordinator)
    (head : UInt64) : Session :=
  ((s.broadcastClaim env swapId c head).confirmClaim env swapId).2

/-- The next phase-driven chain action of a swap. -/
def drivePhaseAction (env : Env) (s : Session) (swapId : SwapId) (head : UInt64) :
    List (MessageType × Bytes) × Session :=
  match s.coordinators.lookup swapId with
  | none => ([], s)
  | some c =>
    match c.role, c.phase with
    | .initiator, .accepted => s.driveFund env swapId c head .nim
    | .responder, .initiatorFunded => s.driveFund env swapId c head .counterparty
    | .initiator, .bothFunded => s.driveReveal env swapId c head
    | .responder, .revealed => ([], s.attemptResponderClaim env swapId c head)
    | _, _ => ([], s)

/-! ### The driver -/

/-- Surface the peer's addressing to the signer, for a swap this node holds a coordinator for. -/
def notePeer (s : Session) (kind : SwapKind) (e : SwapEnvelope) : Session :=
  if e.swapId ∈ s.coordinators then
    match kind with
    | .propose =>
      match SwapProposal.fromEnvelope e with
      | some p => s.log (.notedPeer e.swapId (p.nimAddress, p.btcAddress))
      | none => s
    | .accept =>
      match SwapAcceptance.fromEnvelope e with
      | some a => s.log (.notedPeer e.swapId (a.nimAddress, a.btcAddress))
      | none => s
    | _ => s
  else s

/-- The secret a `PreimageReveal` carries: the first 32 bytes of its wire. -/
def revealedSecret (e : SwapEnvelope) : Option Hash :=
  e.txWire.bind fun w => ByteArr.ofBytes? hashLen (w.take hashLen)

/-- A responder learns the secret off an incoming reveal. -/
def learnSecret (env : Env) (s : Session) (kind : SwapKind) (e : SwapEnvelope) : Session :=
  match kind with
  | .preimageReveal =>
    match revealedSecret e, s.coordinators.lookup e.swapId with
    | some secret, some c => s.setCoord e.swapId (c.recvReveal env.toCrypto secret).2
    | _, _ => s
  | _ => s

/-- After a message: note the peer, learn the secret, take the next chain action. -/
def driveSwap (env : Env) (s : Session) (kind : SwapKind) (payload : Bytes) (head : UInt64) :
    List (MessageType × Bytes) × Session :=
  match decodeSwap kind payload with
  | .error _ => ([], s)
  | .ok e => ((s.notePeer kind e).learnSecret env kind e).drivePhaseAction env e.swapId head

/-- The timelocks of an intent-initiated swap, anchored to the head. -/
def intentTerms (head : UInt64) : SwapTerms := ⟨head + 10000, head + 5000⟩

/-- The initiator context of an intent-initiated swap. -/
def initiatorContext (standing : SwapIntent) (swapId : SwapId) (hashlock : Hash) (head : UInt64) :
    SwapContext :=
  { swapId, terms := intentTerms head, hashlock,
    nimAddress := standing.nimAddress, btcAddress := standing.btcAddress,
    btcPubkey := standing.btcPubkey, giveAmount := standing.nimAmount,
    takeAmount := standing.btcAmount, networkId := standing.networkId, termAnchor := head }

/-- Whether an intent-initiated swap may start now. -/
def mayInitiate (s : Session) (standing : SwapIntent) (swapId : SwapId) : Bool :=
  !decide (swapId ∈ s.coordinators) && !s.hasInitiated swapId &&
  s.coordinators.len < s.identity.maxConcurrentSwaps &&
  s.withinCaps standing.nimAmount standing.btcAmount

/-- Build the initiator coordinator for the swap chosen out of the match window; the `Propose`. -/
def initiateFromIntent (env : Env) (s : Session) (swapId : SwapId) (head : UInt64) :
    List (MessageType × Bytes) × Session :=
  match s.identity.standingIntent with
  | none => ([], s)
  | some standing =>
    if s.mayInitiate standing swapId then
      let secret := env.secretSource s.trace swapId
      let (coord, propose) := SwapCoordinator.newInitiator
        (initiatorContext standing swapId (env.sha256 secret.1) head) secret s.ladder
      (pushEnv .swapPropose (signPropose env propose), s.addInitiator swapId coord)
    else ([], s)

/-- Re-attempt the claim broadcast of every revealed responder that lacks one. -/
def retryClaims (env : Env) (head : UInt64) (acc : List (MessageType × Bytes) × Session)
    (swapId : SwapId) : List (MessageType × Bytes) × Session :=
  let r := acc.2.drivePhaseAction env swapId head
  (acc.1 ++ r.1, r.2)

/-- The responder-claim step of both tick cadences. -/
def driveResponderClaims (env : Env) (s : Session) (head : UInt64) :
    List (MessageType × Bytes) × Session :=
  if !s.hasClaimWork then ([], s)
  else
    let s := s.confirmPendingClaims env
    s.claimsAwaitingBroadcast.foldl (retryClaims env head) ([], s)

/-- Buffer the last of a list of replies for retransmit. -/
def recordLast (s : Session) (swapId : SwapId) (replies : List (MessageType × Bytes)) : Session :=
  match replies.getLast? with
  | some (mt, payload) => s.recordAction swapId mt payload
  | none => s

/-- Drive one swap that a re-verification advanced. -/
def driveAdvanced (env : Env) (head : UInt64) (acc : List (MessageType × Bytes) × Session)
    (swapId : SwapId) : List (MessageType × Bytes) × Session :=
  let r := acc.2.drivePhaseAction env swapId head
  (acc.1 ++ r.1, r.2.recordLast swapId r.1)

end Session

/-! ### The discovery layer -/

def intentMatchCapPerSender : ℕ := 4

def maxTrackedIntentSenders : ℕ := 256

/-- Per-sender cap on match attempts, with oldest-sender eviction. -/
structure IntentThrottle where
  counts : Table PeerId ℕ := ∅
  order : List PeerId := []

def IntentThrottle.admitSender (t : IntentThrottle) (sender : PeerId) : Bool × IntentThrottle :=
  match t.counts.lookup sender with
  | some count =>
    if intentMatchCapPerSender ≤ count then (false, t)
    else (true, { t with counts := t.counts.insert sender (count + 1) })
  | none =>
    let t : IntentThrottle := match t.order with
      | old :: rest =>
        if maxTrackedIntentSenders ≤ t.order.length then ⟨t.counts.erase old, rest⟩ else t
      | [] => t
    (true, ⟨t.counts.insert sender 1, t.order ++ [sender]⟩)

def intentMatchWindowTicks : ℕ := 2

def maxIntentCandidates : ℕ := 64

/-- A short collection window over crossing intents. -/
structure IntentMatcher where
  candidates : List (SwapId × SwapIntent) := []
  window : ℕ := 0

namespace IntentMatcher

def contains (m : IntentMatcher) (swapId : SwapId) : Bool := m.candidates.any fun c => c.1 = swapId

def addCandidate (m : IntentMatcher) (swapId : SwapId) (intent : SwapIntent) : IntentMatcher :=
  if maxIntentCandidates ≤ m.candidates.length then m
  else { candidates := m.candidates ++ [(swapId, intent)],
         window := if m.window = 0 then intentMatchWindowTicks else m.window }

/-- Byte-wise order of swap ids. -/
def idLt (a b : SwapId) : Bool := (a.1.map UInt8.toNat) < (b.1.map UInt8.toNat)

/-- The better of two candidates: the higher BTC-per-NIM rate, then the smaller id. -/
def better (best c : SwapId × SwapIntent) : SwapId × SwapIntent :=
  let lhs := c.2.btcAmount.toNat * best.2.nimAmount.toNat
  let rhs := best.2.btcAmount.toNat * c.2.nimAmount.toNat
  if rhs < lhs || (lhs = rhs && idLt c.1 best.1) then c else best

def best (m : IntentMatcher) : Option (SwapId × SwapIntent) :=
  match m.candidates with
  | [] => none
  | c :: cs => some (cs.foldl better c)

/-- Advance one tick; when the window closes, the best candidate's id. -/
def tick (m : IntentMatcher) : Option SwapId × IntentMatcher :=
  if m.window = 0 then (none, m)
  else if m.window = 1 then (m.best.map (·.1), {})
  else (none, { m with window := m.window - 1 })

end IntentMatcher

/-- A participant's worker state: its session, the discovery layer, whether its signer moves real
    funds, and the chain head it last heard. -/
structure Worker where
  session : Session
  throttle : IntentThrottle := {}
  matcher : IntentMatcher := {}
  live : Bool := false
  cachedHead : Option UInt32 := none

/-- `derive_swap_id`: one id per advertiser and counterparty. -/
def deriveSwapId (cr : Crypto) (standing incoming : SwapIntent) : SwapId :=
  (cr.sha256 (standing.nimAddress.1 ++ standing.btcPubkey.1 ++ incoming.btcPubkey.1)).take swapIdLen

namespace Worker

/-- The head the swap code works with: 0 before any beacon. -/
def head (w : Worker) : UInt64 := (w.cachedHead.map UInt32.toUInt64).getD 0

/-- `HeadCache::accept`: only a newer height moves the cached head. -/
def hearBeacon (w : Worker) (height : UInt32) : Worker :=
  match w.cachedHead with
  | some h => if height ≤ h then w else { w with cachedHead := some height }
  | none => { w with cachedHead := some height }

/-- A live signer with no heard head: neither initiate nor accept. -/
def liveHeadless (w : Worker) : Bool := w.cachedHead.isNone && w.live

/-- A received intent: buffer it as a match-window candidate if it crosses our standing one. -/
def handleIntent (env : Env) (w : Worker) (sender : PeerId) (payload : Bytes) : Worker :=
  match decodeIntent payload, w.session.identity.standingIntent with
  | .ok incoming, some standing =>
    if !incoming.verifyAuthentic env.toCrypto then w
    else if !standing.wouldInitiateAgainst incoming || !standing.amountCompatible incoming then w
    else if w.session.identity.maxConcurrentSwaps ≤ w.session.coordinators.len then w
    else
      let swapId := deriveSwapId env.toCrypto standing incoming
      if swapId ∈ w.session.coordinators || w.session.hasInitiated swapId ||
          w.matcher.contains swapId then w
      else
        let (admitted, throttle) := w.throttle.admitSender sender
        if !admitted then { w with throttle }
        else { w with throttle, matcher := w.matcher.addCandidate swapId incoming }
  | _, _ => w

/-- A swap packet past the first-seen gate; the envelopes to flood. -/
def handleSwapPacket (env : Env) (w : Worker) (mt : MessageType) (sender : PeerId) (payload : Bytes) :
    List (MessageType × Bytes) × Worker :=
  if mt = .swapIntent then
    match decodeIntent payload with
    | .ok intent =>
      if intent.isFresh w.head then ([], w.handleIntent env sender payload) else ([], w)
    | .error _ => ([], w.handleIntent env sender payload)
  else match SwapKind.fromMessageType mt with
    | none => ([], w)
    | some kind =>
      if kind = .propose && w.liveHeadless then ([], w)
      else
        let r := w.session.onMessage env kind payload w.head
        let d := r.2.driveSwap env kind payload w.head
        let replies := (match r.1 with | .ok out => out | .error _ => []) ++ d.1
        let s := match decodeSwap kind payload with
          | .ok e => d.2.recordLast e.swapId replies
          | .error _ => d.2
        (replies, { w with session := s })

/-- Close the match window, unless a live node has heard no head, and initiate the best candidate. -/
def closeMatchWindow (env : Env) (w : Worker) : List (MessageType × Bytes) × Worker :=
  if w.liveHeadless then ([], w)
  else
    let (chosen, matcher) := w.matcher.tick
    match chosen with
    | none => ([], { w with matcher })
    | some swapId =>
      let r := w.session.initiateFromIntent env swapId w.head
      (r.1, { w with matcher, session := r.2.recordLast swapId r.1 })

/-- The abort envelopes for the stale swaps a tick dropped. -/
def abortReplies (ids : List SwapId) : List (MessageType × Bytes) :=
  ids.flatMap fun id => Session.pushEnv .swapAbort (abortEnvelope id 0)

/-- The maintenance tick of a participant. -/
def gcTick (env : Env) (w : Worker) : List (MessageType × Bytes) × Worker :=
  let head := w.head
  let (resent, s) := w.session.pendingRetransmits
  let (advanced, s) := s.reverifyAwaitedFunding env
  let (driven, s) := advanced.foldl (Session.driveAdvanced env head) ([], s)
  let (stale, s) := s.tick env head
  let (claimed, s) := s.driveResponderClaims env head
  let (proposed, w) := { w with session := s }.closeMatchWindow env
  (resent ++ driven ++ abortReplies stale ++ claimed ++ proposed, w)

/-- The fast in-flight tick: re-verification and the claim ladder only. -/
def fastTick (env : Env) (w : Worker) (nowMs : UInt64) : List (MessageType × Bytes) × Worker :=
  let (due, s) := w.session.fastDue nowMs
  if !due then ([], { w with session := s })
  else
    let (advanced, s) := s.reverifyAwaitedFunding env
    let (driven, s) := advanced.foldl (Session.driveAdvanced env w.head) ([], s)
    let (claimed, s) := s.driveResponderClaims env w.head
    (driven ++ claimed, { w with session := s })

end Worker

end Nimmesh
