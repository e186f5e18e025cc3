import Nimmesh.Mesh.Node
import Nimmesh.Live.NimHtlc

/-! @src engine.rs beacon.rs balance.rs tx_history.rs chat.rs fragment.rs swap_node.rs
    swap_fast_tick.rs pending_retry.rs node.rs nimiq/tx.rs | name:What a mesh node does | layer:model

    The handlers of a node, the dispatch of packets to them, and the jobs of the worker. A handler of a
    packet starts with the first-seen gate and ends with the relay; what stands between is its own. A
    reassembled message is dispatched in its turn, after the fragment that completed it. -/

namespace Nimmesh
open Word

/-! ### The signature filter -/

def basicWireLen : ℕ := 139

/-- The signing payload of a basic transfer. -/
def transferContent (sender recipient : NimAddress) (value fee : UInt64) (validityStartHeight : UInt32)
    (networkId : UInt8) : Bytes :=
  [0, 0] ++ sender.1 ++ [accountTypeBasic] ++ recipient.1 ++ [accountTypeBasic] ++ beBytes value ++
    beBytes fee ++ beBytes32 validityStartHeight ++ [networkId] ++ [flagNone] ++ [0]

/-- A well-formed, correctly signed transfer, whatever it pays. -/
def verifyBasicWire (cr : Crypto) (wire : Bytes) : Bool :=
  if wire.length ≠ basicWireLen ∨ byteAt wire 0 ≠ 0 ∨ byteAt wire 1 ≠ 0 then false
  else
    let publicKey := sliceArr 32 wire 2
    let content := transferContent (cr.addressOf publicKey) (sliceArr nimAddressLen wire 34)
      (u64OfBe (slice wire 54 8)) (u64OfBe (slice wire 62 8)) (u32OfBe (slice wire 70 4)) (byteAt wire 74)
    cr.verifyStrict publicKey content (sliceArr 64 wire 75)

namespace MeshNode

/-! ### Payments -/

/-- The gateway's part: hand a payment over once, and flood the receipt that comes back. -/
def submit (env : NodeEnv) (gw : MeshGateway) (e : NimiqEnvelope) (txId : TxId) (n : MeshNode) : MeshNode :=
  let r := n.gatewaySeen.insert txId
  let n := { n with gatewaySeen := r.2 }
  if !r.1 then n
  else
    let ctx : SubmitContext :=
      { txId, txWire := e.txWire, networkId := e.networkId, validUntil := e.validUntil }
    let answer := gw.submitValidated n.io.asked ctx
    let n := n.ask.log (.handed ctx answer)
    match answer with
    | .error _ => n
    | .ok receipt =>
      let (reply, n) := n.buildPacket .nimiqTxReceipt (encodeReceipt receipt.txId receipt.status)
      (n.markOwn reply).floodPacket env reply

/-- The receipt and dedup key of an envelope: the id it names, or the hash of its wire. -/
def claimedId (e : NimiqEnvelope) : TxId := e.txId.getD (mockTxId e.txWire)

def handleTx (env : NodeEnv) (p : Packet) (src : Option Link) (n : MeshNode) : MeshNode :=
  let (fresh, n) := n.firstSeen p
  if !fresh then n
  else if isExpired n.cachedHead (txValidUntil p) then
    n.count fun c => { c with expiredDropped := c.expiredDropped + 1 }
  else
    let e := (decodeEnvelope p.payload).toOption
    if n.verifyBeforeRelay && !e.any fun e => verifyBasicWire env.toCrypto e.txWire then
      n.count fun c => { c with verifyDropped := c.verifyDropped + 1 }
    else if e.any fun e => n.acked.contains (claimedId e) then
      n.count fun c => { c with stopAfterAck := c.stopAfterAck + 1 }
    else
      let n := n.remember env p
      let n := match env.gateway, e with
        | some gw, some e => n.submit env gw e (claimedId e)
        | _, _ => n
      n.relayOnward env p src

def handleReceipt (env : NodeEnv) (p : Packet) (src : Option Link) (n : MeshNode) : MeshNode :=
  let (fresh, n) := n.firstSeen p
  if !fresh then n
  else
    let n := n.remember env p
    let n := match decodeReceipt p.payload with
      | some (txId, status) =>
        { n with ledger := n.ledger.settle txId status.payment, pending := n.pending.clear txId,
                 acked := (n.acked.insert txId).2 }
      | none => n
    n.relayOnward env p src

/-- The envelope that a node puts around an own transaction. -/
def localEnvelope (n : MeshNode) (wire : Bytes) : NimiqEnvelope :=
  { txWire := wire, networkId := n.network, txId := some (mockTxId wire), wantReceipt := true,
    validUntil := n.cachedHead.map (satAdd32 · validityWindow) }

/-- The entry under which an own transaction is kept for retries. -/
def pendingEntry (env : NodeEnv) (wire bytes : Bytes) (validUntil : Option UInt32) (n : MeshNode) : PendingTx :=
  { txId := mockTxId wire, bytes, validUntil, createdMs := n.now env,
    lastFloodMs := if n.peers.isEmpty then none else some (n.now env) }

/-- Keep an own transaction for retries and flood it. -/
def launch (env : NodeEnv) (wire bytes : Bytes) (validUntil : Option UInt32) (n : MeshNode) : MeshNode :=
  let launched := { n.ask with pending := n.pending.remember (n.pendingEntry env wire bytes validUntil) }
  (if n.peers.isEmpty then launched else launched.log (.offered (mockTxId wire) (n.now env))).flood env bytes

/-- Flood an own transaction; one that does not fit an envelope stays unsent. -/
def floodLocalTx (env : NodeEnv) (wire : Bytes) (n : MeshNode) : MeshNode :=
  match encodeEnvelope (n.localEnvelope wire) with
  | .error _ => n
  | .ok payload =>
    let validUntil := (n.localEnvelope wire).validUntil
    let (p, n) := n.buildPacket .nimiqTx payload
    let n := (n.markOwn p).remember env p
    let n := { n with ledger := n.ledger.record (mockTxId wire) .outgoing }
    match encode p with
    | .error _ => n
    | .ok bytes => n.launch env wire bytes validUntil

/-- The window of this transaction is closed: fail it. -/
def failExpired (l : SettlementLedger) (e : PendingTx) : SettlementLedger := l.settle e.txId .failed

/-- The same bytes again: only a peer that has not seen them carries them. -/
def offerAgain (env : NodeEnv) (nowMs : UInt64) (n : MeshNode) (e : PendingTx) : MeshNode :=
  (n.log (.offered e.txId nowMs)).flood env e.bytes

/-- The retry pass: fail what is dead, offer the rest again while anyone is connected. -/
def retryTick (env : NodeEnv) (n : MeshNode) : MeshNode :=
  let nowMs := n.now env
  let head := n.cachedHead
  let expired := n.pending.entries.filter fun e => e.dead head nowMs
  let n := { n.ask with pending := n.pending.retain fun e => !e.dead head nowMs,
                        ledger := expired.foldl failExpired n.ledger }
  if n.peers.isEmpty then n
  else
    let due := n.pending.entries.filter fun e => e.due nowMs
    due.foldl (offerAgain env nowMs) { n with pending := n.pending.touch nowMs }

/-! ### Catching up -/

/-- Advertise what this node has; the request never leaves the neighbourhood. -/
def emitRequestSync (env : NodeEnv) (n : MeshNode) : MeshNode :=
  let (filter, recent) := n.recent.buildFilter (n.now env)
  let (p, n) := { n.ask with recent }.buildPacket .requestSync filter.toBytes
  n.floodPacket env { p with ttl := 0 }

def maintenanceTick (env : NodeEnv) (n : MeshNode) : MeshNode :=
  let (due, sync) := n.sync.due (n.now env)
  let n := { n.ask with sync }
  (if due then n.emitRequestSync env else n).retryTick env

/-- Send one cached packet back to a peer that lacks it. -/
def sendMissing (peer : Link) (n : MeshNode) (p : Packet) : MeshNode :=
  match encode { p with flags := { p.flags with isRsr := true } } with
  | .ok frame =>
    { n with io := (n.io.send peer frame .reply n.cachedHead).count fun c =>
        { c with rsrSent := c.rsrSent + 1 } }
  | .error _ => n

def handleRequestSync (env : NodeEnv) (p : Packet) (src : Option Link) (n : MeshNode) : MeshNode :=
  match src, GcsFilter.fromBytes p.payload with
  | some peer, some filter =>
    let (missing, recent) := n.recent.missing filter (n.now env)
    missing.foldl (sendMissing peer) { n.ask with recent }
  | _, _ => n

/-! ### Heads -/

def handleHeadBeacon (env : NodeEnv) (p : Packet) (src : Option Link) (n : MeshNode) : MeshNode :=
  let (fresh, n) := n.firstSeen p
  if !fresh then n
  else
    let n := match decodeBeacon p.payload with
      | some b => { n with head := n.head.accept b }
      | none => n
    (n.remember env p).relayOnward env p src

/-- A gateway floods its freshest head, at most once per tick. -/
def emitHeadBeacon (env : NodeEnv) (n : MeshNode) : MeshNode :=
  match env.gateway with
  | none => n
  | some gw =>
    let (due, beacon) := n.beacon.due (n.now env)
    let n := { n.ask with beacon }
    if !due then n
    else
      let live := gw.headBeacon n.io.asked
      let (chosen, lastBeacon, beaconRpcBackoff) := selectBeacon live n.lastBeacon n.beaconRpcBackoff
      let n := if n.beaconRpcBackoff = 0 then n.ask else n
      let n := { n with lastBeacon, beaconRpcBackoff }
      match chosen with
      | none => n
      | some b =>
        let n := { n with head := n.head.accept b }
        (n.count fun c => { c with beaconEmitted := c.beaconEmitted + 1 }).originate env .nimiqHeadBeacon
          (encodeBeacon b)

/-! ### Queries and answers -/

/-- Answer a balance query, keeping the answer. -/
def answerBalance (env : NodeEnv) (address : NimAddress) (a : BalanceAnswer) (n : MeshNode) : MeshNode :=
  let r : BalanceResponse :=
    { address, balance := a.balance, headHeight := a.headHeight, networkId := a.networkId }
  let n := { n with balances := n.balances.observe r }
  (n.count fun c => { c with balanceAnswered := c.balanceAnswered + 1 }).originate env .nimiqBalanceResponse
    (encodeBalanceResponse r)

def handleBalanceQuery (env : NodeEnv) (p : Packet) (src : Option Link) (n : MeshNode) : MeshNode :=
  let (fresh, n) := n.firstSeen p
  if !fresh then n
  else
    let n := n.remember env p
    let n := match env.gateway, decodeBalanceQuery p.payload with
      | some gw, some address =>
        match gw.balanceOf n.io.asked address with
        | some a => n.ask.answerBalance env address a
        | none => n.ask
      | _, _ => n
    n.relayOnward env p src

def handleBalanceResponse (env : NodeEnv) (p : Packet) (src : Option Link) (n : MeshNode) : MeshNode :=
  let (fresh, n) := n.firstSeen p
  if !fresh then n
  else
    let n := match decodeBalanceResponse p.payload with
      | some r => { n with balances := n.balances.observe r }
      | none => n
    (n.remember env p).relayOnward env p src

/-- The id of a set of own fragments: the next sequence number, mixed with the node's id. -/
def fragmentId (n : MeshNode) : FragmentId :=
  List.Vector.map₂ (· ^^^ ·) ⟨beBytes n.seq, rfl⟩ n.senderId

/-- Put one fragment of an answer on the mesh. -/
def originateFragment (env : NodeEnv) (n : MeshNode) (frag : Bytes) : MeshNode :=
  n.originate env .fragment frag

/-- Answer a history query: the response is too long for one frame and is flooded in fragments. -/
def answerHistory (env : NodeEnv) (r : HistoryResponse) (n : MeshNode) : MeshNode :=
  let n := { n with history := n.history.observe r n.network }
  let id := n.fragmentId
  let frags := fragmentMessage MessageType.nimiqTxHistoryResponse.toU8 (encodeHistoryResponse r)
    historyFragmentChunk id
  let n := frags.foldl (originateFragment env) { n with seq := n.seq + 1 }
  n.count fun c => { c with historyAnswered := c.historyAnswered + 1 }

def handleHistoryQuery (env : NodeEnv) (p : Packet) (src : Option Link) (n : MeshNode) : MeshNode :=
  let (fresh, n) := n.firstSeen p
  if !fresh then n
  else
    let n := n.remember env p
    let n := match env.gateway, decodeHistoryQuery p.payload with
      | some gw, some address =>
        match gw.historyOf n.io.asked address with
        | some r => n.ask.answerHistory env r
        | none => n.ask
      | _, _ => n
    n.relayOnward env p src

def handleHistoryResponse (env : NodeEnv) (p : Packet) (src : Option Link) (n : MeshNode) : MeshNode :=
  let (fresh, n) := n.firstSeen p
  if !fresh then n
  else
    let n := match decodeHistoryResponse p.payload with
      | some r => { n with history := n.history.observe r n.network }
      | none => n
    (n.remember env p).relayOnward env p src

/-! ### Chat -/

/-- The log entry of a chat packet. -/
def chatEntry (p : Packet) (mine : Bool) (c : UInt64 × String × String) : ChatEntry :=
  { sender := p.senderId, seq := p.timestampMs, nickname := c.2.1, text := c.2.2, timestampMs := c.1, mine }

def handleChatPacket (env : NodeEnv) (p : Packet) (src : Option Link) (n : MeshNode) : MeshNode :=
  let (fresh, n) := n.firstSeen p
  if !fresh then n
  else
    let n := n.remember env p
    let n := match decodeChat p.payload with
      | some c => { n with chat := n.chat.push (chatEntry p (decide (p.senderId = n.senderId)) c) }
      | none => n
    n.relayOnward env p src

def floodLocalChat (env : NodeEnv) (payload : Bytes) (n : MeshNode) : MeshNode :=
  match decodeChat payload with
  | none => n
  | some c =>
    let (p, n) := n.buildPacket .chat payload
    let n := (n.markOwn p).remember env p
    { n with chat := n.chat.push (chatEntry p true c) }.floodPacket env p

/-! ### Swaps -/

/-- The participant's worker, with the head the node has heard. -/
def swapWorker (n : MeshNode) (w : Worker) : Worker := { w with cachedHead := n.cachedHead }

def floodSwapReply (env : NodeEnv) (n : MeshNode) (reply : MessageType × Bytes) : MeshNode :=
  n.originate env reply.1 reply.2

/-- Flood the replies of the swap code. -/
def floodReplies (env : NodeEnv) (n : MeshNode) (replies : List (MessageType × Bytes)) : MeshNode :=
  replies.foldl (floodSwapReply env) n

/-- An intent past its expiry height. -/
def staleIntent (n : MeshNode) (p : Packet) : Bool :=
  match p.msgType, decodeIntent p.payload with
  | .swapIntent, .ok intent => !intent.isFresh n.swapHead
  | _, _ => false

/-- A participant counts the intents it reads. -/
def countIntent (p : Packet) (n : MeshNode) : MeshNode :=
  match p.msgType, decodeIntent p.payload, n.swap with
  | .swapIntent, .ok intent, some _ => n.count fun c => { c with
      intentsSeen := c.intentsSeen + 1
      intentsExpired := if intent.isFresh n.swapHead then c.intentsExpired else c.intentsExpired + 1 }
  | _, _, _ => n

def handleSwapPacket (env : NodeEnv) (p : Packet) (src : Option Link) (n : MeshNode) : MeshNode :=
  let (fresh, n) := n.firstSeen p
  if !fresh then n
  else
    let n := (n.remember env p).countIntent p
    if n.staleIntent p then n
    else
      let n := match n.swap with
        | none => n
        | some w =>
          let r := (n.swapWorker w).handleSwapPacket env.toEnv p.msgType p.senderId p.payload
          { n with swap := some r.2 }.floodReplies env r.1
      n.relayOnward env p src

/-- Re-advertise the standing intent of a participant without a swap. -/
def readvertiseIntent (env : NodeEnv) (w : Worker) (n : MeshNode) : MeshNode :=
  let n := { n with
    advertiser := if n.lastPeerCount < n.peers.length then {} else n.advertiser
    lastPeerCount := n.peers.length }
  if w.session.coordinators.len ≠ 0 then { n with advertiser := {} }
  else match w.session.identity.standingIntent with
    | none => n
    | some intent =>
      if !intent.isFresh n.swapHead then n
      else
        let (fire, advertiser) := n.advertiser.onTick
        let n := { n with advertiser }
        if !fire then n
        else (n.count fun c => { c with intentsReadvertised := c.intentsReadvertised + 1 }).originate env
          .swapIntent (encodeIntent intent)

def gcTick (env : NodeEnv) (n : MeshNode) : MeshNode :=
  match n.swap with
  | none => n
  | some w =>
    let r := (n.swapWorker w).gcTick env.toEnv
    ({ n with swap := some r.2 }.floodReplies env r.1).readvertiseIntent env r.2

def swapFastTick (env : NodeEnv) (n : MeshNode) : MeshNode :=
  let nowMs := n.now env
  let n := n.ask
  match n.swap with
  | none => n
  | some w =>
    let r := (n.swapWorker w).fastTick env.toEnv nowMs
    { n with swap := some r.2 }.floodReplies env r.1

/-- Withdraw the standing intent. -/
def stopAdvertising (n : MeshNode) : MeshNode :=
  { n with swap := n.swap.map fun w =>
      { w with session := { w.session with identity := { w.session.identity with standingIntent := none } } } }

/-! ### Dispatch -/

/-- Carry a fragment onward and feed the reassembler; the message, if its set is complete. -/
def handleFragment (env : NodeEnv) (p : Packet) (src : Option Link) (n : MeshNode) :
    Option Packet × MeshNode :=
  let (fresh, n) := n.firstSeen p
  if !fresh then (none, n)
  else
    let n := n.remember env p
    let nowMs := n.now env
    let n := n.ask.relayOnward env p src
    match parseFragment p.payload with
    | none => (none, n)
    | some f =>
      let (done, reassembler) := n.reassembler.accept f nowMs
      let n := { n with reassembler }
      match done with
      | none => (none, n)
      | some (originalType, payload) =>
        match MessageType.fromU8 originalType with
        | none => (none, n)
        | some msgType =>
          (some { msgType, senderId := ByteArr.fill peerIdLen 0, payload, ttl := 0,
                  timestampMs := n.now env }, n.ask)

/-- Any other type: dedup, remember and relay. -/
def handleOther (env : NodeEnv) (p : Packet) (src : Option Link) (n : MeshNode) : MeshNode :=
  let (fresh, n) := n.firstSeen p
  if fresh then (n.remember env p).relayOnward env p src else n

/-- Route a packet to its handler; a reassembled message comes back to be dispatched next. -/
def dispatchOnce (env : NodeEnv) (p : Packet) (src : Option Link) (n : MeshNode) :
    Option Packet × MeshNode :=
  match p.msgType with
  | .nimiqTx => (none, n.handleTx env p src)
  | .nimiqTxReceipt => (none, n.handleReceipt env p src)
  | .nimiqHeadBeacon => (none, n.handleHeadBeacon env p src)
  | .nimiqBalanceQuery => (none, n.handleBalanceQuery env p src)
  | .nimiqBalanceResponse => (none, n.handleBalanceResponse env p src)
  | .nimiqTxHistoryQuery => (none, n.handleHistoryQuery env p src)
  | .nimiqTxHistoryResponse => (none, n.handleHistoryResponse env p src)
  | .fragment => n.handleFragment env p src
  | .swapPropose | .swapAccept | .swapFundingProof | .swapPreimageReveal | .swapAbort | .swapIntent =>
    (none, n.handleSwapPacket env p src)
  | .chat => (none, n.handleChatPacket env p src)
  | .noiseEncrypted | .requestSync | .nimiqBalanceProof => (none, n.handleOther env p src)

/-- Dispatch a packet, then what it completes, then what that completes. -/
def dispatchLoop (env : NodeEnv) : ℕ → Packet → Option Link → MeshNode → MeshNode
  | 0, _, _, n => n
  | fuel + 1, p, src, n =>
    match n.dispatchOnce env p src with
    | (none, n) => n
    | (some r, n) => dispatchLoop env fuel r none n

/-- The bytes that the reassembler holds. -/
def heldBytes (r : Reassembler) : ℕ := Table.total (fun p => Table.total List.length p.chunks) r

/-- Each further round drops at least a fragment header from the bytes held and in hand, so they are
    fuel enough (`dispatchPacket_eq`). -/
def dispatchPacket (env : NodeEnv) (p : Packet) (src : Option Link) (n : MeshNode) : MeshNode :=
  dispatchLoop env (heldBytes n.reassembler + p.payload.length + 1) p src n

/-- The rate limit of a frame's peer; a frame without a peer skips it. -/
def admitPeer (env : NodeEnv) (src : Option Link) (n : MeshNode) : Bool × MeshNode :=
  match src with
  | none => (true, n)
  | some peer =>
    let (allowed, limiter) := n.limiter.allow (env.bucketOrder n.io.asked) peer (n.now env)
    (allowed, { n.ask with limiter })

/-- A decoded frame: a catch-up reply is delivered here only, a sync request is answered. -/
def receivePacket (env : NodeEnv) (p : Packet) (src : Option Link) (n : MeshNode) : MeshNode :=
  if p.flags.isRsr then
    (n.count fun c => { c with rsrReceived := c.rsrReceived + 1 }).dispatchPacket env
      { p with flags := { p.flags with isRsr := false }, ttl := 0 } none
  else if p.msgType = .requestSync then n.handleRequestSync env p src
  else n.dispatchPacket env p src

/-- One inbound frame, with the peer it came from if the radio knows. -/
def processInbound (env : NodeEnv) (src : Option Link) (bytes : Bytes) (n : MeshNode) : MeshNode :=
  let (admitted, n) := n.admitPeer env src
  if !admitted then n.count fun c => { c with rateLimited := c.rateLimited + 1 }
  else match decode bytes with
    | .error _ => n
    | .ok p => n.receivePacket env p src

end MeshNode

/-! ### Jobs -/

/-- What a node is given to do: the worker's queue, and the calls that act on the shared context. -/
inductive Job where
  | inbound (src : Option Link) (bytes : Bytes)
  | localTx (wire : Bytes)
  | requestSync
  | syncTick
  | beaconTick
  | swapFastTick
  | balanceQuery (address : NimAddress)
  | historyQuery (address : NimAddress)
  | chat (payload : Bytes)
  | stopAdvertising
  | peerConnected (peer : Link)
  | peerDisconnected (peer : Link)
  | watchIncoming (txId : TxId)
  | setBattery (levelPct : UInt8) (charging : Bool)
  | sendResult (ok : Bool)

namespace MeshNode

/-- The node after a job. -/
def step (env : NodeEnv) (n : MeshNode) : Job → MeshNode
  | .inbound src bytes => (n.processInbound env src bytes).swapFastTick env
  | .localTx wire => n.floodLocalTx env wire
  | .requestSync => n.emitRequestSync env
  | .syncTick => (n.maintenanceTick env).gcTick env
  | .beaconTick => ((n.emitHeadBeacon env).maintenanceTick env).gcTick env
  | .swapFastTick => n.swapFastTick env
  | .balanceQuery address => n.originate env .nimiqBalanceQuery (encodeBalanceQuery address)
  | .historyQuery address => n.originate env .nimiqTxHistoryQuery (encodeHistoryQuery address)
  | .chat payload => n.floodLocalChat env payload
  | .stopAdvertising => n.stopAdvertising
  | .peerConnected peer => { n with peers := if peer ∈ n.peers then n.peers else n.peers ++ [peer] }
  | .peerDisconnected peer => { n with peers := n.peers.erase peer }
  | .watchIncoming txId => { n with ledger := n.ledger.record txId .incoming }
  | .setBattery levelPct charging => { n with battery := { levelPct := min levelPct 100, charging } }
  | .sendResult ok => n.count fun c =>
      if ok then { c with sendOk := c.sendOk + 1 } else { c with sendFail := c.sendFail + 1 }

/-- The node after a run of jobs. -/
def exec (env : NodeEnv) (n : MeshNode) (jobs : List Job) : MeshNode := Run.exec (step env) n jobs

end MeshNode

/-! ### A sample node -/

namespace Sample

/-- A node's surroundings: a clock and a gateway, and no chain that answers. -/
def meshEnv (clock : ℕ → UInt64) (gateway : Option MeshGateway) : NodeEnv where
  sha256 := fun _ => ByteArr.fill hashLen 0
  addressOf := fun _ => ByteArr.fill nimAddressLen 0
  verifyStrict := fun _ _ _ => true
  observe := fun _ _ => .absent
  observeClaim := fun _ _ _ => .unavailable
  buildFunding := fun _ _ _ => none
  buildClaim := fun _ _ _ => none
  secretSource := fun _ _ => ByteArr.fill hashLen 0
  proposeSigner := none
  telemetryNowMs := fun _ => 0
  clock
  draw := fun _ => 0
  peerOrder := fun _ l => l
  peerOrder_perm := fun _ _ => List.Perm.refl _
  bucketOrder := fun _ => ⟨id, List.Perm.refl⟩
  gateway

/-- A node without peers. -/
def meshNode : MeshNode := .new (ByteArr.fill peerIdLen 1) defaultNetworkId false 77 none

/-- A packet of another node. -/
def meshPacket (msgType : MessageType) (payload : Bytes) (timestampMs : UInt64) : Packet :=
  { msgType, senderId := ByteArr.fill peerIdLen 2, payload, ttl := 7, timestampMs }

def frame (p : Packet) : Bytes := (encode p).toOption.getD []

def envelope (e : NimiqEnvelope) : Bytes := (encodeEnvelope e).toOption.getD []

def beacon (height : UInt32) : Bytes := encodeBeacon ⟨height, ByteArr.fill hashLen 0, defaultNetworkId⟩

end Sample

end Nimmesh
