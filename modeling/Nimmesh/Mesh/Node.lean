import Nimmesh.Mesh.Gateway
import Nimmesh.Mesh.Fragment
import Nimmesh.Mesh.Relay
import Nimmesh.Swap.Node

/-! @src engine.rs node.rs pending_retry.rs swap_node.rs | name:The state of a mesh node | layer:model

    A node's context and worker state, and the operations that every handler is made of. What comes from
    outside — the clock, the draws of the relay's random source, the order in which a set of peers or of
    buckets is walked, the gateway — is a function of the number of the consultation, and `asked` counts
    them. The trace is for the proofs only: it records what the node sent and what it let in. -/

namespace Nimmesh
open Word

/-! ### Own transactions that are still pending -/

def maxPending : ℕ := 16

def retryMs : UInt64 := 15000

def retryWallMs : UInt64 := 7200000

/-- An own transaction that is offered again until a receipt comes or its window closes. -/
structure PendingTx where
  txId : TxId
  bytes : Bytes
  validUntil : Option UInt32
  createdMs : UInt64
  lastFloodMs : Option UInt64

/-- The bounded set of them, oldest first. -/
structure PendingRetry where
  entries : List PendingTx := []
  bound : entries.length ≤ maxPending := by decide
  nodup : (entries.map (·.txId)).Nodup := by decide

/-- Keeping only some entries keeps the ids apart. -/
theorem nodup_filter_txId {l : List PendingTx} (h : (l.map (·.txId)).Nodup) (keep : PendingTx → Bool) :
    ((l.filter keep).map (·.txId)).Nodup := (List.filter_sublist.map _).nodup h

namespace PendingRetry

def retain (r : PendingRetry) (keep : PendingTx → Bool) : PendingRetry where
  entries := r.entries.filter keep
  bound := (List.length_filter_le _ _).trans r.bound
  nodup := nodup_filter_txId r.nodup keep

/-- Remember an own transaction: it replaces one of the same id, and a full set drops its oldest. -/
def remember (r : PendingRetry) (e : PendingTx) : PendingRetry where
  entries := Fifo.push maxPending (r.entries.filter fun e' => e'.txId ≠ e.txId) e
  bound := Fifo.length_push_le (by decide) ((List.length_filter_le _ _).trans r.bound) e
  nodup := by
    rw [Fifo.map_push]
    refine Fifo.nodup_push (nodup_filter_txId r.nodup _) fun h => ?_
    obtain ⟨e', he', heq⟩ := List.mem_map.mp h
    exact of_decide_eq_true (List.mem_filter.mp he').2 heq

/-- A receipt settled this transaction. -/
def clear (r : PendingRetry) (txId : TxId) : PendingRetry := r.retain fun e => e.txId ≠ txId

end PendingRetry

/-- The chain can no longer include this transaction, as far as the node can judge. -/
def PendingTx.dead (e : PendingTx) (head : Option UInt32) (nowMs : UInt64) : Bool :=
  match e.validUntil with
  | some vu => isExpired head (some vu)
  | none => decide (retryWallMs < satSub nowMs e.createdMs)

/-- Time to offer it again. -/
def PendingTx.due (e : PendingTx) (nowMs : UInt64) : Bool :=
  match e.lastFloodMs with
  | none => true
  | some last => decide (retryMs ≤ satSub nowMs last)

/-- Note the flood in the entries that are due. -/
def PendingRetry.touch (r : PendingRetry) (nowMs : UInt64) : PendingRetry :=
  let touchOne := fun e : PendingTx => if e.due nowMs then { e with lastFloodMs := some nowMs } else e
  have hids : (r.entries.map touchOne).map (·.txId) = r.entries.map (·.txId) := by
    rw [List.map_map]
    refine List.map_congr_left fun e _ => ?_
    simp only [Function.comp_apply, touchOne]
    split_ifs <;> rfl
  { entries := r.entries.map touchOne
    bound := by rw [List.length_map]; exact r.bound
    nodup := by rw [hids]; exact r.nodup }

/-! ### Re-advertising a swap intent -/

def maxIntentReadverts : ℕ := 5

def maxIntentReadvertInterval : ℕ := 8

/-- The backing-off schedule of a standing intent. -/
structure IntentAdvertiser where
  sent : ℕ := 0
  cooldown : ℕ := 0
  interval : ℕ := 1

def IntentAdvertiser.onTick (a : IntentAdvertiser) : Bool × IntentAdvertiser :=
  if maxIntentReadverts ≤ a.sent then (false, a)
  else if 0 < a.cooldown then (false, { a with cooldown := a.cooldown - 1 })
  else (true, { sent := a.sent + 1, cooldown := a.interval,
                interval := min (a.interval * 2) maxIntentReadvertInterval })

/-! ### The environment -/

/-- Type, sender and timestamp: the identity of a packet on the mesh, blind to its payload. -/
abbrev RelayKey := UInt8 × PeerId × UInt64

def relayKey (p : Packet) : RelayKey := (p.msgType.toU8, p.senderId, p.timestampMs)

def relayCacheCap : ℕ := 2048

def gatewayCacheCap : ℕ := 1024

/-- The outside of a node: what the swap code consults, and what the mesh code consults by number. -/
structure NodeEnv extends Env where
  clock : ℕ → UInt64
  draw : ℕ → UInt64
  peerOrder : ℕ → List Link → List Link
  peerOrder_perm : ∀ i l, (peerOrder i l).Perm l
  bucketOrder : ℕ → BucketOrder
  gateway : Option MeshGateway

/-- Why a frame leaves: the node's own packet, a relay, or a catch-up reply. -/
inductive SendKind where | own | relay | reply
  deriving DecidableEq, Repr

/-- What a node did, newest first in its trace; a frame is sent under the head heard by then. -/
inductive MeshEvent where
  | sent (peer : Link) (frame : Bytes) (kind : SendKind) (head : Option UInt32)
  | own (p : Packet)
  | took (p : Packet)
  | handed (ctx : SubmitContext) (answer : Except MeshError Receipt)
  | offered (txId : TxId) (atMs : UInt64)

/-- The packet that an event lets in. -/
def MeshEvent.taken : MeshEvent → Option Packet
  | .took p => some p
  | _ => none

theorem MeshEvent.mem_taken {l : List MeshEvent} {p : Packet} (h : .took p ∈ l) : p ∈ l.filterMap taken :=
  List.mem_filterMap.mpr ⟨.took p, h, rfl⟩

/-- The observability counters. -/
structure Counters where
  forwarded : ℕ := 0
  sendAttempts : ℕ := 0
  sendOk : ℕ := 0
  sendFail : ℕ := 0
  recentStored : ℕ := 0
  rsrSent : ℕ := 0
  rsrReceived : ℕ := 0
  beaconEmitted : ℕ := 0
  expiredDropped : ℕ := 0
  verifyDropped : ℕ := 0
  rateLimited : ℕ := 0
  stopAfterAck : ℕ := 0
  balanceAnswered : ℕ := 0
  historyAnswered : ℕ := 0
  paymentsRelayed : ℕ := 0
  intentsSeen : ℕ := 0
  intentsExpired : ℕ := 0
  intentsReadvertised : ℕ := 0
  deriving DecidableEq

/-- A packet was carried onward; a payment among them counts as one helped. -/
def Counters.relayed (msgType : MessageType) (c : Counters) : Counters :=
  { c with forwarded := c.forwarded + 1
           paymentsRelayed := if msgType = .nimiqTx then c.paymentsRelayed + 1 else c.paymentsRelayed }

/-- Counters, consultations made, and the trace. -/
structure NodeIo where
  counters : Counters := {}
  asked : ℕ := 0
  trace : List MeshEvent := []

namespace NodeIo

def log (io : NodeIo) (e : MeshEvent) : NodeIo := { io with trace := e :: io.trace }

def ask (io : NodeIo) : NodeIo := { io with asked := io.asked + 1 }

def count (io : NodeIo) (f : Counters → Counters) : NodeIo := { io with counters := f io.counters }

/-- Fire-and-forget to one peer. -/
def send (io : NodeIo) (peer : Link) (frame : Bytes) (kind : SendKind) (head : Option UInt32) : NodeIo :=
  (io.log (.sent peer frame kind head)).count fun c => { c with sendAttempts := c.sendAttempts + 1 }

@[simp] theorem log_trace (io : NodeIo) (e : MeshEvent) : (io.log e).trace = e :: io.trace := rfl
@[simp] theorem ask_trace (io : NodeIo) : io.ask.trace = io.trace := rfl
@[simp] theorem count_trace (io : NodeIo) (f : Counters → Counters) : (io.count f).trace = io.trace := rfl
@[simp] theorem send_trace (io : NodeIo) (peer : Link) (frame : Bytes) (kind : SendKind)
    (head : Option UInt32) : (io.send peer frame kind head).trace = .sent peer frame kind head :: io.trace := rfl

end NodeIo

/-! ### The node -/

structure MeshNode where
  -- the context shared with the callers
  senderId : PeerId
  network : UInt8
  peers : List Link := []
  ledger : SettlementLedger := ∅
  head : HeadCache
  balances : BalanceCache
  history : HistoryCache := ∅
  chat : ChatLog := []
  seq : UInt64
  battery : BatteryState := {}
  -- the worker's own state
  relaySeen : DedupCache RelayKey := .new relayCacheCap
  gatewaySeen : DedupCache TxId := .new gatewayCacheCap
  reassembler : Reassembler := ∅
  recent : RecentCache := {}
  sync : SyncScheduler := {}
  beacon : BeaconScheduler := {}
  lastBeacon : Option HeadBeacon := none
  beaconRpcBackoff : UInt8 := 0
  verifyBeforeRelay : Bool
  limiter : PeerRateLimiter := ∅
  acked : DedupCache TxId := .new gatewayCacheCap
  pending : PendingRetry := {}
  swap : Option Worker := none
  advertiser : IntentAdvertiser := {}
  lastPeerCount : ℕ := 0
  io : NodeIo := {}

namespace MeshNode

/-- A node as it is built: `seed` is the clock-derived start of its packet sequence. -/
def new (senderId : PeerId) (network : UInt8) (verifyBeforeRelay : Bool) (seed : UInt64)
    (swap : Option Worker) : MeshNode :=
  { senderId, network, head := { networkId := network }, balances := { networkId := some network },
    seq := seed, verifyBeforeRelay, swap }

def ask (n : MeshNode) : MeshNode := { n with io := n.io.ask }

def log (n : MeshNode) (e : MeshEvent) : MeshNode := { n with io := n.io.log e }

def count (n : MeshNode) (f : Counters → Counters) : MeshNode := { n with io := n.io.count f }

/-- The reading of the worker's clock that comes next. -/
def now (env : NodeEnv) (n : MeshNode) : UInt64 := env.clock n.io.asked

/-- The freshest head height heard. -/
def cachedHead (n : MeshNode) : Option UInt32 := n.head.height

/-- The head the swap code works with: 0 before any beacon. -/
def swapHead (n : MeshNode) : UInt64 := (n.cachedHead.map UInt32.toUInt64).getD 0

/-! ### Seeing, remembering, sending -/

/-- The first-seen gate of every handler. -/
def firstSeen (p : Packet) (n : MeshNode) : Bool × MeshNode :=
  let r := n.relaySeen.insert (relayKey p)
  (r.1, { n with relaySeen := r.2, io := if r.1 then n.io.log (.took p) else n.io })

/-- Mark an own packet as seen, so that its echo is not taken for news. -/
def markOwn (p : Packet) (n : MeshNode) : MeshNode :=
  let r := n.relaySeen.insert (relayKey p)
  { n with relaySeen := r.2, io := if r.1 then n.io.log (.own p) else n.io }

/-- Keep a packet for peers that catch up later. -/
def remember (env : NodeEnv) (p : Packet) (n : MeshNode) : MeshNode :=
  let r := n.recent.insert (packetId p) p (n.now env)
  { n with recent := r.2,
           io := if r.1 then n.io.ask.count fun c => { c with recentStored := c.recentStored + 1 }
                 else n.io.ask }

/-- Send a frame to every connected peer but one. -/
def floodExcluding (env : NodeEnv) (frame : Bytes) (exclude : Option Link) (kind : SendKind)
    (n : MeshNode) : MeshNode :=
  let send := fun (io : NodeIo) peer =>
    if some peer = exclude then io else io.send peer frame kind n.cachedHead
  { n with io := (env.peerOrder n.io.asked n.peers).foldl send n.io }

/-- Send an own frame to every connected peer. -/
def flood (env : NodeEnv) (frame : Bytes) (n : MeshNode) : MeshNode :=
  n.floodExcluding env frame none .own

/-- Flood an own packet, if it encodes. -/
def floodPacket (env : NodeEnv) (p : Packet) (n : MeshNode) : MeshNode :=
  match encode p with
  | .ok frame => n.flood env frame
  | .error _ => n

/-- A fresh broadcast packet of this node. -/
def buildPacket (msgType : MessageType) (payload : Bytes) (n : MeshNode) : Packet × MeshNode :=
  ({ msgType, senderId := n.senderId, payload, recipientId := some broadcastRecipient,
     ttl := defaultTtl, timestampMs := n.seq }, { n with seq := n.seq + 1 })

/-- Build, mark, remember and flood: how a node puts most of its own packets on the mesh. -/
def originate (env : NodeEnv) (msgType : MessageType) (payload : Bytes) (n : MeshNode) : MeshNode :=
  let (p, n) := n.buildPacket msgType payload
  ((n.markOwn p).remember env p).floodPacket env p

/-! ### Relaying -/

/-- The posture carries this type and the degree roll is won. -/
def relayAllowed (env : NodeEnv) (msgType : MessageType) (n : MeshNode) : Bool × MeshNode :=
  let posture := relayPosture n.battery
  if !posture.relaysType msgType then (false, n)
  else
    let chance := relayChance n.peers.length posture.probabilityFactor
    (bernoulli (env.draw n.io.asked) chance, if usesDraw chance then n.ask else n)

/-- Rebroadcast a packet with one hop less, to every peer but the one it came from. -/
def relayOnward (env : NodeEnv) (p : Packet) (src : Option Link) (n : MeshNode) : MeshNode :=
  let (allowed, n) := n.relayAllowed env p.msgType
  if !allowed then n
  else match relayedTtl p.ttl with
    | none => n
    | some ttl =>
      let n := n.ask  -- the draw of the jitter
      match encode { p with ttl } with
      | .error _ => n
      | .ok frame => (n.count (Counters.relayed p.msgType)).floodExcluding env frame src .relay

end MeshNode

end Nimmesh
