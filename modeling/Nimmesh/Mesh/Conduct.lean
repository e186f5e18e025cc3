import Nimmesh.Mesh.Handlers
import Nimmesh.Swap.Replies
import Mathlib.Logic.Relation

/-! @src engine.rs pending_retry.rs settlement.rs store_forward.rs | name:What a node may do | layer:abstract

    The abstract node: what the mesh and the user rely on, without codecs, queries, chat and counters.
    `Act` lists everything a node may do to it while it works on one job, each with the guard that the
    code puts in front of it. An invariant is shown once per act and then holds along every path. -/

namespace Nimmesh
open Word

/-- What the proofs follow of a node. -/
structure Books where
  senderId : PeerId
  peers : List Link
  ledger : SettlementLedger
  head : HeadCache
  relaySeen : DedupCache RelayKey
  gatewaySeen : DedupCache TxId
  acked : DedupCache TxId
  pending : PendingRetry
  recent : RecentCache
  swap : Option Worker
  trace : List MeshEvent

def MeshNode.books (n : MeshNode) : Books :=
  { senderId := n.senderId, peers := n.peers, ledger := n.ledger, head := n.head, relaySeen := n.relaySeen,
    gatewaySeen := n.gatewaySeen, acked := n.acked, pending := n.pending, recent := n.recent, swap := n.swap,
    trace := n.io.trace }

namespace Books

def log (b : Books) (e : MeshEvent) : Books := { b with trace := e :: b.trace }

/-- Close a payment and stop carrying it. -/
def close (txId : TxId) (status : ReceiptStatus) (b : Books) : Books :=
  { b with ledger := b.ledger.settle txId status.payment, pending := b.pending.clear txId,
           acked := (b.acked.insert txId).2 }

/-- What a receipt packet says. -/
def receiptOf (p : Packet) : Option (TxId × ReceiptStatus) :=
  if p.msgType = .nimiqTxReceipt then decodeReceipt p.payload else none

/-- Let a packet in; a receipt closes the payment it names. -/
def take (p : Packet) (b : Books) : Books :=
  let b := { b with relaySeen := (b.relaySeen.insert (relayKey p)).2 }.log (.took p)
  match receiptOf p with
  | some (txId, status) => b.close txId status
  | none => b

/-- Keep a packet for peers that catch up later. -/
def keep (p : Packet) (nowMs : UInt64) (b : Books) : Books :=
  { b with recent := (b.recent.insert (packetId p) p nowMs).2 }

/-- Fail what the retry pass finds dead. -/
def expire (nowMs : UInt64) (b : Books) : Books :=
  { b with
    pending := b.pending.retain fun e => !e.dead b.head.height nowMs
    ledger := (b.pending.entries.filter fun e => e.dead b.head.height nowMs).foldl MeshNode.failExpired b.ledger }

/-- Record an own transaction and keep it for retries. -/
def launch (e : PendingTx) (b : Books) : Books :=
  { b with ledger := b.ledger.record e.txId .outgoing, pending := b.pending.remember e }

end Books

/-! ### Acts -/

/-- A job of the maintenance schedule. -/
def Job.IsTick (job : Job) : Prop := job = .syncTick ∨ job = .beaconTick

/-- A job that brings a frame. -/
def Job.IsInbound (job : Job) : Prop := ∃ src bytes, job = .inbound src bytes

/-- The job is to carry this packet. -/
def Job.Carries (job : Job) (p : Packet) (src : Option Link) : Prop :=
  ∃ bytes, job = .inbound src bytes ∧ decode bytes = .ok p ∧ p.flags.isRsr = false ∧ p.msgType ≠ .requestSync

/-- Not a transaction that is dead at this head. -/
def Live (head : Option UInt32) (p : Packet) : Prop :=
  p.msgType = .nimiqTx → isExpired head (txValidUntil p) = false

/-- The packets with which a node answers a frame, if it is a sync request. -/
def MeshNode.answers (env : NodeEnv) (src : Option Link) (bytes : Bytes) (n : MeshNode) : List Packet :=
  let (admitted, n) := n.admitPeer env src
  match src, decode bytes with
  | some _, .ok p =>
    if admitted && !p.flags.isRsr && decide (p.msgType = .requestSync) then
      match GcsFilter.fromBytes p.payload with
      | some filter => (n.recent.missing filter (n.now env)).1
      | none => []
    else []
  | _, _ => []

variable (env : NodeEnv) (n₀ : MeshNode) (job : Job)

/-- What justifies a frame on the air: an own packet, an own transaction again, a relay, a catch-up
    reply. Only an own transaction built at the last height of all is dead when it leaves. -/
inductive MaySend (b : Books) (peer : Link) (frame : Bytes) : SendKind → Prop
  | own (p : Packet) (hframe : encode p = .ok frame)
      (hlive : Live b.head.height p ∨ (∃ wire, job = .localTx wire) ∧ b.head.height = some 4294967295) :
      MaySend b peer frame .own
  | again (e : PendingTx) (he : e ∈ b.pending.entries) (hframe : e.bytes = frame)
      (hlive : isExpired b.head.height e.validUntil = false) : MaySend b peer frame .own
  | relay (p : Packet) (src : Option Link) (ttl : UInt8) (hjob : job.Carries p src)
      (httl : relayedTtl p.ttl = some ttl) (hframe : encode { p with ttl } = .ok frame)
      (hback : some peer ≠ src) (hlive : Live b.head.height p) : MaySend b peer frame .relay
  | reply (p : Packet) (bytes : Bytes) (hjob : job = .inbound (some peer) bytes)
      (hp : p ∈ n₀.answers env (some peer) bytes) (hhead : b.head = n₀.head)
      (hframe : encode { p with flags := { p.flags with isRsr := true } } = .ok frame) :
      MaySend b peer frame .reply

/-- One thing that a node does while it works on `job`, which it was given in state `n₀`. -/
inductive Act : Books → Books → Prop
  | took {b : Books} (p : Packet) (hjob : job.IsInbound) (hnew : relayKey p ∉ b.relaySeen.order) :
      Act b (b.take p)
  | own {b : Books} (p : Packet) (hid : p.senderId = b.senderId) (hnew : relayKey p ∉ b.relaySeen.order) :
      Act b ({ b with relaySeen := (b.relaySeen.insert (relayKey p)).2 }.log (.own p))
  | keep {b : Books} (p : Packet) (nowMs : UInt64)
      (hp : .took p ∈ b.trace ∨ p.msgType ≠ .nimiqTxReceipt) :
      Act b (b.keep p nowMs)
  | prune {b : Books} (recent : RecentCache) (hsub : ∀ e ∈ recent.entries, e ∈ b.recent.entries) :
      Act b { b with recent }
  | heard {b : Books} (beacon : HeadBeacon) (hjob : ∀ wire, job ≠ .localTx wire) :
      Act b { b with head := b.head.accept beacon }
  | watch {b : Books} (txId : TxId) (hjob : job = .watchIncoming txId) :
      Act b { b with ledger := b.ledger.record txId .incoming }
  | launch {b : Books} (wire : Bytes) (e : PendingTx) (hjob : job = .localTx wire) (hid : e.txId = mockTxId wire)
      (hwire : ∃ p, encode p = .ok e.bytes ∧ txValidUntil p = e.validUntil) : Act b (b.launch e)
  | expire {b : Books} (nowMs : UInt64) (hjob : job.IsTick) : Act b (b.expire nowMs)
  | touch {b : Books} (nowMs : UInt64) (hjob : job.IsTick) : Act b { b with pending := b.pending.touch nowMs }
  | offer {b : Books} (txId : TxId) (nowMs : UInt64) (hjob : job.IsTick ∨ ∃ wire, job = .localTx wire) :
      Act b (b.log (.offered txId nowMs))
  | hand {b : Books} (ctx : SubmitContext) (answer : Except MeshError Receipt) (hjob : job.IsInbound)
      (hnew : ctx.txId ∉ b.gatewaySeen.order) :
      Act b ({ b with gatewaySeen := (b.gatewaySeen.insert ctx.txId).2 }.log (.handed ctx answer))
  | link {b : Books} (peers : List Link)
      (hjob : ∃ peer, job = .peerConnected peer ∨ job = .peerDisconnected peer) : Act b { b with peers }
  | swap {b : Books} (w : Worker) (hw : w.session.Buffered) : Act b { b with swap := some w }
  | sent {b : Books} (peer : Link) (frame : Bytes) (kind : SendKind)
      (hsend : MaySend env n₀ job b peer frame kind) : Act b (b.log (.sent peer frame kind b.head.height))

/-- Any number of acts. -/
abbrev Path : Books → Books → Prop := Relation.ReflTransGen (Act env n₀ job)

variable {env n₀ job}

/-- The invariant rule of paths. -/
theorem Path.invariant {I : Books → Prop} (hstep : ∀ b b', Act env n₀ job b b' → I b → I b') {b b' : Books}
    (h : Path env n₀ job b b') (hb : I b) : I b' := by
  induction h with
  | refl => exact hb
  | tail _ hact ih => exact hstep _ _ hact ih

/-- The invariant rule for a path whose end is known to be ahead. -/
theorem Path.invariant_toward {I : Books → Prop} {b b' : Books}
    (hstep : ∀ b₁ b₂, Act env n₀ job b₁ b₂ → Path env n₀ job b₂ b' → I b₁ → I b₂)
    (h : Path env n₀ job b b') (hb : I b) : I b' := by
  suffices hall : ∀ c, Path env n₀ job b c → Path env n₀ job c b' → I c from hall b' h .refl
  intro c hc
  induction hc with
  | refl => exact fun _ => hb
  | tail _ hact ih => exact fun hrest => hstep _ _ hact hrest (ih (.head hact hrest))

/-- The frame rule of paths: what no act changes, no path changes. -/
theorem Path.frame {α : Type*} (f : Books → α) (hstep : ∀ b b', Act env n₀ job b b' → f b' = f b)
    {b b' : Books} (h : Path env n₀ job b b') : f b' = f b :=
  h.invariant (I := fun b' => f b' = f b) (fun b₁ b₂ hact hb => (hstep b₁ b₂ hact).trans hb) rfl

namespace Books

@[simp] theorem take_senderId (p : Packet) (b : Books) : (b.take p).senderId = b.senderId := by
  unfold take; split <;> rfl
@[simp] theorem take_peers (p : Packet) (b : Books) : (b.take p).peers = b.peers := by
  unfold take; split <;> rfl
@[simp] theorem take_head (p : Packet) (b : Books) : (b.take p).head = b.head := by
  unfold take; split <;> rfl
@[simp] theorem take_relaySeen (p : Packet) (b : Books) :
    (b.take p).relaySeen = (b.relaySeen.insert (relayKey p)).2 := by
  unfold take; split <;> rfl
@[simp] theorem take_gatewaySeen (p : Packet) (b : Books) : (b.take p).gatewaySeen = b.gatewaySeen := by
  unfold take; split <;> rfl
@[simp] theorem take_recent (p : Packet) (b : Books) : (b.take p).recent = b.recent := by
  unfold take; split <;> rfl
@[simp] theorem take_swap (p : Packet) (b : Books) : (b.take p).swap = b.swap := by
  unfold take; split <;> rfl
@[simp] theorem take_trace (p : Packet) (b : Books) : (b.take p).trace = .took p :: b.trace := by
  unfold take; split <;> rfl

theorem take_of_receipt {p : Packet} {txId : TxId} {status : ReceiptStatus}
    (h : receiptOf p = some (txId, status)) (b : Books) : b.take p =
      ({ b with relaySeen := (b.relaySeen.insert (relayKey p)).2 }.log (.took p)).close txId status := by
  unfold take
  rw [h]

theorem take_of_none {p : Packet} (h : receiptOf p = none) (b : Books) : b.take p =
    { b with relaySeen := (b.relaySeen.insert (relayKey p)).2 }.log (.took p) := by
  unfold take
  rw [h]

theorem receiptOf_eq_none {p : Packet} (h : p.msgType ≠ .nimiqTxReceipt) : receiptOf p = none := if_neg h

end Books

/-- The retransmit buffer of the swap code holds swap messages only. -/
def Books.Buffered (b : Books) : Prop := ∀ w, b.swap = some w → w.session.Buffered

theorem Path.buffered {b b' : Books} (h : Path env n₀ job b b') (hb : b.Buffered) : b'.Buffered := by
  refine h.invariant (fun b₁ b₂ hact h₁ => ?_) hb
  cases hact with
  | took p => exact fun w hw => h₁ w (Books.take_swap p b₁ ▸ hw)
  | swap w hw => exact fun w' hw' => Option.some.inj hw' ▸ hw
  | _ => exact h₁

/-- A trace only grows. -/
theorem Path.trace_grows {b b' : Books} (h : Path env n₀ job b b') : ∃ new, b'.trace = new ++ b.trace := by
  refine h.invariant (I := fun b' => ∃ new, b'.trace = new ++ b.trace) ?_ ⟨[], rfl⟩
  rintro b₁ b₂ hact ⟨new, hnew⟩
  cases hact with
  | took p => exact ⟨.took p :: new, by rw [Books.take_trace, hnew]; rfl⟩
  | own p => exact ⟨.own p :: new, congrArg (_ :: ·) hnew⟩
  | offer txId nowMs => exact ⟨.offered txId nowMs :: new, congrArg (_ :: ·) hnew⟩
  | hand ctx answer => exact ⟨.handed ctx answer :: new, congrArg (_ :: ·) hnew⟩
  | sent peer frame kind => exact ⟨.sent peer frame kind _ :: new, congrArg (_ :: ·) hnew⟩
  | _ => exact ⟨new, hnew⟩

/-- Every frame that a path sends has its justification. -/
theorem Path.sends_guarded {b b' : Books} (h : Path env n₀ job b b') : ∃ add, b'.trace = add ++ b.trace ∧
    ∀ peer frame kind head, .sent peer frame kind head ∈ add → ∃ c, MaySend env n₀ job c peer frame kind := by
  refine h.invariant (I := fun b' => ∃ add, b'.trace = add ++ b.trace ∧
    ∀ peer frame kind head, .sent peer frame kind head ∈ add → ∃ c, MaySend env n₀ job c peer frame kind) ?_
    ⟨[], rfl, fun _ _ _ _ h => absurd h List.not_mem_nil⟩
  rintro b₁ b₂ hact ⟨add, htrace, hadd⟩
  have hlog : ∀ e : MeshEvent, (∀ peer frame kind head, .sent peer frame kind head ≠ e) →
      b₂.trace = e :: b₁.trace → ∃ add, b₂.trace = add ++ b.trace ∧
        ∀ peer frame kind head, .sent peer frame kind head ∈ add → ∃ c, MaySend env n₀ job c peer frame kind := by
    intro e hne he
    refine ⟨e :: add, by rw [he, htrace]; rfl, fun peer frame kind head hmem => hadd peer frame kind head ?_⟩
    exact (List.mem_cons.mp hmem).resolve_left (hne peer frame kind head)
  cases hact with
  | took p => exact hlog (.took p) (by rintro _ _ _ _ ⟨⟩) (Books.take_trace p b₁)
  | own p => exact hlog (.own p) (by rintro _ _ _ _ ⟨⟩) rfl
  | offer txId nowMs => exact hlog (.offered txId nowMs) (by rintro _ _ _ _ ⟨⟩) rfl
  | hand ctx answer => exact hlog (.handed ctx answer) (by rintro _ _ _ _ ⟨⟩) rfl
  | sent peer frame kind hsend =>
    refine ⟨.sent peer frame kind b₁.head.height :: add, congrArg (_ :: ·) htrace, fun _ _ _ _ hmem => ?_⟩
    rcases List.mem_cons.mp hmem with heq | hmem
    · cases heq
      exact ⟨b₁, hsend⟩
    · exact hadd _ _ _ _ hmem
  | _ => exact ⟨add, htrace, hadd⟩

end Nimmesh
