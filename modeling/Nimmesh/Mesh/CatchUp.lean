import Nimmesh.Mesh.Submission
import Nimmesh.Mesh.Window

/-! @src engine.rs store_forward.rs gateway.rs settlement.rs | name:Catching up on a receipt | layer:model

    A node that was out of range asks a neighbour for what it lacks and is sent what the neighbour's cache
    holds. The receipt that a gateway floods is the one packet of its own that it does not put there, so it
    can send it again only after the receipt has come back to it as news. -/

namespace Nimmesh

/-- A receipt again, whatever its hops and flags. -/
def SameReceipt (r q : Packet) : Prop := relayKey q = relayKey r ∧ q.payload = r.payload

theorem SameReceipt.msgType {r q : Packet} (h : SameReceipt r q) : q.msgType = r.msgType := by
  have hbyte : q.msgType.toU8 = r.msgType.toU8 := congrArg Prod.fst h.1
  have hparse := MessageType.fromU8_toU8 q.msgType
  rw [hbyte, MessageType.fromU8_toU8] at hparse
  exact (Option.some.inj hparse).symm

theorem SameReceipt.packetId {r q : Packet} (h : SameReceipt r q) : packetId q = packetId r := by
  obtain ⟨hbyte, hrest⟩ := Prod.mk.inj h.1
  obtain ⟨hid, hts⟩ := Prod.mk.inj hrest
  unfold Nimmesh.packetId
  rw [hbyte, hid, hts]

namespace MeshNode

/-- Among the frames with which `n` answers a request is the receipt `r`. -/
def Replies (env : NodeEnv) (n : MeshNode) (peer : Link) (request : Bytes) (r : Packet) (frame : Bytes) : Prop :=
  ∃ head q, .sent peer frame .reply head ∈ n.news env (.inbound (some peer) request) ∧ decode frame = .ok q ∧
    q.flags.isRsr = true ∧ SameReceipt r q

/-- The receipt came back as news, and the cache still has it. -/
def HeardBack (env : NodeEnv) (n : MeshNode) (peer : Link) (r : Packet) : Prop :=
  let m := (n.admitPeer env (some peer)).2
  ∃ e ∈ (m.recent.gc (m.now env)).entries, .took e.packet ∈ n.io.trace ∧ e.packet.WellFormed ∧
    SameReceipt r e.packet

/-- A peer that asks `n` is sent the receipt `r`, and an origin that lets it in is no longer in doubt. -/
structure Recovers (env : NodeEnv) (n : MeshNode) (peer : Link) (request : Bytes) (r : Packet) (txId : TxId) :
    Prop where
  replies : ∃ frame, n.Replies env peer request r frame
  settles : ∀ frame, n.Replies env peer request r frame → ∀ (env' : NodeEnv) (o : MeshNode) (src : Option Link)
    (before after : List Job), o.books.Buffered → (o.ledger.lookup txId).isSome →
    ((o.exec env' before).admitPeer env' src).1 = true → relayKey r ∉ (o.exec env' before).relaySeen.order →
      (o.exec env' (before ++ .inbound src frame :: after)).ledger.status txId ≠ .pending

end MeshNode

/-! ### What the cache holds -/

/-- The cache knows its packets by their ids, and a receipt among them was let in. -/
def Books.Cached (b : Books) : Prop :=
  ∀ e ∈ b.recent.entries, e.id = packetId e.packet ∧
    (.took e.packet ∈ b.trace ∨ e.packet.msgType ≠ .nimiqTxReceipt)

section
variable {env : NodeEnv} {n₀ : MeshNode} {job : Job}

theorem RecentCache.mem_insert {c : RecentCache} {p : Packet} {nowMs : UInt64} {e : RecentEntry}
    (h : e ∈ (c.insert (packetId p) p nowMs).2.entries) : e ∈ c.entries ∨ e = ⟨packetId p, p, nowMs⟩ := by
  have hgc : ∀ e ∈ (c.gc nowMs).entries, e ∈ c.entries := (List.dropWhile_sublist _).subset
  unfold insert at h
  dsimp only at h
  split_ifs at h
  · exact .inl (hgc e h)
  · exact (Fifo.mem_of_mem_push h).imp (hgc e) id

theorem Path.cached {b b' : Books} (h : Path env n₀ job b b') (hb : b.Cached) : b'.Cached := by
  refine h.invariant (fun b₁ b₂ hact h₁ => ?_) hb
  have hgrow : ∀ (e : RecentEntry) (ev : MeshEvent), e ∈ b₁.recent.entries → e.id = packetId e.packet ∧
      (.took e.packet ∈ ev :: b₁.trace ∨ e.packet.msgType ≠ .nimiqTxReceipt) := fun e ev he =>
    ⟨(h₁ e he).1, (h₁ e he).2.imp (List.mem_cons_of_mem _) id⟩
  cases hact with
  | took p =>
    intro e he
    rw [Books.take_recent] at he
    rw [Books.take_trace]
    exact hgrow e _ he
  | keep p nowMs hp =>
    intro e he
    rcases RecentCache.mem_insert he with he | rfl
    · exact h₁ e he
    · exact ⟨rfl, hp⟩
  | prune recent hsub => exact fun e he => h₁ e (hsub e he)
  | own p => exact fun e => hgrow e _
  | offer txId nowMs => exact fun e => hgrow e _
  | hand ctx answer => exact fun e => hgrow e _
  | sent peer frame kind => exact fun e => hgrow e _
  | _ => exact h₁

end

namespace MeshNode

/-! ### The answer -/

theorem of_mem_answers {env : NodeEnv} {peer : Link} {bytes : Bytes} {n : MeshNode} {p r : Packet}
    {filter : GcsFilter} (hdec : decode bytes = .ok p) (hf : GcsFilter.fromBytes p.payload = some filter)
    (hr : r ∈ n.answers env (some peer) bytes) : (n.admitPeer env (some peer)).1 = true ∧
      r ∈ ((n.admitPeer env (some peer)).2.recent.missing filter ((n.admitPeer env (some peer)).2.now env)).1 := by
  unfold answers at hr
  rw [hdec] at hr
  dsimp only at hr
  rw [hf] at hr
  split_ifs at hr with hc
  · rw [Bool.and_eq_true, Bool.and_eq_true] at hc
    exact ⟨hc.1.1, hr⟩
  · cases hr

theorem sendMissing_sends {peer : Link} {p : Packet} {frame : Bytes}
    (hframe : encode { p with flags := { p.flags with isRsr := true } } = .ok frame) {missing : List Packet}
    (hp : p ∈ missing) (n : MeshNode) : ∃ add, (missing.foldl (sendMissing peer) n).io.trace = add ++ n.io.trace ∧
      .sent peer frame .reply n.cachedHead ∈ add := by
  have hone : ∀ (m : MeshNode) (q : Packet), ∃ add, (m.sendMissing peer q).io.trace = add ++ m.io.trace ∧
      (m.sendMissing peer q).cachedHead = m.cachedHead := by
    intro m q
    unfold sendMissing
    split
    · exact ⟨[.sent peer _ .reply m.cachedHead], rfl, rfl⟩
    · exact ⟨[], rfl, rfl⟩
  have hall : ∀ (qs : List Packet) (m : MeshNode), ∃ add,
      (qs.foldl (sendMissing peer) m).io.trace = add ++ m.io.trace := by
    intro qs
    induction qs with
    | nil => exact fun _ => ⟨[], rfl⟩
    | cons q qs ih =>
      intro m
      obtain ⟨add, htrace⟩ := ih (m.sendMissing peer q)
      obtain ⟨first, hfirst, -⟩ := hone m q
      exact ⟨add ++ first, by rw [List.foldl_cons, htrace, hfirst, List.append_assoc]⟩
  induction missing generalizing n with
  | nil => cases hp
  | cons q qs ih =>
    obtain ⟨first, hfirst, hhead⟩ := hone n q
    rcases List.mem_cons.mp hp with rfl | hp
    · obtain ⟨add, htrace⟩ := hall qs (n.sendMissing peer p)
      have hsend : (n.sendMissing peer p).io.trace = .sent peer frame .reply n.cachedHead :: n.io.trace := by
        unfold sendMissing
        rw [hframe]
        rfl
      refine ⟨add ++ [.sent peer frame .reply n.cachedHead], by rw [List.foldl_cons, htrace, hsend]; simp, ?_⟩
      exact List.mem_append_right _ (List.mem_singleton_self _)
    · obtain ⟨add, htrace, hmem⟩ := ih hp (n.sendMissing peer q)
      refine ⟨add ++ first, by rw [List.foldl_cons, htrace, hfirst, List.append_assoc], ?_⟩
      rw [hhead] at hmem
      exact List.mem_append_left _ hmem

/-- A request that is admitted and parses is answered with what the cache has and the filter does not cover. -/
theorem request_answered {env : NodeEnv} {n : MeshNode} (hbuf : n.books.Buffered) {peer : Link} {request frame : Bytes}
    {p q : Packet} {filter : GcsFilter} (hadm : (n.admitPeer env (some peer)).1 = true)
    (hdec : decode request = .ok p) (hrsr : p.flags.isRsr = false) (hsync : p.msgType = .requestSync)
    (hf : GcsFilter.fromBytes p.payload = some filter)
    (hq : q ∈ ((n.admitPeer env (some peer)).2.recent.missing filter ((n.admitPeer env (some peer)).2.now env)).1)
    (hframe : encode { q with flags := { q.flags with isRsr := true } } = .ok frame) :
    ∃ head, .sent peer frame .reply head ∈ n.news env (.inbound (some peer) request) := by
  have hbooks := admitPeer_books env (some peer) n
  have hin := processInbound_admitted (n := n) hadm hdec
  generalize (n.admitPeer env (some peer)).2 = m at hbooks hq hin
  have hstep : n.step env (.inbound (some peer) request) = (m.receivePacket env p (some peer)).swapFastTick env := by
    rw [step, hin]
  have hrecv : m.receivePacket env p (some peer) = (m.recent.missing filter (m.now env)).1.foldl (sendMissing peer)
      { m.ask with recent := (m.recent.missing filter (m.now env)).2 } := by
    unfold receivePacket handleRequestSync
    rw [if_neg (by rw [hrsr]; decide), if_pos hsync, hf]
  obtain ⟨add, htrace, hmem⟩ := sendMissing_sends hframe hq
    { m.ask with recent := (m.recent.missing filter (m.now env)).2 }
  have hpath : Path env n (.inbound (some peer) request) n.books (n.processInbound env (some peer) request).books :=
    processInbound_path n hbuf
  rw [hin] at hpath
  have htick : Path env n .swapFastTick (m.receivePacket env p (some peer)).books
      ((m.receivePacket env p (some peer)).swapFastTick env).books := swapFastTick_path _ (hpath.buffered hbuf)
  obtain ⟨more, hmore⟩ := htick.trace_grows
  have hm : m.io.trace = n.io.trace := congrArg Books.trace hbooks
  have hnews : (n.step env (.inbound (some peer) request)).io.trace = (more ++ add) ++ n.io.trace := by
    have hmore : ((m.receivePacket env p (some peer)).swapFastTick env).io.trace =
        more ++ (m.receivePacket env p (some peer)).io.trace := hmore
    rw [hstep, hmore, hrecv, htrace, List.append_assoc]
    exact congrArg (fun l => more ++ (add ++ l)) hm
  refine ⟨m.cachedHead, ?_⟩
  rw [news_eq hnews]
  exact List.mem_append_right _ hmem

/-! ### The origin -/

theorem dispatchPacket_receipt {p : Packet} (hty : p.msgType = .nimiqTxReceipt) (env : NodeEnv) (src : Option Link)
    (n : MeshNode) : n.dispatchPacket env p src = n.handleReceipt env p src := by
  refine dispatchPacket_last ?_
  unfold dispatchOnce
  rw [hty]

/-- A receipt that is news closes the payment it names. -/
theorem handleReceipt_decides (env : NodeEnv) {p : Packet} (src : Option Link) {txId : TxId} {status : ReceiptStatus}
    (hpay : decodeReceipt p.payload = some (txId, status)) {n : MeshNode}
    (hnew : relayKey p ∉ n.relaySeen.order) (ht : (n.ledger.lookup txId).isSome) :
    (n.handleReceipt env p src).ledger.status txId ≠ .pending := by
  have hfst : (n.relaySeen.insert (relayKey p)).1 = true := by
    rw [DedupCache.insert_fst]
    simpa using hnew
  unfold handleReceipt firstSeen
  dsimp only
  rw [hfst, hpay]
  simp only [Bool.not_true, Bool.false_eq_true, if_false, if_true]
  rw [relayOnward_eq]
  intro hpend
  have hpend : (n.ledger.settle txId status.payment).status txId = .pending := hpend
  rw [SettlementLedger.status_settle] at hpend
  split_ifs at hpend with hc
  · exact status.payment_ne_pending hpend
  · exact hc ⟨rfl, ht, hpend⟩

/-- STEP: a receipt that is sent in answer to a request and is news to the origin closes the payment. -/
theorem reply_decides (env : NodeEnv) {o : MeshNode} (hbuf : o.books.Buffered) {src : Option Link} {frame : Bytes}
    {q : Packet} {txId : TxId} {status : ReceiptStatus} (hdec : decode frame = .ok q) (hrsr : q.flags.isRsr = true)
    (hty : q.msgType = .nimiqTxReceipt) (hpay : decodeReceipt q.payload = some (txId, status))
    (hadm : (o.admitPeer env src).1 = true) (hnew : relayKey q ∉ o.relaySeen.order)
    (ht : (o.ledger.lookup txId).isSome) : (o.step env (.inbound src frame)).ledger.status txId ≠ .pending := by
  have hbooks := admitPeer_books env src o
  have hin := processInbound_admitted hadm hdec
  have hpath : Path env o (.inbound src frame) o.books (o.processInbound env src frame).books :=
    processInbound_path o hbuf
  have htick : Path env o .swapFastTick (o.processInbound env src frame).books
      (o.step env (.inbound src frame)).books := swapFastTick_path _ (hpath.buffered hbuf)
  refine htick.ledger_extends.decided ?_
  change (o.processInbound env src frame).ledger.status txId ≠ .pending
  rw [hin]
  generalize (o.admitPeer env src).2 = m at hbooks
  have hseen : m.relaySeen = o.relaySeen := congrArg Books.relaySeen hbooks
  have hledger : m.ledger = o.ledger := congrArg Books.ledger hbooks
  unfold receivePacket
  rw [if_pos hrsr]
  generalize hq' : ({ q with flags := { q.flags with isRsr := false }, ttl := 0 } : Packet) = q'
  have hty' : q'.msgType = .nimiqTxReceipt := by rw [← hq']; exact hty
  have hkey : relayKey q' = relayKey q := by rw [← hq']; rfl
  have hpay' : decodeReceipt q'.payload = some (txId, status) := by rw [← hq']; exact hpay
  rw [dispatchPacket_receipt hty']
  refine handleReceipt_decides env none hpay' ?_ ?_
  · rw [hkey]
    exact hseen ▸ hnew
  · exact hledger ▸ ht

/-- RUN: after any run of a node, a peer that asks it for what it lacks is sent a receipt exactly when the
    request is admitted and the receipt has come back to the node as news and is still in its cache; and an
    origin that lets that answer in is no longer in doubt about its payment. -/
theorem receipt_recovered_iff (env : NodeEnv) {n : MeshNode} (hn : n.Started) (jobs : List Job) {peer : Link}
    {request : Bytes} {p r : Packet} {filter : GcsFilter} {txId : TxId} {status : ReceiptStatus}
    (hdec : decode request = .ok p) (hrsr : p.flags.isRsr = false) (hsync : p.msgType = .requestSync)
    (hf : GcsFilter.fromBytes p.payload = some filter) (hr : r.msgType = .nimiqTxReceipt)
    (hpay : r.payload = encodeReceipt txId status) (hnew : filter.contains (packetId r) = false) :
    (n.exec env jobs).Recovers env peer request r txId ↔
      ((n.exec env jobs).admitPeer env (some peer)).1 = true ∧ (n.exec env jobs).HeardBack env peer r := by
  have hbuf := exec_buffered env n jobs hn.buffered
  have hcached : (n.exec env jobs).books.Cached := by
    refine (Run.exec_preserves (step env) (I := fun m => m.books.Cached ∧ m.books.Buffered) ?_ jobs n
      ⟨fun e he => ?_, hn.buffered⟩).1
    · rintro m job ⟨hm, hb⟩
      exact ⟨(step_path env m job hb).cached hm, step_buffered env m job hb⟩
    · rw [show n.books.recent.entries = [] from hn.recent] at he
      cases he
  generalize n.exec env jobs = m at hbuf hcached ⊢
  have hrecent : (m.admitPeer env (some peer)).2.recent = m.recent :=
    congrArg Books.recent (admitPeer_books env (some peer) m)
  constructor
  · rintro ⟨⟨frame, head, q, hsent, hq, -, hsame⟩, -⟩
    obtain ⟨a, ha, hframe⟩ : ∃ a ∈ m.answers env (some peer) request,
        encode { a with flags := { a.flags with isRsr := true } } = .ok frame := by
      obtain ⟨_, hsend⟩ := sends_guarded hbuf hsent
      cases hsend with
      | reply a bytes hjob ha _ hframe =>
        cases hjob
        exact ⟨a, ha, hframe⟩
    obtain rfl := eq_of_decode_encode hframe hq
    obtain ⟨hadm, ha⟩ := of_mem_answers hdec hf ha
    obtain ⟨e, he, rfl⟩ := List.mem_map.mp ha
    have he : e ∈ ((m.admitPeer env (some peer)).2.recent.gc ((m.admitPeer env (some peer)).2.now env)).entries :=
      (List.mem_filter.mp he).1
    have hkept : e ∈ m.recent.entries := by
      rw [← hrecent]
      exact (List.dropWhile_sublist _).subset he
    have hty : e.packet.msgType = .nimiqTxReceipt := hsame.msgType.trans hr
    refine ⟨hadm, e, he, (hcached e hkept).2.resolve_right (fun hne => hne hty), ?_, hsame⟩
    exact ⟨(wellFormed_of_decode hq).1, (wellFormed_of_decode hq).2⟩
  · rintro ⟨hadm, e, he, -, hwf, hsame⟩
    have hkept : e ∈ m.recent.entries := by
      rw [← hrecent]
      exact (List.dropWhile_sublist _).subset he
    obtain ⟨frame, hframe⟩ : ∃ frame, encode { e.packet with flags := { e.packet.flags with isRsr := true } } =
        .ok frame := encode_ok hwf.2
    refine ⟨⟨frame, ?_⟩, ?_⟩
    · have hmissing : e.packet ∈ ((m.admitPeer env (some peer)).2.recent.missing filter
          ((m.admitPeer env (some peer)).2.now env)).1 := by
        refine List.mem_map_of_mem (List.mem_filter.mpr ⟨he, ?_⟩)
        rw [(hcached e hkept).1, hsame.packetId, hnew]
        rfl
      obtain ⟨head, hsent⟩ := request_answered hbuf hadm hdec hrsr hsync hf hmissing hframe
      exact ⟨head, _, hsent, decode_encode (by exact hwf.1) hframe, rfl, hsame⟩
    · rintro frame ⟨head, q, -, hq, hqrsr, hsame⟩ env' o src before after hobuf ht hoadm honew
      have hpay' : decodeReceipt q.payload = some (txId, status) := by
        rw [hsame.2, hpay, decodeReceipt_encodeReceipt]
      have hbuf' := exec_buffered env' o before hobuf
      have ht' := (ledger_extends_exec env' o before hobuf).tracked ht
      have hdecided := reply_decides env' hbuf' hq hqrsr (hsame.msgType.trans hr) hpay' hoadm
        (by rw [hsame.1]; exact honew) ht'
      have hexec : o.exec env' (before ++ .inbound src frame :: after) =
          ((o.exec env' before).step env' (.inbound src frame)).exec env' after :=
        Run.exec_append (step env') o before (.inbound src frame :: after)
      rw [hexec]
      exact (ledger_extends_exec env' _ after (step_buffered env' _ _ hbuf')).decided hdecided

end MeshNode

/-- The frame of an event that sends a receipt. -/
def MeshEvent.receiptFrame : MeshEvent → Option Bytes
  | .sent _ frame _ _ =>
    if (decode frame).toOption.any fun p => p.msgType = .nimiqTxReceipt then some frame else none
  | _ => none

namespace Sample

/-- The receipt that the sample gateway builds for the sample payment. -/
def ownReceipt : Packet :=
  { receiptOf ⟨mockTxId paymentWire, .accepted⟩ 77 with senderId := meshNode.senderId, recipientId := some broadcastRecipient }

/-- A sync request of a node that has nothing. -/
def request : Bytes := frame (meshPacket .requestSync (GcsFilter.build []).toBytes 7)

end Sample

open Sample in
/-- The sample gateway submits the payment and floods its receipt while the origin is away; asked for it a
    moment later, it sends no receipt. -/
theorem own_receipt_not_recovered :
    let n := meshNode.exec (gatewayEnv chainRpc) [.peerConnected "a", .inbound (some "a") (frame (payment 1))]
    paymentWire ∈ n.io.trace.filterMap MeshEvent.answeredWire ∧
      n.io.trace.filterMap MeshEvent.receiptFrame = [frame ownReceipt] ∧
      ¬ n.Recovers (gatewayEnv chainRpc) "b" request ownReceipt (mockTxId paymentWire) := by
  intro n
  refine ⟨by decide +kernel, by decide +kernel, fun h => ?_⟩
  obtain ⟨frame, head, q, hsent, hq, -, hsame⟩ := h.replies
  have hnone : (n.news (gatewayEnv chainRpc) (.inbound (some "b") request)).filterMap MeshEvent.receiptFrame = [] := by
    decide +kernel
  have hframe : MeshEvent.receiptFrame (.sent "b" frame .reply head) = some frame := by
    rw [MeshEvent.receiptFrame, hq]
    refine if_pos ?_
    exact decide_eq_true (hsame.msgType.trans rfl)
  have hmem : frame ∈ (n.news (gatewayEnv chainRpc) (.inbound (some "b") request)).filterMap MeshEvent.receiptFrame :=
    List.mem_filterMap.mpr ⟨_, hsent, hframe⟩
  rw [hnone] at hmem
  cases hmem

open Sample in
/-- The sample gateway is asked for a receipt that it has heard from another gateway. -/
theorem sample_receipt_recovered :
    (meshNode.exec (gatewayEnv chainRpc) [.inbound (some "a") (frame (receiptOf ⟨mockTxId paymentWire, .accepted⟩ 5))]).Recovers
        (gatewayEnv chainRpc) "b" request (receiptOf ⟨mockTxId paymentWire, .accepted⟩ 5) (mockTxId paymentWire) ↔
      ((meshNode.exec (gatewayEnv chainRpc) [.inbound (some "a") (frame (receiptOf ⟨mockTxId paymentWire, .accepted⟩ 5))]).admitPeer
        (gatewayEnv chainRpc) (some "b")).1 = true ∧
      (meshNode.exec (gatewayEnv chainRpc) [.inbound (some "a") (frame (receiptOf ⟨mockTxId paymentWire, .accepted⟩ 5))]).HeardBack
        (gatewayEnv chainRpc) "b" (receiptOf ⟨mockTxId paymentWire, .accepted⟩ 5) :=
  MeshNode.receipt_recovered_iff (p := meshPacket .requestSync (GcsFilter.build []).toBytes 7) (gatewayEnv chainRpc)
    started_meshNode [.inbound (some "a") (frame (receiptOf ⟨mockTxId paymentWire, .accepted⟩ 5))] (by decide +kernel) rfl rfl
    (by decide +kernel : GcsFilter.fromBytes (GcsFilter.build []).toBytes = some ⟨0, []⟩) rfl rfl (by decide +kernel)

end Nimmesh
