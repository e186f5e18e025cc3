import Nimmesh.Mesh.Coverage
import Nimmesh.Mesh.CatchUp
import Nimmesh.Mesh.Submission

/-! @src engine.rs settlement.rs gateway.rs relay.rs | name:A payment comes home | layer:properties

    The round trip that the mesh is for: a payment is flooded by a node without internet, a gateway hands it to the
    chain as it was signed, and floods the receipt; the receipt comes back and the payment is no longer in doubt. Each
    way is a flood, and a net of at most eight connected nodes is covered by it, whatever the order of arrivals. -/

namespace Nimmesh

namespace MeshNode

/-! ### The gateway's step -/

/-- The receipt packet that a gateway would build now. -/
def receiptPacket (txId : TxId) (status : ReceiptStatus) (n : MeshNode) : Packet :=
  (n.buildPacket .nimiqTxReceipt (encodeReceipt txId status)).1

theorem encode_receiptPacket (txId : TxId) (status : ReceiptStatus) (n : MeshNode) :
    ∃ frame, encode (n.receiptPacket txId status) = .ok frame := by
  refine encode_ok ?_
  have hid : txId.1.length = 32 := txId.2
  change (txId.1 ++ [status.code]).length ≤ maxPayloadLen
  rw [List.length_append, hid, List.length_singleton]
  decide

/-- Handing a payment over for the first time: the gateway gets it as it is, and every peer gets the receipt. -/
theorem submit_answers (env : NodeEnv) (gw : MeshGateway) {e : NimiqEnvelope} {status : ReceiptStatus} {n : MeshNode}
    (hnew : claimedId e ∉ n.gatewaySeen.order)
    (hans : gw.submitValidated n.io.asked (submitContext e) = .ok ⟨claimedId e, status⟩) {frame : Bytes}
    (hframe : encode (n.receiptPacket (claimedId e) status) = .ok frame) :
    ∃ add, (n.submit env gw e (claimedId e)).io.trace = add ++ n.io.trace ∧
      .handed (submitContext e) (.ok ⟨claimedId e, status⟩) ∈ add ∧
      ∀ peer ∈ n.peers, .sent peer frame .own n.cachedHead ∈ add := by
  have hfst : (n.gatewaySeen.insert (claimedId e)).1 = true := by
    rw [DedupCache.insert_fst]
    simpa using hnew
  have hans' : gw.submitValidated n.io.asked ⟨claimedId e, e.txWire, e.networkId, e.validUntil⟩ =
      .ok ⟨claimedId e, status⟩ := hans
  unfold submit
  dsimp only
  rw [hfst]
  simp only [Bool.not_true, Bool.false_eq_true, if_false]
  rw [show ({ n with gatewaySeen := (n.gatewaySeen.insert (claimedId e)).2 } : MeshNode).io.asked = n.io.asked from rfl,
    hans']
  dsimp only
  generalize hm : ({ n with gatewaySeen := (n.gatewaySeen.insert (claimedId e)).2 }.ask.log
    (.handed ⟨claimedId e, e.txWire, e.networkId, e.validUntil⟩ (.ok ⟨claimedId e, status⟩)) : MeshNode) = m
  have htrace : m.io.trace = .handed (submitContext e) (.ok ⟨claimedId e, status⟩) :: n.io.trace := by
    rw [← hm]
    rfl
  have hreply : (m.buildPacket .nimiqTxReceipt (encodeReceipt (claimedId e) status)).1 =
      n.receiptPacket (claimedId e) status := by
    rw [← hm]
    rfl
  have hrest : m.peers = n.peers ∧ m.cachedHead = n.cachedHead := by
    rw [← hm]
    exact ⟨rfl, rfl⟩
  rw [hreply, floodPacket, hframe]
  dsimp only
  generalize hk : markOwn (n.receiptPacket (claimedId e) status)
    (m.buildPacket .nimiqTxReceipt (encodeReceipt (claimedId e) status)).2 = k
  obtain ⟨mark, hmark⟩ : m.io.trace <:+ k.io.trace := by
    rw [← hk]
    exact (keeps_markOwn _ _).trace
  have hkept : k.peers = m.peers ∧ k.cachedHead = m.cachedHead := by
    rw [← hk]
    exact ⟨rfl, rfl⟩
  obtain ⟨add, hadd, -, hsent⟩ := flood_sends env frame k
  refine ⟨add ++ mark ++ [.handed (submitContext e) (.ok ⟨claimedId e, status⟩)], ?_, by simp, fun peer hpeer => ?_⟩
  · rw [hadd, ← hmark, htrace]
    simp only [List.append_assoc, List.singleton_append]
  · rw [← hrest.2, ← hkept.2]
    rw [← hrest.1, ← hkept.1] at hpeer
    exact List.mem_append_left _ (List.mem_append_left _ (hsent peer hpeer))

/-- A payment that is taken up is handed to the gateway, and then relayed. -/
theorem handleTx_submits {env : NodeEnv} {gw : MeshGateway} {p : Packet} {e : NimiqEnvelope} (src : Option Link)
    {n : MeshNode} (hgw : env.gateway = some gw) (hty : p.msgType = .nimiqTx) (henv : decodeEnvelope p.payload = .ok e)
    (hnew : relayKey p ∉ n.relaySeen.order) (hw : n.willing env p = true) : n.handleTx env p src =
      (((n.firstSeen p).2.remember env p).submit env gw e (claimedId e)).relayOnward env p src := by
  have hfresh := firstSeen_of_notMem hnew
  rw [willing, if_pos hty] at hw
  simp only [Bool.and_eq_true, Bool.not_eq_true', henv, Except.toOption, Option.any_some] at hw
  obtain ⟨hexp, hsig, hack⟩ := hw
  have hexp' : isExpired (n.firstSeen p).2.cachedHead (txValidUntil p) = false := hexp
  have hsig' : ((n.firstSeen p).2.verifyBeforeRelay && !verifyBasicWire env.toCrypto e.txWire) = false := hsig
  have hack' : (n.firstSeen p).2.acked.contains (claimedId e) = false := hack
  simp only [handleTx, hfresh, hexp', henv, Except.toOption, Option.any_some, hsig', hack', hgw, Bool.not_true,
    Bool.false_eq_true, if_false]

/-- STEP: a gateway that takes a payment up hands it over and floods the receipt. -/
theorem step_answers {env : NodeEnv} {gw : MeshGateway} {p : Packet} {e : NimiqEnvelope} {status : ReceiptStatus}
    {src : Option Link} {bytes : Bytes} {n : MeshNode} (hgw : env.gateway = some gw)
    (hans : ∀ i, gw.submitValidated i (submitContext e) = .ok ⟨claimedId e, status⟩) (hty : p.msgType = .nimiqTx)
    (hrsr : p.flags.isRsr = false) (henv : decodeEnvelope p.payload = .ok e) (hdec : decode bytes = .ok p)
    (htaken : n.TakesUp env p src) (hnew : ¬ n.Knows p) (hunhanded : claimedId e ∉ n.gatewaySeen.order)
    {frame : Bytes} (hframe : encode (n.receiptPacket (claimedId e) status) = .ok frame) :
    .handed (submitContext e) (.ok ⟨claimedId e, status⟩) ∈ n.news env (.inbound src bytes) ∧
    ∀ peer ∈ n.peers, ∃ head, .sent peer frame .own head ∈ n.news env (.inbound src bytes) := by
  have hbooks := admitPeer_books env src n
  have hgate := poised_admitPeer env src n
  have hwill : (n.admitPeer env src).2.willing env p = true := by
    cases src with
    | none => exact htaken.willing
    | some peer => exact htaken.willing
  have hreceipt : (n.admitPeer env src).2.receiptPacket (claimedId e) status =
      n.receiptPacket (claimedId e) status := by
    cases src with
    | none => rfl
    | some peer => rfl
  have hstep := step_dispatch htaken.admitted hdec hrsr (by rw [hty]; decide)
  generalize (n.admitPeer env src).2 = m at hbooks hgate hwill hreceipt hstep
  have hseen : relayKey p ∉ m.relaySeen.order := by
    rw [show m.relaySeen = n.relaySeen from congrArg Books.relaySeen hbooks]
    exact hnew
  have hkept := (poised_firstSeen p m).trans (poised_remember env p _)
  -- what the gate and the cache leave alone is as it was before the step
  obtain ⟨add, hadd, hhanded, hsent⟩ := submit_answers env gw (n := (m.firstSeen p).2.remember env p)
    (by
      rw [show ((m.firstSeen p).2.remember env p).gatewaySeen = n.gatewaySeen from congrArg Books.gatewaySeen hbooks]
      exact hunhanded)
    (hans _) (hreceipt ▸ hframe)
  obtain ⟨before, hbefore⟩ := (hgate.trans hkept).trace
  have hhandle := handleTx_submits src hgw hty henv hseen hwill
  have honce : m.dispatchOnce env p src = (none, m.handleTx env p src) := by
    rw [dispatchOnce, hty]
  have hrelay : add ++ before ++ n.io.trace <:+ (m.dispatchOnce env p src).2.io.trace := by
    rw [honce, hhandle, List.append_assoc, hbefore, ← hadd]
    exact (keeps_relayOnward env p src _).trace
  obtain ⟨after, hafter⟩ := (hrelay.trans (trace_dispatchPacket env p src m)).trans (poised_swapFastTick env _).trace
  have hnews : n.news env (.inbound src bytes) = after ++ (add ++ before) := by
    refine news_eq ?_
    rw [hstep, ← hafter]
    simp only [List.append_assoc]
  rw [hnews]
  refine ⟨List.mem_append_right _ (List.mem_append_left _ hhanded), fun peer hpeer => ?_⟩
  have hpeer' : peer ∈ ((m.firstSeen p).2.remember env p).peers := (hgate.trans hkept).peers ▸ hpeer
  exact ⟨_, List.mem_append_right _ (List.mem_append_left _ (hsent peer hpeer'))⟩

/-! ### The origin's step -/

/-- STEP: a receipt that comes in and is news closes the payment it names. -/
theorem step_decides {env : NodeEnv} {r : Packet} {txId : TxId} {status : ReceiptStatus} {src : Option Link}
    {bytes : Bytes} {n : MeshNode} (hbuf : n.books.Buffered) (hadm : (n.admitPeer env src).1 = true)
    (hdec : decode bytes = .ok r) (hrsr : r.flags.isRsr = false) (hty : r.msgType = .nimiqTxReceipt)
    (hpay : decodeReceipt r.payload = some (txId, status)) (hnew : ¬ n.Knows r) (ht : (n.ledger.lookup txId).isSome) :
    (n.step env (.inbound src bytes)).ledger.status txId ≠ .pending := by
  have hbooks := admitPeer_books env src n
  have hpath : Path env n (.inbound src bytes) n.books (n.processInbound env src bytes).books :=
    processInbound_path n hbuf
  have htick : Path env n .swapFastTick (n.processInbound env src bytes).books
      (n.step env (.inbound src bytes)).books := swapFastTick_path _ (hpath.buffered hbuf)
  refine htick.ledger_extends.decided ?_
  change (n.processInbound env src bytes).ledger.status txId ≠ .pending
  rw [processInbound_admitted hadm hdec, receivePacket, if_neg (by simp [hrsr]), if_neg (by rw [hty]; decide),
    dispatchPacket_receipt hty]
  refine handleReceipt_decides env src hpay ?_ ?_
  · rw [show (n.admitPeer env src).2.relaySeen = n.relaySeen from congrArg Books.relaySeen hbooks]
    exact hnew
  · rw [show (n.admitPeer env src).2.ledger = n.ledger from congrArg Books.ledger hbooks]
    exact ht

end MeshNode

/-! ### There and back -/

namespace RadioNet

open MeshNode (claimedId submitContext)

variable {ν : Type*} [DecidableEq ν] {L : Links ν} {env : ν → NodeEnv} {s : RadioNet ν}

/-- RUN: what a node's ledger holds only grows, in any net. -/
theorem ledger_extends_after (L : Links ν) (env : ν → NodeEnv) (ops : ℕ → RadioOp ν) {j K : ℕ} (hjK : j ≤ K)
    (hbuf : (s.after L env ops j).mesh.Buffered) (v : ν) :
    ((s.after L env ops j).nodes v).ledger.Extends ((s.after L env ops K).nodes v).ledger ∧
      (s.after L env ops K).mesh.Buffered := by
  induction K, hjK using Nat.le_induction with
  | base => exact ⟨.refl _, hbuf⟩
  | succ K hjK ih =>
    obtain ⟨hext, hbuf'⟩ := ih
    refine ⟨?_, buffered_next hbuf' K (ops K)⟩
    rcases next_nodes L env (s.after L env ops K) K (ops K) v with hsame | ⟨job, -, hstep⟩
    · rw [after, hsame]
      exact hext
    · rw [after, hstep]
      exact hext.trans (MeshNode.step_path (env v) _ job (hbuf' v)).ledger_extends

/-- In a net of at most eight connected nodes, a flood that has ended has come to every node. -/
theorem Launched.everyone [Fintype ν] (hsize : Fintype.card ν ≤ 8) {p : Packet} {o : ν} {ops : ℕ → RadioOp ν} {a K : ℕ}
    (haK : a ≤ K) (h : (s.after L env ops a).Launched p o) (hbuf : (s.after L env ops a).mesh.Buffered)
    (hrsr : p.flags.isRsr = false) (hsync : p.msgType ≠ .requestSync)
    (hconn : ∀ v, Relation.ReflTransGen ((s.after L env ops a).Linked L) o v)
    (hrun : ∀ k, a ≤ k → k < K → (s.after L env ops k).Undisturbed L env p k (ops k))
    (hdone : ∀ h ∈ (s.after L env ops K).air, ∀ ttl, ¬ h.Copies p ttl) {v : ν} (hv : v ≠ o) :
    ∃ k, a ≤ k ∧ k < K ∧ ∃ src bytes ttl, (s.after L env ops k).Arrives L p (ops k) v src bytes ttl := by
  obtain ⟨-, reached, hspread, hreached⟩ := Launched.spreading_after haK h hbuf hrsr hsync hrun
  have hall : v ∈ reached := by
    rcases (copies_eq_empty (L := L) hdone ▸ hspread.inv).covers with hcov | hlen
    · exact hcov v (hconn v)
    · have hcard : reached.toFinset.card = Fintype.card ν := by
        refine le_antisymm (Finset.card_le_univ _) ?_
        rw [List.toFinset_card_of_nodup hspread.inv.nodup]
        exact hsize.trans hlen
      exact List.mem_toFinset.mp (Finset.eq_univ_of_card _ hcard ▸ Finset.mem_univ v)
  exact (hreached v hall).resolve_left hv

/-- The gateway `g` takes a payment up in step `k`, for the first time, and the flood of its receipt is left alone. -/
structure Returning (L : Links ν) (env : ν → NodeEnv) (ops : ℕ → RadioOp ν) (K : ℕ) (g : ν) (txId : TxId) (r : Packet)
    (s : RadioNet ν) (k : ℕ) : Prop where
  unhanded : txId ∉ ((s.after L env ops k).nodes g).gatewaySeen.order
  -- the receipt's key is new to the net, and only the gateway remembers it after the step
  silent : ∀ h ∈ (s.after L env ops k).air, ∀ ttl, ¬ h.Copies r ttl
  heard : ∀ v, ((s.after L env ops (k + 1)).nodes v).Knows r ↔ v = g
  full : ∀ h ∈ (s.after L env ops k).sends L env k (ops k), ∀ ttl, h.flight.kind = .own → h.Copies r ttl →
    7 ≤ ttl.toNat
  back : ∀ j, k < j → j < K → (s.after L env ops j).Undisturbed L env r j (ops j)
  done : ∀ h ∈ (s.after L env ops K).air, ∀ ttl, ¬ h.Copies r ttl

/-- The receipt that a gateway has flooded is launched. -/
theorem Returning.launched {ops : ℕ → RadioOp ν} {K k : ℕ} {g : ν} {txId : TxId} {p r : Packet}
    (h : s.Returning L env ops K g txId r k) (hbuf : (s.after L env ops k).mesh.Buffered) (hrsr : r.flags.isRsr = false)
    (hne : p.msgType ≠ r.msgType) {src : Option Link} {bytes frame : Bytes} {ttl : UInt8}
    (hb : (s.after L env ops k).Brings L p (ops k) g src bytes ttl) (hframe : decode frame = .ok { r with ttl := 7 })
    (hsent : ∀ peer ∈ ((s.after L env ops k).nodes g).peers, ∃ head, .sent peer frame .own head ∈
      ((s.after L env ops k).nodes g).news (env g) (.inbound src bytes)) :
    (s.after L env ops (k + 1)).Launched r g where
  knows := h.heard
  copies := by
    intro f hf t hcopy
    rcases List.mem_append.mp hf with hf | hf
    · obtain ⟨v, job, htask, hv, htrans⟩ := mem_sends hf
      cases hb.task.symm.trans htask
      refine ⟨hv, ?_⟩
      rcases copy_of_transmission (hbuf g) hrsr htrans hcopy with hown | ⟨src', bytes', t', hjob, hdec, -⟩
      · exact h.full f hf t hown hcopy
      · -- what came in is the payment, so no receipt is relayed in this step
        cases hjob
        have := Except.ok.inj (hb.copy.symm.trans hdec)
        exact absurd (congrArg (·.msgType) this) hne
    · exact absurd hcopy (h.silent f (mem_of_mem_rest hf) t)
  sent := by
    intro peer hpeer
    have hpeers : (((s.after L env ops k).nodes g).step (env g) (.inbound src bytes)).peers =
        ((s.after L env ops k).nodes g).peers := MeshNode.step_peers (hbuf g) fun _ => ⟨by simp, by simp⟩
    rw [after, next_nodes_task k hb.task, hpeers] at hpeer
    obtain ⟨head, hmem⟩ := hsent peer hpeer
    obtain ⟨f, hf, hs, hp, hfr⟩ := exists_sends (k := k) hb.task
      (List.mem_filterMap.mpr ⟨.sent peer frame .own head, hmem, rfl⟩)
    refine ⟨f, List.mem_append_left _ hf, hs, hp, 7, ?_⟩
    rw [Hop.Copies, hfr]
    exact hframe

/-- RUN: in a net of at most eight connected nodes, one of them a gateway, a flooded payment is handed to the chain as
    it was signed, and its origin is no longer in doubt: whatever the order of arrivals, when the flood of the payment
    and that of the receipt have ended and nothing has disturbed them. -/
theorem payment_answered [Fintype ν] (hsize : Fintype.card ν ≤ 8) (L : Links ν) (env : ν → NodeEnv) {p : Packet}
    {e : NimiqEnvelope} (hty : p.msgType = .nimiqTx) (hrsr : p.flags.isRsr = false)
    (henv : decodeEnvelope p.payload = .ok e) {o g : ν} (hgo : g ≠ o) (gw : MeshGateway)
    (hgw : (env g).gateway = some gw) {status : ReceiptStatus}
    (hans : ∀ i, gw.submitValidated i (submitContext e) = .ok ⟨claimedId e, status⟩) {s : RadioNet ν}
    (hbuf : s.mesh.Buffered) (hstart : s.Launched p o) (ht : ((s.nodes o).ledger.lookup (claimedId e)).isSome)
    (hconn : ∀ u v, Relation.ReflTransGen (s.Linked L) u v) (ops : ℕ → RadioOp ν) (K : ℕ)
    (hrun : ∀ k < K, (s.after L env ops k).Undisturbed L env p k (ops k))
    (hdone : ∀ h ∈ (s.after L env ops K).air, ∀ ttl, ¬ h.Copies p ttl)
    (hback : ∀ k < K, ∀ src bytes ttl, (s.after L env ops k).Arrives L p (ops k) g src bytes ttl →
      s.Returning L env ops K g (claimedId e)
        (((s.after L env ops k).nodes g).receiptPacket (claimedId e) status) k) :
    (∃ k < K, ∃ job, (s.after L env ops k).task L (ops k) = some (g, job) ∧
      .handed (submitContext e) (.ok ⟨claimedId e, status⟩) ∈ ((s.after L env ops k).nodes g).news (env g) job) ∧
    ((s.after L env ops K).nodes o).ledger.status (claimedId e) ≠ .pending := by
  have hsync : p.msgType ≠ .requestSync := by rw [hty]; decide
  -- the way there
  obtain ⟨k, -, hk, src, bytes, ttl, ha⟩ := Launched.everyone hsize (Nat.zero_le K) hstart hbuf hrsr hsync
    (hconn o) (fun k _ hk => hrun k hk) hdone hgo
  have hret := hback k hk src bytes ttl ha
  obtain ⟨hbufk, reached, hspread, -⟩ := Launched.spreading_after (Nat.zero_le k) hstart hbuf hrsr hsync
    fun j _ hj => hrun j (hj.trans hk)
  obtain ⟨frame, hframe⟩ :=
    MeshNode.encode_receiptPacket (claimedId e) status ((s.after L env ops k).nodes g)
  generalize hr : ((s.after L env ops k).nodes g).receiptPacket (claimedId e) status = r at hret hframe
  have hrty : r.msgType = .nimiqTxReceipt := by rw [← hr]; rfl
  have hrrsr : r.flags.isRsr = false := by rw [← hr]; rfl
  have hrver : r.version = version := by rw [← hr]; rfl
  have hrfull : { r with ttl := 7 } = r := by rw [← hr]; rfl
  have hrpay : decodeReceipt r.payload = some (claimedId e, status) := by
    rw [← hr]
    exact decodeReceipt_encodeReceipt _ _
  obtain ⟨hhanded, hsent⟩ := MeshNode.step_answers (p := { p with ttl }) hgw hans hty hrsr henv ha.1.copy
    ((hrun k hk).taken g src bytes ttl ha) ha.2 hret.unhanded (hr ▸ hframe)
  refine ⟨⟨k, hk, _, ha.1.task, hhanded⟩, ?_⟩
  -- the way back
  have hne : p.msgType ≠ r.msgType := by
    rw [hty, hrty]
    decide
  have hlaunched := hret.launched hbufk hrrsr hne ha.1 (by rw [hrfull]; exact decode_encode hrver hframe) hsent
  have hbufk' : (s.after L env ops (k + 1)).mesh.Buffered := buffered_next hbufk k (ops k)
  have hconn' : ∀ v, Relation.ReflTransGen ((s.after L env ops (k + 1)).Linked L) g v := by
    intro v
    refine Relation.ReflTransGen.mono (fun u w huw => ?_) _ _ (hconn g v)
    exact ((hrun k hk).linked hbufk u w).mpr ((hspread.linked u w).mpr huw)
  obtain ⟨j, hkj, hj, src', bytes', t, ha'⟩ := Launched.everyone hsize hk hlaunched hbufk' hrrsr
    (by rw [hrty]; decide) hconn' (fun j hkj hj => hret.back j hkj hj) hret.done (Ne.symm hgo)
  have htaken := (hret.back j hkj hj).taken o src' bytes' t ha'
  have hgrown := ledger_extends_after L env ops (Nat.zero_le j) hbuf o
  have hdecided := MeshNode.step_decides (r := { r with ttl := t }) (hgrown.2 o) htaken.admitted ha'.1.copy hrrsr hrty
    hrpay ha'.2 (hgrown.1.tracked ht)
  refine (ledger_extends_after L env ops hj (buffered_next hgrown.2 j (ops j)) o).1.decided ?_
  rw [after, next_nodes_task j ha'.1.task]
  exact hdecided

end RadioNet

/-! ### A payment between two nodes -/

namespace Sample

/-- One node of the pair is a gateway. -/
def payEnv (v : Bool) : NodeEnv := if v then gatewayEnv chainRpc else pairEnv v

/-- The other one has just flooded the sample payment. -/
def paying : RadioNet Bool :=
  (⟨pair.nodes, []⟩ : RadioNet Bool).next pairLinks payEnv 0 (.work false (.localTx paymentWire))

/-- The payment arrives, and then the receipt. -/
def hearsFirst (_ : ℕ) : RadioOp Bool := .arrive 0 true

def paid : Packet := (meshNode.buildPacket .nimiqTx (envelope (meshNode.localEnvelope paymentWire))).1

def receipted : Packet := meshNode.receiptPacket (mockTxId paymentWire) .accepted

def paidHop : Hop Bool := ⟨false, ⟨0, "b", frame paid, .own⟩⟩

def receiptedHop : Hop Bool := ⟨true, ⟨0, "a", frame receipted, .own⟩⟩

/-- A hop as a tuple. -/
def hopData (h : Hop Bool) : Bool × ℕ × Link × Bytes × SendKind :=
  (h.sender, h.flight.cause, h.flight.peer, h.flight.frame, h.flight.kind)

theorem hopData_injective : Function.Injective hopData := by
  rintro ⟨sender, cause, peer, frame, kind⟩ ⟨sender', cause', peer', frame', kind'⟩ h
  simp only [hopData, Prod.mk.injEq] at h
  obtain ⟨rfl, rfl, rfl, rfl, rfl⟩ := h
  rfl

theorem airs_eq {air air' : List (Hop Bool)} (h : air.map hopData = air'.map hopData) : air = air' :=
  hopData_injective.list_map h

/-- What the sample payment and its receipt do to the pair: what is on the air and what is sent, that both get past the
    checks of the node they arrive at, and which nodes know them. -/
structure PayRun : Prop where
  air : paying.air = [paidHop]
  sends : paying.sends pairLinks payEnv 0 (.arrive 0 true) = [receiptedHop]
  answeredAir : (paying.after pairLinks payEnv hearsFirst 1).air = [receiptedHop]
  answeredSends : (paying.after pairLinks payEnv hearsFirst 1).sends pairLinks payEnv 1 (.arrive 0 true) = []
  closedAir : (paying.after pairLinks payEnv hearsFirst 2).air = []
  decodePaid : decode (frame paid) = .ok paid
  decodeReceipted : decode (frame receipted) = .ok receipted
  built : (paying.nodes true).receiptPacket (MeshNode.claimedId (meshNode.localEnvelope paymentWire)) .accepted =
    receipted
  peers : ∀ v, (paying.nodes v).peers = [if v then "a" else "b"]
  unhanded : mockTxId paymentWire ∉ (paying.nodes true).gatewaySeen.order
  envelope : decodeEnvelope paid.payload = .ok (meshNode.localEnvelope paymentWire)
  tracked : ((paying.nodes false).ledger.lookup (mockTxId paymentWire)).isSome
  paidTaken : ((paying.nodes true).admitPeer (payEnv true) (some "a")).1 = true ∧
    (paying.nodes true).willing (payEnv true) paid = true ∧ (paying.nodes true).Eager paid.msgType
  receiptTaken : (((paying.after pairLinks payEnv hearsFirst 1).nodes false).admitPeer (payEnv false) (some "b")).1 =
      true ∧
    ((paying.after pairLinks payEnv hearsFirst 1).nodes false).willing (payEnv false) receipted = true ∧
    ((paying.after pairLinks payEnv hearsFirst 1).nodes false).Eager receipted.msgType
  knows : ∀ v, (paying.nodes v).Knows paid ↔ v = false
  paidKnown : ∀ v, ((paying.after pairLinks payEnv hearsFirst 1).nodes v).Knows paid ∧
    ((paying.after pairLinks payEnv hearsFirst 2).nodes v).Knows paid
  heard : ∀ v, ((paying.after pairLinks payEnv hearsFirst 1).nodes v).Knows receipted ↔ v = true
  receiptKnown : ∀ v, ((paying.after pairLinks payEnv hearsFirst 2).nodes v).Knows receipted

theorem pay_run : PayRun where
  air := airs_eq (by decide +kernel)
  sends := airs_eq (by decide +kernel)
  answeredAir := airs_eq (by decide +kernel)
  answeredSends := airs_eq (by decide +kernel)
  closedAir := airs_eq (by decide +kernel)
  decodePaid := by decide +kernel
  decodeReceipted := by decide +kernel
  built := by decide +kernel
  peers := by decide +kernel
  unhanded := by decide +kernel
  envelope := by decide +kernel
  tracked := by decide +kernel
  paidTaken := ⟨by decide +kernel, by decide +kernel, by decide +kernel⟩
  receiptTaken := ⟨by decide +kernel, by decide +kernel, by decide +kernel⟩
  knows := by
    unfold MeshNode.Knows
    decide +kernel
  paidKnown := by
    unfold MeshNode.Knows
    decide +kernel
  heard := by
    unfold MeshNode.Knows
    decide +kernel
  receiptKnown := by
    unfold MeshNode.Knows
    decide +kernel

/-- The only hop on the air arrives, and what is sent then is another packet. -/
theorem hears_undisturbed {p q : Packet} {k : ℕ} {s : RadioNet Bool} {h : Hop Bool} (hair : s.air = [h])
    (hq : decode h.flight.frame = .ok q)
    (htaken : ∀ ttl, q = { p with ttl } →
      (s.nodes (h.target pairLinks)).TakesUp (payEnv (h.target pairLinks)) q (h.source pairLinks true))
    (hheard : ∀ v, ((s.next pairLinks payEnv k (.arrive 0 true)).nodes v).Knows p ↔
      (s.nodes v).Knows p ∨ (∃ ttl, q = { p with ttl }) ∧ v = h.target pairLinks)
    (hsends : ∀ g ∈ s.sends pairLinks payEnv k (.arrive 0 true), ∀ ttl, ¬ g.Copies p ttl) :
    s.Undisturbed pairLinks payEnv p k (.arrive 0 true) := by
  have htask : s.task pairLinks (.arrive 0 true) =
      some (h.target pairLinks, .inbound (h.source pairLinks true) h.flight.frame) := by
    rw [RadioNet.task, hair]
    rfl
  have hbrings : ∀ {v src bytes ttl}, s.Brings pairLinks p (.arrive 0 true) v src bytes ttl →
      v = h.target pairLinks ∧ src = h.source pairLinks true ∧ q = { p with ttl } := by
    rintro v src bytes ttl ⟨htask', hcopy⟩
    cases htask.symm.trans htask'
    exact ⟨rfl, rfl, Except.ok.inj (hq.symm.trans hcopy)⟩
  refine ⟨?_, ?_, ?_, ?_, fun v => (hheard v).trans (or_congr_right ?_), fun g hg ttl _ hcopy => ?_⟩
  · intro v peer
    rw [htask]
    exact ⟨by simp, by simp⟩
  · intro i g ttl hop
    cases hop
  · intro v src bytes ttl hop
    cases hop
  · rintro v src bytes ttl ⟨hb, -⟩
    obtain ⟨rfl, rfl, heq⟩ := hbrings hb
    exact heq ▸ htaken ttl heq
  · constructor
    · rintro ⟨⟨ttl, heq⟩, rfl⟩
      exact ⟨_, _, ttl, htask, heq ▸ hq⟩
    · rintro ⟨src, bytes, ttl, hb⟩
      obtain ⟨rfl, -, heq⟩ := hbrings hb
      exact ⟨⟨ttl, heq⟩, rfl⟩
  · exact absurd hcopy (hsends g hg ttl)

/-- A frame of another type is no copy. -/
theorem not_copies {p q : Packet} {h : Hop Bool} (hq : decode h.flight.frame = .ok q) (hty : q.msgType ≠ p.msgType)
    (ttl : UInt8) : ¬ h.Copies p ttl := fun hcopy =>
  hty (congrArg (·.msgType) (Except.ok.inj (hq.symm.trans hcopy)))

theorem paying_launched : paying.Launched paid false where
  knows := pay_run.knows
  copies := by
    intro h hh ttl hcopy
    rw [pay_run.air] at hh
    obtain rfl := List.mem_singleton.mp hh
    have hpaid : paid = { paid with ttl } := Except.ok.inj (pay_run.decodePaid.symm.trans hcopy)
    have httl : (7 : UInt8) = ttl := congrArg (·.ttl) hpaid
    exact ⟨rfl, by rw [← httl]; decide⟩
  sent := by
    rw [pay_run.peers, pay_run.air]
    intro peer hpeer
    obtain rfl := List.mem_singleton.mp hpeer
    exact ⟨_, List.mem_singleton_self _, rfl, rfl, 7, pay_run.decodePaid⟩

theorem paid_undisturbed : paying.Undisturbed pairLinks payEnv paid 0 (.arrive 0 true) := by
  obtain ⟨hadm, hwill, heager⟩ := pay_run.paidTaken
  have htaken : (paying.nodes true).TakesUp (payEnv true) paid (some "a") :=
    MeshNode.takesUp_of_eager hadm hwill heager fun hknows => by cases (pay_run.knows true).mp hknows
  refine hears_undisturbed pay_run.air pay_run.decodePaid (fun _ _ => htaken) ?_ ?_
  · refine fun v => ⟨fun _ => ?_, fun _ => (pay_run.paidKnown v).1⟩
    cases v with
    | false => exact .inl ((pay_run.knows false).mpr rfl)
    | true => exact .inr ⟨⟨7, rfl⟩, rfl⟩
  · rw [pay_run.sends]
    intro g hg
    obtain rfl := List.mem_singleton.mp hg
    exact not_copies pay_run.decodeReceipted (by decide)

theorem paid_undisturbed_again :
    (paying.after pairLinks payEnv hearsFirst 1).Undisturbed pairLinks payEnv paid 1 (.arrive 0 true) := by
  refine hears_undisturbed pay_run.answeredAir pay_run.decodeReceipted (fun ttl heq => ?_) ?_ ?_
  · cases congrArg (·.msgType) heq
  · exact fun v => ⟨fun _ => .inl (pay_run.paidKnown v).1, fun _ => (pay_run.paidKnown v).2⟩
  · rw [pay_run.answeredSends]
    intro g hg
    cases hg

theorem receipted_undisturbed :
    (paying.after pairLinks payEnv hearsFirst 1).Undisturbed pairLinks payEnv receipted 1 (.arrive 0 true) := by
  obtain ⟨hadm, hwill, heager⟩ := pay_run.receiptTaken
  have htaken : ((paying.after pairLinks payEnv hearsFirst 1).nodes false).TakesUp (payEnv false) receipted
      (some "b") :=
    MeshNode.takesUp_of_eager hadm hwill heager fun hknows => by cases (pay_run.heard false).mp hknows
  refine hears_undisturbed pay_run.answeredAir pay_run.decodeReceipted (fun _ _ => htaken) ?_ ?_
  · refine fun v => ⟨fun _ => ?_, fun _ => pay_run.receiptKnown v⟩
    cases v with
    | false => exact .inr ⟨⟨7, rfl⟩, rfl⟩
    | true => exact .inl ((pay_run.heard true).mpr rfl)
  · rw [pay_run.answeredSends]
    intro g hg
    cases hg

theorem sample_returning : paying.Returning pairLinks payEnv hearsFirst 2 true (mockTxId paymentWire) receipted 0 where
  unhanded := pay_run.unhanded
  silent := by
    intro h hh
    rw [RadioNet.after, pay_run.air] at hh
    obtain rfl := List.mem_singleton.mp hh
    exact not_copies pay_run.decodePaid (by decide)
  heard := pay_run.heard
  full := by
    intro h hh ttl _ hcopy
    rw [RadioNet.after, hearsFirst, pay_run.sends] at hh
    obtain rfl := List.mem_singleton.mp hh
    have heq : receipted = { receipted with ttl } := Except.ok.inj (pay_run.decodeReceipted.symm.trans hcopy)
    have httl : (7 : UInt8) = ttl := congrArg (·.ttl) heq
    rw [← httl]
    decide
  back := by
    intro j h1 h2
    obtain rfl : j = 1 := by omega
    exact receipted_undisturbed
  done := by
    rw [pay_run.closedAir]
    intro h hh
    cases hh

theorem pair_linked : ∀ u v, Relation.ReflTransGen (paying.Linked pairLinks) u v := by
  intro u v
  by_cases huv : v = u
  · exact huv ▸ .refl
  · refine .single ⟨if u then "a" else "b", ?_, (Bool.eq_not_of_ne huv).symm⟩
    rw [pay_run.peers]
    exact List.mem_singleton_self _

theorem paying_buffered : paying.mesh.Buffered := by
  refine RadioNet.buffered_next (s := ⟨pair.nodes, []⟩) ?_ 0 _
  intro v w hw
  cases hw

end Sample

open Sample in
/-- The sample payment reaches the gateway of the pair, and the receipt comes home. -/
theorem sample_payment_answered :
    (∃ k < 2, ∃ job,
      (paying.after pairLinks payEnv hearsFirst k).task pairLinks (hearsFirst k) = some (true, job) ∧
      .handed (MeshNode.submitContext (meshNode.localEnvelope paymentWire)) (.ok ⟨mockTxId paymentWire, .accepted⟩) ∈
        ((paying.after pairLinks payEnv hearsFirst k).nodes true).news (payEnv true) job) ∧
    ((paying.after pairLinks payEnv hearsFirst 2).nodes false).ledger.status (mockTxId paymentWire) ≠ .pending := by
  refine RadioNet.payment_answered (by decide) pairLinks payEnv (p := paid) (by decide) (by decide) pay_run.envelope
    (by decide) (rpcGateway chainRpc defaultNetworkId) rfl (fun _ => rfl) paying_buffered paying_launched
    pay_run.tracked pair_linked hearsFirst 2 ?_ ?_ ?_
  · intro k hk
    obtain rfl | rfl : k = 0 ∨ k = 1 := by omega
    · exact paid_undisturbed
    · exact paid_undisturbed_again
  · rw [pay_run.closedAir]
    intro h hh
    cases hh
  · intro k hk src bytes ttl ha
    obtain rfl | rfl : k = 0 ∨ k = 1 := by omega
    · exact pay_run.built ▸ sample_returning
    · exact absurd (pay_run.paidKnown true).1 ha.2

end Nimmesh
