import Nimmesh.Mesh.Honesty

/-! @src engine.rs settlement.rs gateway.rs | name:The first receipt decides | layer:model

    Several gateways may answer one payment, each in its own way. The ledger of the origin takes the first
    answer that it lets in and keeps it, whatever the others say and however often they come. -/

namespace Nimmesh

/-- What an event says of a payment. -/
def MeshEvent.verdict (txId : TxId) (e : MeshEvent) : Option ReceiptStatus :=
  (e.taken.bind Books.receiptOf).bind fun r => if r.1 = txId then some r.2 else none

/-- What the receipts in a trace say of a payment, in the order in which they were let in. -/
def verdicts (txId : TxId) (trace : List MeshEvent) : List ReceiptStatus :=
  trace.reverse.filterMap (MeshEvent.verdict txId)

/-- The status that a list of verdicts leads to: the first one counts. -/
def decision (vs : List ReceiptStatus) : PaymentStatus := (vs.head?.map ReceiptStatus.payment).getD .pending

theorem verdicts_append (txId : TxId) (new old : List MeshEvent) :
    verdicts txId (new ++ old) = verdicts txId old ++ verdicts txId new := by
  unfold verdicts
  rw [List.reverse_append, List.filterMap_append]

theorem decision_append (vs ws : List ReceiptStatus) :
    decision (vs ++ ws) = if vs = [] then decision ws else decision vs := by
  cases vs with
  | nil => rfl
  | cons v vs => rfl

theorem ReceiptStatus.payment_ne_pending (s : ReceiptStatus) : s.payment ≠ .pending := by cases s <;> decide

theorem decision_eq_pending_iff (vs : List ReceiptStatus) : decision vs = .pending ↔ vs = [] := by
  cases vs with
  | nil => exact ⟨fun _ => rfl, fun _ => rfl⟩
  | cons v vs => exact ⟨fun h => absurd h v.payment_ne_pending, fun h => nomatch h⟩

namespace SettlementLedger

theorem lookup_record_of_some {l : SettlementLedger} {id : TxId} {t : Tracked} (h : l.lookup id = some t)
    (a : TxId) (d : SettlementDirection) : (l.record a d).lookup id = some t := by
  rw [lookup_record]
  split_ifs with ha
  · rw [← ha, h]
    rfl
  · exact h

/-- The retry pass fails a pending payment or leaves it as it is. -/
theorem lookup_expired {l : SettlementLedger} {id : TxId} {d : SettlementDirection}
    (h : l.lookup id = some ⟨.pending, d⟩) (es : List PendingTx) :
    (es.foldl MeshNode.failExpired l).lookup id = some ⟨.pending, d⟩ ∨
      (es.foldl MeshNode.failExpired l).lookup id = some ⟨.failed, d⟩ := by
  induction es generalizing l with
  | nil => exact .inl h
  | cons e es ih =>
    rw [List.foldl_cons]
    have hset : (MeshNode.failExpired l e).lookup id = _ := lookup_settle l e.txId .failed id
    by_cases hid : id = e.txId
    · rw [if_pos hid, ← hid, h, Option.map_some, if_pos rfl] at hset
      refine .inr ?_
      obtain ⟨t', ht', -, hterm⟩ := extends_expired (MeshNode.failExpired l e) es id _ hset
      rw [ht', hterm fun h => nomatch h]
    · rw [if_neg hid] at hset
      exact ih (hset.trans h)

end SettlementLedger

section
variable {env : NodeEnv} {n₀ : MeshNode} {job : Job}

/-- What one act does to a pending payment: nothing, the verdict of a receipt, or the end of its window. -/
theorem Act.pending_cases {b b' : Books} (h : Act env n₀ job b b') {txId : TxId} {d : SettlementDirection}
    (ht : b.ledger.lookup txId = some ⟨.pending, d⟩) : ∃ add, b'.trace = add ++ b.trace ∧
      (b'.ledger.lookup txId = some ⟨decision (verdicts txId add), d⟩ ∨
        job.IsTick ∧ verdicts txId add = [] ∧ b'.ledger.lookup txId = some ⟨.failed, d⟩) := by
  cases h with
  | took p =>
    refine ⟨[.took p], Books.take_trace p b, .inl ?_⟩
    cases hr : Books.receiptOf p with
    | none =>
      rw [Books.take_of_none hr]
      have hnone : verdicts txId [.took p] = [] := by simp [verdicts, MeshEvent.verdict, MeshEvent.taken, hr]
      rw [hnone]
      exact ht
    | some r =>
      obtain ⟨id, status⟩ := r
      rw [Books.take_of_receipt hr]
      refine (SettlementLedger.lookup_settle b.ledger id status.payment txId).trans ?_
      by_cases hid : txId = id
      · have hone : verdicts txId [.took p] = [status] := by
          simp [verdicts, MeshEvent.verdict, MeshEvent.taken, hr, hid]
        rw [if_pos hid, ← hid, ht, hone]
        rfl
      · have hnone : verdicts txId [.took p] = [] := by
          simp [verdicts, MeshEvent.verdict, MeshEvent.taken, hr, Ne.symm hid]
        rw [if_neg hid, hnone]
        exact ht
  | watch id => exact ⟨[], rfl, .inl (SettlementLedger.lookup_record_of_some ht id .incoming)⟩
  | launch wire e => exact ⟨[], rfl, .inl (SettlementLedger.lookup_record_of_some ht e.txId .outgoing)⟩
  | expire nowMs hjob =>
    rcases SettlementLedger.lookup_expired ht _ with h | h
    · exact ⟨[], rfl, .inl h⟩
    · exact ⟨[], rfl, .inr ⟨hjob, rfl, h⟩⟩
  | own p => exact ⟨[.own p], rfl, .inl ht⟩
  | offer id nowMs => exact ⟨[.offered id nowMs], rfl, .inl ht⟩
  | hand ctx answer => exact ⟨[.handed ctx answer], rfl, .inl ht⟩
  | sent peer frame kind => exact ⟨[.sent peer frame kind b.head.height], rfl, .inl ht⟩
  | _ => exact ⟨[], rfl, .inl ht⟩

/-- A payment that the receipts so far have decided, or that the retry pass failed before any of them. -/
def Books.Decided (txId : TxId) (d : SettlementDirection) (failedBy : Prop) (vs : List ReceiptStatus)
    (b : Books) : Prop :=
  b.ledger.lookup txId = some ⟨decision vs, d⟩ ∨ failedBy ∧ b.ledger.lookup txId = some ⟨.failed, d⟩

/-- STEP: the first receipt of a job decides a pending payment, unless the job is a tick that fails it. -/
theorem Path.decides {b b' : Books} (h : Path env n₀ job b b') {txId : TxId} {d : SettlementDirection}
    (ht : b.ledger.lookup txId = some ⟨.pending, d⟩) : ∃ new, b'.trace = new ++ b.trace ∧
      b'.Decided txId d job.IsTick (verdicts txId new) := by
  refine h.invariant (I := fun b' => ∃ new, b'.trace = new ++ b.trace ∧
    b'.Decided txId d job.IsTick (verdicts txId new)) ?_ ⟨[], rfl, .inl ht⟩
  rintro b₁ b₂ hact ⟨new, htrace, hdec⟩
  by_cases hpend : b₁.ledger.lookup txId = some ⟨.pending, d⟩
  · -- still pending, so nothing has been said of it yet
    have hnone : verdicts txId new = [] := by
      rcases hdec with hdec | ⟨-, hdec⟩
      · rw [hpend, Option.some.injEq, Tracked.mk.injEq] at hdec
        exact (decision_eq_pending_iff _).mp hdec.1.symm
      · rw [hpend] at hdec
        cases hdec
    obtain ⟨add, hadd, hcase⟩ := hact.pending_cases hpend
    refine ⟨add ++ new, by rw [hadd, htrace, List.append_assoc], ?_⟩
    rw [verdicts_append, hnone, List.nil_append]
    exact hcase.imp id fun h => ⟨h.1, h.2.2⟩
  · obtain ⟨add, hadd⟩ := (Path.trace_grows (.single hact) : ∃ add, b₂.trace = add ++ b₁.trace)
    refine ⟨add ++ new, by rw [hadd, htrace, List.append_assoc], ?_⟩
    have hkeep : ∀ s, s ≠ PaymentStatus.pending → b₁.ledger.lookup txId = some ⟨s, d⟩ →
        b₂.ledger.lookup txId = some ⟨s, d⟩ := by
      intro s hs h₁
      obtain ⟨t, ht, -, hterm⟩ := hact.ledger_extends txId _ h₁
      rw [ht, hterm hs]
    rcases hdec with hdec | ⟨htick, hdec⟩
    · have hne : verdicts txId new ≠ [] := fun h => hpend (by rw [hdec, (decision_eq_pending_iff _).mpr h])
      refine .inl ?_
      rw [verdicts_append, decision_append, if_neg hne]
      exact hkeep _ (fun h => hne ((decision_eq_pending_iff _).mp h)) hdec
    · exact .inr ⟨htick, hkeep _ (by decide) hdec⟩

end

namespace MeshNode

/-- A run at the end of which a payment has the status that the first receipt let in for it gives it (and
    is pending if there is none), unless a tick has failed it at the end of its window before. -/
def DecidedByFirst (env : NodeEnv) (n : MeshNode) (txId : TxId) (d : SettlementDirection) (jobs : List Job) :
    Prop :=
  ∃ new, (n.exec env jobs).io.trace = new ++ n.io.trace ∧
    ((n.exec env jobs).ledger.lookup txId = some ⟨decision (verdicts txId new), d⟩ ∨
      ∃ pre tick post, jobs = pre ++ tick :: post ∧ tick.IsTick ∧
        (n.exec env pre).ledger.lookup txId = some ⟨.pending, d⟩ ∧
        (n.exec env (pre ++ [tick])).ledger.lookup txId = some ⟨.failed, d⟩)

/-- RUN: the first receipt that a node lets in for a pending payment decides it, in whatever order the
    receipts come and however often. -/
theorem first_receipt_decides (env : NodeEnv) {n : MeshNode} (hbuf : n.books.Buffered) {txId : TxId}
    {d : SettlementDirection} (ht : n.ledger.lookup txId = some ⟨.pending, d⟩) (jobs : List Job) :
    n.DecidedByFirst env txId d jobs := by
  induction jobs generalizing n with
  | nil => exact ⟨[], rfl, .inl ht⟩
  | cons job jobs ih =>
    have hstep : n.exec env (job :: jobs) = (n.step env job).exec env jobs := rfl
    have hbuf' := step_buffered env n job hbuf
    obtain ⟨new, htrace, hdec⟩ := (step_path env n job hbuf).decides ht
    have htrace : (n.step env job).io.trace = new ++ n.io.trace := htrace
    by_cases hpend : (n.step env job).ledger.lookup txId = some ⟨.pending, d⟩
    · have hnone : verdicts txId new = [] := by
        rcases hdec with hdec | ⟨-, hdec⟩
        · have heq := Option.some.inj (hpend.symm.trans hdec)
          exact (decision_eq_pending_iff _).mp (congrArg Tracked.status heq).symm
        · cases hpend.symm.trans hdec
      obtain ⟨more, hmore, hcase⟩ := ih hbuf' hpend
      refine ⟨more ++ new, by rw [hstep, hmore, htrace, List.append_assoc], ?_⟩
      rw [hstep, verdicts_append, hnone, List.nil_append]
      refine hcase.imp id ?_
      rintro ⟨pre, tick, post, rfl, htick, hbefore, hafter⟩
      exact ⟨job :: pre, tick, post, rfl, htick, hbefore, hafter⟩
    · obtain ⟨more, hmore⟩ := exec_trace_grows env (n.step env job) jobs hbuf'
      refine ⟨more ++ new, by rw [hstep, hmore, htrace, List.append_assoc], ?_⟩
      have hkeep : ∀ s, s ≠ PaymentStatus.pending → (n.step env job).ledger.lookup txId = some ⟨s, d⟩ →
          (n.exec env (job :: jobs)).ledger.lookup txId = some ⟨s, d⟩ := by
        intro s hs h₁
        obtain ⟨t, ht, -, hterm⟩ := ledger_extends_exec env (n.step env job) jobs hbuf' txId _ h₁
        rw [hstep, ht, hterm hs]
      rcases hdec with hdec | ⟨htick, hdec⟩
      · have hne : verdicts txId new ≠ [] := fun h =>
          hpend (hdec.trans (by rw [(decision_eq_pending_iff _).mpr h]))
        refine .inl ?_
        rw [verdicts_append, decision_append, if_neg hne]
        exact hkeep _ (fun h => hne ((decision_eq_pending_iff _).mp h)) hdec
      · exact .inr ⟨[], job, jobs, rfl, htick, ht, hdec⟩

end MeshNode

namespace Sample

/-- A gateway that is handed a payment of another network answers that it failed; one of its own network
    hands it to the chain. -/
def chainRpc : GatewayRpc where
  blockNumber := fun _ => .ok 10
  latestBlock := fun _ => .error (.badResponse "getLatestBlock")
  accountBalance := fun _ _ => .ok none
  history := fun _ _ => none
  sendRawTransaction := fun _ _ => .ok "hash"

def paymentWire : Bytes := [1, 2, 3]

def submission : SubmitContext := ⟨mockTxId paymentWire, paymentWire, defaultNetworkId, none⟩

/-- The receipt that a gateway floods. -/
def receiptOf (r : Receipt) (timestampMs : UInt64) : Packet :=
  meshPacket .nimiqTxReceipt (encodeReceipt r.txId r.status) timestampMs

end Sample

open Sample in
/-- The sample origin hears of a failure first: the acceptance that follows changes nothing. -/
theorem failure_heard_first :
    (rpcGateway chainRpc 24).submitValidated 0 submission = .ok ⟨mockTxId paymentWire, .failed⟩ ∧
    (rpcGateway chainRpc defaultNetworkId).submitValidated 0 submission = .ok ⟨mockTxId paymentWire, .accepted⟩ ∧
    (meshNode.exec (meshEnv (fun _ => 1000) none)
      [.localTx paymentWire, .inbound none (frame (Sample.receiptOf ⟨mockTxId paymentWire, .failed⟩ 1)),
       .inbound none (frame (Sample.receiptOf ⟨mockTxId paymentWire, .accepted⟩ 2))]).ledger.lookup (mockTxId paymentWire) =
      some ⟨.failed, .outgoing⟩ := by
  refine ⟨rfl, rfl, by decide +kernel⟩

open Sample in
/-- The sample origin hears of the acceptance first, then of a failure, then of the acceptance again. -/
theorem sample_first_receipt_decides :
    (meshNode.exec (meshEnv (fun _ => 1000) none) [.localTx paymentWire]).DecidedByFirst
      (meshEnv (fun _ => 1000) none) (mockTxId paymentWire) .outgoing
      [.inbound none (frame (Sample.receiptOf ⟨mockTxId paymentWire, .accepted⟩ 2)),
       .inbound none (frame (Sample.receiptOf ⟨mockTxId paymentWire, .failed⟩ 1)),
       .inbound none (frame (Sample.receiptOf ⟨mockTxId paymentWire, .accepted⟩ 2))] :=
  MeshNode.first_receipt_decides (meshEnv (fun _ => 1000) none)
    (MeshNode.exec_buffered (meshEnv (fun _ => 1000) none) meshNode [.localTx paymentWire] started_meshNode.buffered)
    (by decide +kernel) _

end Nimmesh
