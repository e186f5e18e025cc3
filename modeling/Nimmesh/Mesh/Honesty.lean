import Nimmesh.Mesh.Refine

/-! @src gateway.rs settlement.rs engine.rs pending_retry.rs | name:What makes a payment settled |
    layer:model

    A tracked payment is decided once and for good. It turns out settled through a receipt that names it
    and through nothing else; but the status byte of that receipt reads as acceptance unless it is 1 or 2,
    so the byte of acceptance itself stands there only if no byte beyond the known three ever does. -/

namespace Nimmesh

/-! ### The ledger -/

namespace SettlementLedger

/-- Whatever is tracked stays tracked in its direction, and a decision stays. -/
def Extends (l l' : SettlementLedger) : Prop :=
  ∀ id t, l.lookup id = some t → ∃ t', l'.lookup id = some t' ∧ t'.direction = t.direction ∧
    (t.status ≠ .pending → t' = t)

theorem Extends.refl (l : SettlementLedger) : l.Extends l := fun _ t h => ⟨t, h, rfl, fun _ => rfl⟩

theorem Extends.trans {l l' l'' : SettlementLedger} (h : l.Extends l') (h' : l'.Extends l'') :
    l.Extends l'' := by
  intro id t ht
  obtain ⟨t', ht', hd, hs⟩ := h id t ht
  obtain ⟨t'', ht'', hd', hs'⟩ := h' id t' ht'
  refine ⟨t'', ht'', hd'.trans hd, fun hne => ?_⟩
  have heq := hs hne
  rw [← heq] at hne
  exact (hs' hne).trans heq

theorem extends_record (l : SettlementLedger) (a : TxId) (d : SettlementDirection) : l.Extends (l.record a d) := by
  intro id t ht
  refine ⟨t, ?_, rfl, fun _ => rfl⟩
  rw [lookup_record]
  split_ifs with h
  · rw [← h, ht]
    rfl
  · exact ht

theorem extends_settle (l : SettlementLedger) (a : TxId) (s : PaymentStatus) : l.Extends (l.settle a s) := by
  intro id t ht
  rw [lookup_settle]
  split_ifs with h
  · rw [← h, ht, Option.map_some]
    refine ⟨_, rfl, ?_, fun hne => if_neg hne⟩
    split_ifs
    · rfl
    · rfl
  · exact ⟨t, ht, rfl, fun _ => rfl⟩

theorem extends_expired (l : SettlementLedger) (es : List PendingTx) :
    l.Extends (es.foldl MeshNode.failExpired l) := by
  induction es generalizing l with
  | nil => exact .refl l
  | cons e es ih => exact (extends_settle l e.txId .failed).trans (ih _)

/-- A payment found settled was so before, or was pending and has just been settled. -/
theorem settled_of_settle {l : SettlementLedger} {a id : TxId} {s : PaymentStatus} {t : Tracked}
    (h : (l.settle a s).lookup id = some t) (hs : t.status = .settled) :
    l.lookup id = some t ∨ id = a ∧ s = .settled ∧ ∃ d, l.lookup id = some ⟨.pending, d⟩ := by
  rw [lookup_settle] at h
  split_ifs at h with ha
  · rw [← ha] at h
    cases ht : l.lookup id with
    | none => rw [ht] at h; cases h
    | some t₀ =>
      rw [ht, Option.map_some, Option.some.injEq] at h
      split_ifs at h with hp
      · refine .inr ⟨ha, ?_, t₀.direction, ?_⟩
        · rw [← hs, ← h]
        · rw [← hp]
      · exact .inl (congrArg some h)
  · exact .inl h

theorem settled_of_record {l : SettlementLedger} {a id : TxId} {d : SettlementDirection} {t : Tracked}
    (h : (l.record a d).lookup id = some t) (hs : t.status = .settled) : l.lookup id = some t := by
  rw [lookup_record] at h
  split_ifs at h with ha
  · rw [← ha] at h
    cases ht : l.lookup id with
    | none =>
      rw [ht] at h
      rw [← Option.some.inj h] at hs
      cases hs
    | some t₀ => rwa [ht] at h
  · exact h

theorem settled_of_expired {es : List PendingTx} {l : SettlementLedger} {id : TxId} {t : Tracked}
    (h : (es.foldl MeshNode.failExpired l).lookup id = some t) (hs : t.status = .settled) :
    l.lookup id = some t := by
  induction es generalizing l with
  | nil => exact h
  | cons e es ih =>
    rcases settled_of_settle (ih h) hs with h | ⟨-, h, -⟩
    · exact h
    · cases h

end SettlementLedger

/-! ### One job -/

section
variable {env : NodeEnv} {n₀ : MeshNode} {job : Job}

theorem Act.ledger_extends {b b' : Books} (h : Act env n₀ job b b') : b.ledger.Extends b'.ledger := by
  cases h with
  | took p =>
    unfold Books.take
    split
    · exact SettlementLedger.extends_settle _ _ _
    · exact .refl _
  | watch txId => exact SettlementLedger.extends_record _ _ _
  | launch wire e => exact SettlementLedger.extends_record _ _ _
  | expire nowMs => exact SettlementLedger.extends_expired _ _
  | _ => exact .refl _

theorem Path.ledger_extends {b b' : Books} (h : Path env n₀ job b b') : b.ledger.Extends b'.ledger :=
  h.invariant (I := fun b' => b.ledger.Extends b'.ledger) (fun _ _ hact hb => hb.trans hact.ledger_extends)
    (.refl _)

/-- An inbound frame brings no new payment. -/
theorem Act.tracked_of_inbound {b b' : Books} (h : Act env n₀ job b b') (hin : job.IsInbound) {id : TxId}
    {t : Tracked} (ht : b'.ledger.lookup id = some t) : ∃ t₀, b.ledger.lookup id = some t₀ := by
  obtain ⟨src, bytes, rfl⟩ := hin
  cases h with
  | took p =>
    unfold Books.take at ht
    split at ht
    · next txId status _ =>
      have hset : (b.ledger.settle txId status.payment).lookup id = some t := ht
      rw [SettlementLedger.lookup_settle] at hset
      split_ifs at hset with ha
      · cases hl : b.ledger.lookup txId with
        | none => rw [hl] at hset; cases hset
        | some t₀ => exact ⟨t₀, ha ▸ hl⟩
      · exact ⟨t, hset⟩
    · exact ⟨t, ht⟩
  | watch txId hjob => cases hjob
  | launch wire e hjob => cases hjob
  | expire nowMs hjob => rcases hjob with hjob | hjob <;> cases hjob
  | _ => exact ⟨t, ht⟩

/-- A payment is settled by a receipt that is let in while it is pending, and reads as acceptance. -/
theorem Act.settled {b b' : Books} (h : Act env n₀ job b b') {id : TxId} {t : Tracked}
    (ht : b'.ledger.lookup id = some t) (hs : t.status = .settled) : b.ledger.lookup id = some t ∨
      ∃ p code d, b' = b.take p ∧ job.IsInbound ∧ p.msgType = .nimiqTxReceipt ∧ p.payload = id.1 ++ [code] ∧
        ReceiptStatus.fromCode code = .accepted ∧ b.ledger.lookup id = some ⟨.pending, d⟩ := by
  cases h with
  | took p hin =>
    cases hr : Books.receiptOf p with
    | none =>
      rw [Books.take_of_none hr] at ht
      exact .inl ht
    | some r =>
      obtain ⟨a, status⟩ := r
      rw [Books.take_of_receipt hr] at ht
      rcases SettlementLedger.settled_of_settle ht hs with h | ⟨rfl, hst, d, hd⟩
      · exact .inl h
      · unfold Books.receiptOf at hr
        split_ifs at hr with hty
        obtain ⟨code, hpay, hcode⟩ := (decodeReceipt_eq_some_iff _ _ _).mp hr
        have hacc : status = .accepted := by
          cases status with
          | accepted => rfl
          | expired => cases hst
          | failed => cases hst
        exact .inr ⟨p, code, d, rfl, hin, hty, hpay, hcode.trans hacc, hd⟩
  | watch txId => exact .inl (SettlementLedger.settled_of_record ht hs)
  | launch wire e => exact .inl (SettlementLedger.settled_of_record ht hs)
  | expire nowMs => exact .inl (SettlementLedger.settled_of_expired ht hs)
  | _ => exact .inl ht

end

namespace MeshNode

/-- No receipt that this job lets in decides a pending payment with a status byte beyond the known. -/
def readsReceipts (env : NodeEnv) (n : MeshNode) (job : Job) : Prop :=
  ∀ p, .took p ∈ n.news env job → ∀ (id : TxId) (code : UInt8) (d : SettlementDirection),
    p.msgType = .nimiqTxReceipt → p.payload = id.1 ++ [code] → n.ledger.lookup id = some ⟨.pending, d⟩ → code ≤ 2

/-- A receipt of acceptance. -/
def IsAcceptance (id : TxId) (p : Packet) : Prop :=
  p.msgType = .nimiqTxReceipt ∧ p.payload = id.1 ++ [ReceiptStatus.accepted.code]

/-- Of the known bytes, only one reads as acceptance. -/
theorem code_of_accepted {code : UInt8} (h : ReceiptStatus.fromCode code = .accepted) (hle : code ≤ 2) :
    code = ReceiptStatus.accepted.code := by
  obtain ⟨h1, h2⟩ := (ReceiptStatus.fromCode_eq_accepted_iff code).mp h
  rw [UInt8.le_iff_toNat_le] at hle
  rw [Ne, ← UInt8.toNat_inj] at h1 h2
  refine UInt8.toNat_inj.mp ?_
  simp only [ReceiptStatus.code, UInt8.reduceToNat] at hle h1 h2 ⊢
  omega

/-- What a job has done to the ledger so far, and what it has let in. -/
structure Settling (n : MeshNode) (job : Job) (b : Books) (new : List MeshEvent) : Prop where
  trace : b.trace = new ++ n.books.trace
  later : n.ledger.Extends b.ledger
  tracked : job.IsInbound → ∀ id t, b.ledger.lookup id = some t → ∃ t₀, n.ledger.lookup id = some t₀
  settled : ∀ id t, b.ledger.lookup id = some t → t.status = .settled →
    n.ledger.lookup id = some t ∨ ∃ p, .took p ∈ new ∧ IsAcceptance id p

/-- STEP: what a job settles was settled before, or is settled by an acceptance that the job lets in. -/
theorem settling_step (env : NodeEnv) {n : MeshNode} {job : Job} (hbuf : n.books.Buffered)
    (hok : n.readsReceipts env job) : n.Settling job (n.step env job).books (n.news env job) := by
  suffices hinv : ∃ new, n.Settling job (n.step env job).books new by
    obtain ⟨new, h⟩ := hinv
    rwa [news_eq h.trace]
  refine (step_path env n job hbuf).invariant_toward (I := fun b => ∃ new, n.Settling job b new) ?_
    ⟨[], rfl, .refl _, fun _ _ t h => ⟨t, h⟩, fun _ _ h _ => .inl h⟩
  rintro b₁ b₂ hact hrest ⟨new, h₁⟩
  obtain ⟨add, hadd⟩ := (Path.trace_grows (.single hact) : ∃ add, b₂.trace = add ++ b₁.trace)
  have htrace : b₂.trace = (add ++ new) ++ n.books.trace := by rw [hadd, h₁.trace, List.append_assoc]
  refine ⟨add ++ new, htrace, h₁.later.trans hact.ledger_extends, fun hin id t h => ?_, fun id t h hs => ?_⟩
  · obtain ⟨t₁, ht₁⟩ := hact.tracked_of_inbound hin h
    exact h₁.tracked hin id t₁ ht₁
  · rcases hact.settled h hs with hold | ⟨p, code, d, rfl, hin, hty, hpay, hcode, hpend⟩
    · refine (h₁.settled id t hold hs).imp_right ?_
      rintro ⟨p, hp, hacc⟩
      exact ⟨p, List.mem_append_right _ hp, hacc⟩
    · -- the payment was pending when the job began, so the job's condition reads the status byte
      obtain ⟨t₀, ht₀⟩ := h₁.tracked hin id _ hpend
      obtain ⟨t₁, ht₁, hd, hterm⟩ := h₁.later id t₀ ht₀
      have heq : t₁ = ⟨.pending, d⟩ := Option.some.inj (ht₁.symm.trans hpend)
      have hpend₀ : t₀.status = .pending := by
        by_contra hne
        exact hne ((congrArg Tracked.status (hterm hne)).symm.trans (congrArg Tracked.status heq))
      have hnew : .took p ∈ add ++ new := by
        have hmem : .took p ∈ (b₁.take p).trace := by
          rw [Books.take_trace]
          exact List.mem_cons_self
        rw [hadd] at hmem
        have hadd' : add = [.took p] := by
          rw [Books.take_trace, ← List.singleton_append] at hadd
          exact (List.append_cancel_right hadd).symm
        rw [hadd']
        exact List.mem_cons_self
      obtain ⟨more, hmore⟩ := hrest.trace_grows
      have hnews : .took p ∈ n.news env job := by
        have hfull : (n.step env job).io.trace = (more ++ (add ++ new)) ++ n.io.trace := by
          rw [List.append_assoc]
          exact hmore.trans (congrArg (more ++ ·) htrace)
        rw [news_eq hfull]
        exact List.mem_append_right _ hnew
      have hle := hok p hnews id code t₀.direction hty hpay (by rw [ht₀, ← hpend₀])
      exact .inr ⟨p, hnew, hty, hpay.trans (by rw [code_of_accepted hcode hle])⟩

/-- A decision stands through any run. -/
theorem ledger_extends_exec (env : NodeEnv) (n : MeshNode) (jobs : List Job) (hbuf : n.books.Buffered) :
    n.ledger.Extends (n.exec env jobs).ledger := by
  refine (Run.exec_preserves (step env) (I := fun m => n.ledger.Extends m.ledger ∧ m.books.Buffered) ?_ jobs n
    ⟨.refl _, hbuf⟩).1
  rintro m job ⟨hext, hm⟩
  exact ⟨hext.trans (step_path env m job hm).ledger_extends, step_buffered env m job hm⟩

/-- A run in which every payment is decided at most once, keeps its direction, and turns out settled only
    when a receipt of acceptance is let in. -/
structure HonestRun (env : NodeEnv) (n : MeshNode) (jobs : List Job) : Prop where
  decided_once : ∀ pre post, jobs = pre ++ post → ∀ id t, (n.exec env pre).ledger.lookup id = some t →
    ∃ t', (n.exec env jobs).ledger.lookup id = some t' ∧ t'.direction = t.direction ∧
      (t.status ≠ .pending → t' = t)
  settled_by_acceptance : ∀ pre job post, jobs = pre ++ job :: post → ∀ id t,
    (n.exec env (pre ++ [job])).ledger.lookup id = some t → t.status = .settled →
      (n.exec env pre).ledger.lookup id = some t ∨
        ∃ p, .took p ∈ (n.exec env pre).news env job ∧ IsAcceptance id p

/-- RUN: while every receipt that decides a payment has a known status byte, only acceptance settles. -/
theorem settlement_honest (env : NodeEnv) {n : MeshNode} (hn : n.Started) (jobs : List Job)
    (hok : Run.Along (step env) (readsReceipts env) n jobs) : n.HonestRun env jobs := by
  constructor
  · rintro pre post rfl
    have hext := ledger_extends_exec env (n.exec env pre) post (exec_buffered env n pre hn.buffered)
    rwa [exec, exec, ← Run.exec_append] at hext
  · rintro pre job post rfl id t ht hs
    obtain ⟨-, hjob⟩ := (Run.along_append (step env) _ pre (job :: post) n).mp hok
    have hstep : n.exec env (pre ++ [job]) = (n.exec env pre).step env job := Run.exec_append (step env) n pre [job]
    rw [hstep] at ht
    exact (settling_step env (exec_buffered env n pre hn.buffered) hjob.1).settled id t ht hs

end MeshNode

namespace Sample

def paymentId : TxId := ByteArr.fill hashLen 9

/-- A receipt for the sample payment with a status byte. -/
def receipt (code : UInt8) : Packet := meshPacket .nimiqTxReceipt (paymentId.1 ++ [code]) 8

end Sample

open Sample in
/-- A payee whose payment is accepted. -/
theorem sample_settlement_honest : meshNode.HonestRun (meshEnv (fun _ => 1000) none)
    [.watchIncoming paymentId, .inbound none (frame (receipt 0))] := by
  refine MeshNode.settlement_honest (meshEnv (fun _ => 1000) none) started_meshNode _ ⟨?_, ?_, trivial⟩
  · have hnone : (meshNode.news (meshEnv (fun _ => 1000) none) (.watchIncoming paymentId)).filterMap
        MeshEvent.taken = [] := by decide +kernel
    intro p hp
    have hmem := MeshEvent.mem_taken hp
    rw [hnone] at hmem
    cases hmem
  · have hone : ((meshNode.step (meshEnv (fun _ => 1000) none) (.watchIncoming paymentId)).news
        (meshEnv (fun _ => 1000) none) (.inbound none (frame (receipt 0)))).filterMap MeshEvent.taken =
        [receipt 0] := by decide +kernel
    intro p hp id code d _ hpay _
    have hmem := MeshEvent.mem_taken hp
    rw [hone, List.mem_singleton] at hmem
    have hlast : p.payload.getLast? = some code := by
      rw [hpay]
      exact List.getLast?_concat
    have hzero : (receipt 0).payload.getLast? = some 0 := by decide
    rw [hmem, hzero] at hlast
    rw [← Option.some.inj hlast]
    decide

open Sample in
/-- A receipt whose status byte means nothing settles the payment that it names. -/
theorem unknown_byte_settles : ¬ meshNode.HonestRun (meshEnv (fun _ => 1000) none)
    [.watchIncoming paymentId, .inbound none (frame (receipt 7))] := by
  intro h
  have hset : (meshNode.exec (meshEnv (fun _ => 1000) none)
      [.watchIncoming paymentId, .inbound none (frame (receipt 7))]).ledger.lookup paymentId =
        some ⟨.settled, .incoming⟩ := by decide +kernel
  have hpend : (meshNode.exec (meshEnv (fun _ => 1000) none) [.watchIncoming paymentId]).ledger.lookup
      paymentId = some ⟨.pending, .incoming⟩ := by decide +kernel
  have htook : ((meshNode.exec (meshEnv (fun _ => 1000) none) [.watchIncoming paymentId]).news
      (meshEnv (fun _ => 1000) none) (.inbound none (frame (receipt 7)))).filterMap MeshEvent.taken =
        [receipt 7] := by decide +kernel
  rcases h.settled_by_acceptance [.watchIncoming paymentId] _ [] rfl paymentId _ hset rfl with hold | ⟨p, hp, -, hpay⟩
  · rw [hpend] at hold
    cases hold
  · have hmem := MeshEvent.mem_taken hp
    rw [htook, List.mem_singleton] at hmem
    rw [hmem] at hpay
    revert hpay
    decide

end Nimmesh
