import Nimmesh.Mesh.ReceiptOrder

/-! @src pending_retry.rs engine.rs beacon.rs settlement.rs | name:The end of the window | layer:model

    An own transaction is kept twice: the ledger says what became of it, and the retry set offers it again
    until a receipt comes or its window closes, and then has the ledger fail it. The two stay in step as
    long as no transaction is pushed out of the retry set, replaced in it, or never gets there. -/

namespace Nimmesh
open Word

/-! ### What an own transaction is owed -/

/-- The window of a transaction is closed: the head heard is at its end, or, if it has none, the
    transaction is older than its wall-clock bound. -/
def WindowClosed (head : Option UInt32) (nowMs : UInt64) (e : PendingTx) : Prop :=
  match e.validUntil with
  | some vu => ∃ h, head = some h ∧ vu ≤ h
  | none => e.createdMs.toNat + retryWallMs.toNat < nowMs.toNat

/-- The last time is so long ago that it is time again. -/
def Overdue (last : Option UInt64) (nowMs : UInt64) : Prop :=
  ∀ t, last = some t → t.toNat + retryMs.toNat ≤ nowMs.toNat

theorem PendingTx.dead_iff (e : PendingTx) (head : Option UInt32) (nowMs : UInt64) :
    e.dead head nowMs = true ↔ WindowClosed head nowMs e := by
  unfold dead WindowClosed
  cases e.validUntil with
  | none =>
    dsimp only
    rw [decide_eq_true_iff, UInt64.lt_iff_toNat_lt, toNat_satSub]
    omega
  | some vu =>
    cases head with
    | none => simp [isExpired]
    | some h => simp [isExpired]

theorem PendingTx.due_iff (e : PendingTx) (nowMs : UInt64) : e.due nowMs = true ↔ Overdue e.lastFloodMs nowMs := by
  unfold due Overdue
  cases e.lastFloodMs with
  | none => exact ⟨fun _ _ h => (nomatch h), fun _ => rfl⟩
  | some last =>
    have hpos : 0 < retryMs.toNat := by decide
    dsimp only
    rw [decide_eq_true_iff, UInt64.le_iff_toNat_le, toNat_satSub]
    constructor
    · rintro h t ⟨⟩
      omega
    · intro h
      have := h last rfl
      omega

/-- When an event puts a payment on the air. -/
def MeshEvent.offeredAt (txId : TxId) : MeshEvent → Option UInt64
  | .offered id atMs => if id = txId then some atMs else none
  | _ => none

/-- The last time that a payment was put on the air. -/
def lastOffered (txId : TxId) (trace : List MeshEvent) : Option UInt64 :=
  (trace.filterMap (MeshEvent.offeredAt txId)).head?

theorem lastOffered_append (txId : TxId) (new old : List MeshEvent) :
    lastOffered txId (new ++ old) = (lastOffered txId new).or (lastOffered txId old) := by
  unfold lastOffered
  rw [List.filterMap_append, List.head?_append]

namespace MeshNode

/-- The frame of an own transaction. -/
def ownFrame (n : MeshNode) (wire : Bytes) : Bytes :=
  match encodeEnvelope (n.localEnvelope wire) with
  | .error _ => []
  | .ok payload => (encode (n.buildPacket .nimiqTx payload).1).toOption.getD []

/-- What a node keeps of a transaction that it signs. -/
def signed (env : NodeEnv) (n : MeshNode) (wire : Bytes) : PendingTx :=
  let createdMs := env.clock (n.io.asked + 1)
  { txId := mockTxId wire, bytes := n.ownFrame wire, validUntil := (n.localEnvelope wire).validUntil, createdMs,
    lastFloodMs := if n.peers.isEmpty then none else some createdMs }

/-- The node as the retry pass of a tick finds it. -/
def atRetry (env : NodeEnv) (n : MeshNode) : Job → MeshNode
  | .beaconTick => (n.emitHeadBeacon env).beforeRetry env
  | _ => n.beforeRetry env

/-- A job that keeps the retry set in step with the ledger: an own transaction fits an envelope, and the
    set has room for it and does not have it yet. -/
def keepsStep (n : MeshNode) (job : Job) : Prop :=
  ∀ wire, job = .localTx wire → wire.length ≤ maxTlvValueLen ∧ n.pending.entries.length < maxPending ∧
    mockTxId wire ∉ n.pending.entries.map (·.txId)

/-- The window of a transaction is not closed yet, if the job is a tick that looks. -/
def stillOpen (env : NodeEnv) (e : PendingTx) (n : MeshNode) (job : Job) : Prop :=
  job.IsTick → ¬ WindowClosed (n.atRetry env job).cachedHead ((n.atRetry env job).now env) e

/-- What `n` owes a transaction at a tick, if it signs it, then does some jobs and then comes to the tick. -/
structure HonestAt (env : NodeEnv) (n : MeshNode) (wire : Bytes) (jobs : List Job) (tick : Job) : Prop where
  closed : let m := n.exec env (.localTx wire :: jobs)
    WindowClosed (m.atRetry env tick).cachedHead ((m.atRetry env tick).now env) (n.signed env wire) →
      (m.step env tick).ledger.status (mockTxId wire) ≠ .pending
  retried : let m := n.exec env (.localTx wire :: jobs)
    ∃ new, m.io.trace = new ++ n.io.trace ∧
      (Run.Along (step env) (stillOpen env (n.signed env wire)) (n.step env (.localTx wire)) (jobs ++ [tick]) →
        verdicts (mockTxId wire) new = [] →
        Overdue (lastOffered (mockTxId wire) new) ((m.atRetry env tick).now env) →
        ∀ peer ∈ m.peers, ∃ head, .sent peer (n.ownFrame wire) .own head ∈ m.news env tick)

end MeshNode

/-! ### Quiet paths -/

/-- A decision stays. -/
theorem SettlementLedger.Extends.decided {l l' : SettlementLedger} (h : l.Extends l') {txId : TxId}
    (hs : l.status txId ≠ .pending) : l'.status txId ≠ .pending := by
  cases ht : l.lookup txId with
  | none =>
    rw [status, ht] at hs
    exact absurd rfl hs
  | some t =>
    have hne : t.status ≠ .pending := by rwa [status, ht] at hs
    obtain ⟨t', ht', -, heq⟩ := h txId t ht
    rw [status, ht', heq hne]
    exact hne

theorem SettlementLedger.Extends.tracked {l l' : SettlementLedger} (h : l.Extends l') {txId : TxId}
    (ht : (l.lookup txId).isSome) : (l'.lookup txId).isSome := by
  obtain ⟨t, ht⟩ := Option.isSome_iff_exists.mp ht
  obtain ⟨t', ht', -, -⟩ := h txId t ht
  rw [ht']
  rfl

/-- Neither a tick nor an own transaction. -/
def Job.IsQuiet (job : Job) : Prop := ¬ job.IsTick ∧ ∀ wire, job ≠ .localTx wire

section
variable {env : NodeEnv} {n₀ : MeshNode} {job : Job}

theorem Act.offers_none {b b' : Books} (h : Act env n₀ job b b') (hquiet : job.IsQuiet) (txId : TxId) :
    ∃ add, b'.trace = add ++ b.trace ∧ lastOffered txId add = none := by
  cases h with
  | took p => exact ⟨[.took p], Books.take_trace p b, rfl⟩
  | own p => exact ⟨[.own p], rfl, rfl⟩
  | hand ctx answer => exact ⟨[.handed ctx answer], rfl, rfl⟩
  | sent peer frame kind => exact ⟨[.sent peer frame kind b.head.height], rfl, rfl⟩
  | offer id nowMs hjob => exact absurd hjob (not_or.mpr ⟨hquiet.1, fun h => h.elim hquiet.2⟩)
  | _ => exact ⟨[], rfl, rfl⟩

/-- An entry of the retry set is left alone, or a receipt closes the payment. -/
theorem Act.entry_stays {b b' : Books} (h : Act env n₀ job b b') (hquiet : job.IsQuiet) {e : PendingTx}
    (he : e ∈ b.pending.entries) (ht : (b.ledger.lookup e.txId).isSome) : ∃ add, b'.trace = add ++ b.trace ∧
      lastOffered e.txId add = none ∧ (e ∈ b'.pending.entries ∨
        job.IsInbound ∧ b'.ledger.status e.txId ≠ .pending ∧ verdicts e.txId add ≠ []) := by
  cases h with
  | took p hjob =>
    refine ⟨[.took p], Books.take_trace p b, rfl, ?_⟩
    cases hr : Books.receiptOf p with
    | none =>
      rw [Books.take_of_none hr]
      exact .inl he
    | some r =>
      obtain ⟨txId, status⟩ := r
      rw [Books.take_of_receipt hr]
      by_cases hid : e.txId = txId
      · refine .inr ⟨hjob, ?_, ?_⟩
        · have hset := SettlementLedger.status_settle b.ledger txId status.payment e.txId
          rw [hid] at hset ht ⊢
          refine fun hpend => ?_
          have hpend : (b.ledger.settle txId status.payment).status txId = .pending := hpend
          rw [hset] at hpend
          split_ifs at hpend with hc
          · exact status.payment_ne_pending hpend
          · exact hc ⟨rfl, ht, hpend⟩
        · simp [verdicts, MeshEvent.verdict, MeshEvent.taken, hr, hid]
      · exact .inl (List.mem_filter.mpr ⟨he, decide_eq_true hid⟩)
  | launch wire e' hjob => exact absurd hjob (hquiet.2 wire)
  | expire nowMs hjob => exact absurd hjob hquiet.1
  | touch nowMs hjob => exact absurd hjob hquiet.1
  | offer id nowMs hjob => exact absurd hjob (not_or.mpr ⟨hquiet.1, fun h => h.elim hquiet.2⟩)
  | own p => exact ⟨[.own p], rfl, rfl, .inl he⟩
  | hand ctx answer => exact ⟨[.handed ctx answer], rfl, rfl, .inl he⟩
  | sent peer frame kind => exact ⟨[.sent peer frame kind b.head.height], rfl, rfl, .inl he⟩
  | _ => exact ⟨[], rfl, rfl, .inl he⟩

theorem Path.entry_stays {b b' : Books} (h : Path env n₀ job b b') (hquiet : job.IsQuiet) {e : PendingTx}
    (he : e ∈ b.pending.entries) (ht : (b.ledger.lookup e.txId).isSome) : ∃ add, b'.trace = add ++ b.trace ∧
      lastOffered e.txId add = none ∧ (e ∈ b'.pending.entries ∨
        job.IsInbound ∧ b'.ledger.status e.txId ≠ .pending ∧ verdicts e.txId add ≠ []) := by
  suffices hall : ∃ add, b'.trace = add ++ b.trace ∧ lastOffered e.txId add = none ∧
      (b'.ledger.lookup e.txId).isSome ∧ (e ∈ b'.pending.entries ∨
        job.IsInbound ∧ b'.ledger.status e.txId ≠ .pending ∧ verdicts e.txId add ≠ []) by
    obtain ⟨add, htrace, hoff, -, hcase⟩ := hall
    exact ⟨add, htrace, hoff, hcase⟩
  refine h.invariant (I := fun b' => ∃ add, b'.trace = add ++ b.trace ∧ lastOffered e.txId add = none ∧
    (b'.ledger.lookup e.txId).isSome ∧ (e ∈ b'.pending.entries ∨
      job.IsInbound ∧ b'.ledger.status e.txId ≠ .pending ∧ verdicts e.txId add ≠ [])) ?_
    ⟨[], rfl, rfl, ht, .inl he⟩
  rintro b₁ b₂ hact ⟨add, htrace, hoff, ht₁, hcase⟩
  have ht₂ := hact.ledger_extends.tracked ht₁
  rcases hcase with he₁ | ⟨hin, hs, hv⟩
  · obtain ⟨more, hmore, hnone, hcase⟩ := hact.entry_stays hquiet he₁ ht₁
    refine ⟨more ++ add, by rw [hmore, htrace, List.append_assoc], ?_, ht₂, hcase.imp id fun h => ⟨h.1, h.2.1, ?_⟩⟩
    · rw [lastOffered_append, hnone, hoff]
      rfl
    · rw [verdicts_append]
      exact List.append_ne_nil_of_right_ne_nil _ h.2.2
  · obtain ⟨more, hmore, hnone⟩ := hact.offers_none hquiet e.txId
    refine ⟨more ++ add, by rw [hmore, htrace, List.append_assoc], ?_, ht₂, .inr ⟨hin, ?_, ?_⟩⟩
    · rw [lastOffered_append, hnone, hoff]
      rfl
    · exact hact.ledger_extends.decided hs
    · rw [verdicts_append]
      exact List.append_ne_nil_of_left_ne_nil hv _

end

/-- What is neither a frame, a tick nor an own transaction leaves an entry alone. -/
theorem Path.entry_kept {env : NodeEnv} {n₀ : MeshNode} {b b' : Books} (h : Path env n₀ .requestSync b b')
    {e : PendingTx} (he : e ∈ b.pending.entries) (ht : (b.ledger.lookup e.txId).isSome) :
    ∃ add, b'.trace = add ++ b.trace ∧ lastOffered e.txId add = none ∧ e ∈ b'.pending.entries := by
  have hquiet : Job.requestSync.IsQuiet := ⟨fun h => h.elim (fun h => (nomatch h)) fun h => (nomatch h),
    fun _ h => (nomatch h)⟩
  obtain ⟨add, htrace, hoff, he' | ⟨⟨_, _, hin⟩, -⟩⟩ := h.entry_stays hquiet he ht
  · exact ⟨add, htrace, hoff, he'⟩
  · cases hin

theorem Path.peers_eq {env : NodeEnv} {n₀ : MeshNode} {b b' : Books} (h : Path env n₀ .requestSync b b') :
    b'.peers = b.peers := by
  refine h.frame (·.peers) fun b₁ b₂ hact => ?_
  cases hact with
  | took p => exact Books.take_peers p b₁
  | link peers hjob =>
    obtain ⟨peer, hjob | hjob⟩ := hjob
    · cases hjob
    · cases hjob
  | _ => rfl

/-- Room for one more leaves an entry alone. -/
theorem PendingRetry.mem_remember {r : PendingRetry} {e e' : PendingTx} (he : e ∈ r.entries)
    (hroom : r.entries.length < maxPending) (hid : e'.txId ≠ e.txId) : e ∈ (r.remember e').entries := by
  have hkept : e ∈ r.entries.filter fun e₁ => e₁.txId ≠ e'.txId :=
    List.mem_filter.mpr ⟨he, decide_eq_true (Ne.symm hid)⟩
  have hfew : ¬ maxPending ≤ (r.entries.filter fun e₁ => e₁.txId ≠ e'.txId).length :=
    Nat.not_le.mpr ((List.length_filter_le _ _).trans_lt hroom)
  change e ∈ Fifo.push maxPending (r.entries.filter fun e₁ => e₁.txId ≠ e'.txId) e'
  unfold Fifo.push
  rw [if_neg hfew]
  exact List.mem_append_left _ hkept

namespace MeshNode

/-! ### The retry pass -/

theorem floodExcluding_sends (env : NodeEnv) (frame : Bytes) (exclude : Option Link) (kind : SendKind)
    (n : MeshNode) : ∃ add, (n.floodExcluding env frame exclude kind).io.trace = add ++ n.io.trace ∧
      ∀ peer ∈ n.peers, some peer ≠ exclude → .sent peer frame kind n.cachedHead ∈ add := by
  unfold floodExcluding
  dsimp only
  have hperm := env.peerOrder_perm n.io.asked n.peers
  generalize env.peerOrder n.io.asked n.peers = peers at hperm
  suffices hall : ∀ io : NodeIo, ∃ add, (peers.foldl (fun io peer =>
      if some peer = exclude then io else io.send peer frame kind n.cachedHead) io).trace = add ++ io.trace ∧
      ∀ peer ∈ peers, some peer ≠ exclude → .sent peer frame kind n.cachedHead ∈ add by
    obtain ⟨add, htrace, hall⟩ := hall n.io
    exact ⟨add, htrace, fun peer hp => hall peer (hperm.mem_iff.mpr hp)⟩
  clear hperm
  induction peers with
  | nil => exact fun io => ⟨[], rfl, fun _ h => absurd h List.not_mem_nil⟩
  | cons peer peers ih =>
    intro io
    rw [List.foldl_cons]
    split_ifs with hp
    · obtain ⟨add, htrace, hall⟩ := ih io
      refine ⟨add, htrace, fun q hq hne => ?_⟩
      rcases List.mem_cons.mp hq with rfl | hq
      · exact absurd hp hne
      · exact hall q hq hne
    · obtain ⟨add, htrace, hall⟩ := ih (io.send peer frame kind n.cachedHead)
      refine ⟨add ++ [.sent peer frame kind n.cachedHead], by rw [htrace, NodeIo.send_trace]; simp, ?_⟩
      intro q hq hne
      rcases List.mem_cons.mp hq with rfl | hq
      · exact List.mem_append_right _ (List.mem_singleton_self _)
      · exact List.mem_append_left _ (hall q hq hne)

/-- A flood goes to every peer and is no offer of its own. -/
theorem flood_sends (env : NodeEnv) (frame : Bytes) (n : MeshNode) :
    ∃ add, (n.flood env frame).io.trace = add ++ n.io.trace ∧ (∀ txId, lastOffered txId add = none) ∧
      ∀ peer ∈ n.peers, .sent peer frame .own n.cachedHead ∈ add := by
  obtain ⟨add, htrace, hsent⟩ := floodExcluding_sends env frame none .own n
  refine ⟨add, htrace, fun txId => ?_, fun peer hp => hsent peer hp (by simp)⟩
  have hread := reading_floodExcluding (f := MeshEvent.offeredAt txId) (fun _ _ _ _ => rfl) env frame none .own n
  rw [htrace, List.filterMap_append] at hread
  rw [lastOffered, List.append_left_eq_self.mp hread]
  rfl

/-- What is due is put on the air and goes to every peer. -/
theorem offerAgain_sends (env : NodeEnv) (nowMs : UInt64) (due : List PendingTx) (n : MeshNode) :
    ∃ add, (due.foldl (offerAgain env nowMs) n).io.trace = add ++ n.io.trace ∧
      (∀ txId, lastOffered txId add = if txId ∈ due.map (·.txId) then some nowMs else none) ∧
      ∀ e ∈ due, ∀ peer ∈ n.peers, ∃ head, .sent peer e.bytes .own head ∈ add := by
  induction due generalizing n with
  | nil => exact ⟨[], rfl, fun _ => rfl, fun _ h => absurd h List.not_mem_nil⟩
  | cons e due ih =>
    obtain ⟨add, htrace, hoff, hall⟩ := ih (n.offerAgain env nowMs e)
    obtain ⟨first, hfirst, hnone, hsent⟩ := flood_sends env e.bytes (n.log (.offered e.txId nowMs))
    have hfirst : (n.offerAgain env nowMs e).io.trace = first ++ .offered e.txId nowMs :: n.io.trace := hfirst
    refine ⟨add ++ (first ++ [.offered e.txId nowMs]), by rw [List.foldl_cons, htrace, hfirst]; simp, ?_, ?_⟩
    · intro txId
      have hlast : lastOffered txId (first ++ [.offered e.txId nowMs]) = if e.txId = txId then some nowMs else none := by
        rw [lastOffered_append, hnone, Option.none_or, lastOffered, List.filterMap_cons, MeshEvent.offeredAt]
        split_ifs
        · rfl
        · rfl
      rw [lastOffered_append, hoff, hlast, List.map_cons]
      by_cases hin : txId ∈ due.map (·.txId)
      · rw [if_pos hin, if_pos (List.mem_cons_of_mem _ hin)]
        rfl
      · rw [if_neg hin, Option.none_or]
        by_cases hid : e.txId = txId
        · rw [if_pos hid, if_pos (by rw [hid]; exact List.mem_cons_self)]
        · rw [if_neg hid, if_neg (fun h => (List.mem_cons.mp h).elim (fun h => hid h.symm) hin)]
    · intro e' he' peer hp
      rcases List.mem_cons.mp he' with rfl | he'
      · exact ⟨_, List.mem_append_right _ (List.mem_append_left _ (hsent peer hp))⟩
      · obtain ⟨head, hhead⟩ := hall e' he' peer hp
        exact ⟨head, List.mem_append_left _ hhead⟩

theorem ledger_offerAgain (env : NodeEnv) (nowMs : UInt64) (due : List PendingTx) (n : MeshNode) :
    (due.foldl (offerAgain env nowMs) n).ledger = n.ledger := by
  induction due generalizing n with
  | nil => rfl
  | cons e due ih => exact ih (n.offerAgain env nowMs e)

theorem pending_offerAgain (env : NodeEnv) (nowMs : UInt64) (due : List PendingTx) (n : MeshNode) :
    (due.foldl (offerAgain env nowMs) n).pending = n.pending := by
  induction due generalizing n with
  | nil => rfl
  | cons e due ih => exact ih (n.offerAgain env nowMs e)

/-- The pass fails what is dead. -/
theorem failExpired_decides {es : List PendingTx} {e : PendingTx} (he : e ∈ es) {l : SettlementLedger}
    (ht : (l.lookup e.txId).isSome) : (es.foldl failExpired l).status e.txId ≠ .pending := by
  induction es generalizing l with
  | nil => cases he
  | cons e' es ih =>
    rw [List.foldl_cons]
    rcases List.mem_cons.mp he with rfl | he
    · refine (SettlementLedger.extends_expired _ es).decided fun hpend => ?_
      have hpend : (l.settle e.txId .failed).status e.txId = .pending := hpend
      rw [SettlementLedger.status_settle] at hpend
      split_ifs at hpend with hc
      exact hc ⟨rfl, ht, hpend⟩
    · exact ih he ((SettlementLedger.extends_settle l e'.txId .failed).tracked ht)

/-- What the pass does with an entry: dead, it is failed; alive, it stays, and goes to every peer when it
    is due. -/
theorem retryTick_entry (env : NodeEnv) (n : MeshNode) {e : PendingTx} (he : e ∈ n.pending.entries)
    (ht : (n.ledger.lookup e.txId).isSome) :
    (WindowClosed n.cachedHead (n.now env) e → (n.retryTick env).ledger.status e.txId ≠ .pending) ∧
    (¬ WindowClosed n.cachedHead (n.now env) e → ∃ add, (n.retryTick env).io.trace = add ++ n.io.trace ∧
      { e with lastFloodMs := (lastOffered e.txId add).or e.lastFloodMs } ∈ (n.retryTick env).pending.entries ∧
      (Overdue e.lastFloodMs (n.now env) → ∀ peer ∈ n.peers, ∃ head, .sent peer e.bytes .own head ∈ add)) := by
  have hledger : (n.retryTick env).ledger =
      (n.pending.entries.filter fun e => e.dead n.cachedHead (n.now env)).foldl failExpired n.ledger := by
    unfold retryTick
    extract_lets nowMs head expired asked n₁ due
    split_ifs
    · rfl
    · exact ledger_offerAgain env nowMs due _
  constructor
  · intro hclosed
    rw [hledger]
    exact failExpired_decides (List.mem_filter.mpr ⟨he, (e.dead_iff _ _).mpr hclosed⟩) ht
  · intro hopen
    have hkept : e ∈ (n.pending.retain fun e => !e.dead n.cachedHead (n.now env)).entries := by
      refine List.mem_filter.mpr ⟨he, ?_⟩
      rw [Bool.not_eq_true', ← Bool.not_eq_true]
      exact fun h => hopen ((e.dead_iff _ _).mp h)
    have hids := (n.pending.retain fun e => !e.dead n.cachedHead (n.now env)).nodup
    unfold retryTick
    extract_lets nowMs head expired asked n₁ due
    split_ifs with hpeers
    · refine ⟨[], rfl, hkept, fun _ peer hp => ?_⟩
      have hnil : n.peers = [] := List.isEmpty_iff.mp hpeers
      rw [hnil] at hp
      cases hp
    · obtain ⟨add, htrace, hoff, hsent⟩ := offerAgain_sends env nowMs due { n₁ with pending := n₁.pending.touch nowMs }
      have hdue : e.txId ∈ due.map (·.txId) ↔ e.due nowMs = true := by
        constructor
        · intro h
          obtain ⟨e', he', hid⟩ := List.mem_map.mp h
          have heq : e' = e := List.inj_on_of_nodup_map hids (List.mem_filter.mp he').1 hkept hid
          rw [← heq]
          exact (List.mem_filter.mp he').2
        · exact fun h => List.mem_map_of_mem (List.mem_filter.mpr ⟨hkept, h⟩)
      refine ⟨add, htrace, ?_, fun hover peer hp => ?_⟩
      · rw [pending_offerAgain, hoff]
        have htouched : (if e.due nowMs then { e with lastFloodMs := some nowMs } else e) ∈
            (n₁.pending.touch nowMs).entries := List.mem_map_of_mem hkept
        by_cases hd : e.due nowMs = true
        · rw [if_pos hd] at htouched
          rw [if_pos (hdue.mpr hd)]
          exact htouched
        · rw [if_neg hd] at htouched
          rw [if_neg (fun h => hd (hdue.mp h))]
          exact htouched
      · exact hsent e (List.mem_filter.mpr ⟨hkept, (e.due_iff nowMs).mpr hover⟩) peer hp

/-! ### Signing -/

theorem encodeEnvelope_local (n : MeshNode) {wire : Bytes} (hfit : wire.length ≤ maxTlvValueLen) :
    ∃ payload, encodeEnvelope (n.localEnvelope wire) = .ok payload := by
  refine ⟨_, NimiqEnvelope.foldlM_pushTlv_ok _ [] fun t ht => ?_⟩
  simp only [NimiqEnvelope.tlvs, localEnvelope, Option.map_some, Option.map_none, Option.toList_some,
    Option.toList_none, if_true, List.append_nil, List.mem_append, List.mem_cons, List.not_mem_nil, or_false,
    Option.mem_toList, Option.map_eq_some_iff] at ht
  rcases ht with (((rfl | rfl) | ⟨vu, -, rfl⟩) | rfl) | rfl
  · exact hfit
  · exact (by decide : 1 ≤ maxTlvValueLen)
  · exact (by decide : 4 ≤ maxTlvValueLen)
  · rw [show (mockTxId wire).1.length = 32 from (mockTxId wire).2]
    decide
  · decide

/-- The node with its own transaction marked, remembered and recorded. -/
def recorded (env : NodeEnv) (n : MeshNode) (wire payload : Bytes) : MeshNode :=
  let (p, n) := n.buildPacket .nimiqTx payload
  let n := (n.markOwn p).remember env p
  { n with ledger := n.ledger.record (mockTxId wire) .outgoing }

theorem recorded_asked (env : NodeEnv) (n : MeshNode) (wire payload : Bytes) :
    (n.recorded env wire payload).io.asked = n.io.asked + 1 := by
  unfold recorded remember markOwn buildPacket
  dsimp only
  split_ifs
  · rfl
  · rfl
  · rfl
  · rfl

theorem recorded_trace (env : NodeEnv) (n : MeshNode) (wire payload : Bytes) :
    ∃ add, (n.recorded env wire payload).io.trace = add ++ n.io.trace ∧ ∀ txId, lastOffered txId add = none := by
  have hkeep : (n.recorded env wire payload).io.trace =
      ((n.buildPacket .nimiqTx payload).2.markOwn (n.buildPacket .nimiqTx payload).1).io.trace :=
    congrArg Books.trace (remember_books env _ _)
  rw [hkeep]
  unfold markOwn
  dsimp only
  split_ifs
  · exact ⟨[.own _], rfl, fun _ => rfl⟩
  · exact ⟨[], rfl, fun _ => rfl⟩

theorem floodLocalTx_eq (env : NodeEnv) (n : MeshNode) {wire : Bytes} (hfit : wire.length ≤ maxTlvValueLen) :
    ∃ payload, n.floodLocalTx env wire = (n.recorded env wire payload).launch env wire (n.ownFrame wire)
      (n.localEnvelope wire).validUntil := by
  obtain ⟨payload, henv⟩ := n.encodeEnvelope_local hfit
  refine ⟨payload, ?_⟩
  obtain ⟨bytes, he⟩ : ∃ bytes, encode (n.buildPacket .nimiqTx payload).1 = .ok bytes := by
    refine encode_ok ((length_encodeEnvelope_le henv).trans ?_)
    decide
  rw [floodLocalTx, ownFrame, henv]
  dsimp only
  rw [he]
  rfl

/-- A transaction that fits is recorded, kept and put on the air. -/
theorem floodLocalTx_spec (env : NodeEnv) (n : MeshNode) {wire : Bytes} (hfit : wire.length ≤ maxTlvValueLen) :
    (n.floodLocalTx env wire).pending = n.pending.remember (n.signed env wire) ∧
    (n.floodLocalTx env wire).ledger = n.ledger.record (mockTxId wire) .outgoing ∧
    ∃ add, (n.floodLocalTx env wire).io.trace = add ++ n.io.trace ∧
      ∀ txId, lastOffered txId add = if mockTxId wire = txId then (n.signed env wire).lastFloodMs else none := by
  obtain ⟨payload, heq⟩ := floodLocalTx_eq env n hfit
  rw [heq]
  have hasked := recorded_asked env n wire payload
  obtain ⟨first, hfirst, hnone⟩ := recorded_trace env n wire payload
  have hpeers : (n.recorded env wire payload).peers = n.peers := rfl
  have hpending : (n.recorded env wire payload).pending = n.pending := rfl
  have hledger : (n.recorded env wire payload).ledger = n.ledger.record (mockTxId wire) .outgoing := rfl
  generalize n.recorded env wire payload = m at hasked hfirst hpeers hpending hledger ⊢
  have hnow : m.now env = env.clock (n.io.asked + 1) := congrArg env.clock hasked
  have hentry : m.pendingEntry env wire (n.ownFrame wire) (n.localEnvelope wire).validUntil = n.signed env wire := by
    rw [pendingEntry, signed, hnow, hpeers]
  unfold launch
  rw [hentry, hpending, hpeers, hnow]
  split_ifs with hempty
  · obtain ⟨add, htrace, hoff, -⟩ := flood_sends env (n.ownFrame wire)
      { m.ask with pending := n.pending.remember (n.signed env wire) }
    refine ⟨rfl, hledger, add ++ first, ?_, fun txId => ?_⟩
    · rw [htrace, List.append_assoc, ← hfirst]
      rfl
    · rw [lastOffered_append, hoff, hnone, signed, if_pos hempty]
      split_ifs <;> rfl
  · obtain ⟨add, htrace, hoff, -⟩ := flood_sends env (n.ownFrame wire)
      (MeshNode.log { m.ask with pending := n.pending.remember (n.signed env wire) }
        (.offered (mockTxId wire) (env.clock (n.io.asked + 1))))
    refine ⟨rfl, hledger, add ++ .offered (mockTxId wire) (env.clock (n.io.asked + 1)) :: first, ?_, fun txId => ?_⟩
    · rw [htrace, List.append_assoc, List.cons_append, ← hfirst]
      rfl
    · rw [lastOffered_append, hoff, Option.none_or, lastOffered, List.filterMap_cons, MeshEvent.offeredAt, signed,
        if_neg hempty]
      have hrest := hnone txId
      rw [lastOffered] at hrest
      split_ifs
      · rfl
      · exact hrest

/-! ### One job -/

theorem step_tick (env : NodeEnv) (n : MeshNode) {tick : Job} (htick : tick.IsTick) :
    n.step env tick = ((n.atRetry env tick).retryTick env).gcTick env := by
  rcases htick with rfl | rfl
  · rfl
  · rfl

theorem atRetry_path {env : NodeEnv} {n₀ : MeshNode} (n : MeshNode) (tick : Job) :
    Path env n₀ .requestSync n.books (n.atRetry env tick).books := by
  unfold atRetry
  split
  · have hemit : Path env n₀ .requestSync n.books (n.emitHeadBeacon env).books :=
      emitHeadBeacon_path (fun _ h => Job.noConfusion h) n
    exact hemit.trans (beforeRetry_path _)
  · exact beforeRetry_path n

/-- STEP: what a tick does with an entry. -/
theorem tick_entry (env : NodeEnv) {n : MeshNode} (hbuf : n.books.Buffered) {tick : Job} (htick : tick.IsTick)
    {e : PendingTx} (he : e ∈ n.pending.entries) (ht : (n.ledger.lookup e.txId).isSome) :
    (¬ n.stillOpen env e tick → (n.step env tick).ledger.status e.txId ≠ .pending) ∧
    (n.stillOpen env e tick → ∃ add, (n.step env tick).io.trace = add ++ n.io.trace ∧
      { e with lastFloodMs := (lastOffered e.txId add).or e.lastFloodMs } ∈ (n.step env tick).pending.entries ∧
      (Overdue e.lastFloodMs ((n.atRetry env tick).now env) →
        ∀ peer ∈ n.peers, ∃ head, .sent peer e.bytes .own head ∈ add)) := by
  have hpre : Path env n .requestSync n.books (n.atRetry env tick).books := atRetry_path n tick
  obtain ⟨first, hfirst, hnone, he₁⟩ := hpre.entry_kept he ht
  have ht₁ : ((n.atRetry env tick).ledger.lookup e.txId).isSome := hpre.ledger_extends.tracked ht
  have hpeers : (n.atRetry env tick).peers = n.peers := hpre.peers_eq
  have hretry : Path env n tick (n.atRetry env tick).books ((n.atRetry env tick).retryTick env).books :=
    retryTick_path htick _
  have hbuf₂ := hretry.buffered (hpre.buffered hbuf)
  have hpost : Path env n .requestSync ((n.atRetry env tick).retryTick env).books (n.step env tick).books := by
    rw [step_tick env n htick]
    exact gcTick_path _ hbuf₂
  obtain ⟨hdead, hlive⟩ := retryTick_entry env (n.atRetry env tick) he₁ ht₁
  constructor
  · intro hclosed
    have hclosed := (Classical.not_imp.mp hclosed).2
    exact hpost.ledger_extends.decided (hdead (not_not.mp hclosed))
  · intro hopen
    obtain ⟨mid, hmid, hmem, hsent⟩ := hlive (hopen htick)
    have ht₂ : (((n.atRetry env tick).retryTick env).ledger.lookup e.txId).isSome :=
      hretry.ledger_extends.tracked ht₁
    obtain ⟨last, hlast, hnone', hmem'⟩ := hpost.entry_kept hmem ht₂
    have hfirst : (n.atRetry env tick).io.trace = first ++ n.io.trace := hfirst
    have hlast : (n.step env tick).io.trace = last ++ ((n.atRetry env tick).retryTick env).io.trace := hlast
    refine ⟨last ++ mid ++ first, ?_, ?_, fun hover peer hp => ?_⟩
    · rw [hlast, hmid, hfirst, List.append_assoc, List.append_assoc]
    · rw [lastOffered_append, lastOffered_append, hnone, hnone', Option.none_or, Option.or_none]
      exact hmem'
    · obtain ⟨head, hhead⟩ := hsent hover peer (hpeers ▸ hp)
      exact ⟨head, List.mem_append_left _ (List.mem_append_right _ hhead)⟩

/-- STEP: an entry stays, or the payment is decided, by a receipt or at the end of its window. -/
theorem step_entry (env : NodeEnv) {n : MeshNode} (hbuf : n.books.Buffered) {job : Job} (hok : n.keepsStep job)
    {e : PendingTx} (he : e ∈ n.pending.entries) (ht : (n.ledger.lookup e.txId).isSome) :
    ∃ add, (n.step env job).io.trace = add ++ n.io.trace ∧
      ({ e with lastFloodMs := (lastOffered e.txId add).or e.lastFloodMs } ∈ (n.step env job).pending.entries ∨
        (n.step env job).ledger.status e.txId ≠ .pending ∧
          (verdicts e.txId add ≠ [] ∨ ¬ n.stillOpen env e job)) := by
  by_cases htick : job.IsTick
  · obtain ⟨hclosed, hopen⟩ := tick_entry env hbuf htick he ht
    by_cases hstill : n.stillOpen env e job
    · obtain ⟨add, htrace, hmem, -⟩ := hopen hstill
      exact ⟨add, htrace, .inl hmem⟩
    · obtain ⟨add, htrace⟩ := (step_path env n job hbuf).trace_grows
      exact ⟨add, htrace, .inr ⟨hclosed hstill, .inr hstill⟩⟩
  · by_cases hlocal : ∃ wire, job = .localTx wire
    · obtain ⟨wire, rfl⟩ := hlocal
      obtain ⟨hfit, hroom, hid⟩ := hok wire rfl
      have hne : mockTxId wire ≠ e.txId := fun h => hid (h ▸ List.mem_map_of_mem he)
      obtain ⟨hpending, -, add, htrace, hoff⟩ := floodLocalTx_spec env n hfit
      refine ⟨add, htrace, .inl ?_⟩
      rw [hoff, if_neg hne, Option.none_or]
      have hpending : (n.step env (.localTx wire)).pending = n.pending.remember (n.signed env wire) := hpending
      rw [hpending]
      exact PendingRetry.mem_remember he hroom hne
    · have hquiet : job.IsQuiet := ⟨htick, fun wire h => hlocal ⟨wire, h⟩⟩
      obtain ⟨add, htrace, hoff, hcase⟩ := (step_path env n job hbuf).entry_stays hquiet he ht
      refine ⟨add, htrace, ?_⟩
      rw [hoff, Option.none_or]
      exact hcase.imp id fun h => ⟨h.2.1, .inl h.2.2⟩

/-! ### Runs -/

theorem exec_entry (env : NodeEnv) (jobs : List Job) {n : MeshNode} (hbuf : n.books.Buffered)
    (hok : Run.Along (step env) keepsStep n jobs) {e : PendingTx} (he : e ∈ n.pending.entries)
    (ht : (n.ledger.lookup e.txId).isSome) : ∃ add, (n.exec env jobs).io.trace = add ++ n.io.trace ∧
      ({ e with lastFloodMs := (lastOffered e.txId add).or e.lastFloodMs } ∈ (n.exec env jobs).pending.entries ∨
        (n.exec env jobs).ledger.status e.txId ≠ .pending ∧
          (verdicts e.txId add ≠ [] ∨ ¬ Run.Along (step env) (stillOpen env e) n jobs)) := by
  induction jobs generalizing n e with
  | nil => exact ⟨[], rfl, .inl he⟩
  | cons job jobs ih =>
    have hexec : n.exec env (job :: jobs) = (n.step env job).exec env jobs := rfl
    have hbuf' := step_buffered env n job hbuf
    have ht' : ((n.step env job).ledger.lookup e.txId).isSome :=
      (step_path env n job hbuf).ledger_extends.tracked ht
    obtain ⟨first, hfirst, he' | ⟨hs, hwhy⟩⟩ := step_entry env hbuf hok.1 he ht
    · obtain ⟨add, htrace, hcase⟩ := ih hbuf' hok.2 he' ht'
      refine ⟨add ++ first, by rw [hexec, htrace, hfirst, List.append_assoc], ?_⟩
      rw [hexec, lastOffered_append, Option.or_assoc, verdicts_append]
      refine hcase.imp id fun h => ⟨h.1, h.2.imp ?_ fun hnot hall => hnot hall.2⟩
      exact List.append_ne_nil_of_right_ne_nil _
    · obtain ⟨add, htrace⟩ := exec_trace_grows env (n.step env job) jobs hbuf'
      refine ⟨add ++ first, by rw [hexec, htrace, hfirst, List.append_assoc], .inr ⟨?_, ?_⟩⟩
      · exact (ledger_extends_exec env (n.step env job) jobs hbuf').decided hs
      · rw [verdicts_append]
        exact hwhy.imp (fun h => List.append_ne_nil_of_left_ne_nil h _) fun hnot hall => hnot hall.1

/-- RUN: while every own transaction fits an envelope and the retry set has room for it and does not have
    it yet, no own transaction is pending after a tick that finds its window closed; and until one does, and
    until a receipt for it is heard, every tick at which it is time offers its frame to every peer. -/
theorem honest_to_the_end (env : NodeEnv) {n : MeshNode} (hn : n.Started) (pre jobs : List Job) {wire : Bytes}
    {tick : Job} (htick : tick.IsTick)
    (hok : Run.Along (step env) keepsStep n (pre ++ .localTx wire :: jobs)) :
    (n.exec env pre).HonestAt env wire jobs tick := by
  have hbuf := exec_buffered env n pre hn.buffered
  obtain ⟨hsign, hrest⟩ := ((Run.along_append _ _ _ _ n).mp hok).2
  have hsign : (n.exec env pre).keepsStep (.localTx wire) := hsign
  have hrest : Run.Along (step env) keepsStep ((n.exec env pre).step env (.localTx wire)) jobs := hrest
  generalize n.exec env pre = n at hbuf hsign hrest ⊢
  obtain ⟨hpending, hledger, add₀, htrace₀, hoff₀⟩ := floodLocalTx_spec env n (hsign wire rfl).1
  have hmem : n.signed env wire ∈ (n.step env (.localTx wire)).pending.entries := by
    have hpending : (n.step env (.localTx wire)).pending = n.pending.remember (n.signed env wire) := hpending
    rw [hpending]
    exact Fifo.mem_push_self _ _ _
  have ht : ((n.step env (.localTx wire)).ledger.lookup (mockTxId wire)).isSome := by
    have hledger : (n.step env (.localTx wire)).ledger = n.ledger.record (mockTxId wire) .outgoing := hledger
    rw [hledger, SettlementLedger.lookup_record, if_pos rfl]
    rfl
  have hbuf₁ := step_buffered env n (.localTx wire) hbuf
  obtain ⟨add, htrace, hcase⟩ := exec_entry env jobs hbuf₁ hrest hmem ht
  have ht₂ := (ledger_extends_exec env (n.step env (.localTx wire)) jobs hbuf₁).tracked ht
  have hbuf₂ := exec_buffered env (n.step env (.localTx wire)) jobs hbuf₁
  have hexec : n.exec env (.localTx wire :: jobs) = (n.step env (.localTx wire)).exec env jobs := rfl
  constructor
  · intro m hclosed
    rcases hcase with hmem₂ | ⟨hs, -⟩
    · exact (tick_entry env hbuf₂ htick hmem₂ ht₂).1 fun hopen => hopen htick hclosed
    · exact (step_path env _ tick hbuf₂).ledger_extends.decided hs
  · refine ⟨add ++ add₀, ?_, fun hopen hquiet hover peer hp => ?_⟩
    · have htrace₀ : (n.step env (.localTx wire)).io.trace = add₀ ++ n.io.trace := htrace₀
      rw [hexec, htrace, htrace₀, List.append_assoc]
    · obtain ⟨hopen₁, hopen₂⟩ := (Run.along_append _ _ _ _ _).mp hopen
      rw [verdicts_append, List.append_eq_nil_iff] at hquiet
      rw [lastOffered_append, hoff₀, if_pos rfl] at hover
      rcases hcase with hmem₂ | ⟨-, hv | hnot⟩
      · obtain ⟨new, hnew, -, hsent⟩ := (tick_entry env hbuf₂ htick hmem₂ ht₂).2 hopen₂.1
        obtain ⟨head, hhead⟩ := hsent hover peer hp
        refine ⟨head, ?_⟩
        rw [hexec, news_eq hnew]
        exact hhead
      · exact absurd hquiet.2 hv
      · exact absurd hopen₁ hnot

end MeshNode

open Sample in
/-- Sixteen later transactions push the first out of the retry set, and one does not fit an envelope: long
    after their windows have closed both are pending. -/
theorem forgotten_payment_stays_pending :
    ¬ meshNode.HonestAt (meshEnv (fun i => if i < 34 then 0 else 8000000) none) [0]
      ((List.range 16).map fun i => .localTx [1, i.toUInt8]) .syncTick ∧
    ¬ meshNode.HonestAt (meshEnv (fun i => if i < 2 then 0 else 8000000) none) (List.replicate 256 0)
      [.swapFastTick, .swapFastTick] .syncTick := by
  constructor
  · refine fun h => h.closed ((PendingTx.dead_iff _ _ _).mp ?_) ?_
    · decide +kernel
    · decide +kernel
  · refine fun h => h.closed ((PendingTx.dead_iff _ _ _).mp ?_) ?_
    · decide +kernel
    · decide +kernel

open Sample in
/-- The sample node signs two transactions, one of them within reach of a peer. -/
theorem sample_honest_to_the_end :
    (meshNode.exec (meshEnv (fun _ => 1000) none) [.localTx [7], .peerConnected "a"]).HonestAt
      (meshEnv (fun _ => 1000) none) paymentWire [.syncTick] .syncTick := by
  refine MeshNode.honest_to_the_end (meshEnv (fun _ => 1000) none) started_meshNode
    [.localTx [7], .peerConnected "a"] [.syncTick] (.inl rfl) ⟨?_, ?_, ?_, ?_, trivial⟩
  · rintro _ ⟨⟩
    decide +kernel
  · exact fun _ h => (nomatch h)
  · rintro _ ⟨⟩
    decide +kernel
  · exact fun _ h => (nomatch h)

end Nimmesh
