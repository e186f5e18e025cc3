import Nimmesh.Mesh.ReceiptOrder

/-! @src engine.rs dedup.rs gateway.rs pending_retry.rs | name:What a gateway submits | layer:model

    Three bounded sets stand between a payment that reaches a gateway and the chain: the relay keys seen,
    the ids acknowledged and the ids handed over. All three are written before the outcome is known and
    under names that the sender chooses. What they hold can be read off the trace, so it can be said for
    every run exactly when a payment that arrives is handed over. -/

namespace Nimmesh

/-! ### What the sets remember -/

/-- The relay key that an event makes known. -/
def MeshEvent.seenKey : MeshEvent → Option RelayKey
  | .took p => some (relayKey p)
  | .own p => some (relayKey p)
  | _ => none

/-- What an event hands to the gateway. -/
def MeshEvent.submission : MeshEvent → Option SubmitContext
  | .handed ctx _ => some ctx
  | _ => none

/-- The payment that an event acknowledges. -/
def MeshEvent.ackedId (e : MeshEvent) : Option TxId := (e.taken.bind Books.receiptOf).map (·.1)

/-- The last 2048 keys that were news to the node. -/
def recentKeys (trace : List MeshEvent) : List RelayKey :=
  (trace.reverse.filterMap MeshEvent.seenKey).rtake relayCacheCap

def submissions (trace : List MeshEvent) : List SubmitContext := trace.filterMap MeshEvent.submission

/-- The ids of the last 1024 submissions. -/
def recentlyHanded (trace : List MeshEvent) : List TxId :=
  ((submissions trace.reverse).map (·.txId)).rtake gatewayCacheCap

/-- Record an acknowledgement. -/
def acknowledge (acked : DedupCache TxId) (txId : TxId) : DedupCache TxId := (acked.insert txId).2

/-- The ids that the receipts in a trace leave acknowledged. -/
def acknowledged (trace : List MeshEvent) : DedupCache TxId :=
  (trace.reverse.filterMap MeshEvent.ackedId).foldl acknowledge (.new gatewayCacheCap)

theorem DedupCache.insert_order {κ : Type} [DecidableEq κ] {c : DedupCache κ} {key : κ} (h : key ∉ c.order) :
    (c.insert key).2.order = (c.order ++ [key]).rtake c.capacity := by
  rw [insert, dif_neg h]
  exact Fifo.push_eq_rtake c.pos c.bound key

theorem recentKeys_cons {e : MeshEvent} {key : RelayKey} (h : e.seenKey = some key) (trace : List MeshEvent) :
    recentKeys (e :: trace) = (recentKeys trace ++ [key]).rtake relayCacheCap := by
  have hlast : [e].filterMap MeshEvent.seenKey = [key] := by rw [List.filterMap_cons, h]; rfl
  rw [recentKeys, recentKeys, List.reverse_cons, List.filterMap_append, hlast, Fifo.rtake_rtake_append]

theorem recentKeys_cons_none {e : MeshEvent} (h : e.seenKey = none) (trace : List MeshEvent) :
    recentKeys (e :: trace) = recentKeys trace := by
  have hlast : [e].filterMap MeshEvent.seenKey = [] := by rw [List.filterMap_cons, h]; rfl
  rw [recentKeys, recentKeys, List.reverse_cons, List.filterMap_append, hlast, List.append_nil]

theorem recentlyHanded_cons (ctx : SubmitContext) (answer : Except MeshError Receipt) (trace : List MeshEvent) :
    recentlyHanded (.handed ctx answer :: trace) =
      (recentlyHanded trace ++ [ctx.txId]).rtake gatewayCacheCap := by
  rw [recentlyHanded, recentlyHanded, submissions, submissions, List.reverse_cons, List.filterMap_append,
    List.map_append, Fifo.rtake_rtake_append]
  rfl

theorem recentlyHanded_cons_none {e : MeshEvent} (h : e.submission = none) (trace : List MeshEvent) :
    recentlyHanded (e :: trace) = recentlyHanded trace := by
  have hlast : [e].filterMap MeshEvent.submission = [] := by rw [List.filterMap_cons, h]; rfl
  rw [recentlyHanded, recentlyHanded, submissions, submissions, List.reverse_cons, List.filterMap_append, hlast,
    List.append_nil]

theorem acknowledged_cons (e : MeshEvent) (trace : List MeshEvent) :
    acknowledged (e :: trace) = e.ackedId.elim (acknowledged trace) (acknowledge (acknowledged trace)) := by
  rw [acknowledged, List.reverse_cons, List.filterMap_append, List.foldl_append, ← acknowledged]
  cases h : e.ackedId with
  | none => rw [List.filterMap_cons, h]; rfl
  | some id => rw [List.filterMap_cons, h]; rfl

/-- The three sets hold what the trace says. -/
structure Books.Remembers (b : Books) : Prop where
  relayCap : b.relaySeen.capacity = relayCacheCap
  relaySeen : b.relaySeen.order = recentKeys b.trace
  gatewayCap : b.gatewaySeen.capacity = gatewayCacheCap
  gatewaySeen : b.gatewaySeen.order = recentlyHanded b.trace
  acked : b.acked = acknowledged b.trace

namespace Books

variable {env : NodeEnv} {n₀ : MeshNode} {job : Job}

/-- An event that none of the sets is about. -/
theorem Remembers.log {b : Books} (h : b.Remembers) {e : MeshEvent} (hk : e.seenKey = none)
    (hs : e.submission = none) (ha : e.ackedId = none) : (b.log e).Remembers where
  relayCap := h.relayCap
  relaySeen := h.relaySeen.trans (recentKeys_cons_none hk b.trace).symm
  gatewayCap := h.gatewayCap
  gatewaySeen := h.gatewaySeen.trans (recentlyHanded_cons_none hs b.trace).symm
  acked := by
    have hcons : acknowledged (e :: b.trace) = acknowledged b.trace := by
      rw [acknowledged_cons, ha]
      rfl
    exact h.acked.trans hcons.symm

/-- A key that is news. -/
theorem Remembers.see {b : Books} (h : b.Remembers) {e : MeshEvent} {key : RelayKey} (hk : e.seenKey = some key)
    (hs : e.submission = none) (hnew : key ∉ b.relaySeen.order) :
    let b' := { b with relaySeen := (b.relaySeen.insert key).2, acked := acknowledged (e :: b.trace) }.log e
    b'.Remembers where
  relayCap := (DedupCache.insert_capacity _ _).trans h.relayCap
  relaySeen := by
    refine (DedupCache.insert_order hnew).trans ?_
    rw [h.relayCap, h.relaySeen]
    exact (recentKeys_cons hk b.trace).symm
  gatewayCap := h.gatewayCap
  gatewaySeen := h.gatewaySeen.trans (recentlyHanded_cons_none hs b.trace).symm
  acked := rfl

theorem Remembers.path {b b' : Books} (h : b.Remembers) (hpath : Path env n₀ job b b') : b'.Remembers := by
  refine hpath.invariant (fun b₁ b₂ hact h₁ => ?_) h
  cases hact with
  | took p _ hnew =>
    have hsee := h₁.see (e := .took p) rfl rfl hnew
    cases hr : receiptOf p with
    | none =>
      have hack : acknowledged (.took p :: b₁.trace) = b₁.acked := by
        rw [acknowledged_cons, h₁.acked, MeshEvent.ackedId, MeshEvent.taken, Option.bind_some, hr]
        rfl
      rw [hack] at hsee
      rw [take_of_none hr]
      exact hsee
    | some r =>
      obtain ⟨txId, status⟩ := r
      have hack : acknowledged (.took p :: b₁.trace) = (b₁.acked.insert txId).2 := by
        rw [acknowledged_cons, h₁.acked, MeshEvent.ackedId, MeshEvent.taken, Option.bind_some, hr]
        rfl
      rw [hack] at hsee
      rw [take_of_receipt hr]
      exact ⟨hsee.relayCap, hsee.relaySeen, hsee.gatewayCap, hsee.gatewaySeen, hsee.acked⟩
  | own p _ hnew =>
    have hsee := h₁.see (e := .own p) rfl rfl hnew
    have hack : acknowledged (.own p :: b₁.trace) = b₁.acked := by
      rw [acknowledged_cons, h₁.acked]
      rfl
    rw [hack] at hsee
    exact hsee
  | hand ctx answer _ hnew =>
    refine ⟨h₁.relayCap, ?_, (DedupCache.insert_capacity _ _).trans h₁.gatewayCap, ?_, ?_⟩
    · exact h₁.relaySeen.trans (recentKeys_cons_none rfl b₁.trace).symm
    · refine (DedupCache.insert_order hnew).trans ?_
      rw [h₁.gatewayCap, h₁.gatewaySeen]
      exact (recentlyHanded_cons ctx answer b₁.trace).symm
    · exact h₁.acked.trans (acknowledged_cons (.handed ctx answer) b₁.trace).symm
  | offer txId nowMs => exact h₁.log rfl rfl rfl
  | sent peer frame kind => exact h₁.log rfl rfl rfl
  | _ => exact ⟨h₁.relayCap, h₁.relaySeen, h₁.gatewayCap, h₁.gatewaySeen, h₁.acked⟩

end Books

namespace MeshNode

theorem Started.remembers {n : MeshNode} (h : n.Started) : n.books.Remembers := by
  have htrace : n.books.trace = [] := h.trace
  refine ⟨?_, ?_, ?_, ?_, ?_⟩
  · rw [show n.books.relaySeen = _ from h.relaySeen]
    rfl
  · rw [show n.books.relaySeen = _ from h.relaySeen, htrace]
    rfl
  · rw [show n.books.gatewaySeen = _ from h.gatewaySeen]
    rfl
  · rw [show n.books.gatewaySeen = _ from h.gatewaySeen, htrace]
    rfl
  · rw [show n.books.acked = _ from h.acked, htrace]
    rfl

theorem exec_remembers (env : NodeEnv) {n : MeshNode} (hn : n.Started) (jobs : List Job) :
    (n.exec env jobs).books.Remembers := by
  refine (Run.exec_preserves (step env) (I := fun m => m.books.Remembers ∧ m.books.Buffered) ?_ jobs n
    ⟨hn.remembers, hn.buffered⟩).1
  rintro m job ⟨hm, hbuf⟩
  exact ⟨hm.path (step_path env m job hbuf), step_buffered env m job hbuf⟩

/-! ### What one frame makes the gateway submit -/

theorem submissions_floodExcluding (env : NodeEnv) (frame : Bytes) (exclude : Option Link) (kind : SendKind)
    (n : MeshNode) :
    submissions (n.floodExcluding env frame exclude kind).io.trace = submissions n.io.trace :=
  reading_floodExcluding (fun _ _ _ _ => rfl) env frame exclude kind n

theorem submissions_floodPacket (env : NodeEnv) (p : Packet) (n : MeshNode) :
    submissions (n.floodPacket env p).io.trace = submissions n.io.trace := by
  unfold floodPacket
  split
  · exact submissions_floodExcluding env _ none .own n
  · rfl

theorem submissions_markOwn (p : Packet) (n : MeshNode) :
    submissions (n.markOwn p).io.trace = submissions n.io.trace := by
  unfold markOwn
  dsimp only
  split_ifs
  · rfl
  · rfl

theorem submissions_relayOnward (env : NodeEnv) (p : Packet) (src : Option Link) (n : MeshNode) :
    submissions (n.relayOnward env p src).io.trace = submissions n.io.trace := by
  have htrace := relayAllowed_trace env p.msgType n
  unfold relayOnward
  generalize n.relayAllowed env p.msgType = roll at htrace ⊢
  obtain ⟨allowed, m⟩ := roll
  dsimp only at htrace ⊢
  rw [← htrace]
  split_ifs
  · rfl
  · split
    · rfl
    · split
      · rfl
      · exact submissions_floodExcluding env _ src .relay _

/-- What the engine makes of an envelope for the gateway. -/
def submitContext (e : NimiqEnvelope) : SubmitContext :=
  { txId := claimedId e, txWire := e.txWire, networkId := e.networkId, validUntil := e.validUntil }

theorem submissions_submit (env : NodeEnv) (gw : MeshGateway) (e : NimiqEnvelope) (n : MeshNode) :
    submissions (n.submit env gw e (claimedId e)).io.trace =
      if claimedId e ∈ n.gatewaySeen.order then submissions n.io.trace
      else submitContext e :: submissions n.io.trace := by
  have hfst := n.gatewaySeen.insert_fst (claimedId e)
  unfold submit
  split_ifs with hmem
  · rw [DedupCache.insert_of_mem hmem]
    rfl
  · simp only [hfst, hmem, decide_false, Bool.not_false, Bool.not_true, Bool.false_eq_true, if_false]
    split
    · rfl
    · rw [submissions_floodPacket, submissions_markOwn]
      rfl

/-- What keeps a payment in an open window from being submitted, as the node's own sets have it. -/
structure LetsThrough (env : NodeEnv) (n : MeshNode) (p : Packet) (e : NimiqEnvelope) : Prop where
  fresh : relayKey p ∉ n.relaySeen.order
  signed : n.verifyBeforeRelay = true → verifyBasicWire env.toCrypto e.txWire = true
  unacked : claimedId e ∉ n.acked.order
  unhanded : claimedId e ∉ n.gatewaySeen.order

theorem submissions_handleTx {env : NodeEnv} {gw : MeshGateway} {p : Packet} {e : NimiqEnvelope}
    (hgw : env.gateway = some gw) (henv : decodeEnvelope p.payload = .ok e) (src : Option Link) {n : MeshNode}
    (hopen : isExpired n.cachedHead (txValidUntil p) = false) :
    (n.LetsThrough env p e →
      submissions (n.handleTx env p src).io.trace = submitContext e :: submissions n.io.trace) ∧
    (¬ n.LetsThrough env p e → submissions (n.handleTx env p src).io.trace = submissions n.io.trace) := by
  unfold handleTx
  rcases h : n.firstSeen p with ⟨_ | _, m⟩
  · have hseen : relayKey p ∈ n.relaySeen.order := firstSeen_seen h
    refine ⟨fun hlet => absurd hseen hlet.fresh, fun _ => ?_⟩
    rw [firstSeen_stale h]
    rfl
  · have hnew := firstSeen_fresh h
    have htrace : submissions m.io.trace = submissions n.io.trace := congrArg (fun b : Books => submissions b.trace)
      (firstSeen_books h)
    obtain rfl : m = (n.firstSeen p).2 := by rw [h]
    have hexp : isExpired (n.firstSeen p).2.cachedHead (txValidUntil p) = false := hopen
    have hany : ∀ f : NimiqEnvelope → Bool, ((Except.ok e : Except EnvelopeError _).toOption.any f) = f e :=
      fun _ => rfl
    simp only [hexp, henv, hgw, hany, Bool.not_true, Bool.false_eq_true, if_false]
    by_cases hsig : n.verifyBeforeRelay = true ∧ verifyBasicWire env.toCrypto e.txWire = false
    · have hcond : ((n.firstSeen p).2.verifyBeforeRelay && !verifyBasicWire env.toCrypto e.txWire) = true := by
        rw [show (n.firstSeen p).2.verifyBeforeRelay = true from hsig.1, hsig.2]
        rfl
      rw [if_pos hcond]
      refine ⟨fun hlet => ?_, fun _ => htrace⟩
      rw [hlet.signed hsig.1] at hsig
      cases hsig.2
    · have hcond : ¬ ((n.firstSeen p).2.verifyBeforeRelay && !verifyBasicWire env.toCrypto e.txWire) = true := by
        intro hc
        obtain ⟨h1, h2⟩ := Bool.and_eq_true_iff.mp hc
        exact hsig ⟨h1, by simpa using h2⟩
      rw [if_neg hcond]
      by_cases hack : claimedId e ∈ n.acked.order
      · rw [if_pos (show (n.firstSeen p).2.acked.contains (claimedId e) = true from decide_eq_true hack)]
        exact ⟨fun hlet => absurd hack hlet.unacked, fun _ => htrace⟩
      · rw [if_neg (show ¬ (n.firstSeen p).2.acked.contains (claimedId e) = true from
          fun hc => hack (of_decide_eq_true hc)), submissions_relayOnward]
        have hkeep : submissions ((n.firstSeen p).2.remember env p).io.trace = submissions n.io.trace :=
          (congrArg (fun b : Books => submissions b.trace) (remember_books env p _)).trans htrace
        have hsubmit := submissions_submit env gw e ((n.firstSeen p).2.remember env p)
        rw [hkeep] at hsubmit
        constructor
        · exact fun hlet => hsubmit.trans (if_neg hlet.unhanded)
        · intro hnot
          refine hsubmit.trans (if_pos ?_)
          by_contra hhand
          refine hnot ⟨hnew, fun hv => ?_, hack, hhand⟩
          by_contra hs
          exact hsig ⟨hv, by simpa using hs⟩

theorem Path.submissions_eq {n₀ : MeshNode} {env : NodeEnv} {job : Job} {b b' : Books}
    (h : Path env n₀ job b b') (hin : ¬ job.IsInbound) : submissions b'.trace = submissions b.trace := by
  refine h.frame (fun b => submissions b.trace) fun b₁ b₂ hact => ?_
  cases hact with
  | took p hjob => exact absurd hjob hin
  | hand ctx answer hjob => exact absurd hjob hin
  | _ => rfl

theorem dispatchPacket_tx {p : Packet} (hty : p.msgType = .nimiqTx) (env : NodeEnv) (src : Option Link)
    (n : MeshNode) : n.dispatchPacket env p src = n.handleTx env p src := by
  refine dispatchPacket_last ?_
  unfold dispatchOnce
  rw [hty]

/-- Two nodes with the same sets let the same payments through. -/
theorem LetsThrough.congr {env : NodeEnv} {n m : MeshNode} (hbooks : m.books = n.books)
    (hver : m.verifyBeforeRelay = n.verifyBeforeRelay) {p q : Packet} (hkey : relayKey q = relayKey p)
    (e : NimiqEnvelope) : m.LetsThrough env q e ↔ n.LetsThrough env p e := by
  have hseen : m.relaySeen = n.relaySeen := congrArg Books.relaySeen hbooks
  have hack : m.acked = n.acked := congrArg Books.acked hbooks
  have hgate : m.gatewaySeen = n.gatewaySeen := congrArg Books.gatewaySeen hbooks
  constructor
  · exact fun h => ⟨by rw [← hseen, ← hkey]; exact h.fresh, by rw [← hver]; exact h.signed,
      by rw [← hack]; exact h.unacked, by rw [← hgate]; exact h.unhanded⟩
  · exact fun h => ⟨by rw [hseen, hkey]; exact h.fresh, by rw [hver]; exact h.signed,
      by rw [hack]; exact h.unacked, by rw [hgate]; exact h.unhanded⟩

/-- A payment that is received, as a flooded frame or as a catch-up reply. -/
theorem submissions_receivePacket {env : NodeEnv} {gw : MeshGateway} {p : Packet} {e : NimiqEnvelope}
    (hgw : env.gateway = some gw) (hty : p.msgType = .nimiqTx) (henv : decodeEnvelope p.payload = .ok e)
    (src : Option Link) {n : MeshNode} (hopen : isExpired n.cachedHead (txValidUntil p) = false) :
    (n.LetsThrough env p e →
      submissions (n.receivePacket env p src).io.trace = submitContext e :: submissions n.io.trace) ∧
    (¬ n.LetsThrough env p e → submissions (n.receivePacket env p src).io.trace = submissions n.io.trace) := by
  unfold receivePacket
  by_cases hrsr : p.flags.isRsr = true
  · rw [if_pos hrsr]
    generalize hq : ({ p with flags := { p.flags with isRsr := false }, ttl := 0 } : Packet) = q
    have hpayload : q.payload = p.payload := by rw [← hq]
    have hqty : q.msgType = .nimiqTx := by rw [← hq]; exact hty
    have hkey : relayKey q = relayKey p := by rw [← hq]; rfl
    have huntil : txValidUntil q = txValidUntil p := by rw [← hq]; rfl
    rw [dispatchPacket_tx hqty]
    generalize hm : n.count (fun c => { c with rsrReceived := c.rsrReceived + 1 }) = m
    have hbooks : m.books = n.books := by rw [← hm]; rfl
    have hver : m.verifyBeforeRelay = n.verifyBeforeRelay := by rw [← hm]; rfl
    have hhead : m.cachedHead = n.cachedHead := congrArg (fun b : Books => b.head.height) hbooks
    have htrace : m.io.trace = n.io.trace := congrArg Books.trace hbooks
    have htx := submissions_handleTx hgw (hpayload ▸ henv) none (n := m) (by rw [huntil, hhead, hopen])
    rwa [LetsThrough.congr hbooks hver hkey e, htrace] at htx
  · have hsync : p.msgType ≠ .requestSync := by rw [hty]; decide
    rw [if_neg hrsr, if_neg hsync, dispatchPacket_tx hty]
    exact submissions_handleTx hgw henv src hopen

/-- STEP: a payment that arrives in an open window is submitted exactly when nothing stops it. -/
theorem submissions_step {env : NodeEnv} {gw : MeshGateway} {bytes : Bytes} {p : Packet} {e : NimiqEnvelope}
    (hgw : env.gateway = some gw) (hdec : decode bytes = .ok p) (hty : p.msgType = .nimiqTx)
    (henv : decodeEnvelope p.payload = .ok e) (src : Option Link) {n : MeshNode} (hbuf : n.books.Buffered)
    (hopen : isExpired n.cachedHead (txValidUntil p) = false) :
    ((n.admitPeer env src).1 = true ∧ n.LetsThrough env p e →
      submissions (n.step env (.inbound src bytes)).io.trace = submitContext e :: submissions n.io.trace) ∧
    (¬ ((n.admitPeer env src).1 = true ∧ n.LetsThrough env p e) →
      submissions (n.step env (.inbound src bytes)).io.trace = submissions n.io.trace) := by
  have hin : Path env n (.inbound src bytes) n.books (n.processInbound env src bytes).books :=
    processInbound_path n hbuf
  have hfast : submissions (n.step env (.inbound src bytes)).io.trace =
      submissions (n.processInbound env src bytes).io.trace := by
    have hpath : Path env n .swapFastTick (n.processInbound env src bytes).books
        (n.step env (.inbound src bytes)).books := swapFastTick_path _ (hin.buffered hbuf)
    exact Path.submissions_eq hpath fun ⟨_, _, h⟩ => nomatch h
  rw [hfast]
  have hadm := admitPeer_books env src n
  have hver : (n.admitPeer env src).2.verifyBeforeRelay = n.verifyBeforeRelay := by
    unfold admitPeer
    split
    · rfl
    · rfl
  unfold processInbound
  generalize n.admitPeer env src = r at hadm hver ⊢
  obtain ⟨admitted, m⟩ := r
  dsimp only at hadm hver ⊢
  have htrace : m.io.trace = n.io.trace := congrArg Books.trace hadm
  cases admitted with
  | false => exact ⟨fun h => (nomatch h.1), fun _ => congrArg submissions htrace⟩
  | true =>
    have hhead : m.cachedHead = n.cachedHead := congrArg (fun b : Books => b.head.height) hadm
    have hrecv := submissions_receivePacket hgw hty henv src (n := m) (hhead ▸ hopen)
    rw [LetsThrough.congr hadm hver rfl e, htrace] at hrecv
    simp only [Bool.not_true, Bool.false_eq_true, if_false, hdec, true_and]
    exact hrecv

/-- What lets a payment in an open window through to the chain, as the history of the node has it. -/
structure Unhindered (env : NodeEnv) (n : MeshNode) (src : Option Link) (p : Packet) (e : NimiqEnvelope) :
    Prop where
  admitted : (n.admitPeer env src).1 = true
  fresh : relayKey p ∉ recentKeys n.io.trace
  signed : n.verifyBeforeRelay = true → verifyBasicWire env.toCrypto e.txWire = true
  unacked : claimedId e ∉ (acknowledged n.io.trace).order
  unhanded : claimedId e ∉ recentlyHanded n.io.trace

/-- RUN: after any run, a payment that arrives at a gateway in an open window is submitted exactly when
    its relay key is news, no receipt for the id it claims has been heard, and no payment under that id has
    been handed over before — whatever came of it. -/
theorem gateway_submits_iff (env : NodeEnv) {n : MeshNode} (hn : n.Started) (jobs : List Job)
    {src : Option Link} {bytes : Bytes} {p : Packet} {e : NimiqEnvelope} (hgw : env.gateway.isSome)
    (hdec : decode bytes = .ok p) (hty : p.msgType = .nimiqTx) (henv : decodeEnvelope p.payload = .ok e)
    (hopen : isExpired (n.exec env jobs).cachedHead (txValidUntil p) = false) :
    (∃ ctx answer, .handed ctx answer ∈ (n.exec env jobs).news env (.inbound src bytes) ∧
      ctx.txWire = e.txWire) ↔ (n.exec env jobs).Unhindered env src p e := by
  obtain ⟨gw, hgw⟩ := Option.isSome_iff_exists.mp hgw
  have hbuf := exec_buffered env n jobs hn.buffered
  have hrem := exec_remembers env hn jobs
  generalize n.exec env jobs = m at hopen hbuf hrem ⊢
  obtain ⟨hyes, hno⟩ := submissions_step hgw hdec hty henv src hbuf hopen
  have hnews : submissions (m.step env (.inbound src bytes)).io.trace =
      submissions (m.news env (.inbound src bytes)) ++ submissions m.io.trace := by
    rw [step_trace env m _ hbuf, submissions, List.filterMap_append]
    rfl
  have hcond : m.Unhindered env src p e ↔ (m.admitPeer env src).1 = true ∧ m.LetsThrough env p e := by
    have hseen : m.relaySeen.order = recentKeys m.io.trace := hrem.relaySeen
    have hack : m.acked = acknowledged m.io.trace := hrem.acked
    have hgate : m.gatewaySeen.order = recentlyHanded m.io.trace := hrem.gatewaySeen
    constructor
    · exact fun h => ⟨h.admitted, hseen ▸ h.fresh, h.signed, hack ▸ h.unacked, hgate ▸ h.unhanded⟩
    · exact fun ⟨ha, h⟩ => ⟨ha, hseen ▸ h.fresh, h.signed, hack ▸ h.unacked, hgate ▸ h.unhanded⟩
  rw [hcond]
  constructor
  · rintro ⟨ctx, answer, hmem, -⟩
    by_contra hnot
    have hnone : submissions (m.news env (.inbound src bytes)) = [] :=
      List.append_left_eq_self.mp (hnews.symm.trans (hno hnot))
    have hctx : ctx ∈ submissions (m.news env (.inbound src bytes)) :=
      List.mem_filterMap.mpr ⟨_, hmem, rfl⟩
    rw [hnone] at hctx
    cases hctx
  · intro hlet
    have hone : submissions (m.news env (.inbound src bytes)) = [submitContext e] :=
      List.append_cancel_right (hnews.symm.trans (hyes hlet))
    have hctx : submitContext e ∈ submissions (m.news env (.inbound src bytes)) := by
      rw [hone]
      exact List.mem_singleton_self _
    obtain ⟨ev, hev, hsub⟩ := List.mem_filterMap.mp hctx
    cases ev with
    | handed ctx answer =>
      refine ⟨ctx, answer, hev, ?_⟩
      rw [Option.some.inj hsub]
      rfl
    | _ => cases hsub

end MeshNode

/-- The payment that an event shows the chain to have decided. -/
def MeshEvent.answeredWire : MeshEvent → Option Bytes
  | .handed ctx (.ok _) => some ctx.txWire
  | _ => none

/-- The gateway has had no answer about this payment, and no receipt for it has been heard. -/
def Unanswered (wire : Bytes) (trace : List MeshEvent) : Prop :=
  wire ∉ trace.filterMap MeshEvent.answeredWire ∧ mockTxId wire ∉ trace.filterMap MeshEvent.ackedId

instance (wire : Bytes) (trace : List MeshEvent) : Decidable (Unanswered wire trace) :=
  inferInstanceAs (Decidable (_ ∧ _))

namespace Sample

/-- A chain whose node is overloaded for its first four calls. -/
def overloadedRpc : GatewayRpc :=
  { chainRpc with
    sendRawTransaction := fun i _ => if i < 4 then .error (.http 503 "sendRawTransaction") else .ok "hash" }

def gatewayEnv (rpc : GatewayRpc) : NodeEnv := meshEnv (fun _ => 1000) (some (rpcGateway rpc defaultNetworkId))

/-- The sample payment, as a packet of its own each time. -/
def payment (timestampMs : UInt64) : Packet :=
  meshPacket .nimiqTx (envelope { txWire := paymentWire, txId := some (mockTxId paymentWire) }) timestampMs

/-- Another payment under the id of the sample payment. -/
def usurper : Packet := meshPacket .nimiqTx (envelope { txWire := [9], txId := some (mockTxId paymentWire) }) 1

end Sample

open Sample in
/-- The sample payment comes a second time, after its gateway's node was overloaded, or for the first time,
    after another payment under its id: it is unanswered, and the gateway does not submit it. -/
theorem unanswered_payment_skipped :
    (let n := meshNode.exec (gatewayEnv overloadedRpc) [.inbound (some "a") (frame (payment 1))]
     Unanswered paymentWire n.io.trace ∧ n.cachedHead = none ∧
       submissions (n.news (gatewayEnv overloadedRpc) (.inbound (some "a") (frame (payment 2)))) = []) ∧
    (let n := meshNode.exec (gatewayEnv chainRpc) [.inbound (some "a") (frame usurper)]
     Unanswered paymentWire n.io.trace ∧ n.cachedHead = none ∧
       submissions (n.news (gatewayEnv chainRpc) (.inbound (some "a") (frame (payment 2)))) = []) := by
  decide +kernel

open Sample in
/-- The sample gateway is handed a payment after a beacon has come by. -/
theorem sample_gateway_submits :
    (∃ ctx answer, .handed ctx answer ∈ (meshNode.exec (gatewayEnv chainRpc)
        [.inbound (some "a") (frame (meshPacket .nimiqHeadBeacon (beacon 200) 6))]).news (gatewayEnv chainRpc)
        (.inbound (some "a") (frame (payment 2))) ∧ ctx.txWire = paymentWire) ↔
      (meshNode.exec (gatewayEnv chainRpc)
        [.inbound (some "a") (frame (meshPacket .nimiqHeadBeacon (beacon 200) 6))]).Unhindered (gatewayEnv chainRpc)
        (some "a") (payment 2) { txWire := paymentWire, txId := some (mockTxId paymentWire) } :=
  MeshNode.gateway_submits_iff (p := payment 2) (e := { txWire := paymentWire, txId := some (mockTxId paymentWire) })
    (gatewayEnv chainRpc) started_meshNode
    [.inbound (some "a") (frame (meshPacket .nimiqHeadBeacon (beacon 200) 6))] rfl (by decide +kernel) rfl
    (by decide +kernel) (by decide +kernel)

end Nimmesh
