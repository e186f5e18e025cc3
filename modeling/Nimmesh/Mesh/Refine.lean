import Nimmesh.Mesh.Conduct
import Nimmesh.Mesh.Dispatch

/-! @src engine.rs beacon.rs balance.rs tx_history.rs chat.rs fragment.rs swap_node.rs pending_retry.rs
    | name:A mesh node keeps to its acts | layer:refinement

    Every handler of the node is a path of acts, and so is every job. -/

namespace Nimmesh
open Word

variable {env : NodeEnv} {n₀ : MeshNode} {job : Job}

/-! ### The building blocks -/

theorem MaySend.log {b : Books} {peer : Link} {frame : Bytes} {kind : SendKind}
    (h : MaySend env n₀ job b peer frame kind) (e : MeshEvent) :
    MaySend env n₀ job (b.log e) peer frame kind := by
  cases h with
  | own p hframe hlive => exact .own p hframe hlive
  | again e' he hframe hlive => exact .again e' he hframe hlive
  | relay p src ttl hjob httl hframe hback hlive => exact .relay p src ttl hjob httl hframe hback hlive
  | reply p bytes hjob hp hhead hframe => exact .reply p bytes hjob hp hhead hframe

namespace MeshNode

theorem floodExcluding_path (frame : Bytes) (exclude : Option Link) (kind : SendKind) (n : MeshNode)
    (h : ∀ peer, some peer ≠ exclude → MaySend env n₀ job n.books peer frame kind) :
    Path env n₀ job n.books (n.floodExcluding env frame exclude kind).books := by
  unfold floodExcluding
  have hfold : ∀ (peers : List Link) (io : NodeIo),
      (∀ peer, some peer ≠ exclude → MaySend env n₀ job { n with io }.books peer frame kind) →
      Path env n₀ job { n with io }.books
        { n with io := peers.foldl (fun io peer =>
            if some peer = exclude then io else io.send peer frame kind n.cachedHead) io }.books := by
    intro peers
    induction peers with
    | nil => exact fun _ _ => .refl
    | cons peer peers ih =>
      intro io hio
      rw [List.foldl_cons]
      split_ifs with hp
      · exact ih io hio
      · have hrest := ih (io.send peer frame kind n.cachedHead) fun peer' hp' => (hio peer' hp').log _
        exact .head (.sent peer frame kind (hio peer hp)) hrest
  exact hfold _ n.io h

/-- A reading of the trace that passes over sends is the same after a flood. -/
theorem reading_floodExcluding {α : Type*} {f : MeshEvent → Option α}
    (hf : ∀ peer frame kind head, f (.sent peer frame kind head) = none) (env : NodeEnv) (frame : Bytes)
    (exclude : Option Link) (kind : SendKind) (n : MeshNode) :
    (n.floodExcluding env frame exclude kind).io.trace.filterMap f = n.io.trace.filterMap f := by
  unfold floodExcluding
  dsimp only
  generalize env.peerOrder n.io.asked n.peers = peers
  generalize n.io = io
  induction peers generalizing io with
  | nil => rfl
  | cons peer peers ih =>
    rw [List.foldl_cons, ih]
    split_ifs
    · rfl
    · exact List.filterMap_cons_none (hf peer frame kind n.cachedHead)

theorem firstSeen_fresh {p : Packet} {n m : MeshNode} (h : n.firstSeen p = (true, m)) :
    relayKey p ∉ n.relaySeen.order := by
  have hfst := n.relaySeen.insert_fst (relayKey p)
  unfold firstSeen at h
  rw [(Prod.mk.inj h).1] at hfst
  exact fun hmem => by simp [hmem] at hfst

theorem firstSeen_books {p : Packet} {n m : MeshNode} (h : n.firstSeen p = (true, m)) : m.books =
    { n.books with relaySeen := (n.books.relaySeen.insert (relayKey p)).2 }.log (.took p) := by
  unfold firstSeen at h
  obtain ⟨h1, h2⟩ := Prod.mk.inj h
  rw [← h2, h1]
  rfl

/-- A fresh packet is let in. -/
theorem firstSeen_path (hin : job.IsInbound) {p : Packet} {n m : MeshNode} (hp : p.msgType ≠ .nimiqTxReceipt)
    (h : n.firstSeen p = (true, m)) : Path env n₀ job n.books m.books := by
  rw [firstSeen_books h, ← Books.take_of_none (Books.receiptOf_eq_none hp)]
  exact .single (.took p hin (firstSeen_fresh h))

theorem firstSeen_seen {p : Packet} {n m : MeshNode} (h : n.firstSeen p = (false, m)) :
    relayKey p ∈ n.relaySeen.order := by
  have hfst := n.relaySeen.insert_fst (relayKey p)
  unfold firstSeen at h
  rw [(Prod.mk.inj h).1] at hfst
  simpa using hfst

/-- A packet that is not fresh changes nothing. -/
theorem firstSeen_stale {p : Packet} {n m : MeshNode} (h : n.firstSeen p = (false, m)) : m = n := by
  have hmem := firstSeen_seen h
  unfold firstSeen at h
  rw [← (Prod.mk.inj h).2, DedupCache.insert_of_mem hmem]
  rfl

theorem markOwn_path {p : Packet} {n : MeshNode} (hid : p.senderId = n.senderId) :
    Path env n₀ job n.books (n.markOwn p).books := by
  have hfst := n.relaySeen.insert_fst (relayKey p)
  by_cases hmem : relayKey p ∈ n.relaySeen.order
  · have : (n.markOwn p).books = n.books := by
      unfold markOwn
      rw [DedupCache.insert_of_mem hmem]
      rfl
    rw [this]
  · have : (n.markOwn p).books =
        { n.books with relaySeen := (n.books.relaySeen.insert (relayKey p)).2 }.log (.own p) := by
      unfold markOwn
      simp only [hfst, hmem, decide_false, Bool.not_false, if_true]
      rfl
    rw [this]
    exact .single (.own p hid hmem)

theorem remember_books (env : NodeEnv) (p : Packet) (n : MeshNode) :
    (n.remember env p).books = n.books.keep p (n.now env) := by
  unfold remember
  dsimp only
  split_ifs
  · rfl
  · rfl

theorem remember_path {p : Packet} {n : MeshNode} (hp : .took p ∈ n.io.trace ∨ p.msgType ≠ .nimiqTxReceipt) :
    Path env n₀ job n.books (n.remember env p).books := by
  rw [remember_books]
  exact .single (.keep p _ hp)

theorem floodPacket_path {p : Packet} {n : MeshNode} {b : Books} (hb : n.books = b) (hp : Live n.cachedHead p) :
    Path env n₀ job b (n.floodPacket env p).books := by
  unfold floodPacket
  split
  · next frame he => exact hb ▸ floodExcluding_path frame none .own n fun _ _ => .own p he (.inl hp)
  · exact hb ▸ .refl

/-- Any own packet that is not a transaction or a receipt is put on the mesh. -/
theorem live_of_ne {head : Option UInt32} {p : Packet} (h : p.msgType ≠ .nimiqTx) : Live head p :=
  fun h' => absurd h' h

theorem originate_path (msgType : MessageType) (payload : Bytes) {n : MeshNode} {b : Books} (hb : n.books = b)
    (htx : msgType ≠ .nimiqTx) (hr : msgType ≠ .nimiqTxReceipt) :
    Path env n₀ job b (n.originate env msgType payload).books := by
  unfold originate
  have hmark : Path env n₀ job n.books
      ((n.buildPacket msgType payload).2.markOwn (n.buildPacket msgType payload).1).books := markOwn_path rfl
  exact hb ▸ (hmark.trans (remember_path (.inr hr))).trans (floodPacket_path rfl (live_of_ne htx))

theorem relayOnward_path {p : Packet} {src : Option Link} {n : MeshNode}
    (hjob : ∀ ttl, relayedTtl p.ttl = some ttl → job.Carries p src) (hlive : Live n.cachedHead p) :
    Path env n₀ job n.books (n.relayOnward env p src).books := by
  have hroll := relayAllowed_eq env p.msgType n
  have htrace := relayAllowed_trace env p.msgType n
  unfold relayOnward
  generalize n.relayAllowed env p.msgType = roll at hroll htrace ⊢
  obtain ⟨allowed, m⟩ := roll
  dsimp only at hroll htrace ⊢
  have hbooks : m.books = n.books := by
    rw [hroll]
    simp only [books, htrace]
  have hhead : m.cachedHead = n.cachedHead := by rw [hroll]; rfl
  split_ifs
  · rw [hbooks]
  · split
    · rw [hbooks]
    · next ttl httl =>
      split
      · exact hbooks ▸ .refl
      · next frame he =>
        have hlive' : Live m.cachedHead p := hhead ▸ hlive
        have hflood : Path env n₀ job m.books
            ((m.ask.count (Counters.relayed p.msgType)).floodExcluding env frame src .relay).books :=
          floodExcluding_path frame src .relay (m.ask.count (Counters.relayed p.msgType)) fun peer hback =>
            .relay p src ttl (hjob ttl httl) httl he hback hlive'
        exact hbooks ▸ hflood

/-- An own packet that is put on the mesh without being kept: how a gateway sends a receipt. -/
theorem publish_path {msgType : MessageType} (htx : msgType ≠ .nimiqTx) (payload : Bytes) (n : MeshNode) :
    Path env n₀ job n.books (((n.buildPacket msgType payload).2.markOwn
      (n.buildPacket msgType payload).1).floodPacket env (n.buildPacket msgType payload).1).books := by
  have hmark : Path env n₀ job n.books
      ((n.buildPacket msgType payload).2.markOwn (n.buildPacket msgType payload).1).books := markOwn_path rfl
  exact hmark.trans (floodPacket_path rfl (live_of_ne htx))

theorem floodPacket_head (env : NodeEnv) (p : Packet) (n : MeshNode) : (n.floodPacket env p).head = n.head := by
  unfold floodPacket
  split
  · rfl
  · rfl

/-! ### Handlers of packets -/

theorem not_localTx (hin : job.IsInbound) (wire : Bytes) : job ≠ .localTx wire := by
  obtain ⟨src, bytes, rfl⟩ := hin
  exact Job.noConfusion

/-- Only a packet that the job carries may be relayed. -/
def Relayable (job : Job) (p : Packet) (src : Option Link) : Prop :=
  ∀ ttl, relayedTtl p.ttl = some ttl → job.Carries p src

/-- The gateway's part is at most one submission and one receipt on the mesh. -/
theorem submit_path (hin : job.IsInbound) (gw : MeshGateway) (e : NimiqEnvelope) (txId : TxId) (n : MeshNode) :
    Path env n₀ job n.books (n.submit env gw e txId).books ∧ (n.submit env gw e txId).head = n.head := by
  have hfst := n.gatewaySeen.insert_fst txId
  unfold submit
  by_cases hmem : txId ∈ n.gatewaySeen.order
  · rw [DedupCache.insert_of_mem hmem]
    exact ⟨.refl, rfl⟩
  · simp only [hfst, hmem, decide_false, Bool.not_false, Bool.not_true, Bool.false_eq_true, if_false]
    generalize hctx : SubmitContext.mk txId e.txWire e.networkId e.validUntil = ctx
    generalize gw.submitValidated n.io.asked ctx = answer
    generalize hm : MeshNode.log (MeshNode.ask { n with gatewaySeen := (n.gatewaySeen.insert txId).2 })
      (.handed ctx answer) = m
    have hhand : Path env n₀ job n.books m.books := by
      have hid : ctx.txId = txId := by rw [← hctx]
      have hbooks : m.books =
          { n.books with gatewaySeen := (n.books.gatewaySeen.insert ctx.txId).2 }.log (.handed ctx answer) := by
        rw [← hm, hid]
        rfl
      exact hbooks ▸ .single (.hand ctx answer hin (hid ▸ hmem))
    have hhead : m.head = n.head := by rw [← hm]; rfl
    split
    · exact ⟨hhand, hhead⟩
    · next receipt =>
      have hpub : Path env n₀ job m.books _ := publish_path (show MessageType.nimiqTxReceipt ≠ .nimiqTx by decide)
        (encodeReceipt receipt.txId receipt.status) m
      exact ⟨hhand.trans hpub, (floodPacket_head env _ _).trans hhead⟩

theorem handleTx_path (hin : job.IsInbound) {p : Packet} {src : Option Link} (hty : p.msgType = .nimiqTx)
    (hjob : Relayable job p src) (n : MeshNode) :
    Path env n₀ job n.books (n.handleTx env p src).books := by
  have hne : p.msgType ≠ .nimiqTxReceipt := by rw [hty]; decide
  unfold handleTx
  rcases h : n.firstSeen p with ⟨_ | _, m⟩
  · rw [firstSeen_stale h]
    exact .refl
  · have htook : Path env n₀ job n.books m.books := firstSeen_path hin hne h
    dsimp only
    simp only [Bool.not_true, Bool.false_eq_true, if_false]
    split_ifs with hexp hver hack
    · exact htook
    · exact htook
    · exact htook
    · have hlive : Live m.cachedHead p := fun _ => by simpa using hexp
      have hkeep : Path env n₀ job n.books (m.remember env p).books := htook.trans (remember_path (.inr hne))
      split
      · next gw e _ _ =>
        have hsubmit : Path env n₀ job (m.remember env p).books
            ((m.remember env p).submit env gw e (claimedId e)).books ∧ _ :=
          submit_path hin gw e (claimedId e) (m.remember env p)
        have hlive' : Live ((m.remember env p).submit env gw e (claimedId e)).cachedHead p := by
          rw [cachedHead, hsubmit.2]
          exact hlive
        exact (hkeep.trans hsubmit.1).trans (relayOnward_path hjob hlive')
      · exact hkeep.trans (relayOnward_path hjob hlive)

/-- A handler that keeps a packet, works on it and carries it on. -/
theorem carry_path {p : Packet} {src : Option Link} {n m k : MeshNode} (hne : p.msgType ≠ .nimiqTx)
    (hjob : Relayable job p src) (hn : Path env n₀ job n.books m.books)
    (hm : Path env n₀ job m.books k.books) : Path env n₀ job n.books (k.relayOnward env p src).books :=
  (hn.trans hm).trans (relayOnward_path hjob (live_of_ne hne))

theorem handleReceipt_path (hin : job.IsInbound) {p : Packet} {src : Option Link} (hty : p.msgType = .nimiqTxReceipt)
    (hjob : Relayable job p src) (n : MeshNode) :
    Path env n₀ job n.books (n.handleReceipt env p src).books := by
  have hne : p.msgType ≠ .nimiqTx := by rw [hty]; decide
  unfold handleReceipt
  rcases h : n.firstSeen p with ⟨_ | _, m⟩
  · rw [firstSeen_stale h]
    exact .refl
  · have hnew := firstSeen_fresh h
    have hbooks := firstSeen_books h
    have hof : Books.receiptOf p = decodeReceipt p.payload := if_pos hty
    have htook : Path env n₀ job n.books (n.books.take p) := .single (.took p hin hnew)
    have hkeep := htook.tail (.keep p (m.now env) (.inl (by rw [Books.take_trace]; exact List.mem_cons_self)))
    refine Relation.ReflTransGen.trans ?_ (relayOnward_path hjob (live_of_ne hne))
    split
    · next txId status hdec =>
      have hclose : (m.remember env p).books.close txId status = (n.books.take p).keep p (m.now env) := by
        rw [Books.take_of_receipt (hof.trans hdec), remember_books, hbooks]
        rfl
      exact (hclose ▸ hkeep :)
    · next hdec =>
      have hplain : (m.remember env p).books = (n.books.take p).keep p (m.now env) := by
        rw [Books.take_of_none (hof.trans hdec), remember_books, hbooks]
      exact hplain ▸ hkeep

theorem handleHeadBeacon_path (hin : job.IsInbound) {p : Packet} {src : Option Link} (hty : p.msgType = .nimiqHeadBeacon)
    (hjob : Relayable job p src) (n : MeshNode) :
    Path env n₀ job n.books (n.handleHeadBeacon env p src).books := by
  have hne : p.msgType ≠ .nimiqTx ∧ p.msgType ≠ .nimiqTxReceipt := by rw [hty]; decide
  unfold handleHeadBeacon
  rcases h : n.firstSeen p with ⟨_ | _, m⟩
  · rw [firstSeen_stale h]
    exact .refl
  · refine carry_path hne.1 hjob (firstSeen_path hin hne.2 h) (Relation.ReflTransGen.trans ?_ (remember_path (.inr hne.2)))
    split
    · next b _ => exact .single (.heard b (not_localTx hin))
    · exact .refl

theorem emitHeadBeacon_path (hlocal : ∀ wire, job ≠ .localTx wire) (n : MeshNode) :
    Path env n₀ job n.books (n.emitHeadBeacon env).books := by
  unfold emitHeadBeacon
  split
  · exact .refl
  · dsimp only
    split_ifs
    · exact .refl
    all_goals
      split
      · exact .refl
      · next b _ =>
        refine .head (.heard b hlocal) ?_
        exact originate_path .nimiqHeadBeacon _ rfl (by decide) (by decide)

theorem answerBalance_path (address : NimAddress) (a : BalanceAnswer) (n : MeshNode) :
    Path env n₀ job n.books (n.answerBalance env address a).books :=
  originate_path .nimiqBalanceResponse _ rfl (by decide) (by decide)

theorem handleBalanceQuery_path (hin : job.IsInbound) {p : Packet} {src : Option Link} (hty : p.msgType = .nimiqBalanceQuery)
    (hjob : Relayable job p src) (n : MeshNode) :
    Path env n₀ job n.books (n.handleBalanceQuery env p src).books := by
  have hne : p.msgType ≠ .nimiqTx ∧ p.msgType ≠ .nimiqTxReceipt := by rw [hty]; decide
  unfold handleBalanceQuery
  rcases h : n.firstSeen p with ⟨_ | _, m⟩
  · rw [firstSeen_stale h]
    exact .refl
  · refine carry_path hne.1 hjob (firstSeen_path hin hne.2 h) (.trans (remember_path (.inr hne.2)) ?_)
    split
    · split
      · exact answerBalance_path _ _ (m.remember env p).ask
      · exact .refl
    · exact .refl

theorem handleBalanceResponse_path (hin : job.IsInbound) {p : Packet} {src : Option Link} (hty : p.msgType = .nimiqBalanceResponse)
    (hjob : Relayable job p src) (n : MeshNode) :
    Path env n₀ job n.books (n.handleBalanceResponse env p src).books := by
  have hne : p.msgType ≠ .nimiqTx ∧ p.msgType ≠ .nimiqTxReceipt := by rw [hty]; decide
  unfold handleBalanceResponse
  rcases h : n.firstSeen p with ⟨_ | _, m⟩
  · rw [firstSeen_stale h]
    exact .refl
  · refine carry_path hne.1 hjob (firstSeen_path hin hne.2 h) (Relation.ReflTransGen.trans ?_ (remember_path (.inr hne.2)))
    split
    · exact .refl
    · exact .refl

theorem answerHistory_path (r : HistoryResponse) (n : MeshNode) :
    Path env n₀ job n.books (n.answerHistory env r).books := by
  have hfold : ∀ (frags : List Bytes) (n : MeshNode) (b : Books), n.books = b →
      Path env n₀ job b (frags.foldl (originateFragment env) n).books := by
    intro frags
    induction frags with
    | nil => exact fun _ _ hb => hb ▸ .refl
    | cons frag frags ih =>
      exact fun n b hb => (originate_path .fragment frag hb (by decide) (by decide)).trans (ih _ _ rfl)
  exact hfold _ _ _ rfl

theorem handleHistoryQuery_path (hin : job.IsInbound) {p : Packet} {src : Option Link} (hty : p.msgType = .nimiqTxHistoryQuery)
    (hjob : Relayable job p src) (n : MeshNode) :
    Path env n₀ job n.books (n.handleHistoryQuery env p src).books := by
  have hne : p.msgType ≠ .nimiqTx ∧ p.msgType ≠ .nimiqTxReceipt := by rw [hty]; decide
  unfold handleHistoryQuery
  rcases h : n.firstSeen p with ⟨_ | _, m⟩
  · rw [firstSeen_stale h]
    exact .refl
  · refine carry_path hne.1 hjob (firstSeen_path hin hne.2 h) (.trans (remember_path (.inr hne.2)) ?_)
    split
    · split
      · exact answerHistory_path _ (m.remember env p).ask
      · exact .refl
    · exact .refl

theorem handleHistoryResponse_path (hin : job.IsInbound) {p : Packet} {src : Option Link}
    (hty : p.msgType = .nimiqTxHistoryResponse) (hjob : Relayable job p src) (n : MeshNode) :
    Path env n₀ job n.books (n.handleHistoryResponse env p src).books := by
  have hne : p.msgType ≠ .nimiqTx ∧ p.msgType ≠ .nimiqTxReceipt := by rw [hty]; decide
  unfold handleHistoryResponse
  rcases h : n.firstSeen p with ⟨_ | _, m⟩
  · rw [firstSeen_stale h]
    exact .refl
  · refine carry_path hne.1 hjob (firstSeen_path hin hne.2 h) (Relation.ReflTransGen.trans ?_ (remember_path (.inr hne.2)))
    split
    · exact .refl
    · exact .refl

theorem handleChatPacket_path (hin : job.IsInbound) {p : Packet} {src : Option Link} (hty : p.msgType = .chat)
    (hjob : Relayable job p src) (n : MeshNode) :
    Path env n₀ job n.books (n.handleChatPacket env p src).books := by
  have hne : p.msgType ≠ .nimiqTx ∧ p.msgType ≠ .nimiqTxReceipt := by rw [hty]; decide
  unfold handleChatPacket
  rcases h : n.firstSeen p with ⟨_ | _, m⟩
  · rw [firstSeen_stale h]
    exact .refl
  · refine carry_path hne.1 hjob (firstSeen_path hin hne.2 h) (.trans (remember_path (.inr hne.2)) ?_)
    split
    · exact .refl
    · exact .refl

theorem handleOther_path (hin : job.IsInbound) {p : Packet} {src : Option Link} (hne : p.msgType ≠ .nimiqTx)
    (hr : p.msgType ≠ .nimiqTxReceipt) (hjob : Relayable job p src) (n : MeshNode) :
    Path env n₀ job n.books (n.handleOther env p src).books := by
  unfold handleOther
  rcases h : n.firstSeen p with ⟨_ | _, m⟩
  · rw [firstSeen_stale h]
    exact .refl
  · exact carry_path hne hjob (firstSeen_path hin hr h) (remember_path (.inr hr))

/-! ### Swaps -/

theorem floodReplies_path {replies : List (MessageType × Bytes)} (hr : SwapReplies replies) {n : MeshNode}
    {b : Books} (hb : n.books = b) : Path env n₀ job b (n.floodReplies env replies).books := by
  unfold floodReplies
  induction replies generalizing n b with
  | nil => exact hb ▸ .refl
  | cons r replies ih =>
    have hr1 : SwapTyped r.1 := hr r List.mem_cons_self
    have htx : r.1 ≠ .nimiqTx := fun h => by rw [h] at hr1; cases hr1
    have hre : r.1 ≠ .nimiqTxReceipt := fun h => by rw [h] at hr1; cases hr1
    exact (originate_path r.1 r.2 hb htx hre).trans (ih (fun r' hr' => hr r' (List.mem_cons_of_mem _ hr')) rfl)

theorem countIntent_books (p : Packet) (n : MeshNode) : (n.countIntent p).books = n.books := by
  unfold countIntent
  split
  · rfl
  · rfl

/-- The packets that the swap code gets. -/
theorem handleSwapPacket_path (hin : job.IsInbound) {p : Packet} {src : Option Link} (hne : p.msgType ≠ .nimiqTx)
    (hr : p.msgType ≠ .nimiqTxReceipt) (hjob : Relayable job p src) (n : MeshNode) (hbuf : n.books.Buffered) :
    Path env n₀ job n.books (n.handleSwapPacket env p src).books := by
  unfold handleSwapPacket
  rcases h : n.firstSeen p with ⟨_ | _, m⟩
  · rw [firstSeen_stale h]
    exact .refl
  · have htook : Path env n₀ job n.books m.books := firstSeen_path hin hr h
    have hkeep : Path env n₀ job n.books ((m.remember env p).countIntent p).books := by
      rw [countIntent_books]
      exact htook.trans (remember_path (.inr hr))
    have hbuf' := hkeep.buffered hbuf
    dsimp only
    simp only [Bool.not_true, Bool.false_eq_true, if_false]
    generalize (m.remember env p).countIntent p = k at hkeep hbuf' ⊢
    split_ifs
    · exact hkeep
    · refine carry_path hne hjob hkeep ?_
      split
      · exact .refl
      · next w hw =>
        have hspec := Worker.handleSwapPacket_spec (w := k.swapWorker w) (hbuf' w hw) env.toEnv p.msgType
          p.senderId p.payload
        exact .head (.swap _ hspec.2) (floodReplies_path hspec.1 rfl)

theorem readvertiseIntent_path (w : Worker) {n : MeshNode} {b : Books} (hb : n.books = b) :
    Path env n₀ job b (n.readvertiseIntent env w).books := by
  unfold readvertiseIntent
  extract_lets m
  have hm : m.books = b := hb
  clear_value m
  split_ifs
  · exact hm ▸ .refl
  · split
    · exact hm ▸ .refl
    · split_ifs
      · exact hm ▸ .refl
      · generalize m.advertiser.onTick = tick
        obtain ⟨fire, advertiser⟩ := tick
        dsimp only
        split_ifs
        · exact hm ▸ .refl
        · exact originate_path .swapIntent _ hm (by decide) (by decide)

theorem gcTick_path (n : MeshNode) (hbuf : n.books.Buffered) :
    Path env n₀ job n.books (n.gcTick env).books := by
  unfold gcTick
  split
  · exact .refl
  · next w hw =>
    have hspec := Worker.gcTick_spec (w := n.swapWorker w) (hbuf w hw) env.toEnv
    extract_lets r
    have hflood : Path env n₀ job _ ({ n with swap := some r.2 }.floodReplies env r.1).books :=
      floodReplies_path hspec.1 rfl
    exact .head (.swap r.2 hspec.2) (hflood.trans (readvertiseIntent_path _ rfl))

theorem swapFastTick_path (n : MeshNode) (hbuf : n.books.Buffered) :
    Path env n₀ job n.books (n.swapFastTick env).books := by
  unfold swapFastTick
  dsimp only
  split
  · exact .refl
  · next w hw =>
    have hspec := Worker.fastTick_spec (w := n.ask.swapWorker w) (hbuf w hw) env.toEnv (n.now env)
    exact .head (.swap _ hspec.2) (floodReplies_path hspec.1 rfl)

/-! ### Dispatch -/

theorem handleFragment_path (hin : job.IsInbound) {p : Packet} {src : Option Link} (hty : p.msgType = .fragment)
    (hjob : Relayable job p src) (n : MeshNode) :
    Path env n₀ job n.books (n.handleFragment env p src).2.books := by
  have hne : p.msgType ≠ .nimiqTx ∧ p.msgType ≠ .nimiqTxReceipt := by rw [hty]; decide
  unfold handleFragment
  rcases h : n.firstSeen p with ⟨_ | _, m⟩
  · rw [firstSeen_stale h]
    exact .refl
  · have hkeep : Path env n₀ job m.books (m.remember env p).ask.books := remember_path (.inr hne.2)
    have hcarry : Path env n₀ job n.books ((m.remember env p).ask.relayOnward env p src).books :=
      carry_path hne.1 hjob (firstSeen_path hin hne.2 h) hkeep
    dsimp only
    simp only [Bool.not_true, Bool.false_eq_true, if_false]
    split
    · exact hcarry
    · split
      · exact hcarry
      · split
        · exact hcarry
        · exact hcarry

theorem dispatchOnce_path {p : Packet} {src : Option Link} (hjob : Relayable job p src)
    (hin : job.IsInbound) (n : MeshNode) (hbuf : n.books.Buffered) :
    Path env n₀ job n.books (n.dispatchOnce env p src).2.books := by
  unfold dispatchOnce
  split
  case h_1 hty => exact handleTx_path hin hty hjob n
  case h_2 hty => exact handleReceipt_path hin hty hjob n
  case h_3 hty => exact handleHeadBeacon_path hin hty hjob n
  case h_4 hty => exact handleBalanceQuery_path hin hty hjob n
  case h_5 hty => exact handleBalanceResponse_path hin hty hjob n
  case h_6 hty => exact handleHistoryQuery_path hin hty hjob n
  case h_7 hty => exact handleHistoryResponse_path hin hty hjob n
  case h_8 hty => exact handleFragment_path hin hty hjob n
  case h_15 hty => exact handleChatPacket_path hin hty hjob n
  case h_16 hty | h_17 hty | h_18 hty =>
    exact handleOther_path hin (by rw [hty]; decide) (by rw [hty]; decide) hjob n
  all_goals
    next hty => exact handleSwapPacket_path hin (by rw [hty]; decide) (by rw [hty]; decide) hjob n hbuf

/-- Dispatch is a path; what it completes has no hops left and is not relayed. -/
theorem dispatchPacket_path {p : Packet} {src : Option Link} (hjob : Relayable job p src)
    (hin : job.IsInbound) (n : MeshNode) (hbuf : n.books.Buffered) :
    Path env n₀ job n.books (n.dispatchPacket env p src).books := by
  refine dispatch_induction
    (P := fun p src n n' => Relayable job p src → n.books.Buffered → Path env n₀ job n.books n'.books)
    (fun p src n n' h hjob hbuf => ?_) (fun p src n r n' n'' h ih hjob hbuf => ?_) p src n hjob hbuf
  · have honce : Path env n₀ job n.books (n.dispatchOnce env p src).2.books :=
      dispatchOnce_path hjob hin n hbuf
    rwa [h] at honce
  · have honce : Path env n₀ job n.books (n.dispatchOnce env p src).2.books :=
      dispatchOnce_path hjob hin n hbuf
    rw [h] at honce
    obtain ⟨-, f, nowMs, ty, -, -, -, httl⟩ := dispatchOnce_some h
    have hnone : Relayable job r none := fun ttl hr => by rw [httl, relayedTtl_zero] at hr; cases hr
    exact honce.trans (ih hnone (honce.buffered hbuf))

/-! ### Inbound frames -/

theorem admitPeer_books (env : NodeEnv) (src : Option Link) (n : MeshNode) :
    (n.admitPeer env src).2.books = n.books := by
  unfold admitPeer
  split
  · rfl
  · rfl

theorem handleRequestSync_path {p : Packet} {src : Option Link} {bytes : Bytes} (n : MeshNode)
    (hjob : job = .inbound src bytes) (hhead : n.head = n₀.head)
    (hans : ∀ peer filter, src = some peer → GcsFilter.fromBytes p.payload = some filter →
      ∀ r ∈ (n.recent.missing filter (n.now env)).1, r ∈ n₀.answers env (some peer) bytes) :
    Path env n₀ job n.books (n.handleRequestSync env p src).books := by
  unfold handleRequestSync
  split
  · next peer filter hf =>
    have hsends : ∀ (missing : List Packet) (n : MeshNode), n.head = n₀.head →
        (∀ r ∈ missing, r ∈ n₀.answers env (some peer) bytes) →
        Path env n₀ job n.books (missing.foldl (sendMissing peer) n).books := by
      intro missing
      induction missing with
      | nil => exact fun _ _ _ => .refl
      | cons r missing ih =>
        intro n hn hall
        have hsend : (n.sendMissing peer r).head = n₀.head ∧
            Path env n₀ job n.books (n.sendMissing peer r).books := by
          unfold sendMissing
          split
          · next frame he =>
            exact ⟨hn, .single (.sent peer frame .reply (.reply r bytes hjob (hall r List.mem_cons_self) hn he))⟩
          · exact ⟨hn, .refl⟩
        exact hsend.2.trans (ih _ hsend.1 fun r' hr' => hall r' (List.mem_cons_of_mem _ hr'))
    have hsub : ∀ e ∈ (n.recent.gc (n.now env)).entries, e ∈ n.recent.entries :=
      fun e he => (List.dropWhile_sublist _).subset he
    have hprune : Path env n₀ job n.books { n.ask with recent := n.recent.gc (n.now env) }.books :=
      .single (.prune _ hsub)
    exact hprune.trans (hsends _ _ hhead (hans peer filter rfl hf))
  · exact .refl

theorem mem_answers {peer : Link} {bytes : Bytes} {n m : MeshNode} {p r : Packet} {filter : GcsFilter}
    (hadm : n.admitPeer env (some peer) = (true, m)) (hdec : decode bytes = .ok p)
    (hrsr : p.flags.isRsr = false) (hsync : p.msgType = .requestSync)
    (hf : GcsFilter.fromBytes p.payload = some filter) (hr : r ∈ (m.recent.missing filter (m.now env)).1) :
    r ∈ n.answers env (some peer) bytes := by
  unfold answers
  rw [hadm, hdec]
  dsimp only
  rw [hrsr, hf, if_pos (by rw [hsync]; decide)]
  exact hr

theorem receivePacket_path {src : Option Link} {bytes : Bytes} {p : Packet} (hdec : decode bytes = .ok p)
    (hjob : job = .inbound src bytes) (n : MeshNode) (hbuf : n.books.Buffered) (hhead : n.head = n₀.head)
    (hans : ∀ peer filter, src = some peer → p.flags.isRsr = false → p.msgType = .requestSync →
      GcsFilter.fromBytes p.payload = some filter →
      ∀ r ∈ (n.recent.missing filter (n.now env)).1, r ∈ n₀.answers env (some peer) bytes) :
    Path env n₀ job n.books (n.receivePacket env p src).books := by
  have hin : job.IsInbound := ⟨src, bytes, hjob⟩
  unfold receivePacket
  by_cases hrsr : p.flags.isRsr = true
  · rw [if_pos hrsr]
    exact dispatchPacket_path (fun ttl httl => by rw [relayedTtl_zero] at httl; cases httl) hin
      (n.count _) hbuf
  · rw [if_neg hrsr]
    have hrsr : p.flags.isRsr = false := Bool.eq_false_iff.mpr hrsr
    by_cases hsync : p.msgType = .requestSync
    · rw [if_pos hsync]
      exact handleRequestSync_path n hjob hhead fun peer filter hsrc hf => hans peer filter hsrc hrsr hsync hf
    · rw [if_neg hsync]
      exact dispatchPacket_path (fun _ _ => ⟨bytes, hjob, hdec, hrsr, hsync⟩) hin n hbuf

theorem processInbound_path {src : Option Link} {bytes : Bytes} (n : MeshNode) (hbuf : n.books.Buffered) :
    Path env n (.inbound src bytes) n.books (n.processInbound env src bytes).books := by
  have hadm := admitPeer_books env src n
  unfold processInbound
  generalize hm : n.admitPeer env src = r at hadm
  obtain ⟨admitted, m⟩ := r
  cases admitted with
  | false => exact hadm ▸ .refl
  | true =>
    cases hdec : decode bytes with
    | error _ => exact hadm ▸ .refl
    | ok p =>
      have hrecv : Path env n (.inbound src bytes) m.books (m.receivePacket env p src).books := by
        refine receivePacket_path hdec rfl m (hadm ▸ hbuf) (congrArg Books.head hadm) ?_
        rintro peer filter rfl hrsr hsync hf r hr
        exact mem_answers hm hdec hrsr hsync hf hr
      have hbooks : m.books = n.books := hadm
      exact hbooks ▸ hrecv

/-! ### Own transactions -/

theorem launch_path {wire bytes : Bytes} {validUntil : Option UInt32} (hjob : job = .localTx wire) {p : Packet}
    (he : encode p = .ok bytes) (hvu : txValidUntil p = validUntil) {n : MeshNode} {b : Books}
    (hb : { b with ledger := b.ledger.record (mockTxId wire) .outgoing } = n.books)
    (hhead : validUntil = n.cachedHead.map (satAdd32 · validityWindow)) :
    Path env n₀ job b (n.launch env wire bytes validUntil).books := by
  have hpending : n.pending = b.pending := congrArg Books.pending hb.symm
  have hact : Path env n₀ job b (b.launch (n.pendingEntry env wire bytes validUntil)) :=
    .single (.launch wire _ hjob rfl ⟨p, he, hvu⟩)
  unfold launch
  generalize hl : { n.ask with pending := n.pending.remember (n.pendingEntry env wire bytes validUntil) } =
    launched
  have hlaunch : Path env n₀ job b launched.books := by
    have hbooks : b.launch (n.pendingEntry env wire bytes validUntil) = launched.books := by
      rw [← hl, Books.launch, ← hpending]
      exact congrArg (fun c : Books =>
        { c with pending := n.pending.remember (n.pendingEntry env wire bytes validUntil) }) hb
    exact hbooks ▸ hact
  have hcached : launched.cachedHead = n.cachedHead := by rw [← hl]; rfl
  have hsend : ∀ m : MeshNode, m.cachedHead = n.cachedHead → ∀ peer, MaySend env n₀ job m.books peer bytes .own := by
    intro m hm peer
    by_cases hmax : n.cachedHead = some 4294967295
    · exact .own p he (.inr ⟨⟨wire, hjob⟩, hm.trans hmax⟩)
    · refine .own p he (.inl fun _ => ?_)
      rw [hvu, hhead]
      exact (congrArg (isExpired · _) hm).trans (isExpired_window hmax)
  split_ifs
  · exact hlaunch.trans (floodExcluding_path bytes none .own _ fun peer _ => hsend _ hcached peer)
  · have hoffer : Path env n₀ job launched.books (launched.log (.offered (mockTxId wire) (n.now env))).books :=
      .single (.offer _ _ (.inr ⟨wire, hjob⟩))
    exact (hlaunch.trans hoffer).trans (floodExcluding_path bytes none .own _ fun peer _ =>
      hsend (launched.log (.offered (mockTxId wire) (n.now env))) hcached peer)

theorem floodLocalTx_path {wire : Bytes} (hjob : job = .localTx wire) (n : MeshNode) :
    Path env n₀ job n.books (n.floodLocalTx env wire).books := by
  unfold floodLocalTx
  split
  · exact .refl
  · next payload henv =>
    generalize hp : n.buildPacket .nimiqTx payload = r
    obtain ⟨p, m⟩ := r
    have hpay : p.payload = payload := by rw [← (Prod.mk.inj hp).1]
    have hm : m.books = n.books := by rw [← (Prod.mk.inj hp).2]; rfl
    have hid : p.senderId = m.senderId := by rw [← (Prod.mk.inj hp).1, ← (Prod.mk.inj hp).2]
    have hty : p.msgType = .nimiqTx := by rw [← (Prod.mk.inj hp).1]
    have hvu : txValidUntil p = (n.localEnvelope wire).validUntil := by
      rw [txValidUntil, hpay, decode_encodeEnvelope henv]
    obtain ⟨bytes, he⟩ : ∃ bytes, encode p = .ok bytes := by
      refine encode_ok ((hpay ▸ length_encodeEnvelope_le henv).trans ?_)
      decide
    have hmark : Path env n₀ job m.books (m.markOwn p).books := markOwn_path hid
    have hkeep : Path env n₀ job n.books ((m.markOwn p).remember env p).books :=
      hm ▸ hmark.trans (remember_path (.inr (by rw [hty]; decide)))
    have hhead : ((m.markOwn p).remember env p).cachedHead = n.cachedHead :=
      congrArg (fun b : Books => b.head.height) hm
    dsimp only
    generalize (m.markOwn p).remember env p = k at hkeep hhead ⊢
    rw [he]
    refine hkeep.trans (launch_path hjob he hvu rfl ?_)
    exact congrArg (Option.map (satAdd32 · validityWindow)) hhead.symm

/-! ### Ticks -/

/-- What is offered again is kept, and alive. -/
theorem offerAgain_path (nowMs : UInt64) (hjob : job.IsTick) (due : List PendingTx) (n : MeshNode)
    (hdue : ∀ e ∈ due, ∃ e' ∈ n.pending.entries, e'.bytes = e.bytes ∧
      isExpired n.cachedHead e'.validUntil = false) :
    Path env n₀ job n.books (due.foldl (offerAgain env nowMs) n).books := by
  induction due generalizing n with
  | nil => exact .refl
  | cons e due ih =>
    obtain ⟨e', he', hbytes, hlive⟩ := hdue e List.mem_cons_self
    have hoffer : Path env n₀ job n.books (n.log (.offered e.txId nowMs)).books := .single (.offer _ _ (.inl hjob))
    have hflood : Path env n₀ job (n.log (.offered e.txId nowMs)).books (n.offerAgain env nowMs e).books :=
      floodExcluding_path e.bytes none .own _ fun peer _ => .again e' he' hbytes hlive
    exact (hoffer.trans hflood).trans
      (ih (n.offerAgain env nowMs e) fun e₁ he₁ => hdue e₁ (List.mem_cons_of_mem _ he₁))

theorem PendingTx.live_of_not_dead {e : PendingTx} {head : Option UInt32} {nowMs : UInt64}
    (h : e.dead head nowMs = false) : isExpired head e.validUntil = false := by
  unfold PendingTx.dead at h
  split at h
  · next vu hvu => rwa [hvu]
  · next hvu =>
    rw [hvu]
    cases head <;> rfl

theorem retryTick_path (hjob : job.IsTick) (n : MeshNode) :
    Path env n₀ job n.books (n.retryTick env).books := by
  unfold retryTick
  extract_lets nowMs head expired asked n₁ due
  have hbooks : n.books.expire nowMs = n₁.books := rfl
  have hexpire : Path env n₀ job n.books n₁.books := hbooks ▸ .single (.expire nowMs hjob)
  split_ifs
  · exact hexpire
  · have htouch : Path env n₀ job n₁.books { n₁ with pending := n₁.pending.touch nowMs }.books :=
      .single (.touch nowMs hjob)
    refine (hexpire.trans htouch).trans (offerAgain_path nowMs hjob due _ fun e he => ?_)
    have hmem : e ∈ n₁.pending.entries := (List.mem_filter.mp he).1
    have hlive : isExpired n₁.cachedHead e.validUntil = false := by
      have hdead : e.dead head nowMs = false := by simpa using (List.mem_filter.mp hmem).2
      exact PendingTx.live_of_not_dead hdead
    refine ⟨if e.due nowMs then { e with lastFloodMs := some nowMs } else e, List.mem_map_of_mem hmem, ?_, ?_⟩
    · split_ifs
      · rfl
      · rfl
    · split_ifs
      · exact hlive
      · exact hlive

theorem emitRequestSync_path (n : MeshNode) : Path env n₀ job n.books (n.emitRequestSync env).books := by
  have hsub : ∀ e ∈ (n.recent.gc (n.now env)).entries, e ∈ n.recent.entries :=
    fun e he => (List.dropWhile_sublist _).subset he
  refine .head (.prune (n.recent.gc (n.now env)) hsub) ?_
  refine floodPacket_path rfl ?_
  exact live_of_ne (show MessageType.requestSync ≠ .nimiqTx by decide)

/-- The maintenance tick but for the retry pass, which comes last in it. -/
def beforeRetry (env : NodeEnv) (n : MeshNode) : MeshNode :=
  let (due, sync) := n.sync.due (n.now env)
  let n := { n.ask with sync }
  if due then n.emitRequestSync env else n

theorem maintenanceTick_eq (env : NodeEnv) (n : MeshNode) :
    n.maintenanceTick env = (n.beforeRetry env).retryTick env := rfl

theorem beforeRetry_path (n : MeshNode) : Path env n₀ job n.books (n.beforeRetry env).books := by
  unfold beforeRetry
  generalize n.sync.due (n.now env) = r
  obtain ⟨due, sync⟩ := r
  dsimp only
  split_ifs
  · exact emitRequestSync_path { n.ask with sync }
  · exact .refl

theorem maintenanceTick_path (hjob : job.IsTick) (n : MeshNode) :
    Path env n₀ job n.books (n.maintenanceTick env).books := by
  rw [maintenanceTick_eq]
  exact (beforeRetry_path n).trans (retryTick_path hjob _)

/-! ### Jobs -/

theorem floodLocalChat_path (payload : Bytes) (n : MeshNode) :
    Path env n₀ job n.books (n.floodLocalChat env payload).books := by
  unfold floodLocalChat
  split
  · exact .refl
  · next c _ =>
    have hmark : Path env n₀ job n.books
        ((n.buildPacket .chat payload).2.markOwn (n.buildPacket .chat payload).1).books := markOwn_path rfl
    refine Relation.ReflTransGen.trans (hmark.trans (remember_path ?_)) (floodPacket_path rfl ?_)
    · exact .inr (show MessageType.chat ≠ .nimiqTxReceipt by decide)
    · exact live_of_ne (show MessageType.chat ≠ .nimiqTx by decide)

theorem stopAdvertising_path (n : MeshNode) (hbuf : n.books.Buffered) :
    Path env n₀ job n.books n.stopAdvertising.books := by
  unfold stopAdvertising
  cases h : n.swap with
  | none =>
    have hbooks : { n with swap := none }.books = n.books := by rw [← h]
    exact hbooks ▸ .refl
  | some w => exact .single (.swap _ (hbuf w h))

/-- REFINES: a node that works on a job takes a path of acts. -/
theorem step_path (env : NodeEnv) (n : MeshNode) (job : Job) (hbuf : n.books.Buffered) :
    Path env n job n.books (n.step env job).books := by
  cases job with
  | inbound src bytes =>
    have hin : Path env n (.inbound src bytes) n.books (n.processInbound env src bytes).books :=
      processInbound_path n hbuf
    exact hin.trans (swapFastTick_path _ (hin.buffered hbuf))
  | localTx wire => exact floodLocalTx_path rfl n
  | requestSync => exact emitRequestSync_path n
  | syncTick =>
    have htick : Path env n .syncTick n.books (n.maintenanceTick env).books := maintenanceTick_path (.inl rfl) n
    exact htick.trans (gcTick_path _ (htick.buffered hbuf))
  | beaconTick =>
    have hemit : Path env n .beaconTick n.books (n.emitHeadBeacon env).books :=
      emitHeadBeacon_path (fun _ h => Job.noConfusion h) n
    have htick : Path env n .beaconTick n.books _ := hemit.trans (maintenanceTick_path (.inr rfl) _)
    exact htick.trans (gcTick_path _ (htick.buffered hbuf))
  | swapFastTick => exact swapFastTick_path n hbuf
  | balanceQuery address => exact originate_path .nimiqBalanceQuery _ rfl (by decide) (by decide)
  | historyQuery address => exact originate_path .nimiqTxHistoryQuery _ rfl (by decide) (by decide)
  | chat payload => exact floodLocalChat_path payload n
  | stopAdvertising => exact stopAdvertising_path n hbuf
  | peerConnected peer => exact .single (.link _ ⟨peer, .inl rfl⟩)
  | peerDisconnected peer => exact .single (.link _ ⟨peer, .inr rfl⟩)
  | watchIncoming txId => exact .single (.watch txId rfl)
  | setBattery levelPct charging => exact .refl
  | sendResult ok => exact .refl

theorem step_buffered (env : NodeEnv) (n : MeshNode) (job : Job) (hbuf : n.books.Buffered) :
    (n.step env job).books.Buffered := (step_path env n job hbuf).buffered hbuf

theorem exec_buffered (env : NodeEnv) (n : MeshNode) (jobs : List Job) (hbuf : n.books.Buffered) :
    (n.exec env jobs).books.Buffered :=
  Run.exec_preserves (step env) (fun n job h => step_buffered env n job h) jobs n hbuf

/-- What a job adds to the trace, newest first. -/
def news (env : NodeEnv) (n : MeshNode) (job : Job) : List MeshEvent :=
  (n.step env job).io.trace.take ((n.step env job).io.trace.length - n.io.trace.length)

theorem news_eq {env : NodeEnv} {n : MeshNode} {job : Job} {new : List MeshEvent}
    (h : (n.step env job).io.trace = new ++ n.io.trace) : n.news env job = new := by
  rw [news, h, List.length_append, Nat.add_sub_cancel, List.take_left]

theorem step_trace (env : NodeEnv) (n : MeshNode) (job : Job) (hbuf : n.books.Buffered) :
    (n.step env job).io.trace = n.news env job ++ n.io.trace := by
  obtain ⟨new, hnew⟩ := (step_path env n job hbuf).trace_grows
  rw [news_eq hnew]
  exact hnew

/-- Every frame that a job makes a node send has its justification. -/
theorem sends_guarded {env : NodeEnv} {n : MeshNode} {job : Job} (hbuf : n.books.Buffered) {peer : Link}
    {frame : Bytes} {kind : SendKind} {head : Option UInt32} (h : .sent peer frame kind head ∈ n.news env job) :
    ∃ b, MaySend env n job b peer frame kind := by
  obtain ⟨add, htrace, hadd⟩ := (step_path env n job hbuf).sends_guarded
  rw [news_eq htrace] at h
  exact hadd peer frame kind head h

theorem exec_trace_grows (env : NodeEnv) (n : MeshNode) (jobs : List Job) (hbuf : n.books.Buffered) :
    ∃ new, (n.exec env jobs).io.trace = new ++ n.io.trace := by
  induction jobs generalizing n with
  | nil => exact ⟨[], rfl⟩
  | cons job jobs ih =>
    obtain ⟨new, hnew⟩ := ih (n.step env job) (step_buffered env n job hbuf)
    exact ⟨new ++ n.news env job, by rw [List.append_assoc, ← step_trace env n job hbuf]; exact hnew⟩

/-- A node with nothing behind it. -/
structure Started (n : MeshNode) : Prop where
  trace : n.io.trace = []
  ledger : n.ledger = ∅
  pending : n.pending.entries = []
  relaySeen : n.relaySeen = .new relayCacheCap
  gatewaySeen : n.gatewaySeen = .new gatewayCacheCap
  acked : n.acked = .new gatewayCacheCap
  recent : n.recent.entries = []
  reassembler : n.reassembler = ∅
  swap : ∀ w, n.swap = some w → w.session.pending = ∅

theorem started_new (senderId : PeerId) (network : UInt8) (verify : Bool) (seed : UInt64) {swap : Option Worker}
    (h : ∀ w, swap = some w → w.session.pending = ∅) : (new senderId network verify seed swap).Started :=
  ⟨rfl, rfl, rfl, rfl, rfl, rfl, rfl, rfl, h⟩

theorem Started.buffered {n : MeshNode} (h : n.Started) : n.books.Buffered := by
  intro w hw id a ha
  rw [h.swap w hw] at ha
  cases ha

end MeshNode

theorem Sample.started_meshNode : Sample.meshNode.Started :=
  MeshNode.started_new _ _ _ _ fun _ h => nomatch h

end Nimmesh
