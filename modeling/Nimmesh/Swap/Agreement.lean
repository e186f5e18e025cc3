import Nimmesh.Swap.Atomicity
import Nimmesh.Swap.Circulation
import Nimmesh.Swap.Origin
import Nimmesh.Swap.WireCodec

/-! @src swap_session.rs swap_node.rs swap_coordinator.rs swap_messages.rs | name:Both sides agree | layer:properties

    The two coordinators of a swap live on two nodes and learn of each other by messages that may be lost, delayed,
    repeated and reordered. An id is initiated once, so whatever `Propose` of it is in circulation carries the context
    of the initiator; a responder takes its deal from a `Propose` that was flooded, and an initiator its peer's key
    from an `Accept` that was. So the two agree. -/

namespace Nimmesh

/-! ### The deal of a slot -/

/-- An event with which a coordinator takes a deal or a key. -/
def isDealt : Event → Bool
  | .created .. | .accepted .. => true
  | _ => false

/-- A slot since `a`: its responder has accepted, and unless something was dealt since, its coordinator is the one
    that `a` held, with the same role, context and peer key. -/
def SameDealAs (a sl : Slot) : Prop :=
  a.hist.countP isDealt ≤ sl.hist.countP isDealt ∧
  ∀ c', sl.coord = some c' → (c'.role = .responder → c'.phase ≠ .proposed) ∧
    (sl.hist.countP isDealt = a.hist.countP isDealt →
      ∃ c, a.coord = some c ∧ c'.role = c.role ∧ c'.ctx = c.ctx ∧ c'.peerBtcPubkey = c.peerBtcPubkey)

/-- The swap goes on with the same deal. -/
theorem SameDealAs.next {a : Slot} {c c' : SwapCoordinator} {t : Bool} {h h' : List Event}
    (hx : SameDealAs a ⟨some c, t, h⟩) (hrole : c'.role = c.role) (hctx : c'.ctx = c.ctx)
    (hkey : c'.peerBtcPubkey = c.peerBtcPubkey) (hphase : c.phase ≠ .proposed → c'.phase ≠ .proposed)
    (hcount : h'.countP isDealt = h.countP isDealt) : SameDealAs a ⟨some c', t, h'⟩ := by
  refine ⟨hx.1.trans hcount.ge, fun d hd => ?_⟩
  cases hd
  obtain ⟨hp, hsame⟩ := hx.2 c rfl
  refine ⟨fun hr => hphase (hp (hrole.symm.trans hr)), fun heq => ?_⟩
  obtain ⟨c₀, hc₀, hr₀, hx₀, hk₀⟩ := hsame (hcount.symm.trans heq)
  exact ⟨c₀, hc₀, hrole.trans hr₀, hctx.trans hx₀, hkey.trans hk₀⟩

/-- Something is dealt. -/
theorem SameDealAs.dealt {a x : Slot} {c : SwapCoordinator} {t : Bool} {e : Event} (hx : SameDealAs a x)
    (he : isDealt e = true) (hphase : c.role = .responder → c.phase ≠ .proposed) :
    SameDealAs a ⟨some c, t, e :: x.hist⟩ := by
  have hcount : (e :: x.hist).countP isDealt = x.hist.countP isDealt + 1 := List.countP_cons_of_pos he
  have hle := hx.1
  refine ⟨hcount ▸ hle.trans (Nat.le_succ _), fun d hd => ?_⟩
  cases hd
  exact ⟨hphase, fun heq => by rw [hcount] at heq; omega⟩

theorem sameDealAs_step {cfg : Config} {now : Option UInt64} {k : SwapId} {a : Slot} (x y : Slot)
    (hs : SlotStep cfg now k x y) (hx : SameDealAs a x) : SameDealAs a y := by
  cases hs with
  | createInitiator fresh => exact hx.dealt rfl fun hr => by rw [fresh.role] at hr; cases hr
  | createResponder fresh => exact hx.dealt rfl fun _ => by rw [fresh.phase]; decide
  | accept => exact hx.dealt rfl fun _ h => by cases h
  | noteWire | notePeer | observe | fundRefused | revealRefused | claim =>
    exact hx.next rfl rfl rfl (fun h => h) rfl
  | @observeFunded c =>
    refine hx.next rfl rfl rfl (fun _ => ?_) rfl
    cases hr : c.role <;> simp [SwapCoordinator.observedPhase]
  | @fund c =>
    refine hx.next rfl rfl rfl (fun _ => ?_) rfl
    cases hr : c.role <;> simp [SwapCoordinator.fundedPhase]
  | reveal | learnSecret | refund | forfeit => exact hx.next rfl rfl rfl (fun _ h => by cases h) rfl
  | @observeClaim c t h txId obs role phase claimed =>
    rcases applyClaimObservation_cases c (cfg.need .nim) obs phase with ⟨n, -, -, he⟩ | ⟨-, he⟩ | he
    · rw [he]
      exact hx.next rfl rfl rfl (fun _ h => by cases h) rfl
    · rw [he]
      exact hx.next rfl rfl rfl (fun h => h) rfl
    · rw [he]
      exact hx.next rfl rfl rfl (fun h => h) rfl
  | drop => exact ⟨hx.1, fun c hc => by cases hc⟩

/-! ### Where a deal comes from -/

/-- The context takes the deal from the proposal: the swap, its timelocks, hashlock, amounts and network. -/
structure SwapContext.Deals (ctx : SwapContext) (p : SwapProposal) : Prop where
  swapId : ctx.swapId = p.swapId
  terms : ctx.terms = p.terms
  hashlock : ctx.hashlock = p.hashlock
  giveAmount : ctx.giveAmount = p.giveAmount
  takeAmount : ctx.takeAmount = p.takeAmount
  networkId : ctx.networkId = p.networkId

namespace Session

theorem sameDealAs_invariant (cfg : Config) (now : Option UInt64) (k : SwapId) (a : Slot) :
    SlotInvariant cfg now k (SameDealAs a) :=
  ⟨fun x y hs _ hx => sameDealAs_step x y hs hx, fun _ hx => ⟨hx.1, fun c hc => by cases hc⟩⟩

/-- No responder is held that has not accepted. -/
def Accepting (s : Session) : Prop :=
  ∀ k c, s.coordinators.lookup k = some c → c.role = .responder → c.phase ≠ .proposed

theorem Accepting.sameDealAs {s : Session} (h : s.Accepting) (k : SwapId) : SameDealAs (s.slot k) (s.slot k) :=
  ⟨le_rfl, fun c hc => ⟨h k c hc, fun _ => ⟨c, hc, rfl, rfl, rfl⟩⟩⟩

/-- RUN: a responder is never held before it has accepted. -/
theorem Accepting.exec {env : Env} {s : Session} (hs : s.WF env) (h : s.Accepting) (ops : List Op) :
    (s.exec env ops).Accepting := fun k c hc =>
  ((SlotInvariant.run (fun now => sameDealAs_invariant _ now k _) hs (h.sameDealAs k) ops).2 c hc).1

/-- A function that deals nothing leaves only coordinators that were held before, with their deal. -/
theorem Moves.deal {env : Env} {n : Option UInt64} {P : Event → Prop} {s s' : Session} (h : Moves env n P s s')
    (hP : ∀ ev, isDealt ev = true → ¬ P ev) (hacc : s.Accepting) {k : SwapId} {c' : SwapCoordinator}
    (hc' : s'.coordinators.lookup k = some c') : ∃ c, s.coordinators.lookup k = some c ∧ c'.role = c.role ∧
      c'.ctx = c.ctx ∧ c'.peerBtcPubkey = c.peerBtcPubkey := by
  have hsteps : SameDealAs (s.slot k) (s'.slot k) :=
    SlotSteps.preserves sameDealAs_step (h.slots k) (hacc.sameDealAs k)
  refine (hsteps.2 c' hc').2 ?_
  obtain ⟨new, he, hp⟩ := h.grows
  change (s'.trace.filter _).countP isDealt = (s.trace.filter _).countP isDealt
  have hnew : (new.filter fun e => e.swapId = k).countP isDealt = 0 := by
    rw [List.countP_eq_zero]
    exact fun e hm hdealt => hP e hdealt (hp e (List.mem_filter.mp hm).1)
  rw [he, List.filter_append, List.countP_append, hnew, Nat.zero_add]

/-- An initiation that goes ahead: the coordinator, of a context that it proposes. -/
def Initiated (s : Session) (id : SwapId) (c : SwapCoordinator) (e : SwapEnvelope) : Prop :=
  s.hasInitiated id = false ∧ c.role = .initiator ∧ c.peerBtcPubkey = none ∧ c.ctx.swapId = id ∧
    SwapProposal.fromEnvelope e = some c.ctx.proposal

theorem fromEnvelope_signPropose (env : Env) {e : SwapEnvelope} {p : SwapProposal}
    (h : SwapProposal.fromEnvelope e = some p) : SwapProposal.fromEnvelope (signPropose env e) = some p := by
  unfold signPropose
  split
  · next key proposal _ hp =>
    cases h.symm.trans hp
    split
    · rfl
    · exact h
  · exact h

/-- An intent is initiated, or nothing happens. -/
theorem initiateFromIntent_cases (env : Env) (s : Session) (id : SwapId) (head : UInt64) :
    (∃ c e, s.Initiated id c e ∧ s.initiateFromIntent env id head = (pushEnv .swapPropose e, s.addInitiator id c)) ∨
      s.initiateFromIntent env id head = ([], s) := by
  unfold initiateFromIntent
  split
  · exact .inr rfl
  · next standing _ =>
    split_ifs with hmay
    · let ctx := initiatorContext standing id (env.sha256 (env.secretSource s.trace id).1) head
      refine .inl ⟨(SwapCoordinator.newInitiator ctx (env.secretSource s.trace id) s.ladder).1,
        signPropose env ctx.proposal.toEnvelope, ⟨?_, rfl, rfl, rfl, ?_⟩, rfl⟩
      · simp only [mayInitiate, Bool.and_eq_true, Bool.not_eq_true'] at hmay
        exact hmay.1.1.2
      · exact fromEnvelope_signPropose env (SwapProposal.fromEnvelope_toEnvelope ctx.proposal)
    · exact .inr rfl

/-- How the coordinator `c` of an id comes to be held after a call. -/
inductive Deal (s : Session) (k : SwapId) (c : SwapCoordinator) : Op → Prop
  | same {op : Op} {c₀ : SwapCoordinator} (hc₀ : s.coordinators.lookup k = some c₀) (hrole : c.role = c₀.role)
      (hctx : c.ctx = c₀.ctx) (hkey : c.peerBtcPubkey = c₀.peerBtcPubkey) : Deal s k c op
  | propose {payload : Bytes} {head : UInt64} {e : SwapEnvelope} {p : SwapProposal}
      (he : decodeSwap .propose payload = .ok e) (hid : e.swapId = k) (hp : SwapProposal.fromEnvelope e = some p)
      (hrole : c.role = .responder) (hctx : c.ctx = s.responderContext p head)
      (hkey : c.peerBtcPubkey = some p.btcPubkey) : Deal s k c (.message .propose payload head)
  | accept {payload : Bytes} {head : UInt64} {e : SwapEnvelope} {a : SwapAcceptance} {c₀ : SwapCoordinator}
      (he : decodeSwap .accept payload = .ok e) (hid : e.swapId = k) (ha : SwapAcceptance.fromEnvelope e = some a)
      (hc₀ : s.coordinators.lookup k = some c₀) (hinit : c.role = .initiator) (hrole : c.role = c₀.role)
      (hctx : c.ctx = c₀.ctx) (hkey : c.peerBtcPubkey = some a.btcPubkey) : Deal s k c (.message .accept payload head)
  | initiate {head : UInt64} (hnew : s.hasInitiated k = false) (hrole : c.role = .initiator)
      (hkey : c.peerBtcPubkey = none) : Deal s k c (.initiate k head)

/-- STEP: a held coordinator has the deal that its id had before, or the call dealt it. -/
theorem step_deal {env : Env} {s : Session} (hs : s.WF env) (hacc : s.Accepting) (op : Op) {k : SwapId}
    {c : SwapCoordinator} (hc : (s.step env op).coordinators.lookup k = some c) : s.Deal k c op := by
  have hquiet : (∀ id, op ≠ .remove id) → (∀ ev, isDealt ev = true → ¬ Emits env s op ev) → s.Deal k c op := by
    intro hrem hnone
    obtain ⟨c₀, hc₀, hrole, hctx, hkey⟩ := (step_moves hs op hrem).deal hnone hacc hc
    exact .same hc₀ hrole hctx hkey
  have hother : ∀ ev, isDealt ev = true → ¬ Quiet env ev := by
    intro ev hev hq
    cases ev with
    | created | accepted => exact hq
    | _ => cases hev
  cases op with
  | message kind payload head =>
    cases he : decodeSwap kind payload with
    | error err =>
      simp only [step, onMessage, he] at hc
      exact .same hc rfl rfl rfl
    | ok e =>
      cases kind with
      | propose =>
        simp only [step, onMessage, he] at hc
        rcases onPropose_exact env s e head with ⟨p, -, -, hp, hnew⟩ | ⟨-, hsame⟩
        · rw [hnew] at hc
          by_cases hk : k = e.swapId
          · simp only [log, setCoord, Table.lookup_insert_iff, if_pos hk] at hc
            cases hc
            exact .propose he hk.symm hp rfl rfl rfl
          · simp only [log, setCoord, Table.lookup_insert_iff, if_neg hk] at hc
            exact .same hc rfl rfl rfl
        · rw [hsame] at hc
          exact .same hc rfl rfl rfl
      | accept =>
        simp only [step, onMessage, he] at hc
        cases hc₀ : s.coordinators.lookup e.swapId with
        | none =>
          simp only [onAccept, hc₀] at hc
          exact .same hc rfl rfl rfl
        | some c₀ =>
          rcases c₀.recvAccept_cases e head with ⟨a, ha, -, hp, -, hok⟩ | ⟨-, err, herr⟩
          · simp only [onAccept, hc₀, hok, ha] at hc
            by_cases hk : k = e.swapId
            · simp only [log, setCoord, Table.lookup_insert_iff, if_pos hk] at hc
              cases hc
              have hheld : s.coordinators.lookup k = some c₀ := hk ▸ hc₀
              refine .accept he hk.symm ha hheld ?_ rfl rfl rfl
              -- a responder has accepted before any message of its peer comes in
              cases hr : c₀.role with
              | initiator => exact hr
              | responder => exact absurd hp (hacc _ _ hc₀ hr)
            · simp only [log, setCoord, Table.lookup_insert_iff, if_neg hk] at hc
              exact .same hc rfl rfl rfl
          · simp only [onAccept, hc₀, herr, setCoord, Table.lookup_insert_iff] at hc
            split_ifs at hc with hk
            · cases hc
              exact .same (hk ▸ hc₀) rfl rfl rfl
            · exact .same hc rfl rfl rfl
      | _ =>
        refine hquiet (by simp) fun ev hev hem => ?_
        obtain ⟨e', -, hm⟩ := hem
        cases ev with
        | created | accepted => exact absurd hm.1 (by decide)
        | _ => cases hev
  | initiate id head =>
    rcases initiateFromIntent_cases env s id head with ⟨d, e, hnew, he⟩ | he
    · rw [step, he] at hc
      simp only [addInitiator, setCoord, log, Table.lookup_insert_iff] at hc
      split_ifs at hc with hk
      · cases hc
        subst hk
        exact .initiate hnew.1 hnew.2.1 hnew.2.2.1
      · exact .same hc rfl rfl rfl
    · rw [step, he] at hc
      exact .same hc rfl rfl rfl
  | remove id =>
    simp only [step, remove, Table.lookup_erase_iff] at hc
    split_ifs at hc
    exact .same hc rfl rfl rfl
  | driveSwap kind payload head =>
    refine hquiet (by simp) fun ev hev hem => ?_
    obtain ⟨e, -, hm⟩ := hem
    cases ev with
    | created | accepted => exact hm
    | _ => cases hev
  | drive id head =>
    refine hquiet (by simp) fun ev hev hem => ?_
    cases ev with
    | created | accepted => exact hem
    | _ => cases hev
  | _ => exact hquiet (by simp) hother

/-- The run admits a `Propose` of these contents, and `c` is its responder. -/
def DealtIn (s : Session) (ops : List Op) (k : SwapId) (c : SwapCoordinator) : Prop :=
  ∃ payload head e p, .message .propose payload head ∈ ops ∧ decodeSwap .propose payload = .ok e ∧ e.swapId = k ∧
    SwapProposal.fromEnvelope e = some p ∧ c.ctx = s.responderContext p head ∧ c.peerBtcPubkey = some p.btcPubkey

/-- The run hears an `Accept` with this key. -/
def AnsweredIn (ops : List Op) (k : SwapId) (key : BtcPubkey) : Prop :=
  ∃ payload head e a, .message .accept payload head ∈ ops ∧ decodeSwap .accept payload = .ok e ∧ e.swapId = k ∧
    SwapAcceptance.fromEnvelope e = some a ∧ a.btcPubkey = key

/-- RUN: a held responder has the deal that its id had before, or the run admitted it. -/
theorem exec_deal {env : Env} {s : Session} (hs : s.WF env) (hacc : s.Accepting) (ops : List Op) {k : SwapId}
    {c : SwapCoordinator} (hc : (s.exec env ops).coordinators.lookup k = some c) (hr : c.role = .responder) :
    (∃ c₀, s.coordinators.lookup k = some c₀ ∧ c₀.role = .responder ∧ c.ctx = c₀.ctx ∧
      c.peerBtcPubkey = c₀.peerBtcPubkey) ∨ s.DealtIn ops k c := by
  induction ops using List.reverseRecOn generalizing c with
  | nil => exact .inl ⟨c, hc, hr, rfl, rfl⟩
  | append_singleton ops op ih =>
    rw [exec_snoc] at hc
    cases step_deal (exec_config_wf hs ops).2 (hacc.exec hs ops) op hc with
    | same hd hdr hx hk =>
      rcases ih hd (hdr.symm.trans hr) with ⟨c₀, hc₀, hr₀, hx₀, hk₀⟩ | ⟨payload, head, e, p, hm, he, hid, hp, hx₀, hk₀⟩
      · exact .inl ⟨c₀, hc₀, hr₀, hx.trans hx₀, hk.trans hk₀⟩
      · exact .inr ⟨payload, head, e, p, List.mem_append_left _ hm, he, hid, hp, hx.trans hx₀, hk.trans hk₀⟩
    | @propose payload head e p he hid hp hrole hctx hkey =>
      refine .inr ⟨payload, head, e, p, by simp, he, hid, hp, ?_, hkey⟩
      rw [hctx, responderContext, exec_identity, responderContext]
    | accept _ _ _ _ hinit => cases hinit.symm.trans hr
    | initiate _ hrole => cases hrole.symm.trans hr

/-- RUN: an id that has been initiated is not initiated again, so an initiator that is held was held before. -/
theorem exec_initiator {env : Env} {s : Session} (hs : s.WF env) (hacc : s.Accepting) {k : SwapId}
    (hin : s.hasInitiated k = true) (ops : List Op) {c : SwapCoordinator}
    (hc : (s.exec env ops).coordinators.lookup k = some c) (hr : c.role = .initiator) :
    ∃ c₀, s.coordinators.lookup k = some c₀ ∧ c₀.role = .initiator ∧ c.ctx = c₀.ctx := by
  induction ops using List.reverseRecOn generalizing c with
  | nil => exact ⟨c, hc, hr, rfl⟩
  | append_singleton ops op ih =>
    rw [exec_snoc] at hc
    cases step_deal (exec_config_wf hs ops).2 (hacc.exec hs ops) op hc with
    | same hd hdr hx =>
      obtain ⟨c₀, hc₀, hr₀, hx₀⟩ := ih hd (hdr.symm.trans hr)
      exact ⟨c₀, hc₀, hr₀, hx.trans hx₀⟩
    | propose _ _ _ hrole => cases hrole.symm.trans hr
    | accept _ _ _ hd _ hdr hx =>
      obtain ⟨c₀, hc₀, hr₀, hx₀⟩ := ih hd (hdr.symm.trans hr)
      exact ⟨c₀, hc₀, hr₀, hx.trans hx₀⟩
    | initiate hnew => cases (hasInitiated_exec hs hin ops).symm.trans hnew

/-- RUN: a key that an initiator knows of its peer, it knew before, or the run heard it in an `Accept`. -/
theorem exec_peerKey {env : Env} {s : Session} (hs : s.WF env) (hacc : s.Accepting) (ops : List Op) {k : SwapId}
    {c : SwapCoordinator} (hc : (s.exec env ops).coordinators.lookup k = some c) (hr : c.role = .initiator)
    {key : BtcPubkey} (hkey : c.peerBtcPubkey = some key) :
    (∃ c₀, s.coordinators.lookup k = some c₀ ∧ c₀.role = .initiator ∧ c₀.peerBtcPubkey = some key) ∨
      AnsweredIn ops k key := by
  have hsnoc : ∀ {ops op}, AnsweredIn ops k key → AnsweredIn (ops ++ [op]) k key := by
    rintro ops op ⟨payload, head, e, a, hm, h⟩
    exact ⟨payload, head, e, a, List.mem_append_left _ hm, h⟩
  induction ops using List.reverseRecOn generalizing c with
  | nil => exact .inl ⟨c, hc, hr, hkey⟩
  | append_singleton ops op ih =>
    rw [exec_snoc] at hc
    cases step_deal (exec_config_wf hs ops).2 (hacc.exec hs ops) op hc with
    | same hd hdr _ hk => exact (ih hd (hdr.symm.trans hr) (hk.symm.trans hkey)).imp_right hsnoc
    | propose _ _ _ hrole => cases hrole.symm.trans hr
    | @accept payload head e a _ he hid ha _ _ _ _ hk =>
      exact .inr ⟨payload, head, e, a, by simp, he, hid, ha, Option.some.inj (hk.symm.trans hkey)⟩
    | initiate _ _ hk => cases hk.symm.trans hkey

end Session

/-! ### Messages on the wire -/

theorem length_le_of_pushOpt {α : Type} {buf b : Bytes} {ty : UInt8} {field : Option α} {value : α → Bytes}
    (h : pushOpt buf ty field value = .ok b) : ∀ a, field = some a → (value a).length ≤ maxTlvValueLen := by
  rintro a rfl
  simp only [pushOpt, pushTlv] at h
  split_ifs at h with hlong
  exact Nat.not_lt.mp hlong

theorem encodable_of_encodeSwap {e : SwapEnvelope} {b : Bytes} (h : encodeSwap e = .ok b) : e.Encodable := by
  simp only [encodeSwap, Codec.bind_ok_iff] at h
  obtain ⟨b₁, -, b₂, -, b₃, -, b₄, -, b₅, -, b₆, -, b₇, -, b₈, haddr, b₉, -, b₁₀, hwire, -⟩ := h
  exact ⟨length_le_of_pushOpt haddr, length_le_of_pushOpt hwire⟩

/-- An envelope that encodes is read back. -/
theorem decodeSwap_of_encodeSwap {kind : SwapKind} {e : SwapEnvelope} (hreq : e.HasRequired kind) {b : Bytes}
    (h : encodeSwap e = .ok b) : decodeSwap kind b = .ok e := by
  have hrt := decodeSwap_encodeSwap hreq (encodable_of_encodeSwap h)
  rwa [h, Codec.ok_bind] at hrt

theorem mem_pushEnv {mt : MessageType} {e : SwapEnvelope} {m : MessageType × Bytes} (hm : m ∈ Session.pushEnv mt e) :
    m.1 = mt ∧ encodeSwap e = .ok m.2 := by
  unfold Session.pushEnv at hm
  split at hm
  · next b hb =>
    rw [List.mem_singleton.mp hm]
    exact ⟨rfl, hb⟩
  · cases hm

/-- What parses as a proposal has the fields of a `Propose`. -/
theorem SwapProposal.hasRequired {e : SwapEnvelope} {p : SwapProposal} (h : fromEnvelope e = some p) :
    e.HasRequired .propose := by
  simp only [fromEnvelope, Option.bind_eq_bind, Option.bind_eq_some_iff] at h
  obtain ⟨_, h₁, _, h₂, _, h₃, _, h₄, _, h₅, _, h₆, _, h₇, _, h₈, _, h₉, -⟩ := h
  intro req hmem
  simp only [requiredFields, List.mem_cons, List.not_mem_nil, or_false] at hmem
  rcases hmem with rfl | rfl | rfl | rfl | rfl | rfl | rfl | rfl | rfl <;>
    simp [SwapEnvelope.fields, Tlv.types, Tlv.ofField, *]

theorem SwapAcceptance.fromEnvelope_btcPubkey {e : SwapEnvelope} {a : SwapAcceptance} (h : fromEnvelope e = some a) :
    e.btcPubkey = some a.btcPubkey := by
  simp only [fromEnvelope, Option.bind_eq_bind, Option.bind_eq_some_iff] at h
  obtain ⟨_, _, _, _, key, hkey, h⟩ := h
  cases h
  exact hkey

theorem SwapAcceptance.hasRequired (a : SwapAcceptance) : a.toEnvelope.HasRequired .accept := by
  intro req hmem
  simp only [requiredFields, List.mem_cons, List.not_mem_nil, or_false] at hmem
  rcases hmem with rfl | rfl | rfl <;> simp [SwapEnvelope.fields, Tlv.types, Tlv.ofField, toEnvelope]

/-- What answers a `Propose` is the `Accept` of the responder that it leaves behind. -/
theorem Session.mem_onMessage_propose {env : Env} {s : Session} {payload : Bytes} {head : UInt64}
    {out : List (MessageType × Bytes)} (h : (s.onMessage env .propose payload head).1 = .ok out)
    {m : MessageType × Bytes} (hm : m ∈ out) : ∃ e p, decodeSwap .propose payload = .ok e ∧
      SwapProposal.fromEnvelope e = some p ∧ m.1 = .swapAccept ∧
      decodeSwap .accept m.2 = .ok (s.responderContext p head).acceptance.toEnvelope ∧
      (s.onMessage env .propose payload head).2.coordinators.lookup e.swapId = some (s.admitted p head) := by
  cases he : decodeSwap .propose payload with
  | error err =>
    simp only [onMessage, he] at h
    cases h
  | ok e =>
    simp only [onMessage, he, onPropose] at h ⊢
    split_ifs at h ⊢
    · cases h
      cases hm
    · cases h
      cases hm
    · cases hp : SwapProposal.fromEnvelope e with
      | none =>
        simp only [hp] at h
        cases h
      | some p =>
        simp only [hp] at h ⊢
        split_ifs at h ⊢
        · cases h
          cases hm
        · cases h
          cases hm
        · rcases (SwapCoordinator.newResponder (s.responderContext p head) s.ladder).recvPropose_cases
            env.toCrypto e head hp rfl rfl with ⟨-, -, -, hok⟩ | ⟨-, err, herr⟩
          · simp only [hok] at h ⊢
            split at h
            · next b hb =>
              cases h
              rw [List.mem_singleton.mp hm]
              refine ⟨e, p, rfl, hp, rfl, decodeSwap_of_encodeSwap (SwapAcceptance.hasRequired _) hb, ?_⟩
              simp only [log, setCoord, Table.lookup_insert_iff, if_true]
              rfl
            · cases h
          · simp only [herr] at h
            cases h

/-- A message that a handler routes to its session came in a packet of its type. -/
theorem Worker.packet_of_mem_calls {env : Env} {w : Worker} {o : WorkerOp} {kind : SwapKind} {payload : Bytes}
    {head : UInt64} (h : .message kind payload head ∈ w.calls env o) :
    ∃ mt sender, o = .packet mt sender payload ∧ SwapKind.fromMessageType mt = some kind := by
  by_cases hp : ∃ mt sender payload, o = .packet mt sender payload
  · obtain ⟨mt, sender, payload', rfl⟩ := hp
    rw [calls, routes] at h
    split_ifs at h
    · cases h
    · cases hk : SwapKind.fromMessageType mt with
      | none =>
        rw [hk] at h
        cases h
      | some kind' =>
        rw [hk] at h
        dsimp only at h
        split_ifs at h
        · cases h
        · rcases List.mem_cons.mp h with h | h
          · cases h
            exact ⟨mt, sender, rfl, hk⟩
          · rcases List.mem_cons.mp h with h | h
            · cases h
            · split at h
              · obtain ⟨_, _, h⟩ := mem_recordCalls h
                cases h
              · cases h
  · exact (innerCall_calls (fun mt sender payload h => hp ⟨mt, sender, payload, h⟩) _ h).elim

/-! ### The net -/

namespace Net

/-- The node has initiated the swap. -/
def HasInitiated (k : SwapId) (n : Net) (r : SwapRole) : Prop := (n.worker r).session.hasInitiated k = true

/-- The node holds a coordinator of the swap, in this role. -/
def Holds (k : SwapId) (n : Net) (r : SwapRole) (role : SwapRole) (c : SwapCoordinator) : Prop :=
  (n.worker r).session.coordinators.lookup k = some c ∧ c.role = role

/-- A `Propose` of the swap comes from a node that has initiated it, and tells the context of the initiator that this
    node still holds, if it does. -/
def GenuinePropose (k : SwapId) (n : Net) (m : MessageType × Bytes) : Prop :=
  m.1 = .swapPropose → ∀ e, decodeSwap .propose m.2 = .ok e → e.swapId = k → ∃ i, n.HasInitiated k i ∧
    ∀ c, n.Holds k i .initiator c → SwapProposal.fromEnvelope e = some c.ctx.proposal

/-- An `Accept` of the swap tells the key of the node it comes from: this node has initiated the swap and given it up,
    or another one has initiated it. -/
def GenuineAccept (k : SwapId) (n : Net) (m : MessageType × Bytes) : Prop :=
  m.1 = .swapAccept → ∀ e, decodeSwap .accept m.2 = .ok e → e.swapId = k → ∃ r,
    e.btcPubkey = some (n.worker r).session.identity.btcPubkey ∧
    ((n.HasInitiated k r ∧ ∀ c, ¬ n.Holds k r .initiator c) ∨ ∃ i, i ≠ r ∧ n.HasInitiated k i)

def Genuine (k : SwapId) (n : Net) (m : MessageType × Bytes) : Prop := n.GenuinePropose k m ∧ n.GenuineAccept k m

/-- A responder has its deal from a `Propose` in circulation, and its own key. -/
def Dealt (k : SwapId) (n : Net) (r : SwapRole) (c : SwapCoordinator) : Prop :=
  c.ctx.btcPubkey = (n.worker r).session.identity.btcPubkey ∧ ∃ payload e p, (.swapPropose, payload) ∈ n.sent ∧
    decodeSwap .propose payload = .ok e ∧ e.swapId = k ∧ SwapProposal.fromEnvelope e = some p ∧ c.ctx.Deals p ∧
    c.peerBtcPubkey = some p.btcPubkey

/-- A peer key of an initiator comes from an `Accept` in circulation. -/
def Answered (k : SwapId) (n : Net) (key : BtcPubkey) : Prop :=
  ∃ payload e, (.swapAccept, payload) ∈ n.sent ∧ decodeSwap .accept payload = .ok e ∧ e.swapId = k ∧
    e.btcPubkey = some key

/-- What holds of a swap in every net that is reached. -/
structure Agreed (E : NetEnv) (k : SwapId) (n : Net) : Prop where
  wf : ∀ r, (n.worker r).session.WF (E.at r)
  accepting : ∀ r, (n.worker r).session.Accepting
  sent : ∀ m ∈ n.sent, n.Genuine k m
  stored : ∀ r, (n.worker r).session.Stores (n.Genuine k)
  dealt : ∀ r c, n.Holds k r .responder c → n.Dealt k r c
  answered : ∀ r c key, n.Holds k r .initiator c → c.peerBtcPubkey = some key → n.Answered k key

section
variable {E : NetEnv} {k : SwapId} {n : Net} {op : NetOp}

theorem step_identity (E : NetEnv) (n : Net) (op : NetOp) (r : SwapRole) :
    ((n.step E op).worker r).session.identity = (n.worker r).session.identity := by
  rcases n.step_worker E op r with hw | ⟨o, -, -, hw⟩
  · rw [hw]
  · rw [hw, Worker.step_session, Session.exec_identity]

theorem HasInitiated.step (hw : ∀ r, (n.worker r).session.WF (E.at r)) {r : SwapRole} (h : n.HasInitiated k r) :
    (n.step E op).HasInitiated k r := by
  unfold HasInitiated
  rcases n.step_worker E op r with he | ⟨o, -, -, he⟩
  · rw [he]
    exact h
  · rw [he, Worker.step_session]
    exact Session.hasInitiated_exec (hw r) h _

/-- An initiator that is held after the swap has been initiated was held before. -/
theorem holds_initiator_of_step (hi : n.Agreed E k) {r : SwapRole} (hin : n.HasInitiated k r) {c : SwapCoordinator}
    (hc : (n.step E op).Holds k r .initiator c) : ∃ c₀, n.Holds k r .initiator c₀ ∧ c.ctx = c₀.ctx := by
  obtain ⟨hc, hr⟩ := hc
  rcases n.step_worker E op r with he | ⟨o, -, -, he⟩
  · rw [he] at hc
    exact ⟨c, ⟨hc, hr⟩, rfl⟩
  · rw [he, Worker.step_session] at hc
    obtain ⟨c₀, hc₀, hr₀, hx⟩ := Session.exec_initiator (hi.wf r) (hi.accepting r) hin _ hc hr
    exact ⟨c₀, ⟨hc₀, hr₀⟩, hx⟩

/-- A genuine message stays genuine. -/
theorem Genuine.step (hi : n.Agreed E k) {m : MessageType × Bytes} (h : n.Genuine k m) :
    (n.step E op).Genuine k m := by
  refine ⟨fun hm e he hid => ?_, fun hm e he hid => ?_⟩
  · obtain ⟨i, hin, hall⟩ := h.1 hm e he hid
    refine ⟨i, hin.step hi.wf, fun c hc => ?_⟩
    obtain ⟨c₀, hc₀, hx⟩ := holds_initiator_of_step hi hin hc
    rw [hx]
    exact hall c₀ hc₀
  · obtain ⟨r, hkey, hor⟩ := h.2 hm e he hid
    refine ⟨r, (step_identity E n op r).symm ▸ hkey, hor.imp ?_ ?_⟩
    · rintro ⟨hin, hnone⟩
      refine ⟨hin.step hi.wf, fun c hc => ?_⟩
      obtain ⟨c₀, hc₀, -⟩ := holds_initiator_of_step hi hin hc
      exact hnone c₀ hc₀
    · rintro ⟨i, hne, hin⟩
      exact ⟨i, hne, hin.step hi.wf⟩

theorem mem_sent_of_packet {mt : MessageType} {sender : PeerId} {payload : Bytes}
    (h : n.workerOp op = some (.packet mt sender payload)) : (mt, payload) ∈ n.sent := by
  cases op with
  | deliver node i from_ =>
    obtain ⟨m, hm, heq⟩ := Option.map_eq_some_iff.mp h
    cases heq
    exact List.mem_of_getElem? hm
  | _ => cases h

theorem worker_step_node {o : WorkerOp} (ho : n.workerOp op = some o) :
    (n.step E op).worker op.node = (n.worker op.node).step (E.at op.node) o := by
  rw [step, ho]
  exact Function.update_self _ _ _

theorem mem_sent_step {m : MessageType × Bytes} (h : m ∈ n.sent) : m ∈ (n.step E op).sent := by
  unfold step
  split
  · exact List.mem_append_left _ h
  · exact h

/-- What answers a genuine `Propose` is genuine. -/
theorem Agreed.accept (hi : n.Agreed E k) {sender : PeerId} {payload : Bytes} {out : List (MessageType × Bytes)}
    (hop : n.workerOp op = some (.packet .swapPropose sender payload))
    (hout : ((n.worker op.node).session.onMessage (E.at op.node) .propose payload (n.worker op.node).head).1 = .ok out)
    {calls : List Op} (hcalls : ((n.step E op).worker op.node).session =
      ((n.worker op.node).session.onMessage (E.at op.node) .propose payload (n.worker op.node).head).2.exec
        (E.at op.node) calls) {m : MessageType × Bytes} (hm : m ∈ out) : (n.step E op).Genuine k m := by
  obtain ⟨e, p, hdec, hp, hty, hacc, hheld⟩ := Session.mem_onMessage_propose hout hm
  refine ⟨fun hm => absurd (hty.symm.trans hm) (by decide), fun _ e' he' hid => ?_⟩
  cases hacc.symm.trans he'
  have hid' : e.swapId = k := (SwapProposal.fromEnvelope_swapId hp).symm.trans hid
  refine ⟨op.node, (step_identity E n op op.node).symm ▸ rfl, ?_⟩
  obtain ⟨i, hin, -⟩ := (hi.sent _ (mem_sent_of_packet hop)).1 rfl e hdec hid'
  by_cases hne : i = op.node
  · subst hne
    refine .inl ⟨hin.step hi.wf, fun c hc => ?_⟩
    obtain ⟨hc, hr⟩ := hc
    rw [hcalls] at hc
    have hstep : ∀ s : Session, (s.onMessage (E.at op.node) .propose payload (n.worker op.node).head).2 =
      s.exec (E.at op.node) [.message .propose payload (n.worker op.node).head] := fun _ => rfl
    have hwf := (Session.exec_config_wf (hi.wf op.node) [.message .propose payload (n.worker op.node).head]).2
    have haccepting := (hi.accepting op.node).exec (hi.wf op.node) [.message .propose payload (n.worker op.node).head]
    have hin' := Session.hasInitiated_exec (hi.wf op.node) hin [.message .propose payload (n.worker op.node).head]
    obtain ⟨c₀, hc₀, hr₀, -⟩ := Session.exec_initiator hwf haccepting hin' calls hc hr
    cases (hid' ▸ hheld).symm.trans hc₀
    cases hr₀
  · exact .inr ⟨i, hne, hin.step hi.wf⟩

/-- What a node proposes is genuine. -/
theorem Agreed.propose {id : SwapId} {s : Session} (hop : n.workerOp op = some .gcTick)
    (hs : (n.worker op.node).Initiates (E.at op.node) id s) {m : MessageType × Bytes}
    (hm : m ∈ (s.initiateFromIntent (E.at op.node) id (n.worker op.node).head).1) : (n.step E op).Genuine k m := by
  have hrecord : ∀ (s : Session) (id : SwapId) (replies : List (MessageType × Bytes)),
      (s.recordLast id replies).coordinators = s.coordinators ∧
        (s.recordLast id replies).initiatedEver = s.initiatedEver := by
    intro s id replies
    unfold Session.recordLast
    split
    · exact ⟨rfl, rfl⟩
    · exact ⟨rfl, rfl⟩
  rcases Session.initiateFromIntent_cases (E.at op.node) s id (n.worker op.node).head with ⟨c, e, hnew, heq⟩ | heq
  · obtain ⟨-, -, -, hid, hp⟩ := hnew
    have hsession : ((n.step E op).worker op.node).session =
        (s.addInitiator id c).recordLast id (Session.pushEnv .swapPropose e) := by
      rw [worker_step_node hop]
      refine hs.2.trans ?_
      rw [heq]
    rw [heq] at hm
    obtain ⟨hty, henc⟩ := mem_pushEnv hm
    refine ⟨fun _ e' he' hk => ?_, fun hm => absurd (hty.symm.trans hm) (by decide)⟩
    cases (decodeSwap_of_encodeSwap (SwapProposal.hasRequired hp) henc).symm.trans he'
    have hk : id = k := hid.symm.trans ((SwapProposal.fromEnvelope_swapId hp).trans hk)
    subst hk
    refine ⟨op.node, ?_, fun d hd => ?_⟩
    · rw [HasInitiated, Session.hasInitiated, hsession, (hrecord _ _ _).2]
      simp [Session.addInitiator, Session.setCoord, Session.log]
    · have hd := hd.1
      rw [hsession, (hrecord _ _ _).1] at hd
      simp only [Session.addInitiator, Session.setCoord, Session.log, Table.lookup_insert_iff, if_true] at hd
      cases hd
      exact hp
  · rw [heq] at hm
    cases hm

/-- STEP: what circulates after a step is genuine. -/
theorem Agreed.circulates (hi : n.Agreed E k) (op : NetOp) : (∀ m ∈ (n.step E op).sent, (n.step E op).Genuine k m) ∧
    ∀ r, ((n.step E op).worker r).session.Stores ((n.step E op).Genuine k) := by
  have hstored : ∀ r, (n.worker r).session.Stores ((n.step E op).Genuine k) :=
    fun r id a ha => (hi.stored r id a ha).step hi
  have hsent : ∀ m ∈ n.sent, (n.step E op).Genuine k m := fun m hm => (hi.sent m hm).step hi
  cases ho : n.workerOp op with
  | none =>
    have hstep : n.step E op = n := by rw [step, ho]
    rw [hstep] at hsent hstored ⊢
    exact ⟨hsent, hstored⟩
  | some o =>
    have hstep : n.step E op = n.act E op.node o := by rw [step, ho]
    have hdriven : ∀ m : MessageType × Bytes, Driven m.1 → (n.step E op).Genuine k m := by
      rintro ⟨mt, payload⟩ hm
      refine ⟨fun h => ?_, fun h => ?_⟩
      · subst h
        rcases hm with hm | hm | hm <;> cases hm
      · subst h
        rcases hm with hm | hm | hm <;> cases hm
    have hself := worker_step_node (E := E) ho
    obtain ⟨hfloods, hkept⟩ := Worker.step_circulates hdriven (hstored op.node) (E.at op.node) o
      (fun sender payload out heq hout hcalls m hm => by
        obtain ⟨calls, hcalls⟩ := hcalls
        exact hi.accept (heq ▸ ho) hout (hself ▸ hcalls) hm)
      (fun id s heq hs m hm => Agreed.propose (heq ▸ ho) hs hm)
    refine ⟨fun m hm => ?_, fun r => ?_⟩
    · rw [hstep] at hm
      rcases List.mem_append.mp hm with hm | hm
      · exact hsent m hm
      · exact hfloods m hm
    · by_cases hr : r = op.node
      · subst hr
        rw [hself]
        exact hkept
      · have hother : (n.step E op).worker r = n.worker r := by
          rw [hstep, act]
          exact Function.update_of_ne hr _ _
        rw [hother]
        exact hstored r

theorem Dealt.step {r : SwapRole} {c : SwapCoordinator} (h : n.Dealt k r c) : (n.step E op).Dealt k r c := by
  obtain ⟨hkey, payload, e, p, hm, h⟩ := h
  exact ⟨hkey.trans (congrArg _ (step_identity E n op r).symm), payload, e, p, mem_sent_step hm, h⟩

theorem Answered.step {key : BtcPubkey} (h : n.Answered k key) : (n.step E op).Answered k key := by
  obtain ⟨payload, e, hm, h⟩ := h
  exact ⟨payload, e, mem_sent_step hm, h⟩

theorem dealt_of_eq {r : SwapRole} {c c₀ : SwapCoordinator} (h : n.Dealt k r c₀) (hctx : c.ctx = c₀.ctx)
    (hkey : c.peerBtcPubkey = c₀.peerBtcPubkey) : n.Dealt k r c := by
  unfold Dealt
  rw [hctx, hkey]
  exact h

/-- STEP: whatever happens, what holds of the swap goes on to hold. -/
theorem Agreed.step (hi : n.Agreed E k) (op : NetOp) : (n.step E op).Agreed E k := by
  obtain ⟨hsent, hstored⟩ := hi.circulates op
  refine ⟨fun r => (step_config_wf (hi.wf r) op).2, fun r => ?_, hsent, hstored, fun r c hc => ?_,
    fun r c key hc hkey => ?_⟩
  · rcases n.step_worker E op r with he | ⟨o, -, -, he⟩
    · rw [he]
      exact hi.accepting r
    · rw [he, Worker.step_session]
      exact (hi.accepting r).exec (hi.wf r) _
  · obtain ⟨hc, hr⟩ := hc
    rcases n.step_worker E op r with he | ⟨o, ho, hnode, he⟩
    · rw [he] at hc
      exact (hi.dealt r c ⟨hc, hr⟩).step
    · rw [he, Worker.step_session] at hc
      rcases Session.exec_deal (hi.wf r) (hi.accepting r) _ hc hr with ⟨c₀, hc₀, hr₀, hctx, hkey⟩ |
          ⟨payload, head, e, p, hm, hdec, hid, hp, hctx, hkey⟩
      · exact dealt_of_eq (hi.dealt r c₀ ⟨hc₀, hr₀⟩).step hctx hkey
      · obtain ⟨mt, sender, rfl, hkind⟩ := Worker.packet_of_mem_calls hm
        obtain rfl := SwapKind.fromMessageType_propose hkind
        refine ⟨?_, payload, e, p, mem_sent_step (mem_sent_of_packet ho), hdec, hid, hp, ?_, hkey⟩
        · rw [step_identity, hctx]
          rfl
        · rw [hctx]
          exact ⟨rfl, rfl, rfl, rfl, rfl, rfl⟩
  · obtain ⟨hc, hr⟩ := hc
    rcases n.step_worker E op r with he | ⟨o, ho, hnode, he⟩
    · rw [he] at hc
      exact (hi.answered r c key ⟨hc, hr⟩ hkey).step
    · rw [he, Worker.step_session] at hc
      rcases Session.exec_peerKey (hi.wf r) (hi.accepting r) _ hc hr hkey with ⟨c₀, hc₀, hr₀, hkey₀⟩ |
          ⟨payload, head, e, a, hm, hdec, hid, ha, rfl⟩
      · exact (hi.answered r c₀ key ⟨hc₀, hr₀⟩ hkey₀).step
      · obtain ⟨mt, sender, rfl, hkind⟩ := Worker.packet_of_mem_calls hm
        obtain rfl := SwapKind.fromMessageType_accept hkind
        exact ⟨payload, e, mem_sent_step (mem_sent_of_packet ho), hdec, hid, SwapAcceptance.fromEnvelope_btcPubkey ha⟩

/-- Nothing was said of the swap yet. -/
def Unheard (k : SwapId) (n : Net) : Prop :=
  ∀ m ∈ n.sent, ∀ kind e, SwapKind.fromMessageType m.1 = some kind → decodeSwap kind m.2 = .ok e → e.swapId ≠ k

theorem agreed_of_fresh (E : NetEnv) {n : Net} (h : n.Fresh) (hnew : n.Unheard k) : n.Agreed E k where
  wf := fun r => (h r).wf _
  accepting := fun r k c hc => by
    rw [(h r).coordinators] at hc
    cases hc
  sent := by
    intro m hm
    refine ⟨fun hty e he hid => absurd hid (hnew m hm .propose e (hty ▸ rfl) he), fun hty e he hid => ?_⟩
    exact absurd hid (hnew m hm .accept e (hty ▸ rfl) he)
  stored := fun r id a ha => by
    rw [(h r).pending] at ha
    cases ha
  dealt := fun r c hc => by
    have hc := hc.1
    rw [(h r).coordinators] at hc
    cases hc
  answered := fun r c key hc => by
    have hc := hc.1
    rw [(h r).coordinators] at hc
    cases hc

/-- RUN: in every net that is reached from fresh nodes, whatever messages were lost, delayed, repeated or reordered: if
    one node holds a swap as its initiator and another as its responder, which has not initiated it itself, then the
    responder has the deal that the initiator proposed, and each has the other's key, the initiator if it has one. -/
theorem sides_agree (E : NetEnv) (n₀ : Net) (h₀ : n₀.Fresh) (k : SwapId) (hnew : n₀.Unheard k) (ops : List NetOp)
    {i r : SwapRole} {c d : SwapCoordinator} (hc : (n₀.exec E ops).Holds k i .initiator c)
    (hd : (n₀.exec E ops).Holds k r .responder d) (hown : ¬ (n₀.exec E ops).HasInitiated k r) :
    d.ctx.Deals c.ctx.proposal ∧ d.peerBtcPubkey = some c.ctx.btcPubkey ∧
      ∀ key, c.peerBtcPubkey = some key → key = d.ctx.btcPubkey := by
  have hi : (n₀.exec E ops).Agreed E k :=
    Run.exec_preserves (step E) (fun _ op hi => hi.step op) ops n₀ (agreed_of_fresh E h₀ hnew)
  generalize n₀.exec E ops = n at hc hd hown hi
  have hir : i ≠ r := by
    rintro rfl
    cases hc.1.symm.trans hd.1
    cases hc.2.symm.trans hd.2
  have hpeer_of_ne : ∀ j, j ≠ r → j = i := by
    intro j hj
    cases i <;> cases r <;> cases j <;> first | rfl | exact absurd rfl hj | exact absurd rfl hir
  have hinitiator : ∀ j, n.HasInitiated k j → j = i := by
    intro j hj
    refine hpeer_of_ne j ?_
    rintro rfl
    exact hown hj
  obtain ⟨hkey, payload, e, p, hm, hdec, hid, hp, hdeal, hpeer⟩ := hi.dealt r d hd
  obtain ⟨j, hj, hall⟩ := (hi.sent _ hm).1 rfl e hdec hid
  obtain rfl := hinitiator j hj
  obtain rfl : p = c.ctx.proposal := Option.some.inj (hp.symm.trans (hall c hc))
  refine ⟨hdeal, hpeer, fun key hk => ?_⟩
  obtain ⟨payload', e', hm', hdec', hid', hkey'⟩ := hi.answered j c key hc hk
  obtain ⟨x, hx, hor⟩ := (hi.sent _ hm').2 rfl e' hdec' hid'
  -- the initiator holds the swap, so the `Accept` is not its own
  have hxr : x = r := by
    by_contra hne
    obtain rfl := hpeer_of_ne x hne
    rcases hor with ⟨-, hnone⟩ | ⟨y, hy, hin⟩
    · exact hnone c hc
    · exact hy (hinitiator y hin)
  subst hxr
  exact (Option.some.inj (hkey'.symm.trans hx)).trans hkey.symm

end

end Net

open Sample in
/-- The two sample nodes after the claim: each of them knows the other's key, and they have one deal. -/
theorem sample_sides_agree : ∃ c d,
    (net.exec netEnv netRun).Holds Sample.swapId .initiator .initiator c ∧ c.peerBtcPubkey.isSome = true ∧
    (net.exec netEnv netRun).Holds Sample.swapId .responder .responder d ∧ d.ctx.Deals c.ctx.proposal ∧
    d.peerBtcPubkey = some c.ctx.btcPubkey ∧ ∀ key, c.peerBtcPubkey = some key → key = d.ctx.btcPubkey := by
  have hheld : (((net.exec netEnv netRun).worker .initiator).session.coordinators.lookup Sample.swapId).any
        (fun c => decide (c.role = .initiator ∧ c.peerBtcPubkey.isSome = true)) = true ∧
      (((net.exec netEnv netRun).worker .responder).session.coordinators.lookup Sample.swapId).any
        (fun c => decide (c.role = .responder)) = true ∧
      ((net.exec netEnv netRun).worker .responder).session.hasInitiated Sample.swapId = false := by
    decide +kernel
  obtain ⟨hinit, hresp, hown⟩ := hheld
  obtain ⟨c, hc, hci⟩ := (Option.any_eq_true _ _).mp hinit
  obtain ⟨d, hd, hdr⟩ := (Option.any_eq_true _ _).mp hresp
  obtain ⟨hci, hkey⟩ := of_decide_eq_true hci
  have hunheard : net.Unheard Sample.swapId := by
    intro m hm kind e hkind
    obtain rfl := List.mem_singleton.mp hm
    cases hkind
  have hagree := Net.sides_agree netEnv net net_fresh Sample.swapId hunheard netRun ⟨hc, hci⟩
    ⟨hd, of_decide_eq_true hdr⟩ (by rw [Net.HasInitiated, hown]; decide)
  exact ⟨c, d, ⟨hc, hci⟩, hkey, ⟨hd, of_decide_eq_true hdr⟩, hagree⟩

end Nimmesh
