import Nimmesh.Lib.Run
import Nimmesh.Swap.Refine

/-! @src swap_session.rs swap_node.rs swap_claim.rs | name:Runs of a session | layer:refinement

    The driver refines the slot automaton too, and the calls a worker makes on its session are the
    inputs of one step function. A run is any sequence of them with any payloads, heads and answers of
    the environment; `gcTick`, `fastTick` and `handleSwapPacket` are such sequences. -/

namespace Nimmesh

namespace Session

/-! ### The driver -/

variable {n : Option UInt64}

/-- The events a chain action of `id` at `head` can add: the signer is asked to fund a fundable
    coordinator, or to claim, and the event carries its answer. -/
def DriveEmits (env : Env) (s : Session) (id : SwapId) (head : UInt64) : Event → Prop
  | .builtFunding id' role ctx head' answer => id' = id ∧ head' = head ∧
      (∃ tr leg, answer = env.buildFunding tr ctx leg) ∧
      ∃ c, s.coordinators.lookup id = some c ∧ c.swap.fundable ∧ c.role = role ∧ c.ctx = ctx
  | .builtClaim id' _ ctx secret head' answer => id' = id ∧ head' = head ∧
      ∃ tr, answer = env.buildClaim tr ctx secret
  | ev => Quiet env ev

theorem driveEmits_of_quiet {env : Env} {s : Session} {id : SwapId} {head : UInt64} (ev : Event)
    (h : Quiet env ev) : DriveEmits env s id head ev := by
  cases ev <;> first | exact h | exact h.elim

theorem driveFund_moves {env : Env} {s : Session} {id : SwapId} {c : SwapCoordinator} {head : UInt64}
    {leg : SwapLegId} (hc : s.coordinators.lookup id = some c) (hf : c.swap.fundable) :
    Moves env n (DriveEmits env s id head) s (s.driveFund env id c head leg).2 := by
  unfold driveFund
  have hemit : DriveEmits env s id head
      (.builtFunding id c.role c.ctx head (env.buildFunding s.trace c.ctx leg)) :=
    ⟨rfl, rfl, ⟨s.trace, leg, rfl⟩, c, hc, hf, rfl, rfl⟩
  cases ha : env.buildFunding s.trace c.ctx leg with
  | none =>
    rw [ha] at hemit
    refine moves_log hemit ?_
    rw [Event.swapId, slot_eq_of_lookup hc]
    exact .fundRefused hf (.inl rfl)
  | some tx =>
    obtain ⟨wire, txId⟩ := tx
    rw [ha] at hemit
    rcases c.fund_cases head wire txId with ⟨-, hs, he⟩ | ⟨hn, e, he⟩
    · simp only [he]
      refine moves_setCoord_log (e := .builtFunding id c.role c.ctx head (some (wire, txId))) rfl
        hemit ?_
      rw [slot_eq_of_lookup hc]
      exact .fund hf hs
    · simp only [he]
      refine moves_setCoord_log (e := .builtFunding id c.role c.ctx head (some (wire, txId))) rfl
        hemit ?_
      rw [slot_eq_of_lookup hc]
      exact .fundRefused hf (.inr (hn.resolve_left (not_not.mpr hf)))

/-- The driver at `(Initiator, BothFunded)`: too late or no secret, refused by the signer, or revealed
    and settled. The machine's own deadline gate never fires: the driver has passed it already. -/
theorem driveReveal_cases {env : Env} {s : Session} {id : SwapId} {c : SwapCoordinator} {head : UInt64}
    (ht : c.swap.terms = c.ctx.terms) (hr : c.role = .initiator) (hp : c.phase = .bothFunded) :
    s.driveReveal env id c head = ([], s) ∨
    (∃ secret, c.secret = some secret ∧ c.revealDeadlineOk head = true ∧
      env.buildClaim s.trace c.ctx secret = none ∧
      s.driveReveal env id c head = ([], s.log (.builtClaim id c.role c.ctx secret head none))) ∨
    ∃ secret wire txId, c.secret = some secret ∧ c.revealDeadlineOk head = true ∧
      env.buildClaim s.trace c.ctx secret = some (wire, txId) ∧
      s.driveReveal env id c head =
        (pushEnv .swapPreimageReveal (txEnvelope c.ctx.swapId .counterparty wire txId),
          (s.setCoord id (c.withPhase .settled)).log
            (.builtClaim id c.role c.ctx secret head (some (wire, txId)))) := by
  unfold driveReveal
  cases hd : c.revealDeadlineOk head with
  | false => exact .inl rfl
  | true =>
    simp only [Bool.not_true, Bool.false_eq_true, if_false]
    cases hk : c.secret with
    | none => exact .inl rfl
    | some secret =>
      dsimp only
      cases ha : env.buildClaim s.trace c.ctx secret with
      | none => exact .inr (.inl ⟨secret, rfl, trivial, ha, rfl⟩)
      | some tx =>
        obtain ⟨wire, txId⟩ := tx
        refine .inr (.inr ⟨secret, wire, txId, rfl, trivial, ha, ?_⟩)
        rcases c.claimAndReveal_cases head wire txId with ⟨-, -, -, he⟩ | ⟨hn, -⟩
        · have hsettle : (c.withPhase .revealed).settle.2 = c.withPhase .settled := by
            rcases (c.withPhase .revealed).settle_cases with ⟨-, hs⟩ | ⟨hne, -⟩
            · rw [hs]; rfl
            · exact absurd rfl hne
          simp only [he, hsettle]
          rfl
        · exfalso
          rcases hn with hn | hn
          · exact hn ⟨hr, hp⟩
          · rw [ht] at hn
            exact Bool.false_ne_true (hn.symm.trans hd)

theorem driveReveal_moves {env : Env} {s : Session} {id : SwapId} {c : SwapCoordinator} {head : UInt64}
    (hc : s.coordinators.lookup id = some c) (hw : WellFormed (s.config env) id c)
    (hr : c.role = .initiator) (hp : c.phase = .bothFunded) :
    Moves env n (DriveEmits env s id head) s (s.driveReveal env id c head).2 := by
  rcases driveReveal_cases hw.terms hr hp with he | ⟨secret, hk, hd, ha, he⟩ |
    ⟨secret, wire, txId, hk, hd, ha, he⟩
  · rw [he]; exact .refl _
  · rw [he]
    refine moves_log ⟨rfl, rfl, s.trace, ha.symm⟩ ?_
    rw [Event.swapId, slot_eq_of_lookup hc]
    exact .revealRefused hr hp hd hk
  · rw [he]
    refine moves_setCoord_log rfl ⟨rfl, rfl, s.trace, ha.symm⟩ ?_
    rw [slot_eq_of_lookup hc]
    exact .reveal hr hp hd hk

theorem broadcastClaim_moves {env : Env} {s : Session} {id : SwapId} {c : SwapCoordinator}
    {head : UInt64} (hc : s.coordinators.lookup id = some c) (hr : c.role = .responder)
    (hp : c.phase = .revealed) :
    Moves env n (DriveEmits env s id head) s (s.broadcastClaim env id c head) := by
  unfold broadcastClaim
  cases hb : c.claimBroadcast with
  | some txId => exact .refl _
  | none =>
    cases hk : c.secret with
    | none => exact .refl _
    | some secret =>
      dsimp only
      cases ha : env.buildClaim s.trace c.ctx secret with
      | none =>
        refine moves_log ⟨rfl, rfl, s.trace, ha.symm⟩ ?_
        rw [Event.swapId, slot_eq_of_lookup hc]
        have hsame : { c with claimTx := none } = c := by rw [← (show c.claimTx = none from hb)]
        have hstep : SlotStep (s.config env) n id ⟨some c, (s.slot id).tombstone, (s.slot id).hist⟩
            ⟨some { c with claimTx := none }, (s.slot id).tombstone,
              .builtClaim id c.role c.ctx secret head none :: (s.slot id).hist⟩ :=
          .claim none hr hp hb hk
        rw [hsame] at hstep
        exact hstep
      | some tx =>
        refine moves_setCoord_log (e := .builtClaim id c.role c.ctx secret head (some tx))
          rfl ⟨rfl, rfl, s.trace, ha.symm⟩ ?_
        rw [slot_eq_of_lookup hc]
        exact .claim (some tx) hr hp hb hk

/-- A chain action moves every slot by steps of the automaton. -/
theorem drivePhaseAction_moves {env : Env} {s : Session} (hs : s.WF env) (id : SwapId)
    (head : UInt64) : Moves env n (DriveEmits env s id head) s (s.drivePhaseAction env id head).2 := by
  unfold drivePhaseAction
  cases hc : s.coordinators.lookup id with
  | none => exact .refl _
  | some c =>
    dsimp only
    split
    case h_1 hr hp => exact driveFund_moves hc (.inl ⟨hr, hp⟩)
    case h_2 hr hp => exact driveFund_moves hc (.inr ⟨hr, hp⟩)
    case h_3 hr hp => exact driveReveal_moves hc (hs id c hc) hr hp
    case h_4 hr hp =>
      exact (broadcastClaim_moves hc hr hp).trans
        ((confirmClaim_moves env _ id).mono driveEmits_of_quiet)
    case h_5 => exact .refl _

/-- The peer addressing a message carries: a complete `Propose` or `Accept` has one. -/
def carriedPeer (kind : SwapKind) (e : SwapEnvelope) : Option (NimAddress × Bytes) :=
  match kind with
  | .propose => (SwapProposal.fromEnvelope e).map fun p => (p.nimAddress, p.btcAddress)
  | .accept => (SwapAcceptance.fromEnvelope e).map fun a => (a.nimAddress, a.btcAddress)
  | _ => none

/-- The events a driven message can add: the peer addressing it carries, for a swap that is held, and
    those of the chain action. -/
def DriveSwapEmits (env : Env) (s : Session) (kind : SwapKind) (e : SwapEnvelope) (head : UInt64) :
    Event → Prop
  | .notedPeer id peer => id = e.swapId ∧ id ∈ s.coordinators ∧ carriedPeer kind e = some peer
  | ev => DriveEmits env s e.swapId head ev

/-- The addressing a message carries is noted if the swap is held; nothing else happens. -/
theorem notePeer_cases (s : Session) (kind : SwapKind) (e : SwapEnvelope) :
    (∃ peer, carriedPeer kind e = some peer ∧ e.swapId ∈ s.coordinators ∧
      s.notePeer kind e = s.log (.notedPeer e.swapId peer)) ∨
    ((carriedPeer kind e = none ∨ e.swapId ∉ s.coordinators) ∧ s.notePeer kind e = s) := by
  unfold notePeer
  by_cases hmem : e.swapId ∈ s.coordinators
  · rw [if_pos hmem]
    cases kind with
    | propose =>
      cases hp : SwapProposal.fromEnvelope e with
      | none => exact .inr ⟨.inl (by simp [carriedPeer, hp]), rfl⟩
      | some p => exact .inl ⟨_, by simp [carriedPeer, hp], hmem, rfl⟩
    | accept =>
      cases ha : SwapAcceptance.fromEnvelope e with
      | none => exact .inr ⟨.inl (by simp [carriedPeer, ha]), rfl⟩
      | some a => exact .inl ⟨_, by simp [carriedPeer, ha], hmem, rfl⟩
    | _ => exact .inr ⟨.inl rfl, rfl⟩
  · rw [if_neg hmem]
    exact .inr ⟨.inr hmem, rfl⟩

theorem notePeer_coordinators (s : Session) (kind : SwapKind) (e : SwapEnvelope) :
    (s.notePeer kind e).coordinators = s.coordinators := by
  rcases notePeer_cases s kind e with ⟨peer, -, -, he⟩ | ⟨-, he⟩
  · rw [he]
    rfl
  · rw [he]

theorem notePeer_moves (env : Env) (s : Session) (kind : SwapKind) (e : SwapEnvelope) (head : UInt64) :
    Moves env n (DriveSwapEmits env s kind e head) s (s.notePeer kind e) := by
  rcases notePeer_cases s kind e with ⟨peer, hp, hmem, he⟩ | ⟨-, he⟩
  · obtain ⟨c, hc⟩ := (Table.mem_iff_lookup _ _).mp hmem
    rw [he]
    refine moves_log ⟨rfl, hmem, hp⟩ ?_
    rw [Event.swapId, slot_eq_of_lookup hc]
    exact .notePeer _
  · rw [he]
    exact .refl _

theorem learnSecret_moves (env : Env) {P : Event → Prop} (s : Session) (kind : SwapKind)
    (e : SwapEnvelope) : Moves env n P s (s.learnSecret env kind e) := by
  unfold learnSecret
  split
  · split
    case h_1 secret c hsec hc =>
      refine moves_setCoord ?_
      rw [slot_eq_of_lookup hc]
      rcases c.recvReveal_cases env.toCrypto secret with ⟨hr, hp, ho, he⟩ | ⟨-, err, he⟩
      · rw [he]; exact .single (.learnSecret hr hp ho)
      · rw [he]
    case h_2 => exact .refl _
  · exact .refl _

theorem learnSecret_trace (env : Env) (s : Session) (kind : SwapKind) (e : SwapEnvelope) :
    (s.learnSecret env kind e).trace = s.trace := by
  unfold learnSecret
  split
  · split <;> rfl
  · rfl

/-- What noting a peer adds to the trace. -/
theorem notePeer_trace (s : Session) (kind : SwapKind) (e : SwapEnvelope) :
    ∃ noted, (s.notePeer kind e).trace = noted ++ s.trace ∧
      ∀ ev ∈ noted, ∃ peer, ev = .notedPeer e.swapId peer := by
  rcases notePeer_cases s kind e with ⟨peer, -, -, he⟩ | ⟨-, he⟩
  · refine ⟨[.notedPeer e.swapId peer], by rw [he]; rfl, fun ev hev => ?_⟩
    exact ⟨peer, List.mem_singleton.mp hev⟩
  · exact ⟨[], by rw [he]; rfl, by simp⟩

/-- Learning a secret makes no coordinator fundable that was not. -/
theorem fundable_of_learnSecret {env : Env} {s : Session} {kind : SwapKind} {e : SwapEnvelope}
    {id : SwapId} {c : SwapCoordinator}
    (hc : (s.learnSecret env kind e).coordinators.lookup id = some c) (hf : c.swap.fundable) :
    s.coordinators.lookup id = some c := by
  unfold learnSecret at hc
  split at hc
  · split at hc
    case h_1 secret c0 hsec hc0 =>
      rw [setCoord, Table.lookup_insert_iff] at hc
      by_cases hk : id = e.swapId
      · rw [if_pos hk] at hc
        cases hc
        rcases c0.recvReveal_cases env.toCrypto secret with ⟨-, -, -, he⟩ | ⟨-, err, he⟩
        · rw [he] at hf
          rcases hf with ⟨-, hp⟩ | ⟨-, hp⟩ <;> cases hp
        · rw [he, hk, hc0]
      · rw [if_neg hk] at hc; exact hc
    case h_2 => exact hc
  · exact hc

theorem driveSwap_moves {env : Env} {s : Session} (hs : s.WF env) {kind : SwapKind} {payload : Bytes}
    {head : UInt64} {e : SwapEnvelope} (he : decodeSwap kind payload = .ok e) :
    Moves env n (DriveSwapEmits env s kind e head) s (s.driveSwap env kind payload head).2 := by
  unfold driveSwap
  rw [he]
  have h12 := (notePeer_moves (n := n) env s kind e head).trans
    (learnSecret_moves env (s.notePeer kind e) kind e)
  refine h12.trans ((drivePhaseAction_moves (h12.wf hs) e.swapId head).mono fun ev hev => ?_)
  cases ev with
  | builtFunding id role ctx head' answer =>
    obtain ⟨rfl, rfl, ha, c, hc, hf, hr, hx⟩ := hev
    have hc' := fundable_of_learnSecret hc hf
    rw [notePeer_coordinators] at hc'
    exact ⟨rfl, rfl, ha, c, hc', hf, hr, hx⟩
  | notedPeer => exact hev.elim
  | _ => exact hev

/-! ### Initiation -/

/-- The one event an initiation can add: a creation for an id that is neither held nor tombstoned. -/
def InitiateEmits (s : Session) (id : SwapId) (ev : Event) : Prop :=
  ev = .created id .initiator none ∧ s.hasInitiated id = false ∧ id ∉ s.coordinators

theorem mayInitiate_iff (s : Session) (standing : SwapIntent) (id : SwapId) :
    s.mayInitiate standing id = true ↔ id ∉ s.coordinators ∧ s.hasInitiated id = false ∧
      s.coordinators.len < s.identity.maxConcurrentSwaps ∧
      s.withinCaps standing.nimAmount standing.btcAmount = true := by
  simp only [mayInitiate, Bool.and_eq_true, Bool.not_eq_true', decide_eq_false_iff_not,
    decide_eq_true_eq, and_assoc]

theorem slot_addInitiator_self (s : Session) (id : SwapId) (c : SwapCoordinator) :
    (s.addInitiator id c).slot id =
      ⟨some c, true, .created id .initiator none :: (s.slot id).hist⟩ := by
  simp [slot, addInitiator, setCoord, log, hasInitiated, Event.swapId]

theorem slot_addInitiator_ne (s : Session) {id k : SwapId} (h : k ≠ id) (c : SwapCoordinator) :
    (s.addInitiator id c).slot k = s.slot k := by
  simp [slot, addInitiator, setCoord, log, hasInitiated, Event.swapId, h, Ne.symm h]

theorem initiateFromIntent_moves (env : Env) (s : Session) (id : SwapId) (head : UInt64) :
    Moves env n (InitiateEmits s id) s (s.initiateFromIntent env id head).2 := by
  unfold initiateFromIntent
  cases hst : s.identity.standingIntent with
  | none => exact .refl _
  | some standing =>
    by_cases hmay : s.mayInitiate standing id = true
    · obtain ⟨hmem, hinit, -, -⟩ := (mayInitiate_iff s standing id).mp hmay
      simp only [hmay, if_true]
      refine ⟨rfl, fun k => ?_, [.created id .initiator none], rfl, ?_⟩
      · by_cases hk : k = id
        · subst hk
          rw [slot_addInitiator_self, slot_eq_of_not_mem hmem,
            show (s.slot k).tombstone = false from hinit]
          exact .single (.createInitiator ⟨⟨rfl, rfl, rfl⟩, rfl, rfl, ⟨_, rfl, rfl⟩, rfl, rfl⟩)
        · rw [slot_addInitiator_ne s hk]
      · intro ev hev
        rw [List.mem_singleton.mp hev]
        exact ⟨rfl, hinit, hmem⟩
    · simp only [hmay, Bool.false_eq_true, if_false]
      exact .refl _

end Session

/-! ### Runs -/

/-- One call of a worker on its session. -/
inductive Op where
  | message (kind : SwapKind) (payload : Bytes) (head : UInt64)
  | driveSwap (kind : SwapKind) (payload : Bytes) (head : UInt64)
  | drive (id : SwapId) (head : UInt64)
  | reverify
  | tick (head : UInt64)
  | confirmClaims
  | initiate (id : SwapId) (head : UInt64)
  | cancel (id : SwapId)
  | reap
  | remove (id : SwapId)
  | record (id : SwapId) (mt : MessageType) (payload : Bytes)
  | retransmit
  | fastDue (nowMs : UInt64)
  deriving DecidableEq

/-- The head of the time-driven exits of a call: a tick has them, no other call has. -/
def Op.now : Op → Option UInt64
  | .tick head => some head
  | _ => none

namespace Session

/-- The session after one call. -/
def step (env : Env) (s : Session) : Op → Session
  | .message kind payload head => (s.onMessage env kind payload head).2
  | .driveSwap kind payload head => (s.driveSwap env kind payload head).2
  | .drive id head => (s.drivePhaseAction env id head).2
  | .reverify => (s.reverifyAwaitedFunding env).2
  | .tick head => (s.tick env head).2
  | .confirmClaims => s.confirmPendingClaims env
  | .initiate id head => (s.initiateFromIntent env id head).2
  | .cancel id => (s.cancel id).2
  | .reap => s.reapTerminal
  | .remove id => s.remove id
  | .record id mt payload => s.recordAction id mt payload
  | .retransmit => s.pendingRetransmits.2
  | .fastDue nowMs => (s.fastDue nowMs).2

/-- The session after a run. -/
def exec (env : Env) (s : Session) (ops : List Op) : Session := Run.exec (step env) s ops

theorem exec_cons (env : Env) (s : Session) (op : Op) (ops : List Op) :
    s.exec env (op :: ops) = (s.step env op).exec env ops := rfl

theorem exec_append (env : Env) (s : Session) (ops ops' : List Op) :
    s.exec env (ops ++ ops') = (s.exec env ops).exec env ops' :=
  Run.exec_append (step env) s ops ops'

theorem exec_snoc (env : Env) (s : Session) (ops : List Op) (op : Op) :
    s.exec env (ops ++ [op]) = (s.exec env ops).step env op := exec_append env s ops [op]

/-- The events each call can add to the trace. -/
def Emits (env : Env) (s : Session) : Op → Event → Prop
  | .message kind payload head, ev =>
      ∃ e, decodeSwap kind payload = .ok e ∧ MessageEmits env s kind e head ev
  | .driveSwap kind payload head, ev =>
      ∃ e, decodeSwap kind payload = .ok e ∧ DriveSwapEmits env s kind e head ev
  | .drive id head, ev => DriveEmits env s id head ev
  | .initiate id _, ev => InitiateEmits s id ev
  | _, ev => Quiet env ev

/-- The signer is asked to fund by a drive of a held swap that is ready for it. -/
theorem driven_of_builtFunding {env : Env} {s : Session} {op : Op} {id : SwapId} {role : SwapRole}
    {ctx : SwapContext} {head : UInt64} {answer : Option (Bytes × Hash)}
    (h : Emits env s op (.builtFunding id role ctx head answer)) :
    (op = .drive id head ∨ ∃ kind payload e, op = .driveSwap kind payload head ∧
      decodeSwap kind payload = .ok e ∧ e.swapId = id) ∧
    ∃ c, s.coordinators.lookup id = some c ∧ c.swap.fundable ∧ c.role = role ∧ c.ctx = ctx := by
  cases op with
  | message kind payload head' =>
    obtain ⟨e, -, hem⟩ := h
    exact hem.elim
  | driveSwap kind payload head' =>
    obtain ⟨e, he, hid, hhead, -, c, hc, hf, hr, hx⟩ := h
    subst hid hhead
    exact ⟨.inr ⟨kind, payload, e, rfl, he, rfl⟩, c, hc, hf, hr, hx⟩
  | drive k head' =>
    obtain ⟨hid, hhead, -, c, hc, hf, hr, hx⟩ := h
    subst hid hhead
    exact ⟨.inl rfl, c, hc, hf, hr, hx⟩
  | initiate k head' => cases h.1
  | _ => exact h.elim

theorem fastDue_moves (env : Env) (s : Session) (nowMs : UInt64) :
    Moves env n (Quiet env) s (s.fastDue nowMs).2 := by
  unfold fastDue
  split
  · exact .of_eq rfl rfl rfl rfl rfl rfl
  · exact .refl _

/-- SIMULATION: every call but `remove` moves every slot by steps of the automaton and adds only the
    events it can emit. -/
theorem step_moves {env : Env} {s : Session} (hs : s.WF env) (op : Op) (hop : ∀ id, op ≠ .remove id) :
    Moves env op.now (Emits env s op) s (s.step env op) := by
  cases op with
  | message kind payload head =>
    cases he : decodeSwap kind payload with
    | error err => simp only [step, onMessage, he]; exact .refl _
    | ok e => exact (onMessage_moves hs he).mono fun ev hev => ⟨e, he, hev⟩
  | driveSwap kind payload head =>
    cases he : decodeSwap kind payload with
    | error err => simp only [step, driveSwap, he]; exact .refl _
    | ok e => exact (driveSwap_moves hs he).mono fun ev hev => ⟨e, he, hev⟩
  | drive id head => exact drivePhaseAction_moves hs id head
  | reverify => exact reverifyAwaitedFunding_moves env s
  | tick head => exact tick_moves env s head hs
  | confirmClaims => exact confirmPendingClaims_moves env s hs
  | initiate id head => exact initiateFromIntent_moves env s id head
  | cancel id => exact cancel_moves env s id
  | reap => exact reapTerminal_moves env s
  | remove id => exact absurd rfl (hop id)
  | record id mt payload => exact .of_eq rfl rfl rfl rfl rfl rfl
  | retransmit => exact .of_eq rfl rfl rfl rfl rfl rfl
  | fastDue nowMs => exact fastDue_moves env s nowMs

theorem slot_remove_self (s : Session) (id : SwapId) :
    (s.remove id).slot id = { s.slot id with coord := none } := by
  simp only [slot, remove, hasInitiated, Table.lookup_erase_iff, if_true]

theorem slot_remove_ne (s : Session) {id k : SwapId} (h : k ≠ id) : (s.remove id).slot k = s.slot k := by
  simp only [slot, remove, hasInitiated, Table.lookup_erase_iff, if_neg h]

/-- Every call keeps the configuration and the well-formedness of the coordinators. -/
theorem step_config_wf {env : Env} {s : Session} (hs : s.WF env) (op : Op) :
    (s.step env op).config env = s.config env ∧ (s.step env op).WF env := by
  by_cases hop : ∃ id, op = .remove id
  · obtain ⟨id, rfl⟩ := hop
    refine ⟨rfl, fun k c hc => ?_⟩
    by_cases hk : k = id
    · subst hk
      rw [step, slot_remove_self] at hc
      cases hc
    · rw [step, slot_remove_ne s hk] at hc
      exact hs k c hc
  · have hm := step_moves hs op fun id h => hop ⟨id, h⟩
    exact ⟨hm.config, hm.wf hs⟩

/-- Every call adds to the trace the events it can emit, and nothing else happens to it. -/
theorem step_trace {env : Env} {s : Session} (hs : s.WF env) (op : Op) :
    ∃ new, (s.step env op).trace = new ++ s.trace ∧ ∀ ev ∈ new, Emits env s op ev := by
  by_cases hop : ∃ id, op = .remove id
  · obtain ⟨id, rfl⟩ := hop
    exact ⟨[], rfl, by simp⟩
  · exact (step_moves hs op fun id h => hop ⟨id, h⟩).grows

/-- An invariant of a slot: kept by every step of the automaton and by forgetting the coordinator. -/
structure SlotInvariant (cfg : Config) (now : Option UInt64) (k : SwapId) (I : Slot → Prop) : Prop where
  step : ∀ a b, SlotStep cfg now k a b → a.WF cfg k → I a → I b
  forget : ∀ a, I a → I { a with coord := none }

theorem SlotInvariant.steps {cfg : Config} {now : Option UInt64} {k : SwapId} {I : Slot → Prop}
    (hI : SlotInvariant cfg now k I) {a b : Slot} (h : SlotSteps cfg now k a b) (hw : a.WF cfg k) (ha : I a) :
    I b :=
  (SlotSteps.preserves (I := fun sl => sl.WF cfg k ∧ I sl)
    (fun _ _ hs hx => ⟨hs.wf hx.1, hI.step _ _ hs hx.1 hx.2⟩) h ⟨hw, ha⟩).2

/-- A slot invariant is kept by every call. -/
theorem SlotInvariant.call {env : Env} {s : Session} {k : SwapId} {I : Slot → Prop} {op : Op}
    (hI : SlotInvariant (s.config env) op.now k I) (hs : s.WF env) (h : I (s.slot k)) :
    I ((s.step env op).slot k) := by
  by_cases hop : ∃ id, op = .remove id
  · obtain ⟨id, rfl⟩ := hop
    by_cases hk : k = id
    · subst hk; rw [Session.step, slot_remove_self]; exact hI.forget _ h
    · rw [Session.step, slot_remove_ne s hk]; exact h
  · exact hI.steps ((step_moves hs op fun id h => hop ⟨id, h⟩).slots k) (hs k) h

/-- RUN: a slot invariant holds after every run. -/
theorem SlotInvariant.run {env : Env} {k : SwapId} {I : Slot → Prop} {s : Session}
    (hI : ∀ now, SlotInvariant (s.config env) now k I) (hs : s.WF env) (h : I (s.slot k)) (ops : List Op) :
    I ((s.exec env ops).slot k) := by
  have hrun := Run.exec_preserves (Session.step env)
    (I := fun s' => s'.config env = s.config env ∧ s'.WF env ∧ I (s'.slot k))
    (fun s' op ⟨hc, hw, hi⟩ => by
      obtain ⟨hc', hw'⟩ := step_config_wf hw op
      exact ⟨hc'.trans hc, hw', SlotInvariant.call (hc ▸ hI op.now) hw hi⟩) ops s ⟨rfl, hs, h⟩
  exact hrun.2.2

theorem exec_config_wf {env : Env} {s : Session} (hs : s.WF env) (ops : List Op) :
    (s.exec env ops).config env = s.config env ∧ (s.exec env ops).WF env := by
  refine Run.exec_preserves (step env) (I := fun s' => s'.config env = s.config env ∧ s'.WF env)
    (fun s' op ⟨hc, hw⟩ => ?_) ops s ⟨rfl, hs⟩
  obtain ⟨hc', hw'⟩ := step_config_wf hw op
  exact ⟨hc'.trans hc, hw'⟩

/-- RUN: the trace only grows. -/
theorem exec_trace_grows {env : Env} {s : Session} (hs : s.WF env) (ops : List Op) :
    ∃ new, (s.exec env ops).trace = new ++ s.trace := by
  refine (Run.exec_preserves (step env)
    (I := fun s' => s'.WF env ∧ ∃ new, s'.trace = new ++ s.trace)
    (fun s' op ⟨hw, new, he⟩ => ?_) ops s ⟨hs, [], rfl⟩).2
  obtain ⟨new', he', -⟩ := step_trace hw op
  exact ⟨(step_config_wf hw op).2, new' ++ new, by rw [he', he, List.append_assoc]⟩

/-- A tombstone is never lifted by a call. -/
theorem hasInitiated_step {env : Env} {s : Session} (hs : s.WF env) {k : SwapId}
    (h : s.hasInitiated k = true) (op : Op) : (s.step env op).hasInitiated k = true := by
  have hinv : SlotInvariant (s.config env) op.now k fun sl => sl.tombstone = true := by
    refine ⟨fun a b hstep _ ha => ?_, fun a ha => ha⟩
    cases hstep with
    | createInitiator => rfl
    | _ => exact ha
  exact hinv.call hs h

/-- RUN: nor by a run. -/
theorem hasInitiated_exec {env : Env} {s : Session} (hs : s.WF env) {k : SwapId}
    (h : s.hasInitiated k = true) (ops : List Op) : (s.exec env ops).hasInitiated k = true :=
  (Run.exec_preserves (step env) (I := fun s' => s'.WF env ∧ s'.hasInitiated k = true)
    (fun _ op hi => ⟨(step_config_wf hi.1 op).2, hasInitiated_step hi.1 hi.2 op⟩) ops s ⟨hs, h⟩).2

/-- RUN: what holds of every event that an admissible call can emit holds of the whole trace. -/
theorem trace_along {env : Env} {ok : Session → Op → Prop} {P : Event → Prop} {s : Session}
    (hs : s.WF env) (h : ∀ ev ∈ s.trace, P ev)
    (hemit : ∀ s' op, s'.WF env → s'.config env = s.config env → ok s' op →
      ∀ ev, Emits env s' op ev → P ev) {ops : List Op} (hok : Run.Along (step env) ok s ops) :
    ∀ ev ∈ (s.exec env ops).trace, P ev := by
  refine (Run.exec_invariant (step env)
    (I := fun s' => s'.config env = s.config env ∧ s'.WF env ∧ ∀ ev ∈ s'.trace, P ev)
    (fun s' op ⟨hc, hw, hp⟩ hop => ?_) ops s ⟨rfl, hs, h⟩ hok).2.2
  obtain ⟨hc', hw'⟩ := step_config_wf hw op
  refine ⟨hc'.trans hc, hw', fun ev hev => ?_⟩
  obtain ⟨new, he, hnew⟩ := step_trace hw op
  rw [he] at hev
  rcases List.mem_append.mp hev with hm | hm
  · exact hemit s' op hw hc hop ev (hnew ev hm)
  · exact hp ev hm

/-- A session before its first swap, whatever its identity and policies. -/
structure Fresh (s : Session) : Prop where
  coordinators : s.coordinators = ∅
  initiatedEver : s.initiatedEver = ∅
  fundingProofSeen : s.fundingProofSeen = ∅
  pending : s.pending = ∅
  trace : s.trace = []

theorem Fresh.slot {s : Session} (h : s.Fresh) (k : SwapId) : s.slot k = ⟨none, false, []⟩ := by
  simp only [Session.slot, hasInitiated, h.coordinators, h.initiatedEver, h.trace,
    AList.lookup_empty, Option.isSome_none, List.filter_nil]

theorem Fresh.wf {s : Session} (h : s.Fresh) (env : Env) : s.WF env := by
  intro k c hc
  rw [h.slot k] at hc
  cases hc

theorem fresh_new (identity : NodeIdentity) (ladder : LadderParams) : (new identity ladder).Fresh :=
  ⟨rfl, rfl, rfl, rfl, rfl⟩

/-- An event that reports an answer reports what the environment answered. -/
def Answered (env : Env) : Event → Prop
  | .observed _ expect obs => ∃ tr, obs = env.observe tr expect
  | .observedClaim _ txId obs => ∃ tr, obs = env.observeClaim tr .nim txId
  | .builtFunding _ _ ctx _ answer => ∃ tr leg, answer = env.buildFunding tr ctx leg
  | .builtClaim _ _ ctx secret _ answer => ∃ tr, answer = env.buildClaim tr ctx secret
  | _ => True

theorem answered_of_driveEmits (env : Env) (s : Session) (id : SwapId) (head : UInt64) {ev : Event}
    (h : DriveEmits env s id head ev) : Answered env ev := by
  cases ev with
  | builtFunding id' role ctx head' answer => exact h.2.2.1
  | builtClaim id' role ctx secret head' answer => exact h.2.2
  | observed | observedClaim => exact h
  | _ => trivial

theorem answered_of_emits {env : Env} {s : Session} {op : Op} {ev : Event}
    (h : Emits env s op ev) : Answered env ev := by
  cases op with
  | message kind payload head =>
    obtain ⟨e, -, hem⟩ := h
    cases ev with
    | observed | observedClaim => exact hem
    | builtFunding | builtClaim => exact hem.elim
    | _ => trivial
  | driveSwap kind payload head =>
    obtain ⟨e, -, hem⟩ := h
    cases ev with
    | notedPeer => trivial
    | _ => exact answered_of_driveEmits env s e.swapId head hem
  | drive id head => exact answered_of_driveEmits env s id head h
  | initiate id head => rw [h.1]; trivial
  | _ =>
    cases ev with
    | observed | observedClaim => exact h
    | builtFunding | builtClaim => exact h.elim
    | _ => trivial

/-- RUN: the trace of a run is what the environment answered. -/
theorem trace_answered (env : Env) {s₀ : Session} (h₀ : s₀.Fresh) (ops : List Op) :
    ∀ ev ∈ (s₀.exec env ops).trace, Answered env ev := by
  have hall : Run.Along (step env) (fun _ _ => True) s₀ ops :=
    Run.along_of_forall_mem _ ops s₀ fun _ _ _ => trivial
  exact trace_along (h₀.wf env) (by rw [h₀.trace]; simp)
    (fun _ _ _ _ _ _ hev => answered_of_emits hev) hall

end Session

end Nimmesh
