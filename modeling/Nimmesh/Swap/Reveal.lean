import Mathlib.Data.List.Induction
import Nimmesh.Swap.FundingGate

/-! @src swap_node.rs swap_session.rs swap_coordinator.rs | name:The initiator's claim in a run |
    layer:properties

    Where an initiator's claim comes from. Only a drive of the swap asks the signer for it, from
    `BothFunded`, inside the reveal window and with the coordinator's own context and secret; and
    `BothFunded` was entered by an earlier call, on a consult that found the HTLC. -/

namespace Nimmesh

namespace Session

variable {env : Env} {s : Session}

/-- The call drives the swap, from the session `s₁` that the effects of its message left. -/
def Drives (env : Env) (s : Session) (op : Op) (id : SwapId) (head : UInt64) (s₁ : Session) : Prop :=
  (op = .drive id head ∧ s₁ = s) ∨
  ∃ kind payload e, op = .driveSwap kind payload head ∧ decodeSwap kind payload = .ok e ∧
    e.swapId = id ∧ s₁ = (s.notePeer kind e).learnSecret env kind e

theorem Drives.step {op : Op} {id : SwapId} {head : UInt64} {s₁ : Session}
    (h : Drives env s op id head s₁) : s.step env op = (s₁.drivePhaseAction env id head).2 := by
  rcases h with ⟨rfl, rfl⟩ | ⟨kind, payload, e, rfl, he, rfl, rfl⟩
  · rfl
  · simp only [Session.step, driveSwap, he]

/-- The message's own effects move the session. -/
theorem Drives.moves {op : Op} {id : SwapId} {head : UInt64} {s₁ : Session}
    (h : Drives env s op id head s₁) : Moves env none (fun ev => ∃ peer, ev = .notedPeer id peer) s s₁ := by
  rcases h with ⟨-, rfl⟩ | ⟨kind, payload, e, -, -, rfl, rfl⟩
  · exact .refl _
  · refine Moves.trans ?_ (learnSecret_moves env (s.notePeer kind e) kind e)
    obtain ⟨noted, he, hall⟩ := notePeer_trace s kind e
    have hm := notePeer_moves (n := none) env s kind e head
    exact ⟨hm.config, hm.slots, noted, he, hall⟩

/-- Learning a secret leaves the initiators alone. -/
theorem initiator_of_learnSecret {kind : SwapKind} {e : SwapEnvelope} {id : SwapId} {c : SwapCoordinator}
    (hc : (s.learnSecret env kind e).coordinators.lookup id = some c) (hr : c.role = .initiator) :
    s.coordinators.lookup id = some c := by
  unfold learnSecret at hc
  split at hc
  · split at hc
    case h_1 secret c0 hsec hc0 =>
      rw [setCoord, Table.lookup_insert_iff] at hc
      by_cases hk : id = e.swapId
      · rw [if_pos hk] at hc
        cases hc
        rcases c0.recvReveal_cases env.toCrypto secret with ⟨hresp, -, -, he⟩ | ⟨-, err, he⟩
        · rw [he] at hr
          cases hresp.symm.trans hr
        · rw [he, hk, hc0]
      · rw [if_neg hk] at hc
        exact hc
    case h_2 => exact hc
  · exact hc

/-- A drive finds the initiator as the message found it. -/
theorem Drives.lookup {op : Op} {id k : SwapId} {head : UInt64} {s₁ : Session} {c : SwapCoordinator}
    (h : Drives env s op id head s₁) (hc : s₁.coordinators.lookup k = some c) (hr : c.role = .initiator) :
    s.coordinators.lookup k = some c := by
  rcases h with ⟨-, rfl⟩ | ⟨kind, payload, e, -, -, -, rfl⟩
  · exact hc
  · have hnoted := initiator_of_learnSecret hc hr
    rwa [notePeer_coordinators] at hnoted

/-- RUN: every event of a run was added by one of its calls. -/
theorem exec_event {s₀ : Session} (h₀ : s₀.Fresh) (ops : List Op) {ev : Event} {newer old : List Event}
    (htr : (s₀.exec env ops).trace = newer ++ ev :: old) :
    ∃ pre op post above below, ops = pre ++ op :: post ∧
      ((s₀.exec env pre).step env op).trace = (above ++ ev :: below) ++ (s₀.exec env pre).trace ∧
      old = below ++ (s₀.exec env pre).trace := by
  induction ops using List.reverseRecOn generalizing newer with
  | nil =>
    rw [exec, Run.exec_nil, h₀.trace] at htr
    simp at htr
  | append_singleton ops op ih =>
    obtain ⟨new, he, -⟩ := step_trace (exec_config_wf (h₀.wf env) ops).2 op
    have hboth := htr
    rw [exec_snoc, he, List.append_eq_append_iff] at hboth
    rcases hboth with ⟨a, ha, hold⟩ | ⟨a, ha, hold⟩
    · obtain ⟨pre, op', post, above, below, rfl, hstep, hbelow⟩ := ih hold
      exact ⟨pre, op', post ++ [op], above, below, by simp, hstep, hbelow⟩
    · cases a with
      | nil =>
        have hnil : (s₀.exec env ops).trace = [] ++ ev :: old := hold.symm
        obtain ⟨pre, op', post, above, below, rfl, hstep, hbelow⟩ := ih hnil
        exact ⟨pre, op', post ++ [op], above, below, by simp, hstep, hbelow⟩
      | cons e below =>
        rw [List.cons_append] at hold
        obtain ⟨rfl, rfl⟩ := List.cons.inj hold
        exact ⟨ops, op, [], newer, below, rfl, by rw [he, ha], rfl⟩

/-! ### The claim -/

/-- The claim a signer is asked for is that of a held initiator: it is `BothFunded`, and the reveal
    window is open. -/
structure ClaimAsked (env : Env) (s : Session) (id : SwapId) (ctx : SwapContext) (secret : Hash) (head : UInt64)
    (answer : Option (Bytes × Hash)) (c : SwapCoordinator) : Prop where
  held : s.coordinators.lookup id = some c
  role : c.role = .initiator
  phase : c.phase = .bothFunded
  context : c.ctx = ctx
  knows : c.secret = some secret
  deadline : c.revealDeadlineOk head = true
  answered : answer = env.buildClaim s.trace ctx secret

theorem broadcastClaim_trace (env : Env) (s : Session) (id : SwapId) (c : SwapCoordinator) (head : UInt64) :
    (s.broadcastClaim env id c head).trace = s.trace ∨
      ∃ secret, (s.broadcastClaim env id c head).trace =
        .builtClaim id c.role c.ctx secret head (env.buildClaim s.trace c.ctx secret) :: s.trace := by
  simp only [broadcastClaim]
  split
  · rename_i secret _ _
    refine .inr ⟨secret, ?_⟩
    cases env.buildClaim s.trace c.ctx secret <;> rfl
  · exact .inl rfl

/-- A drive asks for an initiator's claim from `BothFunded` only, and does nothing else to the trace. -/
theorem claims_of_drivePhaseAction (hw : s.WF env) {id k : SwapId} {head head' : UInt64} {ctx : SwapContext}
    {secret : Hash} {answer : Option (Bytes × Hash)} {new : List Event}
    (he : (s.drivePhaseAction env id head).2.trace = new ++ s.trace)
    (hm : .builtClaim k .initiator ctx secret head' answer ∈ new) :
    k = id ∧ head' = head ∧ new = [.builtClaim k .initiator ctx secret head' answer] ∧
      ∃ c, ClaimAsked env s id ctx secret head answer c := by
  have hsame : ∀ s' : Session, s'.trace = new ++ s.trace → s'.trace ≠ s.trace := by
    intro s' h hs
    rw [hs] at h
    rw [List.self_eq_append_left.mp h] at hm
    cases hm
  have hone : ∀ (s' : Session) ev, s'.trace = new ++ s.trace → s'.trace = ev :: s.trace → new = [ev] := by
    intro s' ev h hs
    rw [hs] at h
    have hsplit : [ev] ++ s.trace = new ++ s.trace := h
    exact (List.append_cancel_right hsplit).symm
  unfold drivePhaseAction at he
  cases hc : s.coordinators.lookup id with
  | none =>
    simp only [hc] at he
    exact absurd rfl (hsame s he)
  | some c =>
    simp only [hc] at he
    split at he
    case h_1 hr hp | h_2 hr hp =>
      rw [hone _ _ he (driveFund_trace env s id c head _)] at hm
      cases List.mem_singleton.mp hm
    case h_3 hr hp =>
      rcases driveReveal_cases (hw id c hc).terms hr hp with hd | ⟨sec, hk, hd, ha, hd'⟩ |
        ⟨sec, wire, txId, hk, hd, ha, hd'⟩
      · rw [hd] at he
        exact absurd rfl (hsame s he)
      · rw [hd'] at he
        have hnew := hone _ _ he rfl
        rw [hnew] at hm
        obtain ⟨rfl, -, rfl, rfl, rfl, rfl⟩ := Event.builtClaim.inj (List.mem_singleton.mp hm)
        exact ⟨rfl, rfl, hr ▸ hnew, c, hc, hr, hp, rfl, hk, hd, ha.symm⟩
      · rw [hd'] at he
        have hnew := hone _ _ he rfl
        rw [hnew] at hm
        obtain ⟨rfl, -, rfl, rfl, rfl, rfl⟩ := Event.builtClaim.inj (List.mem_singleton.mp hm)
        exact ⟨rfl, rfl, hr ▸ hnew, c, hc, hr, hp, rfl, hk, hd, ha.symm⟩
    case h_4 hr hp =>
      -- the responder's arm asks under its own role
      obtain ⟨quiet, hq, hall⟩ :=
        (confirmClaim_moves (n := none) env (s.broadcastClaim env id c head) id).grows
      rw [attemptResponderClaim, hq] at he
      exfalso
      rcases broadcastClaim_trace env s id c head with hb | ⟨sec, hb⟩
      · rw [hb] at he
        rw [← List.append_cancel_right he] at hm
        exact hall _ hm
      · rw [hb, ← List.singleton_append, ← List.append_assoc] at he
        rw [← List.append_cancel_right he] at hm
        rcases List.mem_append.mp hm with hm | hm
        · exact hall _ hm
        · have hev := List.mem_singleton.mp hm
          rw [hr] at hev
          cases hev
    case h_5 => exact absurd rfl (hsame s he)

/-- Only a drive of the swap asks for an initiator's claim, and the message's notes are all that comes
    before it. -/
theorem claims_of_step (hw : s.WF env) {op : Op} {id : SwapId} {head : UInt64} {ctx : SwapContext}
    {secret : Hash} {answer : Option (Bytes × Hash)} {new : List Event}
    (he : (s.step env op).trace = new ++ s.trace)
    (hm : .builtClaim id .initiator ctx secret head answer ∈ new) :
    ∃ s₁ c noted, Drives env s op id head s₁ ∧ ClaimAsked env s₁ id ctx secret head answer c ∧
      s₁.trace = noted ++ s.trace ∧ (∀ ev ∈ noted, ∃ peer, ev = .notedPeer id peer) ∧
      new = .builtClaim id .initiator ctx secret head answer :: noted := by
  have hdrive : ∀ k head' s₁, Drives env s op k head' s₁ → ∃ s₁ c noted,
      Drives env s op id head s₁ ∧ ClaimAsked env s₁ id ctx secret head answer c ∧
      s₁.trace = noted ++ s.trace ∧ (∀ ev ∈ noted, ∃ peer, ev = .notedPeer id peer) ∧
      new = .builtClaim id .initiator ctx secret head answer :: noted := by
    intro k head' s₁ hd
    obtain ⟨noted, hn, hall⟩ := hd.moves.grows
    obtain ⟨new', hn', -⟩ := (drivePhaseAction_moves (n := none) (hd.moves.wf hw) k head').grows
    have hnew : new = new' ++ noted := by
      rw [hd.step, hn', hn, ← List.append_assoc] at he
      exact (List.append_cancel_right he).symm
    have hmem : .builtClaim id .initiator ctx secret head answer ∈ new' := by
      rw [hnew] at hm
      rcases List.mem_append.mp hm with h | h
      · exact h
      · obtain ⟨peer, hp⟩ := hall _ h
        cases hp
    obtain ⟨rfl, rfl, hone, c, hcl⟩ := claims_of_drivePhaseAction (hd.moves.wf hw) hn' hmem
    exact ⟨s₁, c, noted, hd, hcl, hn, hall, by rw [hnew, hone, List.singleton_append]⟩
  obtain ⟨new', he', hem⟩ := step_trace hw op
  rw [he'] at he
  have hemits := hem _ (List.append_cancel_right he ▸ hm)
  cases op with
  | message kind payload head' =>
    obtain ⟨e, -, h⟩ := hemits
    exact h.elim
  | driveSwap kind payload head' =>
    obtain ⟨e, hdec, h⟩ := hemits
    exact hdrive e.swapId head' _ (.inr ⟨kind, payload, e, rfl, hdec, rfl, rfl⟩)
  | drive k head' => exact hdrive k head' s (.inl ⟨rfl, rfl⟩)
  | initiate k head' => cases hemits.1
  | _ => exact hemits.elim

/-- The driver at `(Initiator, BothFunded)`, when the window is closed or the claim is handed back. -/
theorem output_of_closed {id : SwapId} {head : UInt64} {c : SwapCoordinator}
    (hc : s.coordinators.lookup id = some c) (hr : c.role = .initiator) (hp : c.phase = .bothFunded)
    (hd : c.revealDeadlineOk head = false) : (s.drivePhaseAction env id head).1 = [] := by
  simp only [drivePhaseAction, hc, hr, hp, driveReveal, hd, Bool.not_false, if_true]

theorem output_of_claimAsked (hw : s.WF env) {id : SwapId} {ctx : SwapContext} {secret : Hash} {head : UInt64}
    {tx : Bytes × Hash} {c : SwapCoordinator} (h : ClaimAsked env s id ctx secret head (some tx) c) :
    (s.drivePhaseAction env id head).1 =
      pushEnv .swapPreimageReveal (txEnvelope id .counterparty tx.1 tx.2) := by
  have hwf := hw id c h.held
  have hdrive : s.drivePhaseAction env id head = s.driveReveal env id c head := by
    simp only [drivePhaseAction, h.held, h.role, h.phase]
  have hans : env.buildClaim s.trace c.ctx secret = some tx := h.context ▸ h.answered.symm
  rw [hdrive]
  rcases driveReveal_cases hwf.terms h.role h.phase with he | ⟨sec, hk, -, ha, -⟩ |
    ⟨sec, wire, txId, hk, -, ha, he⟩
  · have hlog : (s.driveReveal env id c head).2.trace = s.trace := by rw [he]
    simp only [driveReveal, h.deadline, h.knows, hans, Bool.not_true, Bool.false_eq_true, if_false] at hlog
    exfalso
    split at hlog <;> simp [setCoord, log] at hlog
  · rw [h.knows] at hk
    cases hk
    rw [hans] at ha
    cases ha
  · rw [h.knows] at hk
    cases hk
    rw [hans] at ha
    cases ha
    rw [he, hwf.swapId]

/-- A drive is made from one session, at one head. -/
theorem Drives.unique {op : Op} {id : SwapId} {head head' : UInt64} {s₁ s₂ : Session}
    (h : Drives env s op id head s₁) (h' : Drives env s op id head' s₂) : head = head' ∧ s₁ = s₂ := by
  rcases h with ⟨rfl, rfl⟩ | ⟨kind, payload, e, rfl, he, -, rfl⟩
  · rcases h' with ⟨ho, rfl⟩ | ⟨_, _, _, ho, -⟩
    · cases ho
      exact ⟨rfl, rfl⟩
    · cases ho
  · rcases h' with ⟨ho, -⟩ | ⟨kind', payload', e', ho, he', -, rfl⟩
    · cases ho
    · cases ho
      rw [he] at he'
      cases he'
      exact ⟨rfl, rfl⟩

/-! ### The gate it came through -/

/-- The call takes the initiator of the swap into `BothFunded`. -/
def EntersBothFunded (env : Env) (s : Session) (op : Op) (id : SwapId) (expect : HtlcExpectation) : Prop :=
  (∃ c, (s.step env op).coordinators.lookup id = some c ∧ c.role = .initiator ∧ c.phase = .bothFunded ∧
    c.counterpartyExpectation = expect) ∧
  ¬ ∃ c, s.coordinators.lookup id = some c ∧ c.role = .initiator ∧ c.phase = .bothFunded ∧
    c.counterpartyExpectation = expect

/-- The call `op` of a run, after the calls `pre`, enters `BothFunded` on the consult after `rest`. -/
structure PassesGate (env : Env) (s₀ : Session) (pre : List Op) (op : Op) (id : SwapId)
    (expect : HtlcExpectation) (obs : FundingObservation) (rest : List Event) : Prop where
  enters : EntersBothFunded env (s₀.exec env pre) op id expect
  before : (s₀.exec env pre).trace <:+ rest
  after : .observed id expect obs :: rest <:+ (s₀.exec env (pre ++ [op])).trace
  funded : Funded obs expect (s₀.requiredDepth expect.leg)

/-- RUN: an initiator that is `BothFunded` entered it in a call of the run, on a consult that found the
    HTLC. -/
theorem passed_gate {s₀ : Session} (h₀ : s₀.Fresh) (ops : List Op) {id : SwapId} {c : SwapCoordinator}
    (hc : (s₀.exec env ops).coordinators.lookup id = some c) (hr : c.role = .initiator)
    (hp : c.phase = .bothFunded) :
    ∃ pre op post obs rest, ops = pre ++ op :: post ∧
      PassesGate env s₀ pre op id c.counterpartyExpectation obs rest := by
  induction ops using List.reverseRecOn generalizing c with
  | nil =>
    rw [exec, Run.exec_nil, h₀.coordinators] at hc
    cases hc
  | append_singleton ops op ih =>
    by_cases hbefore : ∃ c₀, (s₀.exec env ops).coordinators.lookup id = some c₀ ∧ c₀.role = .initiator ∧
        c₀.phase = .bothFunded ∧ c₀.counterpartyExpectation = c.counterpartyExpectation
    · obtain ⟨c₀, hc₀, hr₀, hp₀, hx₀⟩ := hbefore
      obtain ⟨pre, op', post, obs, rest, rfl, hgate⟩ := ih hc₀ hr₀ hp₀
      exact ⟨pre, op', post ++ [op], obs, rest, by simp, hx₀ ▸ hgate⟩
    · rw [exec_snoc] at hc
      obtain ⟨hcfg, hw⟩ := exec_config_wf (h₀.wf env) ops
      obtain ⟨new, hn, hv⟩ := step_entersVerified hw op id
      obtain ⟨added, ha, -⟩ := step_trace hw op
      rcases hv c hc (by rw [hp, hr]; rfl) with ⟨c₀, hc₀, hr₀, hp₀, hx₀⟩ | ⟨obs, hm, hf⟩
      · exact absurd ⟨c₀, hc₀, hr₀.trans hr, hp₀.trans hp, hx₀⟩ hbefore
      · have hnew : new = added.filter fun e => e.swapId = id := by
          have hh : ((s₀.exec env ops).step env op).trace.filter (fun e => e.swapId = id) =
              new ++ (s₀.exec env ops).trace.filter fun e => e.swapId = id := hn
          rw [ha, List.filter_append] at hh
          exact (List.append_cancel_right hh).symm
        rw [hnew] at hm
        obtain ⟨newer, older, hsplit⟩ := List.append_of_mem (List.mem_filter.mp hm).1
        rw [hcfg] at hf
        refine ⟨ops, op, [], obs, older ++ (s₀.exec env ops).trace, rfl,
          ⟨⟨c, hc, hr, hp, rfl⟩, hbefore⟩, ?_, ?_, hf⟩
        · exact List.suffix_append _ _
        · rw [exec_snoc, ha, hsplit, List.append_assoc, List.cons_append]
          exact List.suffix_append _ _

/-- RUN: the claim of an initiator in a trace comes after the gate that the swap passed. -/
theorem claim_after_gate {s₀ : Session} (h₀ : s₀.Fresh) (ops : List Op) {id : SwapId} {ctx : SwapContext}
    {secret : Hash} {head : UInt64} {answer : Option (Bytes × Hash)} {newer old : List Event}
    (htr : (s₀.exec env ops).trace = newer ++ .builtClaim id .initiator ctx secret head answer :: old) :
    ∃ pre op post obs mid rest, ops = pre ++ op :: post ∧
      PassesGate env s₀ pre op id (ctx.expectation .initiator) obs rest ∧
      old = mid ++ .observed id (ctx.expectation .initiator) obs :: rest := by
  obtain ⟨pre, op, post, above, below, rfl, hstep, rfl⟩ := exec_event h₀ ops htr
  have hw := (exec_config_wf (h₀.wf env) pre).2
  obtain ⟨s₁, c, noted, hd, hcl, -, -, -⟩ := claims_of_step hw hstep
    (List.mem_append_right above List.mem_cons_self)
  obtain ⟨pre', op', post', obs, rest, rfl, hgate⟩ :=
    passed_gate h₀ pre (hd.lookup hcl.held hcl.role) hcl.role hcl.phase
  have hexpect : c.counterpartyExpectation = ctx.expectation .initiator := by
    rw [SwapCoordinator.counterpartyExpectation, hcl.role, hcl.context]
  rw [hexpect] at hgate
  -- the trace has only grown since the gate
  obtain ⟨grown, hgrown⟩ := exec_trace_grows (exec_config_wf (h₀.wf env) (pre' ++ [op'])).2 post'
  obtain ⟨newer', hnewer⟩ := hgate.after
  refine ⟨pre', op', post' ++ op :: post, obs, below ++ grown ++ newer', rest, by simp, hgate, ?_⟩
  have hpre : s₀.exec env (pre' ++ op' :: post') = (s₀.exec env (pre' ++ [op'])).exec env post' := by
    rw [← exec_append, List.append_assoc, List.singleton_append]
  rw [hpre, hgrown, ← hnewer]
  simp

end Session

end Nimmesh
