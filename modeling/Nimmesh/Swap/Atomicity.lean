import Nimmesh.Swap.Net
import Nimmesh.Swap.Settlement

/-! @src swap.rs swap_session.rs swap_coordinator.rs swap_node.rs | name:Atomicity for the responder |
    layer:properties

    Once the initiator has claimed the responder's leg, the secret is public and the NIM leg is the
    responder's until `T_A`. A revealed responder keeps its coordinator until then, whatever the mesh
    does. One that has not heard the reveal yet is refunded by its phase alone at the first maintenance
    tick past `T_B`, though its leg is spent: this tick is the only step of either node that can take
    the claim away. -/

namespace Nimmesh

/-! ### One slot -/

/-- The way to the NIM leg is open to the responder of the swap `agreed`: its own leg is locked and it
    waits for the reveal (if `waiting` allows it), or it holds a secret of the hashlock. -/
structure ClaimOpen (cfg : Config) (waiting : Prop) (agreed : SwapContext) (c : SwapCoordinator) :
    Prop where
  role : c.role = .responder
  ctx : c.ctx = agreed
  phase : (waiting ∧ c.phase = .bothFunded) ∨ (c.phase = .revealed ∧
    ∃ secret, c.secret = some secret ∧ cfg.sha256 secret.1 = agreed.hashlock)

/-- A claim on the NIM leg was seen included at the depth the responder asks for. -/
def ClaimSeen (cfg : Config) (id : SwapId) (l : List Event) : Prop :=
  ∃ tx depth, .observedClaim id tx (.included depth) ∈ l ∧ cfg.need .nim ≤ depth

/-- Since the history was `base`, the claim stayed open or went through. -/
def Protected (cfg : Config) (id : SwapId) (waiting : Prop) (agreed : SwapContext) (base : List Event)
    (sl : Slot) : Prop :=
  ∃ new, sl.hist = new ++ base ∧
    ((∃ c, sl.coord = some c ∧ ClaimOpen cfg waiting agreed c) ∨ ClaimSeen cfg id new)

section slot

variable {cfg : Config} {now : Option UInt64} {id : SwapId} {waiting : Prop} {agreed : SwapContext}
  {base : List Event}

theorem ClaimOpen.locked {c : SwapCoordinator} (h : ClaimOpen cfg waiting agreed c) :
    c.phase = .bothFunded ∨ c.phase = .revealed := by
  rcases h.phase with ⟨-, hp⟩ | ⟨hp, -⟩
  · exact .inl hp
  · exact .inr hp

theorem ClaimOpen.mono {waiting' : Prop} {c : SwapCoordinator} (h : ClaimOpen cfg waiting agreed c)
    (hw : waiting → waiting') : ClaimOpen cfg waiting' agreed c :=
  ⟨h.role, h.ctx, h.phase.imp_left fun hp => ⟨hw hp.1, hp.2⟩⟩

/-- The coordinator may change in what the open claim does not speak of. -/
theorem ClaimOpen.congr {c c' : SwapCoordinator} (h : ClaimOpen cfg waiting agreed c)
    (hr : c'.role = c.role) (hx : c'.ctx = c.ctx) (hp : c'.phase = c.phase)
    (hs : c'.secret = c.secret) : ClaimOpen cfg waiting agreed c' := by
  refine ⟨hr.trans h.role, hx.trans h.ctx, ?_⟩
  rw [hp, hs]
  exact h.phase

theorem ClaimSeen.append {l : List Event} (h : ClaimSeen cfg id l) (new : List Event) :
    ClaimSeen cfg id (new ++ l) := by
  obtain ⟨tx, depth, hm, hd⟩ := h
  exact ⟨tx, depth, List.mem_append_right _ hm, hd⟩

theorem Protected.mono {waiting' : Prop} {sl : Slot} (h : Protected cfg id waiting agreed base sl)
    (hw : waiting → waiting') : Protected cfg id waiting' agreed base sl := by
  obtain ⟨new, he, ⟨c, hc, hopen⟩ | hseen⟩ := h
  · exact ⟨new, he, .inl ⟨c, hc, hopen.mono hw⟩⟩
  · exact ⟨new, he, .inr hseen⟩

/-- What a step does to an open claim: it stays open or is seen through. The two exits by timeout are
    not due: `T_A` has not passed, nor has `T_B` while the reveal is awaited. -/
theorem claimOpen_step {a b : Slot} (hs : SlotStep cfg now id a b) (hw : a.WF cfg id)
    (htime : ∀ head, now = some head → head ≤ agreed.terms.nimTimeout ∧
      (waiting → head ≤ agreed.terms.counterpartyTimeout))
    {c : SwapCoordinator} (hc : a.coord = some c) (hopen : ClaimOpen cfg waiting agreed c) :
    ∃ new, b.hist = new ++ a.hist ∧
      ((∃ c', b.coord = some c' ∧ ClaimOpen cfg waiting agreed c') ∨ ClaimSeen cfg id new) := by
  have hterms : c.swap.terms = agreed.terms := by rw [(hw c hc).terms, hopen.ctx]
  cases hs with
  | createInitiator | createResponder => cases hc
  | accept hph hsafe =>
    cases hc
    rcases hopen.locked with hp | hp <;> rw [hph] at hp <;> cases hp
  | noteWire | notePeer | observe =>
    cases hc
    exact ⟨[_], rfl, .inl ⟨c, rfl, hopen⟩⟩
  | observeFunded haw hfu =>
    cases hc
    rcases c.awaitsCounterpartyFunding_iff.mp haw with ⟨-, hp'⟩ | ⟨hr, -⟩
    · rcases hopen.locked with hp | hp <;> rw [hp'] at hp <;> cases hp
    · rw [hopen.role] at hr
      cases hr
  | fundRefused hfd | fund hfd =>
    cases hc
    rcases hopen.locked with hp | hp <;>
      exact absurd (.inl (by rw [hp]; rfl)) (not_pastFunding_of_fundable hfd)
  | revealRefused hr | reveal hr =>
    cases hc
    rw [hopen.role] at hr
    cases hr
  | @learnSecret c₁ t h secret hr hp ho =>
    cases hc
    refine ⟨[], rfl, .inl ⟨_, rfl, hopen.role, hopen.ctx, .inr ⟨rfl, secret, rfl, ?_⟩⟩⟩
    rw [ho, hopen.ctx]
  | claim answer hr hp hu hk =>
    cases hc
    exact ⟨[_], rfl, .inl ⟨_, rfl, hopen.congr rfl rfl rfl rfl⟩⟩
  | @observeClaim c₁ t h txId obs hr hp ht =>
    cases hc
    refine ⟨[.observedClaim id txId obs], rfl, ?_⟩
    rcases applyClaimObservation_cases c (cfg.need .nim) obs hp with ⟨d, rfl, hd, -⟩ | ⟨-, he⟩ | he
    · exact .inr ⟨txId, d, List.mem_singleton_self _, hd⟩
    · exact .inl ⟨_, rfl, by rw [he]; exact hopen.congr rfl rfl rfl rfl⟩
    · exact .inl ⟨_, rfl, by rw [he]; exact hopen⟩
  | @refund c₁ t h head hre hpast htick =>
    cases hc
    -- only a responder that waits is refundable, and its own leg has not timed out
    exfalso
    rcases hopen.phase with ⟨hwait, -⟩ | ⟨hp, -⟩
    · have hown : c.swap.ownTimeout = agreed.terms.counterpartyTimeout := by
        rw [← hterms, Swap.ownTimeout, show c.swap.role = .responder from hopen.role]
      rw [hown] at hpast
      exact UInt64.not_lt.mpr ((htime head htick).2 hwait) hpast
    · exact hre.2 ⟨hopen.role, hp⟩
  | @forfeit c₁ t h head hr hp hpast htick =>
    cases hc
    rw [hterms] at hpast
    exact absurd hpast (UInt64.not_lt.mpr (htime head htick).1)
  | drop hl =>
    cases hc
    rcases hopen.locked with hp | hp <;> rw [hp] at hl <;> cases hl

theorem protected_step {a b : Slot} (hs : SlotStep cfg now id a b) (hw : a.WF cfg id)
    (htime : ∀ head, now = some head → head ≤ agreed.terms.nimTimeout ∧
      (waiting → head ≤ agreed.terms.counterpartyTimeout))
    (ha : Protected cfg id waiting agreed base a) : Protected cfg id waiting agreed base b := by
  obtain ⟨new, he, ⟨c, hc, hopen⟩ | hseen⟩ := ha
  · obtain ⟨ext, hext, hafter⟩ := claimOpen_step hs hw htime hc hopen
    refine ⟨ext ++ new, by rw [hext, he, List.append_assoc], hafter.imp_right fun hse => ?_⟩
    obtain ⟨tx, depth, hm, hd⟩ := hse
    exact ⟨tx, depth, List.mem_append_left _ hm, hd⟩
  · obtain ⟨ext, hext⟩ := SlotSteps.hist_suffix (.single hs)
    exact ⟨ext ++ new, by rw [← hext, he, List.append_assoc], .inr (hseen.append ext)⟩

/-- Every claim an initiator has asked its signer for uses a secret of the swap's hashlock. -/
structure RevealsOpen (cfg : Config) (id : SwapId) (sl : Slot) : Prop where
  settlement : Settlement cfg id sl
  opens : ∀ ctx secret head answer, .builtClaim id .initiator ctx secret head answer ∈ sl.hist →
    cfg.sha256 secret.1 = ctx.hashlock

theorem revealsOpen_step {a b : Slot} (hs : SlotStep cfg now id a b) (ha : RevealsOpen cfg id a) :
    RevealsOpen cfg id b := by
  refine ⟨settlement_step a b hs ha.settlement, ?_⟩
  intro ctx secret head answer hm
  have hreveal : ∀ {c : SwapCoordinator} {t : Bool} {h : List Event} {s' : Hash} {head' : UInt64}
      {answer' : Option (Bytes × Hash)}, a = ⟨some c, t, h⟩ → c.role = .initiator →
      c.secret = some s' → .builtClaim id .initiator ctx secret head answer ∈
        .builtClaim id c.role c.ctx s' head' answer' :: h → cfg.sha256 secret.1 = ctx.hashlock := by
    intro c t h s' head' answer' hae hr hk hm
    rw [hae] at ha
    rcases List.mem_cons.mp hm with he | hm
    · obtain ⟨-, -, rfl, rfl, -, -⟩ := Event.builtClaim.inj he
      obtain ⟨s'', hk', ho⟩ := ha.settlement.secret c rfl hr
      rw [Option.some.inj (hk.symm.trans hk')]
      exact ho
    · exact ha.opens ctx secret head answer hm
  cases hs with
  | revealRefused hr hp hd hk => exact hreveal rfl hr hk hm
  | reveal hr hp hd hk => exact hreveal rfl hr hk hm
  | @claim c t h head' secret' answer' hr hp hu hk =>
    rcases List.mem_cons.mp hm with he | hm
    · have hrole := (Event.builtClaim.inj he).2.1
      rw [hr] at hrole
      cases hrole
    · exact ha.opens ctx secret head answer hm
  | learnSecret | refund | forfeit | drop => exact ha.opens ctx secret head answer hm
  | _ =>
    rcases List.mem_cons.mp hm with he | hm
    · cases he
    · exact ha.opens ctx secret head answer hm

/-- A claim is recorded only once a responder has learned the secret. -/
def ClaimsAfterReveal (sl : Slot) : Prop :=
  ∀ c, sl.coord = some c → c.claimTx ≠ none → c.role = .responder ∧ afterReveal c.phase = true

theorem ClaimsAfterReveal.none {c : SwapCoordinator} {t : Bool} {h : List Event}
    (hg : ClaimsAfterReveal ⟨some c, t, h⟩) (hn : ¬ (c.role = .responder ∧ afterReveal c.phase = true)) :
    c.claimTx = none :=
  not_not.mp fun h => hn (hg c rfl h)

/-- A coordinator that has recorded no claim, and still has not. -/
theorem claimsAfterReveal_of_none {c : SwapCoordinator} {t : Bool} {h : List Event}
    (hn : c.claimTx = none) : ClaimsAfterReveal ⟨some c, t, h⟩ := by
  intro c' hc' hne
  cases hc'
  exact absurd hn hne

theorem claimsAfterReveal_step {a b : Slot} (hs : SlotStep cfg now id a b) (ha : ClaimsAfterReveal a) :
    ClaimsAfterReveal b := by
  cases hs with
  | createInitiator fresh => exact claimsAfterReveal_of_none fresh.claimTx
  | createResponder fresh => exact claimsAfterReveal_of_none fresh.claimTx
  | accept hph hsafe =>
    refine claimsAfterReveal_of_none (ha.none ?_)
    rintro ⟨-, hp⟩
    rw [hph] at hp
    cases hp
  | noteWire | notePeer | observe | fundRefused | revealRefused => exact ha
  | observeFunded haw hfu =>
    exact claimsAfterReveal_of_none (ha.none (not_afterReveal_of_awaits haw))
  | fund hfd hsafe => exact claimsAfterReveal_of_none (ha.none (not_afterReveal_of_fundable hfd))
  | reveal hr hp hd hk =>
    refine claimsAfterReveal_of_none (ha.none ?_)
    rintro ⟨hr', -⟩
    rw [hr] at hr'
    cases hr'
  | learnSecret hr hp ho =>
    intro c' hc' hne
    cases hc'
    exact ⟨hr, rfl⟩
  | @claim c t h head secret answer hr hp hu hk =>
    intro c' hc' hne
    cases hc'
    refine ⟨hr, ?_⟩
    rw [show SwapCoordinator.phase { c with claimTx := answer.map (·.2) } = c.phase from rfl, hp]
    rfl
  | @observeClaim c t h txId obs hr hp ht =>
    intro c' hc' hne
    cases hc'
    rcases applyClaimObservation_cases c (cfg.need .nim) obs hp with ⟨d, -, -, he⟩ | ⟨-, he⟩ | he
    · rw [he]
      exact ⟨hr, rfl⟩
    · rw [he] at hne
      exact absurd rfl hne
    · rw [he]
      exact ⟨hr, by rw [hp]; rfl⟩
  | refund hre hpast htick =>
    exact claimsAfterReveal_of_none (ha.none (not_afterReveal_of_refundable hre))
  | forfeit hr hp hpast =>
    intro c' hc' hne
    cases hc'
    exact ⟨hr, rfl⟩
  | drop hl =>
    intro c' hc'
    cases hc'

end slot

/-! ### Runs of a session -/

namespace Session

/-- RUN: calls that remove no coordinator by hand, and tick before the timeouts, keep a claim
    protected. -/
theorem protected_exec {env : Env} {s : Session} (hs : s.WF env) {id : SwapId} {waiting : Prop}
    {agreed : SwapContext} {base : List Event} {ops : List Op}
    (hops : ∀ o ∈ ops, (∀ k, o ≠ .remove k) ∧ ∀ head, o.now = some head →
      head ≤ agreed.terms.nimTimeout ∧ (waiting → head ≤ agreed.terms.counterpartyTimeout))
    (h : Protected (s.config env) id waiting agreed base (s.slot id)) :
    Protected (s.config env) id waiting agreed base ((s.exec env ops).slot id) := by
  refine (Run.exec_invariant (step env)
    (I := fun s' => s'.config env = s.config env ∧ s'.WF env ∧
      Protected (s.config env) id waiting agreed base (s'.slot id))
    (fun s' o ⟨hc, hw, hp⟩ ho => ?_) ops s ⟨rfl, hs, h⟩
    (Run.along_of_forall_mem _ ops s fun o ho _ => hops o ho)).2.2
  obtain ⟨hremove, htime⟩ := ho
  have hm := step_moves hw o hremove
  refine ⟨hm.config.trans hc, hm.wf hw, ?_⟩
  have hsteps := hm.slots id
  rw [hc] at hsteps
  have hwf : (s'.slot id).WF (s.config env) id := hc ▸ hw id
  exact (SlotSteps.preserves (I := fun sl => sl.WF (s.config env) id ∧
      Protected (s.config env) id waiting agreed base sl)
    (fun _ _ hstep ⟨hwf', hp'⟩ => ⟨hstep.wf hwf', protected_step hstep hwf' htime hp'⟩)
    hsteps ⟨hwf, hp⟩).2

/-- RUN: an initiator claims with the secret of its hashlock. -/
theorem revealsOpen_run (env : Env) {s₀ : Session} (h₀ : s₀.Fresh) (ops : List Op) {id : SwapId}
    {ctx : SwapContext} {secret : Hash} {head : UInt64} {answer : Option (Bytes × Hash)}
    (hm : .builtClaim id .initiator ctx secret head answer ∈ (s₀.exec env ops).trace) :
    env.sha256 secret.1 = ctx.hashlock := by
  have hinv : RevealsOpen (s₀.config env) id ((s₀.exec env ops).slot id) := by
    refine SlotInvariant.run (fun _ => ⟨fun a b hs _ ha => revealsOpen_step hs ha, fun a ha => ?_⟩)
      (h₀.wf env) ?_ ops
    · exact ⟨⟨fun d hd => (by cases hd), fun d hd => by cases hd⟩, ha.opens⟩
    · rw [h₀.slot id]
      exact ⟨⟨fun d hd => (by cases hd), fun d hd => by cases hd⟩, by simp⟩
  exact hinv.opens ctx secret head answer (List.mem_filter.mpr ⟨hm, by simp [Event.swapId]⟩)

/-- RUN: a responder that has not heard the reveal has recorded no claim. -/
theorem claimTx_of_bothFunded (env : Env) {s₀ : Session} (h₀ : s₀.Fresh) (ops : List Op) {id : SwapId}
    {c : SwapCoordinator} (hc : (s₀.exec env ops).coordinators.lookup id = some c)
    (hp : c.phase = .bothFunded) : c.claimTx = none := by
  have hinv : ClaimsAfterReveal ((s₀.exec env ops).slot id) := by
    refine SlotInvariant.run (fun _ => ⟨fun a b hs _ ha => claimsAfterReveal_step hs ha, fun a _ => ?_⟩)
      (h₀.wf env) ?_ ops
    · intro d hd
      cases hd
    · rw [h₀.slot id]
      intro d hd
      cases hd
  by_contra hne
  have hafter := (hinv c hc hne).2
  rw [hp] at hafter
  cases hafter

/-! ### The reveal arrives -/

/-- A consult leaves a revealed responder revealed or settles it, and forgets nothing. -/
theorem confirmClaim_revealed (env : Env) {s : Session} {id : SwapId} {c : SwapCoordinator}
    (hc : s.coordinators.lookup id = some c) (hr : c.role = .responder) (hp : c.phase = .revealed) :
    (∃ c', (s.confirmClaim env id).2.coordinators.lookup id = some c' ∧ c'.ctx = c.ctx ∧
      c'.secret = c.secret ∧ (c'.phase = .revealed ∨ c'.phase = .settled)) ∧
    s.trace ⊆ (s.confirmClaim env id).2.trace := by
  cases ht : c.claimTx with
  | none =>
    rw [confirmClaim_of_no_claim env hc (.inr ht)]
    exact ⟨⟨c, hc, rfl, rfl, .inl hp⟩, fun _ h => h⟩
  | some tx =>
    rw [confirmClaim_lookup env hc hr hp ht]
    refine ⟨⟨applyClaimObservation c (s.requiredDepth .nim) (env.observeClaim s.trace .nim tx), ?_, ?_⟩,
      fun _ h => List.mem_cons_of_mem _ h⟩
    · simp only [noteVerify, log, setCoord, Table.lookup_insert_iff, if_true]
    · rcases applyClaimObservation_cases c (s.requiredDepth .nim) (env.observeClaim s.trace .nim tx) hp
        with ⟨d, -, -, he⟩ | ⟨-, he⟩ | he
      · rw [he]
        exact ⟨rfl, rfl, .inr rfl⟩
      · rw [he]
        exact ⟨rfl, rfl, .inl hp⟩
      · rw [he]
        exact ⟨rfl, rfl, .inl hp⟩

/-- The secret of `c` is known and its claim was asked from the signer. -/
def Claims (s : Session) (id : SwapId) (agreed : SwapContext) (secret : Hash) (head : UInt64) : Prop :=
  (∃ c, s.coordinators.lookup id = some c ∧ c.ctx = agreed ∧ c.secret = some secret ∧
    (c.phase = .revealed ∨ c.phase = .settled)) ∧
  ∃ answer, .builtClaim id .responder agreed secret head answer ∈ s.trace

/-- A revealed responder with no claim recorded asks the signer for it. -/
theorem attemptResponderClaim_claims (env : Env) {s : Session} {id : SwapId} {c : SwapCoordinator}
    {secret : Hash} (head : UInt64) (hc : s.coordinators.lookup id = some c) (hr : c.role = .responder)
    (hp : c.phase = .revealed) (hu : c.claimTx = none) (hk : c.secret = some secret) :
    (s.attemptResponderClaim env id c head).Claims id c.ctx secret head := by
  have hbroadcast : ∃ c₁ answer, (s.broadcastClaim env id c head).coordinators.lookup id = some c₁ ∧
      c₁.role = c.role ∧ c₁.ctx = c.ctx ∧ c₁.phase = c.phase ∧ c₁.secret = c.secret ∧
      .builtClaim id .responder c.ctx secret head answer ∈ (s.broadcastClaim env id c head).trace := by
    unfold broadcastClaim
    rw [SwapCoordinator.claimBroadcast, hu, hk]
    dsimp only
    cases ha : env.buildClaim s.trace c.ctx secret with
    | none => exact ⟨c, none, hc, rfl, rfl, rfl, hk, by rw [← hr]; exact List.mem_cons_self⟩
    | some tx =>
      refine ⟨c.noteClaimBroadcast tx.2, some tx, ?_, rfl, rfl, rfl, hk, ?_⟩
      · simp only [setCoord, Table.lookup_insert_iff, if_true]
      · rw [← hr]
        exact List.mem_cons_self
  obtain ⟨c₁, answer, hc₁, hr₁, hx₁, hp₁, hk₁, hm⟩ := hbroadcast
  obtain ⟨⟨c₂, hc₂, hx₂, hk₂, hp₂⟩, hsub⟩ :=
    confirmClaim_revealed env hc₁ (hr₁.trans hr) (hp₁.trans hp)
  exact ⟨⟨c₂, hc₂, hx₂.trans hx₁, (hk₂.trans hk₁).trans hk, hp₂⟩, answer, hsub hm⟩

/-- A reveal that opens the hashlock is accepted by a responder that waits for it. -/
theorem driveSwap_reveal (env : Env) {s : Session} {c : SwapCoordinator} {secret : Hash}
    {payload : Bytes} {e : SwapEnvelope} (head : UInt64) (he : decodeSwap .preimageReveal payload = .ok e)
    (hs : revealedSecret e = some secret) (hc : s.coordinators.lookup e.swapId = some c)
    (hr : c.role = .responder) (hp : c.phase = .bothFunded) (hu : c.claimTx = none)
    (ho : env.sha256 secret.1 = c.ctx.hashlock) :
    (s.driveSwap env .preimageReveal payload head).2.Claims e.swapId c.ctx secret head := by
  have hnote : s.notePeer .preimageReveal e = s := by
    unfold notePeer
    split_ifs <;> rfl
  have hlearn : s.learnSecret env .preimageReveal e =
      s.setCoord e.swapId { c.withPhase .revealed with secret := some secret } := by
    rcases c.recvReveal_cases env.toCrypto secret with ⟨-, -, -, hrev⟩ | ⟨hn, -⟩
    · simp only [learnSecret, hs, hc, hrev]
    · exact absurd ⟨hr, hp, ho⟩ hn
  have hself : (s.setCoord e.swapId { c.withPhase .revealed with secret := some secret }).coordinators.lookup
      e.swapId = some { c.withPhase .revealed with secret := some secret } := by
    simp only [setCoord, Table.lookup_insert_iff, if_true]
  have hclaims := attemptResponderClaim_claims env head hself hr rfl hu rfl
  simp only [driveSwap, he, hnote, hlearn, drivePhaseAction, hself]
  rw [show SwapCoordinator.role { c.withPhase .revealed with secret := some secret } = .responder from hr]
  exact hclaims

end Session

/-- The packet handler takes such a reveal from any sender. -/
theorem Worker.reveal_claims (env : Env) {w : Worker} {c : SwapCoordinator} {secret : Hash}
    {payload : Bytes} {e : SwapEnvelope} (sender : PeerId)
    (he : decodeSwap .preimageReveal payload = .ok e) (hs : Session.revealedSecret e = some secret)
    (hc : w.session.coordinators.lookup e.swapId = some c) (hr : c.role = .responder)
    (hp : c.phase = .bothFunded) (hu : c.claimTx = none) (ho : env.sha256 secret.1 = c.ctx.hashlock) :
    (w.step env (.packet .swapPreimageReveal sender payload)).session.Claims e.swapId c.ctx secret
      w.head := by
  have hroute : w.session.onMessage env .preimageReveal payload w.head = (.ok [], w.session) := by
    simp only [Session.onMessage, he, hc]
  have hdrive := Session.driveSwap_reveal env w.head he hs hc hr hp hu ho
  rw [step_session]
  simp only [calls, routes, SwapKind.fromMessageType, reduceCtorEq, if_false, decide_false,
    Bool.false_and, Bool.false_eq_true, Option.elim_some, packetCalls, hroute, he]
  rw [Session.exec_cons, Session.exec_cons, exec_recordCalls,
    show w.session.step env (.message .preimageReveal payload w.head) = w.session by
      simp only [Session.step, hroute],
    show w.session.step env (.driveSwap .preimageReveal payload w.head) =
      (w.session.driveSwap env .preimageReveal payload w.head).2 from rfl]
  unfold Session.recordLast
  split <;> exact hdrive

/-! ### Runs of the net -/

namespace Net

/-- The initiator's claim went out before `T_B` and made `secret` public, for the hashlock of the
    responder's swap. -/
def Revealed (n : Net) (id : SwapId) (agreed : SwapContext) (secret : Hash) : Prop :=
  ∃ ctx head tx,
    .builtClaim id .initiator ctx secret head (some tx) ∈ (n.worker .initiator).session.trace ∧
    ctx.hashlock = agreed.hashlock ∧ head < agreed.terms.counterpartyTimeout

/-- The responder has locked its leg and has not heard the reveal. -/
structure Awaits (n : Net) (id : SwapId) (c : SwapCoordinator) : Prop where
  held : (n.worker .responder).session.coordinators.lookup id = some c
  role : c.role = .responder
  phase : c.phase = .bothFunded

/-- A step other than a maintenance tick of the responder that finds it waiting between `T_B` and `T_A`
    for a reveal that is out already. -/
def Spares (id : SwapId) (n : Net) (op : NetOp) : Prop :=
  op = .gcTick .responder → ∀ c secret, n.Awaits id c → n.Revealed id c.ctx secret →
    (n.worker .responder).head ≤ c.ctx.terms.counterpartyTimeout ∨
      c.ctx.terms.nimTimeout < (n.worker .responder).head

theorem revealed_step {E : NetEnv} {n : Net} {id : SwapId} {agreed : SwapContext} {secret : Hash}
    (hw : (n.worker .initiator).session.WF (E.at .initiator)) (h : n.Revealed id agreed secret)
    (op : NetOp) : (n.step E op).Revealed id agreed secret := by
  obtain ⟨ctx, head, tx, hm, hx, ht⟩ := h
  refine ⟨ctx, head, tx, ?_, hx, ht⟩
  rcases n.step_worker E op .initiator with he | ⟨o, -, -, he⟩
  · rw [he]
    exact hm
  · rw [he, Worker.step_session]
    obtain ⟨new, hnew⟩ := Session.exec_trace_grows hw ((n.worker .initiator).calls (E.at .initiator) o)
    rw [hnew]
    exact List.mem_append_right _ hm

theorem step_config_wf {E : NetEnv} {n : Net} {r : SwapRole} (hw : (n.worker r).session.WF (E.at r))
    (op : NetOp) :
    ((n.step E op).worker r).session.config (E.at r) = (n.worker r).session.config (E.at r) ∧
      ((n.step E op).worker r).session.WF (E.at r) := by
  rcases n.step_worker E op r with he | ⟨o, -, -, he⟩
  · rw [he]
    exact ⟨rfl, hw⟩
  · rw [he, Worker.step_session]
    exact Session.exec_config_wf hw _

/-- A step that spares the claim keeps it protected. -/
theorem protected_netStep {E : NetEnv} {n : Net} {id : SwapId} {agreed : SwapContext} {secret : Hash}
    {base : List Event} {op : NetOp} (hw : (n.worker .responder).session.WF (E.at .responder))
    (hrev : n.Revealed id agreed secret) (hop : Spares id n op)
    (hhead : (n.worker .responder).head ≤ agreed.terms.nimTimeout)
    (h : Protected ((n.worker .responder).session.config (E.at .responder)) id True agreed base
      ((n.worker .responder).session.slot id)) :
    Protected ((n.worker .responder).session.config (E.at .responder)) id True agreed base
      (((n.step E op).worker .responder).session.slot id) := by
  rcases n.step_worker E op .responder with he | ⟨o, ho, hnode, he⟩
  · rw [he]
    exact h
  rw [he, Worker.step_session]
  -- the tick meets a responder that waits before `T_B`, or one that does not wait at all
  obtain ⟨waiting, hprot, htime⟩ : ∃ waiting : Prop,
      Protected ((n.worker .responder).session.config (E.at .responder)) id waiting agreed base
        ((n.worker .responder).session.slot id) ∧
      ∀ head, (n.worker .responder).ticksAt o = some head → head ≤ agreed.terms.nimTimeout ∧
        (waiting → head ≤ agreed.terms.counterpartyTimeout) := by
    cases o with
    | gcTick =>
      have hgc : op = .gcTick .responder := by
        cases op with
        | gcTick node =>
          cases hnode
          rfl
        | deliver node i sender =>
          obtain ⟨m, -, hm⟩ := Option.map_eq_some_iff.mp ho
          cases hm
        | _ => cases ho
      obtain ⟨new, hnew, ⟨c, hc, hopen⟩ | hseen⟩ := h
      · rcases hopen.phase with ⟨-, hp⟩ | hp
        · have hdue := hop hgc c secret ⟨hc, hopen.role, hp⟩ (by rw [hopen.ctx]; exact hrev)
          rw [hopen.ctx] at hdue
          refine ⟨True, ⟨new, hnew, .inl ⟨c, hc, hopen⟩⟩, fun head hh => ?_⟩
          cases hh
          exact ⟨hhead, fun _ => hdue.resolve_right (UInt64.not_lt.mpr hhead)⟩
        · refine ⟨False, ⟨new, hnew, .inl ⟨c, hc, hopen.role, hopen.ctx, .inr hp⟩⟩, fun head hh => ?_⟩
          cases hh
          exact ⟨hhead, False.elim⟩
      · refine ⟨False, ⟨new, hnew, .inr hseen⟩, fun head hh => ?_⟩
        cases hh
        exact ⟨hhead, False.elim⟩
    | _ => exact ⟨True, h, fun head hh => by cases hh⟩
  refine (Session.protected_exec hw (fun o' ho' => ?_) hprot).mono fun _ => trivial
  obtain ⟨hremove, hnow⟩ := Worker.now_of_mem_calls ho'
  exact ⟨hremove, fun head hh => htime head (hnow head hh)⟩

/-- RUN: along steps that spare it, a claim that is revealed stays protected until `T_A`. -/
theorem protected_netExec {E : NetEnv} {n : Net} {id : SwapId} {agreed : SwapContext} {secret : Hash}
    {base : List Event} (hw : ∀ r, (n.worker r).session.WF (E.at r)) (hrev : n.Revealed id agreed secret)
    (h : Protected ((n.worker .responder).session.config (E.at .responder)) id True agreed base
      ((n.worker .responder).session.slot id))
    {ops : List NetOp} (hops : Run.Along (step E) (Spares id) n ops)
    (hhead : ((n.exec E ops).worker .responder).head ≤ agreed.terms.nimTimeout) :
    Protected ((n.worker .responder).session.config (E.at .responder)) id True agreed base
      (((n.exec E ops).worker .responder).session.slot id) := by
  refine (Run.exec_invariant (step E)
    (I := fun n' => (∀ r, (n'.worker r).session.WF (E.at r)) ∧
      (n'.worker .responder).session.config (E.at .responder) =
        (n.worker .responder).session.config (E.at .responder) ∧ n'.Revealed id agreed secret ∧
      ((n'.worker .responder).head ≤ agreed.terms.nimTimeout →
        Protected ((n.worker .responder).session.config (E.at .responder)) id True agreed base
          ((n'.worker .responder).session.slot id)))
    (fun n' op ⟨hw', hc, hr, hp⟩ hop => ?_) ops n ⟨hw, rfl, hrev, fun _ => h⟩ hops).2.2.2 hhead
  refine ⟨fun r => (step_config_wf (hw' r) op).2, (step_config_wf (hw' .responder) op).1.trans hc,
    revealed_step (hw' .initiator) hr op, fun hle => ?_⟩
  have hle' := UInt64.le_trans (n'.head_le_step E op .responder) hle
  rw [← hc] at hp ⊢
  exact protected_netStep (hw' .responder) hr hop hle' (hp hle')

/-- CORRECT: take any run of the two nodes, with any loss, delay, duplication and reordering of what they
    flood and any beacons, in which no maintenance tick finds the responder still waiting between `T_B`
    and `T_A` for a reveal that is out. If the reveal went out in time while the responder's leg was
    locked, then at every later head up to `T_A` the responder still holds the swap, unrefunded: it waits,
    and takes the reveal whenever it arrives, or it holds the secret; unless its claim on the NIM leg has
    been seen through by then. -/
theorem revealed_claim_protected (E : NetEnv) (n₀ : Net) (h₀ : n₀.Fresh) (ops₁ ops₂ : List NetOp)
    (id : SwapId) (c : SwapCoordinator) (secret : Hash)
    (hrun : Run.Along (step E) (Spares id) n₀ (ops₁ ++ ops₂))
    (hwait : (n₀.exec E ops₁).Awaits id c) (hrev : (n₀.exec E ops₁).Revealed id c.ctx secret)
    (hhead : ((n₀.exec E (ops₁ ++ ops₂)).worker .responder).head ≤ c.ctx.terms.nimTimeout) :
    let before := ((n₀.exec E ops₁).worker .responder).session
    let w := (n₀.exec E (ops₁ ++ ops₂)).worker .responder
    let cfg := (n₀.worker .responder).session.config (E.at .responder)
    (∃ c', w.session.coordinators.lookup id = some c' ∧ ClaimOpen cfg True c.ctx c' ∧
      (c'.phase = .bothFunded → ∀ sender payload e, decodeSwap .preimageReveal payload = .ok e →
        e.swapId = id → Session.revealedSecret e = some secret →
        (w.step (E.at .responder) (.packet .swapPreimageReveal sender payload)).session.Claims id c.ctx
          secret w.head)) ∨
    ∃ new, (w.session.slot id).hist = new ++ (before.slot id).hist ∧ ClaimSeen cfg id new := by
  intro before w cfg
  have hwf : ∀ (ops : List NetOp) (r : SwapRole),
      ((n₀.exec E ops).worker r).session.config (E.at r) = (n₀.worker r).session.config (E.at r) ∧
      ((n₀.exec E ops).worker r).session.WF (E.at r) := by
    intro ops r
    obtain ⟨calls, he⟩ := exec_session E r ops n₀
    rw [he]
    exact Session.exec_config_wf ((h₀ r).wf _) calls
  have hsplit : n₀.exec E (ops₁ ++ ops₂) = (n₀.exec E ops₁).exec E ops₂ :=
    Run.exec_append (step E) n₀ ops₁ ops₂
  have hopens : E.crypto.sha256 secret.1 = c.ctx.hashlock := by
    obtain ⟨ctx, head, tx, hm, hx, -⟩ := hrev
    obtain ⟨calls, he⟩ := exec_session E .initiator ops₁ n₀
    rw [he] at hm
    rw [← hx]
    exact Session.revealsOpen_run _ (h₀ .initiator) calls hm
  have hstart : Protected cfg id True c.ctx (before.slot id).hist (before.slot id) :=
    ⟨[], rfl, .inl ⟨c, hwait.held, hwait.role, rfl, .inl ⟨trivial, hwait.phase⟩⟩⟩
  have hprot : Protected cfg id True c.ctx (before.slot id).hist (w.session.slot id) := by
    have hcfg : before.config (E.at .responder) = cfg := (hwf ops₁ .responder).1
    rw [← hcfg] at hstart ⊢
    have hrest := ((Run.along_append (step E) (Spares id) ops₁ ops₂ n₀).mp hrun).2
    rw [hsplit] at hhead
    simp only [w, hsplit]
    exact protected_netExec (fun r => (hwf ops₁ r).2) hrev hstart hrest hhead
  obtain ⟨new, hnew, ⟨c', hc', hopen⟩ | hseen⟩ := hprot
  · refine .inl ⟨c', hc', hopen, fun hp sender payload e he hid hs => ?_⟩
    subst hid
    have hunclaimed : c'.claimTx = none := by
      obtain ⟨calls, hcalls⟩ := exec_session E .responder (ops₁ ++ ops₂) n₀
      have hheld : ((n₀.worker .responder).session.exec (E.at .responder) calls).coordinators.lookup
          e.swapId = some c' := by
        rw [← hcalls]
        exact hc'
      exact Session.claimTx_of_bothFunded (E.at .responder) (h₀ .responder) calls hheld hp
    rw [← hopen.ctx] at hopens ⊢
    exact Worker.reveal_claims (E.at .responder) sender he hs hc' hopen.role hp hunclaimed hopens
  · exact .inr ⟨new, hnew, hseen⟩

/-! ### The sample net -/

/-- The sample swap once the initiator has claimed: the responder waits, and the secret is out. -/
theorem sample_awaits : ∃ c, (Sample.net.exec Sample.netEnv Sample.netRun).Awaits Sample.swapId c ∧
    (Sample.net.exec Sample.netEnv Sample.netRun).Revealed Sample.swapId c.ctx Sample.secret ∧
    c.ctx.terms = ⟨10000, 5000⟩ := by
  have hrun : (((Sample.net.exec Sample.netEnv Sample.netRun).worker .responder).session.coordinators.lookup
      Sample.swapId).any (fun c => decide (c.role = .responder ∧ c.phase = .bothFunded ∧
        c.ctx.hashlock = Sample.hashlock ∧ c.ctx.terms = ⟨10000, 5000⟩)) = true := by
    decide +kernel
  have hclaim : .builtClaim Sample.swapId .initiator
      (Session.initiatorContext Sample.intent Sample.swapId Sample.hashlock 0) Sample.secret 0
      (some (Sample.secret.1, simTxId Sample.swapId 0xF3)) ∈
        ((Sample.net.exec Sample.netEnv Sample.netRun).worker .initiator).session.trace := by
    decide +kernel
  obtain ⟨c, hc, hph⟩ := (Option.any_eq_true _ _).mp hrun
  obtain ⟨hr, hp, hh, ht⟩ := of_decide_eq_true hph
  refine ⟨c, ⟨hc, hr, hp⟩, ⟨_, _, _, hclaim, hh.symm, ?_⟩, ht⟩
  rw [ht]
  decide

/-- The responder hears `T_B` itself and ticks. -/
def atDeadline : List NetOp := [.beacon .responder 5000, .gcTick .responder]

/-- The chain was asked about a claim. -/
def isClaimConsult : Event → Bool
  | .observedClaim .. => true
  | _ => false

/-- The sample responder ticks at `T_B` before the reveal arrives, and takes it then. -/
theorem sample_claim_protected :
    ∃ c, (Sample.net.exec Sample.netEnv Sample.netRun).Awaits Sample.swapId c ∧
      (Sample.net.exec Sample.netEnv Sample.netRun).Revealed Sample.swapId c.ctx Sample.secret ∧
      (((Sample.net.exec Sample.netEnv (Sample.netRun ++ atDeadline)).worker .responder).step
        (Sample.netEnv.at .responder)
        (.packet .swapPreimageReveal Sample.alicePeer Sample.reveal)).session.Claims Sample.swapId c.ctx
        Sample.secret 5000 := by
  obtain ⟨c, hwait, hrev, hterms⟩ := sample_awaits
  have hstate : ((Sample.net.exec Sample.netEnv (Sample.netRun ++ atDeadline)).worker .responder).head =
        5000 ∧
      ((Sample.net.exec Sample.netEnv (Sample.netRun ++ [.beacon .responder 5000])).worker
        .responder).head = 5000 ∧
      (((Sample.net.exec Sample.netEnv (Sample.netRun ++ [.beacon .responder 5000])).worker
        .responder).session.coordinators.lookup Sample.swapId).any
        (fun c => decide (c.ctx.terms = ⟨10000, 5000⟩)) = true ∧
      (((Sample.net.exec Sample.netEnv (Sample.netRun ++ atDeadline)).worker
        .responder).session.coordinators.lookup Sample.swapId).any
        (fun c => decide (c.phase = .bothFunded)) = true ∧
      (((Sample.net.exec Sample.netEnv (Sample.netRun ++ atDeadline)).worker .responder).session.slot
        Sample.swapId).hist.all (fun e => !isClaimConsult e) = true := by
    decide +kernel
  obtain ⟨hhead, hbefore, hheld, hwaits, hunseen⟩ := hstate
  have hlast : Spares Sample.swapId
      (Sample.net.exec Sample.netEnv (Sample.netRun ++ [.beacon .responder 5000])) (.gcTick .responder) := by
    revert hbefore hheld
    generalize Sample.net.exec Sample.netEnv (Sample.netRun ++ [.beacon .responder 5000]) = n
    intro hbefore hheld _ c' secret hawaits _
    obtain ⟨c'', hc'', ht⟩ := (Option.any_eq_true _ _).mp hheld
    obtain rfl : c'' = c' := Option.some.inj (hc''.symm.trans hawaits.held)
    rw [hbefore, of_decide_eq_true ht]
    exact .inl (UInt64.le_refl _)
  have hspares : Run.Along (step Sample.netEnv) (Spares Sample.swapId) Sample.net
      (Sample.netRun ++ atDeadline) := by
    rw [show Sample.netRun ++ atDeadline =
      (Sample.netRun ++ [.beacon .responder 5000]) ++ [.gcTick .responder] by simp [atDeadline]]
    refine (Run.along_append _ _ _ _ _).mpr ⟨?_, hlast, trivial⟩
    refine Run.along_of_forall_mem _ _ _ fun op hop n hgc => ?_
    rw [hgc] at hop
    simp [Sample.netRun] at hop
  have hdecode : decodeSwap .preimageReveal Sample.reveal =
      .ok (txEnvelope Sample.swapId .counterparty Sample.secret.1 (simTxId Sample.swapId 0xF3)) := by
    decide +kernel
  refine ⟨c, hwait, hrev, ?_⟩
  rcases revealed_claim_protected Sample.netEnv Sample.net Sample.net_fresh Sample.netRun atDeadline
      Sample.swapId c Sample.secret hspares hwait hrev (by rw [hhead, hterms]; decide) with
    ⟨c', hc', -, haccept⟩ | ⟨new, hnew, tx, depth, hm, -⟩
  · obtain ⟨c'', hc'', hp⟩ := (Option.any_eq_true _ _).mp hwaits
    obtain rfl : c'' = c' := Option.some.inj (hc''.symm.trans hc')
    rw [← hhead]
    exact haccept (of_decide_eq_true hp) Sample.alicePeer Sample.reveal _ hdecode rfl rfl
  · have hmem : .observedClaim Sample.swapId tx (.included depth) ∈
        (((Sample.net.exec Sample.netEnv (Sample.netRun ++ atDeadline)).worker .responder).session.slot
          Sample.swapId).hist := by
      rw [hnew]
      exact List.mem_append_left _ hm
    cases List.all_eq_true.mp hunseen _ hmem

/-- One block later the same tick takes the claim away: at head 5001, long before `T_A` = 10000, the
    responder has dropped the swap as refunded, and the reveal that is delivered next is ignored. No
    claim is ever asked for, while the initiator's claim on the responder's leg is out. -/
theorem refunded_before_reveal_arrives :
    (∃ c, (Sample.net.exec Sample.netEnv Sample.netRun).Awaits Sample.swapId c ∧
      (Sample.net.exec Sample.netEnv Sample.netRun).Revealed Sample.swapId c.ctx Sample.secret ∧
      c.ctx.terms = ⟨10000, 5000⟩) ∧
    (let n := Sample.net.exec Sample.netEnv
        (Sample.netRun ++ [.beacon .responder 5001, .gcTick .responder])
      let n' := n.step Sample.netEnv (.deliver .responder 5 Sample.alicePeer)
      (n.worker .responder).head = 5001 ∧
      (n.worker .responder).session.coordinators.lookup Sample.swapId = none ∧
      n.sent[5]? = some (.swapPreimageReveal, Sample.reveal) ∧
      (n'.worker .responder).session.coordinators.lookup Sample.swapId = none ∧
      (n'.worker .responder).session.trace.all
        (fun e => match e with | .builtClaim .. => false | _ => true) = true) :=
  ⟨sample_awaits, by decide +kernel⟩

end Net

end Nimmesh
