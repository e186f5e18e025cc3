import Nimmesh.Swap.Signer

/-! @src swap_coordinator.rs swap_session.rs swap_node.rs | name:The funding gates | layer:properties

    Two gates stand before money moves. The first is the chain: no swap reaches a phase that follows
    the counterparty's funding, and neither signer call that depends on it is made, unless the
    verifier reported that very HTLC during the life of the coordinator. The second is the ladder: the
    signer builds a funding before the machine looks at the ladder, so the gate holds only when the
    driver comes in time. -/

namespace Nimmesh
open Word

/-- Within `l` the verifier reported the HTLC that `expect` describes, at the depth of its leg. -/
def Verified (cfg : Config) (id : SwapId) (expect : HtlcExpectation) (l : List Event) : Prop :=
  ∃ obs, Event.observed id expect obs ∈ l ∧ Funded obs expect (cfg.need expect.leg)

theorem Verified.cons {cfg : Config} {id : SwapId} {expect : HtlcExpectation} {l : List Event}
    (h : Verified cfg id expect l) (e : Event) : Verified cfg id expect (e :: l) := by
  obtain ⟨obs, hm, hf⟩ := h
  exact ⟨obs, List.mem_cons_of_mem _ hm, hf⟩

/-- The phases that follow the counterparty's funding. -/
def followsFunding : SwapRole → SwapPhase → Bool
  | .responder, .initiatorFunded | .responder, .selfFunded | .responder, .bothFunded
  | .responder, .revealed | .responder, .settled | .responder, .lost => true
  | .initiator, .bothFunded | .initiator, .revealed | .initiator, .settled => true
  | _, _ => false

/-- What must have been verified before a signer call: a responder's funding rests on the NIM leg, an
    initiator's claim on the counterparty leg. -/
def Grounded (cfg : Config) (id : SwapId) : List Event → Prop
  | [] => True
  | .builtFunding _ .responder ctx _ _ :: h =>
      Verified cfg id (ctx.expectation .responder) (life h) ∧ Grounded cfg id h
  | .builtClaim _ .initiator ctx _ _ _ :: h =>
      Verified cfg id (ctx.expectation .initiator) (life h) ∧ Grounded cfg id h
  | _ :: h => Grounded cfg id h

/-- The invariant of the chain gate. -/
structure ChainGate (cfg : Config) (id : SwapId) (sl : Slot) : Prop where
  coord : ∀ c, sl.coord = some c → followsFunding c.role c.phase = true →
    Verified cfg id c.counterpartyExpectation (life sl.hist)
  calls : Grounded cfg id sl.hist

/-- What a responder that is ready to fund rests on. -/
theorem ChainGate.fundable {cfg : Config} {id : SwapId} {c : SwapCoordinator} {t : Bool} {h : List Event}
    (hg : ChainGate cfg id ⟨some c, t, h⟩) (hfd : c.swap.fundable) (hr : c.role = .responder) :
    Verified cfg id (c.ctx.expectation .responder) (life h) := by
  have hfollows : followsFunding c.role c.phase = true := by
    rcases hfd with ⟨hi, -⟩ | ⟨-, hp⟩
    · rw [show c.swap.role = .responder from hr] at hi
      cases hi
    · rw [hr, show c.phase = .initiatorFunded from hp]
      rfl
  have hv := hg.coord c rfl hfollows
  rwa [SwapCoordinator.counterpartyExpectation, hr] at hv

theorem chainGate_step {cfg : Config} {now : Option UInt64} {id : SwapId} (a b : Slot)
    (hs : SlotStep cfg now id a b)
    (ha : ChainGate cfg id a) : ChainGate cfg id b := by
  have hco := ha.coord
  have hca := ha.calls
  cases hs with
  | createInitiator fresh =>
    refine ⟨fun c hc hf => ?_, hca⟩
    cases hc
    rw [fresh.role, fresh.phase] at hf
    cases hf
  | createResponder fresh =>
    refine ⟨fun c hc hf => ?_, hca⟩
    cases hc
    rw [fresh.role, fresh.phase] at hf
    cases hf
  | accept hp hsafe =>
    refine ⟨fun c hc hf => ?_, hca⟩
    cases hc
    simp only [SwapCoordinator.role, SwapCoordinator.phase, SwapCoordinator.withPhase] at hf
    revert hf
    cases ‹SwapCoordinator›.swap.role <;> simp [followsFunding]
  | noteWire leg wire => exact ⟨fun c hc hf => (hco c hc hf).cons _, hca⟩
  | notePeer peer => exact ⟨fun c hc hf => (hco c hc hf).cons _, hca⟩
  | observe obs => exact ⟨fun c hc hf => (hco c hc hf).cons _, hca⟩
  | observeFunded haw hfu =>
    refine ⟨fun c hc _ => ?_, hca⟩
    cases hc
    exact ⟨_, List.mem_cons_self, hfu⟩
  | @fundRefused c t h head answer hfd hre =>
    refine ⟨fun c hc hf => (hco c hc hf).cons _, ?_⟩
    cases hr : c.role with
    | initiator => exact hca
    | responder => exact ⟨ha.fundable hfd hr, hca⟩
  | @fund c t h head tx hfd hsafe =>
    refine ⟨fun c' hc' hf => ?_, ?_⟩
    · cases hc'
      cases hr : c.role with
      | initiator =>
        simp only [SwapCoordinator.withPhase_role, SwapCoordinator.withPhase_phase, hr] at hf
        cases hf
      | responder =>
        rw [SwapCoordinator.counterpartyExpectation, SwapCoordinator.withPhase_role, hr]
        exact (ha.fundable hfd hr).cons _
    · cases hr : c.role with
      | initiator => exact hca
      | responder => exact ⟨ha.fundable hfd hr, hca⟩
  | @revealRefused c t h head secret hr hp hd hk =>
    have hv := hco c rfl (by rw [hr, hp]; rfl)
    refine ⟨fun c hc hf => (hco c hc hf).cons _, ?_⟩
    rw [SwapCoordinator.counterpartyExpectation, hr] at hv
    rw [hr]
    exact ⟨hv, hca⟩
  | @reveal c t h head secret tx hr hp hd hk =>
    have hv := hco c rfl (by rw [hr, hp]; rfl)
    refine ⟨fun c' hc' _ => ?_, ?_⟩
    · cases hc'
      exact hv.cons _
    · rw [SwapCoordinator.counterpartyExpectation, hr] at hv
      rw [hr]
      exact ⟨hv, hca⟩
  | @learnSecret c t h secret hr hp ho =>
    refine ⟨fun c' hc' _ => ?_, hca⟩
    cases hc'
    exact hco c rfl (by rw [hr, hp]; rfl)
  | @claim c t h head secret answer hr hp hu hk =>
    refine ⟨fun c' hc' hf => ?_, ?_⟩
    · cases hc'
      exact (hco c rfl hf).cons _
    · rw [hr]; exact hca
  | @observeClaim c t h txId obs hr hp ht =>
    refine ⟨fun c' hc' _ => ?_, hca⟩
    have hv := (hco c rfl (by rw [hr, hp]; rfl)).cons (.observedClaim id txId obs)
    cases hc'
    rcases applyClaimObservation_cases c (cfg.need .nim) obs hp with ⟨d, -, -, he⟩ | ⟨-, he⟩ | he <;>
      rw [he] <;> exact hv
  | @refund c t h head hre hpast =>
    refine ⟨fun c' hc' hf => ?_, hca⟩
    cases hc'
    simp only [SwapCoordinator.withPhase_role, SwapCoordinator.withPhase_phase] at hf
    revert hf
    cases c.role <;> simp [followsFunding]
  | @forfeit c t h head hr hp hpast =>
    refine ⟨fun c' hc' _ => ?_, hca⟩
    cases hc'
    exact hco c rfl (by rw [hr, hp]; rfl)
  | drop hl =>
    refine ⟨fun c hc _ => ?_, hca⟩
    cases hc

/-- A swap that is in the phase a verified funding leads to was there before, or has just been
    verified. -/
def EntersVerified (cfg : Config) (id : SwapId) (a b : Slot) (new : List Event) : Prop :=
  ∀ c', b.coord = some c' → c'.phase = SwapCoordinator.observedPhase c'.role →
    (∃ c, a.coord = some c ∧ c.role = c'.role ∧ c.phase = c'.phase ∧
      c.counterpartyExpectation = c'.counterpartyExpectation) ∨
    Verified cfg id c'.counterpartyExpectation new

theorem entersVerified_step {cfg : Config} {now : Option UInt64} {id : SwapId} {a b : Slot}
    (hs : SlotStep cfg now id a b) :
    ∃ new, b.hist = new ++ a.hist ∧ EntersVerified cfg id a b new := by
  cases hs with
  | createInitiator fresh =>
    refine ⟨[_], rfl, fun c' hc' hp => ?_⟩
    cases hc'
    rw [fresh.role, fresh.phase] at hp
    cases hp
  | createResponder fresh =>
    refine ⟨[_], rfl, fun c' hc' hp => ?_⟩
    cases hc'
    rw [fresh.role, fresh.phase] at hp
    cases hp
  | @accept c t h head pk peer hph hsafe =>
    refine ⟨[_], rfl, fun c' hc' hp => ?_⟩
    cases hc'
    have hp' : SwapPhase.accepted = SwapCoordinator.observedPhase c.role := hp
    revert hp'
    cases c.role <;> simp [SwapCoordinator.observedPhase]
  | observeFunded haw hfu =>
    refine ⟨[_], rfl, fun c' hc' hp => .inr ?_⟩
    cases hc'
    exact ⟨_, List.mem_cons_self, hfu⟩
  | @fund c t h head tx hfd hsafe =>
    refine ⟨[_], rfl, fun c' hc' hp => ?_⟩
    cases hc'
    have hp' : SwapCoordinator.fundedPhase c.role = SwapCoordinator.observedPhase c.role := hp
    revert hp'
    cases c.role <;> simp [SwapCoordinator.observedPhase, SwapCoordinator.fundedPhase]
  | @reveal c t h head secret tx hr hph hd hk =>
    refine ⟨[_], rfl, fun c' hc' hp => ?_⟩
    cases hc'
    rw [SwapCoordinator.withPhase_role, hr] at hp
    cases hp
  | @learnSecret c t h secret hr hph ho =>
    refine ⟨[], rfl, fun c' hc' hp => ?_⟩
    cases hc'
    have hp' : SwapPhase.revealed = SwapCoordinator.observedPhase c.role := hp
    rw [hr] at hp'
    cases hp'
  | @claim c t h head secret answer hr hph hu hk =>
    refine ⟨[_], rfl, fun c' hc' hp => .inl ?_⟩
    cases hc'
    exact ⟨c, rfl, rfl, rfl, rfl⟩
  | @observeClaim c t h txId obs hr hph ht =>
    refine ⟨[_], rfl, fun c' hc' hp => .inl ?_⟩
    cases hc'
    rcases applyClaimObservation_cases c (cfg.need .nim) obs hph with ⟨d, -, -, he⟩ | ⟨-, he⟩ | he
    · rw [he, SwapCoordinator.withPhase_role, hr] at hp
      cases hp
    · rw [he]; exact ⟨c, rfl, rfl, rfl, rfl⟩
    · rw [he]; exact ⟨c, rfl, rfl, rfl, rfl⟩
  | @refund c t h head hre hpast =>
    refine ⟨[], rfl, fun c' hc' hp => ?_⟩
    cases hc'
    rw [SwapCoordinator.withPhase_role, SwapCoordinator.withPhase_phase] at hp
    revert hp
    cases c.role <;> simp [SwapCoordinator.observedPhase]
  | @forfeit c t h head hr hph hpast =>
    refine ⟨[], rfl, fun c' hc' hp => ?_⟩
    cases hc'
    rw [SwapCoordinator.withPhase_role, hr] at hp
    cases hp
  | drop hl => exact ⟨[], rfl, fun c' hc' _ => by cases hc'⟩
  | _ => exact ⟨[_], rfl, fun c' hc' _ => .inl ⟨c', hc', rfl, rfl, rfl⟩⟩

theorem entersVerified_steps {cfg : Config} {now : Option UInt64} {id : SwapId} {a b : Slot}
    (h : SlotSteps cfg now id a b) :
    ∃ new, b.hist = new ++ a.hist ∧ EntersVerified cfg id a b new := by
  induction h with
  | refl => exact ⟨[], rfl, fun c' hc' _ => .inl ⟨c', hc', rfl, rfl, rfl⟩⟩
  | tail _ hs ih =>
    obtain ⟨new, he, hv⟩ := ih
    obtain ⟨new', he', hv'⟩ := entersVerified_step hs
    refine ⟨new' ++ new, by rw [he', he, List.append_assoc], fun c' hc' hp => ?_⟩
    rcases hv' c' hc' hp with ⟨c, hc, hro, hph, hex⟩ | ⟨obs, hm, hf⟩
    · rcases hv c hc (by rw [hph, hro]; exact hp) with ⟨d, hd, hro', hph', hex'⟩ | ⟨obs, hm, hf⟩
      · exact .inl ⟨d, hd, hro'.trans hro, hph'.trans hph, hex'.trans hex⟩
      · exact .inr ⟨obs, List.mem_append_right _ (hex ▸ hm), hex ▸ hf⟩
    · exact .inr ⟨obs, List.mem_append_left _ hm, hf⟩

/-! ### The ladder gate -/

/-- The claim window alone decides whether a ladder that was once safe still is. -/
theorem assessLadder_safe_of_window {t : SwapTerms} {h head : UInt64} {p : LadderParams}
    (hs : (assessLadder t h p).isSafe = true) (hw : (assessRevealDeadline t head p).isSafe = true) :
    (assessLadder t head p).isSafe = true := by
  rw [assessLadder_safe_iff] at hs ⊢
  rw [assessRevealDeadline_safe_iff] at hw
  exact ⟨hs.1, hs.2.1, hw⟩

/-- The signer was asked to fund while the claim window before `T_B` was open. -/
def InTime (cfg : Config) : Event → Prop
  | .builtFunding _ _ ctx head _ => (assessRevealDeadline ctx.terms head cfg.ladder).isSafe = true
  | _ => True

/-- The signer was asked to fund at a safe ladder. -/
def SafelyBuilt (cfg : Config) : Event → Prop
  | .builtFunding _ _ ctx head _ => (assessLadder ctx.terms head cfg.ladder).isSafe = true
  | _ => True

/-- Within `l` the signer built and broadcast a funding. -/
def FundingBuilt (l : List Event) : Prop :=
  ∃ id role ctx head tx, Event.builtFunding id role ctx head (some tx) ∈ l

theorem fundingBuilt_cons {e : Event} {l : List Event}
    (he : ∀ id role ctx head tx, e ≠ .builtFunding id role ctx head (some tx))
    (h : FundingBuilt (e :: l)) : FundingBuilt l := by
  obtain ⟨id, role, ctx, head, tx, hm⟩ := h
  rcases List.mem_cons.mp hm with heq | hm
  · exact absurd heq.symm (he id role ctx head tx)
  · exact ⟨id, role, ctx, head, tx, hm⟩

/-- The invariant of the ladder gate. -/
structure LadderGate (cfg : Config) (sl : Slot) : Prop where
  agreed : ∀ c, sl.coord = some c → (c.phase = .accepted ∨ c.phase = .initiatorFunded) →
    ∃ h, (assessLadder c.ctx.terms h cfg.ladder).isSafe = true
  calls : ∀ e ∈ sl.hist, SafelyBuilt cfg e
  locked : ∀ c, sl.coord = some c → FundingBuilt (life sl.hist) → pastFunding c.phase

/-- A swap that is ready to fund and is driven in time has a safe ladder. -/
theorem LadderGate.safe {cfg : Config} {c : SwapCoordinator} {t : Bool} {h : List Event}
    (hg : LadderGate cfg ⟨some c, t, h⟩) (hf : c.swap.fundable) {head : UInt64}
    (ht : (assessRevealDeadline c.ctx.terms head cfg.ladder).isSafe = true) :
    (assessLadder c.ctx.terms head cfg.ladder).isSafe = true := by
  obtain ⟨h0, hs⟩ := hg.agreed c rfl (by
    rcases hf with ⟨-, hp⟩ | ⟨-, hp⟩
    · exact .inl hp
    · exact .inr hp)
  exact assessLadder_safe_of_window hs ht

/-- A step that builds no funding: it keeps the context, makes nothing newly ready to fund and does not
    go back before the funding. -/
theorem LadderGate.move {cfg : Config} {c c' : SwapCoordinator} {t t' : Bool} {h h' : List Event}
    (hg : LadderGate cfg ⟨some c, t, h⟩) (hctx : c'.ctx = c.ctx)
    (hready : c'.phase = .accepted ∨ c'.phase = .initiatorFunded →
      c.phase = .accepted ∨ c.phase = .initiatorFunded)
    (hpast : pastFunding c.phase → pastFunding c'.phase)
    (hcalls : ∀ e ∈ h', SafelyBuilt cfg e)
    (hlife : FundingBuilt (life h') → FundingBuilt (life h)) : LadderGate cfg ⟨some c', t', h'⟩ := by
  refine ⟨fun d hd hr => ?_, hcalls, fun d hd hb => ?_⟩
  · cases hd
    rw [hctx]
    exact hg.agreed c rfl (hready hr)
  · cases hd
    exact hpast (hg.locked c rfl (hlife hb))

/-- A quiet step: one event that is not a funding, the coordinator in the phase it was in. -/
theorem LadderGate.note {cfg : Config} {c c' : SwapCoordinator} {t : Bool} {h : List Event} {e : Event}
    (hg : LadderGate cfg ⟨some c, t, h⟩) (hctx : c'.ctx = c.ctx) (hph : c'.phase = c.phase)
    (hs : SafelyBuilt cfg e) (hlife : life (e :: h) = e :: life h)
    (he : ∀ id role ctx head tx, e ≠ .builtFunding id role ctx head (some tx)) :
    LadderGate cfg ⟨some c', t, e :: h⟩ := by
  refine hg.move hctx (by rw [hph]; exact id) (by rw [hph]; exact id)
    (List.forall_mem_cons.mpr ⟨hs, hg.calls⟩) ?_
  rw [hlife]
  exact fundingBuilt_cons he

theorem ladderGate_step {cfg : Config} {now : Option UInt64} {id : SwapId} (a b : Slot)
    (hs : SlotStep cfg now id a b)
    (hw : a.WF cfg id) (ht : ∀ e ∈ b.hist, InTime cfg e) (ha : LadderGate cfg a) : LadderGate cfg b := by
  cases hs with
  | @createInitiator c h fresh =>
    refine ⟨fun d hd hr => ?_, List.forall_mem_cons.mpr ⟨trivial, ha.calls⟩, fun d hd hb => ?_⟩
    · cases hd
      rw [fresh.phase] at hr
      simp at hr
    · obtain ⟨_, _, _, _, _, hm⟩ := hb
      cases hm
  | @createResponder c t h head peer fresh =>
    refine ⟨fun d hd hr => ?_, List.forall_mem_cons.mpr ⟨trivial, ha.calls⟩, fun d hd hb => ?_⟩
    · cases hd
      exact ⟨head, fresh.ladder ▸ fresh.safe⟩
    · obtain ⟨_, _, _, _, _, hm⟩ := hb
      cases hm
  | @accept c t h head pk peer hph hsafe =>
    have hwf := hw c rfl
    refine ⟨fun d hd hr => ?_, List.forall_mem_cons.mpr ⟨trivial, ha.calls⟩, fun d hd hb => ?_⟩
    · cases hd
      exact ⟨head, by rw [← hwf.ladder]; exact hwf.terms ▸ hsafe⟩
    · have hpast := ha.locked c rfl (fundingBuilt_cons (by simp) hb)
      rw [hph] at hpast
      simp [pastFunding, SwapPhase.hasFundsLocked, SwapPhase.isTerminal] at hpast
  | noteWire leg wire => exact ha.note rfl rfl trivial rfl (by simp)
  | notePeer peer => exact ha.note rfl rfl trivial rfl (by simp)
  | observe obs => exact ha.note rfl rfl trivial rfl (by simp)
  | @observeFunded c t h obs haw hfu =>
    have hcases := (c.awaitsCounterpartyFunding_iff).mp haw
    refine ha.move rfl (fun hr => ?_) (fun hp => ?_) (List.forall_mem_cons.mpr ⟨trivial, ha.calls⟩)
      (fundingBuilt_cons (by simp))
    · rcases hcases with ⟨-, hp⟩ | ⟨hi, -⟩
      · exact .inl hp
      · simp [hi, SwapCoordinator.observedPhase] at hr
    · rcases hcases with ⟨-, hp'⟩ | ⟨hi, -⟩
      · simp [hp', pastFunding, SwapPhase.hasFundsLocked, SwapPhase.isTerminal] at hp
      · simp [hi, pastFunding, SwapCoordinator.observedPhase, SwapPhase.hasFundsLocked]
  | @fundRefused c t h head answer hfd hre =>
    have hwf := hw c rfl
    have hsafe := ha.safe hfd (ht _ List.mem_cons_self)
    -- in time, the only refusal is the signer's own
    have hnone : answer = none := by
      rcases hre with hnone | hbad
      · exact hnone
      · rw [hwf.terms, hwf.ladder, hsafe] at hbad
        cases hbad
    subst hnone
    exact ha.note rfl rfl hsafe rfl (by simp)
  | @fund c t h head tx hfd hsafe' =>
    have hsafe := ha.safe hfd (ht _ List.mem_cons_self)
    refine ⟨fun d hd hr => ?_, List.forall_mem_cons.mpr ⟨hsafe, ha.calls⟩, fun d hd hb => ?_⟩
    · cases hd
      have hbad : ¬ (SwapCoordinator.fundedPhase c.role = .accepted ∨
          SwapCoordinator.fundedPhase c.role = .initiatorFunded) := by
        cases c.role <;> simp [SwapCoordinator.fundedPhase]
      exact absurd hr hbad
    · cases hd
      exact .inl (SwapCoordinator.fundedPhase_locked c.role)
  | revealRefused hr hp hd hk => exact ha.note rfl rfl trivial rfl (by simp)
  | @reveal c t h head secret tx hr hp hd hk =>
    exact ha.move rfl (by simp) (fun _ => .inr rfl) (List.forall_mem_cons.mpr ⟨trivial, ha.calls⟩)
      (fundingBuilt_cons (by simp))
  | @learnSecret c t h secret hr hp ho =>
    exact ha.move rfl (by rintro (h | h) <;> cases h) (fun _ => .inl rfl) ha.calls fun hb => hb
  | claim answer hr hp hu hk => exact ha.note rfl rfl trivial rfl (by simp)
  | @observeClaim c t h txId obs hr hp htx =>
    rcases applyClaimObservation_cases c (cfg.need .nim) obs hp with ⟨d, -, -, he⟩ | ⟨-, he⟩ | he <;>
      rw [he]
    · exact ha.move rfl (by simp) (fun _ => .inr rfl) (List.forall_mem_cons.mpr ⟨trivial, ha.calls⟩)
        (fundingBuilt_cons (by simp))
    · exact ha.note rfl rfl trivial rfl (by simp)
    · exact ha.note rfl rfl trivial rfl (by simp)
  | refund hre hpast => exact ha.move rfl (by simp) (fun _ => .inr rfl) ha.calls fun hb => hb
  | forfeit hr hp hpast =>
    exact ha.move rfl (by simp) (fun _ => .inr rfl) ha.calls fun hb => hb
  | drop hl => exact ⟨fun d hd => (by cases hd), ha.calls, fun d hd => by cases hd⟩

/-- The ladder gate is a slot invariant of the histories whose fundings all came in time. -/
theorem ladderGate_invariant (cfg : Config) (now : Option UInt64) (k : SwapId) :
    Session.SlotInvariant cfg now k fun sl => (∀ e ∈ sl.hist, InTime cfg e) → LadderGate cfg sl := by
  refine ⟨fun a b hs hw ha ht => ?_, fun a ha ht => ?_⟩
  · refine ladderGate_step a b hs hw ht (ha fun e he => ht e ?_)
    exact (SlotSteps.hist_suffix (.single hs)).subset he
  · exact ⟨fun d hd => (by cases hd), (ha ht).calls, fun d hd => by cases hd⟩

/-- A signer call in a grounded history rests on a verification that came before it, in the same life
    of the swap. -/
theorem Grounded.call {cfg : Config} {id : SwapId} : ∀ {pre post : List Event} {e : Event},
    Grounded cfg id (pre ++ e :: post) → Grounded cfg id (e :: post)
  | [], _, _, h => h
  | p :: pre, post, e, h => by
      refine @Grounded.call _ _ pre _ _ ?_
      cases p with
      | builtFunding i role ctx head answer => cases role <;> first | exact h | exact h.2
      | builtClaim i role ctx secret head answer => cases role <;> first | exact h | exact h.2
      | _ => exact h

namespace Session

/-- The chain gate holds in every reachable session. -/
theorem chainGate_run (env : Env) {s₀ : Session} (h₀ : s₀.Fresh) (ops : List Op) (k : SwapId) :
    ChainGate (s₀.config env) k ((s₀.exec env ops).slot k) := by
  refine SlotInvariant.run (fun _ => ⟨fun a b hs _ ha => chainGate_step a b hs ha, fun a ha => ?_⟩)
    (h₀.wf env) ?_ ops
  · exact ⟨fun c hc _ => (by cases hc), ha.calls⟩
  · rw [h₀.slot k]
    exact ⟨fun c hc _ => (by cases hc), trivial⟩

/-- A call that ends with a coordinator in the phase a verified funding leads to found it there, or
    consulted the verifier and got the HTLC. -/
theorem step_entersVerified {env : Env} {s : Session} (hs : s.WF env) (op : Op) (k : SwapId) :
    ∃ new, ((s.step env op).slot k).hist = new ++ (s.slot k).hist ∧
      EntersVerified (s.config env) k (s.slot k) ((s.step env op).slot k) new := by
  by_cases hop : ∃ id, op = .remove id
  · obtain ⟨id, rfl⟩ := hop
    by_cases hk : k = id
    · subst hk
      rw [step, slot_remove_self]
      exact ⟨[], rfl, fun c' hc' _ => by cases hc'⟩
    · rw [step, slot_remove_ne s hk]
      exact ⟨[], rfl, fun c' hc' _ => .inl ⟨c', hc', rfl, rfl, rfl⟩⟩
  · exact entersVerified_steps ((step_moves hs op fun id h => hop ⟨id, h⟩).slots k)

/-- CORRECT: in every run, a coordinator enters the phase that follows the counterparty's funding only
    in a call whose consult returned the HTLC it expects, with the amount, the timeout and the policy
    depth of that leg; every responder funding and every initiator claim the signer was ever asked for
    came after such a consult, in the same life of the swap; and a consult is what the verifier said. -/
theorem no_funded_phase_without_verified_htlc (env : Env) (s₀ : Session) (h₀ : s₀.Fresh)
    (ops : List Op) (k : SwapId) :
    (∀ op c', ((s₀.exec env ops).step env op).coordinators.lookup k = some c' →
      c'.phase = SwapCoordinator.observedPhase c'.role →
      (∃ c, (s₀.exec env ops).coordinators.lookup k = some c ∧ c.role = c'.role ∧
        c.phase = c'.phase ∧ c.counterpartyExpectation = c'.counterpartyExpectation) ∨
      ∃ new, (((s₀.exec env ops).step env op).slot k).hist = new ++ ((s₀.exec env ops).slot k).hist ∧
        Verified (s₀.config env) k c'.counterpartyExpectation new) ∧
    (∀ pre post ctx head answer,
      ((s₀.exec env ops).slot k).hist = pre ++ .builtFunding k .responder ctx head answer :: post →
      Verified (s₀.config env) k (ctx.expectation .responder) (life post)) ∧
    (∀ pre post ctx secret head answer,
      ((s₀.exec env ops).slot k).hist = pre ++ .builtClaim k .initiator ctx secret head answer :: post →
      Verified (s₀.config env) k (ctx.expectation .initiator) (life post)) ∧
    (∀ op expect obs, .observed k expect obs ∈ ((s₀.exec env ops).step env op).trace →
      ∃ tr, obs = env.observe tr expect) := by
  have hgate := (chainGate_run env h₀ ops k).calls
  refine ⟨fun op c' hc' hp => ?_, fun pre post ctx head answer he => ?_,
    fun pre post ctx secret head answer he => ?_, fun op expect obs hm => ?_⟩
  · obtain ⟨hcfg, hwf⟩ := exec_config_wf (h₀.wf env) ops
    obtain ⟨new, he, hv⟩ := step_entersVerified hwf op k
    rw [hcfg] at hv
    rcases hv c' hc' hp with hl | hr
    · exact .inl hl
    · exact .inr ⟨new, he, hr⟩
  · rw [he] at hgate
    exact hgate.call.1
  · rw [he] at hgate
    exact hgate.call.1
  · rw [← exec_snoc] at hm
    exact trace_answered env h₀ (ops ++ [op]) _ hm

/-- The sample responder enters `InitiatorFunded` on the initiator's `FundingProof`: the consult of that
    very call returned the NIM leg it expects. -/
theorem sample_responder_verified :
    ∃ c', ((Sample.bob.exec Sample.env [.message .propose Sample.propose 0]).step Sample.env
        (.message .fundingProof (Sample.fundingProof .nim) 0)).coordinators.lookup Sample.swapId =
          some c' ∧ c'.phase = .initiatorFunded ∧
      ((∃ c, (Sample.bob.exec Sample.env [.message .propose Sample.propose 0]).coordinators.lookup
          Sample.swapId = some c ∧ c.role = c'.role ∧ c.phase = c'.phase ∧
          c.counterpartyExpectation = c'.counterpartyExpectation) ∨
        ∃ new, (((Sample.bob.exec Sample.env [.message .propose Sample.propose 0]).step Sample.env
            (.message .fundingProof (Sample.fundingProof .nim) 0)).slot Sample.swapId).hist =
            new ++ ((Sample.bob.exec Sample.env [.message .propose Sample.propose 0]).slot
              Sample.swapId).hist ∧
          Verified (Sample.bob.config Sample.env) Sample.swapId c'.counterpartyExpectation new) := by
  have hrun : (((Sample.bob.exec Sample.env [.message .propose Sample.propose 0]).step Sample.env
      (.message .fundingProof (Sample.fundingProof .nim) 0)).coordinators.lookup Sample.swapId).any
      (fun c => decide (c.role = .responder ∧ c.phase = .initiatorFunded)) = true := by
    decide +kernel
  obtain ⟨c', hc', hph⟩ := (Option.any_eq_true _ _).mp hrun
  obtain ⟨hro, hph⟩ := of_decide_eq_true hph
  refine ⟨c', hc', hph, ?_⟩
  exact (no_funded_phase_without_verified_htlc Sample.env Sample.bob Sample.bob_fresh
    [.message .propose Sample.propose 0] Sample.swapId).1 _ c' hc' (by rw [hro, hph]; rfl)

/-! ### The ladder gate over runs -/

/-- A call that drives a swap ready to fund comes while the claim window before `T_B` is open: the
    check the driver makes before a reveal, and does not make before a funding. -/
def DrivesInTime (s : Session) : Op → Prop
  | .drive id head => ∀ c, s.coordinators.lookup id = some c → c.swap.fundable →
      c.revealDeadlineOk head = true
  | .driveSwap kind payload head => ∀ e c, decodeSwap kind payload = .ok e →
      s.coordinators.lookup e.swapId = some c → c.swap.fundable → c.revealDeadlineOk head = true
  | _ => True

/-- Every funding a call in time asks for is asked in time. -/
theorem inTime_of_emits {env : Env} {s : Session} (hs : s.WF env) {op : Op} (hok : DrivesInTime s op)
    {ev : Event} (hev : Emits env s op ev) : InTime (s.config env) ev := by
  cases ev with
  | builtFunding id role ctx head answer =>
    obtain ⟨hop, c, hc, hf, -, rfl⟩ := driven_of_builtFunding hev
    have hwin : c.revealDeadlineOk head = true := by
      rcases hop with rfl | ⟨kind, payload, e, rfl, he, rfl⟩
      · exact hok c hc hf
      · exact hok e c he hc hf
    rwa [SwapCoordinator.revealDeadlineOk, (hs _ c hc).ladder] at hwin
  | _ => trivial

/-- In a run whose drives come in time, every funding was asked for in time. -/
theorem trace_inTime {env : Env} {s₀ : Session} (h₀ : s₀.Fresh) {ops : List Op}
    (hok : Run.Along (step env) DrivesInTime s₀ ops) :
    ∀ ev ∈ (s₀.exec env ops).trace, InTime (s₀.config env) ev :=
  trace_along (h₀.wf env) (by rw [h₀.trace]; simp)
    (fun s op hs hc hop ev hev => hc ▸ inTime_of_emits hs hop hev) hok

/-- The ladder gate holds in every state of a run whose drives come in time. -/
theorem ladderGate_run {env : Env} {s₀ : Session} (h₀ : s₀.Fresh) {ops : List Op}
    (hok : Run.Along (step env) DrivesInTime s₀ ops) (k : SwapId) :
    LadderGate (s₀.config env) ((s₀.exec env ops).slot k) := by
  refine SlotInvariant.run (fun now => ladderGate_invariant (s₀.config env) now k) (h₀.wf env) ?_ ops ?_
  · intro _
    rw [h₀.slot k]
    exact ⟨fun d hd => (by cases hd), by simp, fun d hd => by cases hd⟩
  · intro e he
    exact trace_inTime h₀ hok e (List.mem_filter.mp he).1

/-- The driver's action on a swap that is ready to fund. -/
theorem drivePhaseAction_of_fundable {env : Env} {s : Session} {id : SwapId} {c : SwapCoordinator}
    (hc : s.coordinators.lookup id = some c) (hf : c.swap.fundable) (head : UInt64) :
    s.drivePhaseAction env id head = s.driveFund env id c head c.swap.ownLeg := by
  unfold drivePhaseAction
  rw [hc]
  rcases hf with ⟨hr, hp⟩ | ⟨hr, hp⟩
  · simp only [SwapCoordinator.role, SwapCoordinator.phase, Swap.ownLeg, hr, hp]
  · simp only [SwapCoordinator.role, SwapCoordinator.phase, Swap.ownLeg, hr, hp]

/-- A funding that is built at a safe ladder is recorded: the coordinator is locked when the call
    returns. -/
theorem driveFund_locks {env : Env} {s : Session} {id : SwapId} {c : SwapCoordinator} {head : UInt64}
    {leg : SwapLegId} {tx : Bytes × Hash} (hf : c.swap.fundable)
    (hs : (assessLadder c.swap.terms head c.ladder).isSafe = true)
    (ha : env.buildFunding s.trace c.ctx leg = some tx) :
    (s.driveFund env id c head leg).2.coordinators.lookup id =
      some (c.withPhase (SwapCoordinator.fundedPhase c.role)) := by
  obtain ⟨wire, txId⟩ := tx
  unfold driveFund
  rcases c.fund_cases head wire txId with ⟨-, -, he⟩ | ⟨hn, -⟩
  · simp only [ha, he, setCoord, Table.lookup_insert_iff, if_true]
  · rcases hn with hn | hn
    · exact absurd hf hn
    · rw [hs] at hn
      cases hn

theorem driveFund_trace (env : Env) (s : Session) (id : SwapId) (c : SwapCoordinator) (head : UInt64)
    (leg : SwapLegId) : (s.driveFund env id c head leg).2.trace =
      .builtFunding id c.role c.ctx head (env.buildFunding s.trace c.ctx leg) :: s.trace := by
  unfold driveFund
  cases env.buildFunding s.trace c.ctx leg with
  | none => rfl
  | some tx =>
    rcases hfu : c.fund head tx.1 tx.2 with ⟨_ | _, c'⟩ <;> simp only [hfu] <;> rfl

/-- A drive that builds a funding at a safe ladder ends with the swap locked. -/
theorem drivePhaseAction_locks {env : Env} {s : Session} (hs : s.WF env) {id k : SwapId}
    {head head' : UInt64} {role : SwapRole} {ctx : SwapContext} {tx : Bytes × Hash} {new : List Event}
    (hnew : (s.drivePhaseAction env id head).2.trace = new ++ s.trace)
    (hm : Event.builtFunding k role ctx head' (some tx) ∈ new)
    (hsafe : ∀ c, s.coordinators.lookup id = some c → c.swap.fundable →
      (assessLadder c.swap.terms head c.ladder).isSafe = true) :
    ∃ c, (s.drivePhaseAction env id head).2.coordinators.lookup k = some c ∧
      c.phase = SwapCoordinator.fundedPhase c.role := by
  obtain ⟨new', hnew', hemit⟩ := (drivePhaseAction_moves (n := none) hs id head).grows
  obtain rfl : new = new' := List.append_cancel_right (hnew.symm.trans hnew')
  obtain ⟨rfl, rfl, -, c, hc, hf, -, -⟩ := hemit _ hm
  rw [drivePhaseAction_of_fundable hc hf] at hnew ⊢
  rw [driveFund_trace] at hnew
  obtain rfl : [Event.builtFunding k c.role c.ctx head' _] = new :=
    List.append_cancel_right (hnew : [_] ++ s.trace = new ++ s.trace)
  have ha : env.buildFunding s.trace c.ctx c.swap.ownLeg = some tx := by
    have heq := List.mem_singleton.mp hm
    injection heq with _ _ _ _ hans
    exact hans.symm
  exact ⟨_, driveFund_locks hf (hsafe c hc hf) ha, rfl⟩

/-- A swap that is ready to fund and is driven in time has a safe ladder, by the machine's own terms. -/
theorem safe_of_inTime {env : Env} {s : Session} (hs : s.WF env) {id : SwapId} {c : SwapCoordinator}
    (hg : LadderGate (s.config env) (s.slot id)) (hc : s.coordinators.lookup id = some c)
    (hf : c.swap.fundable) {head : UInt64} (hwin : c.revealDeadlineOk head = true) :
    (assessLadder c.swap.terms head c.ladder).isSafe = true := by
  have hwf := hs id c hc
  rw [slot_eq_of_lookup hc] at hg
  rw [hwf.terms, hwf.ladder]
  refine hg.safe hf ?_
  rwa [SwapCoordinator.revealDeadlineOk, hwf.ladder] at hwin

/-- A call in time that builds a funding ends with the swap locked. -/
theorem step_locks {env : Env} {s : Session} (hs : s.WF env)
    (hg : ∀ k, LadderGate (s.config env) (s.slot k)) {op : Op} (hok : DrivesInTime s op)
    {new : List Event} (hnew : (s.step env op).trace = new ++ s.trace) {k : SwapId} {role : SwapRole}
    {ctx : SwapContext} {head : UInt64} {tx : Bytes × Hash}
    (hm : Event.builtFunding k role ctx head (some tx) ∈ new) :
    ∃ c, (s.step env op).coordinators.lookup k = some c ∧
      c.phase = SwapCoordinator.fundedPhase c.role := by
  obtain ⟨new', hnew', hemit⟩ := step_trace hs op
  obtain rfl : new = new' := List.append_cancel_right (hnew.symm.trans hnew')
  have hev := hemit _ hm
  cases op with
  | drive id head =>
    exact drivePhaseAction_locks hs hnew hm fun c hc hf =>
      safe_of_inTime hs (hg id) hc hf (hok c hc hf)
  | driveSwap kind payload head =>
    obtain ⟨e, he, -⟩ := hev
    have hmoves := (notePeer_moves (n := none) env s kind e head).trans
      (learnSecret_moves env (s.notePeer kind e) kind e)
    have hcoord : ∀ c, ((s.notePeer kind e).learnSecret env kind e).coordinators.lookup e.swapId =
        some c → c.swap.fundable → s.coordinators.lookup e.swapId = some c := by
      intro c hc hf
      have hc' := fundable_of_learnSecret hc hf
      rwa [notePeer_coordinators] at hc'
    obtain ⟨noted, hnoted, hpeer⟩ := notePeer_trace s kind e
    simp only [step, driveSwap, he] at hnew ⊢
    obtain ⟨driven, hdriven, -⟩ := (drivePhaseAction_moves (n := none) (hmoves.wf hs) e.swapId head).grows
    have hsplit : driven ++ noted = new := by
      rw [hdriven, learnSecret_trace, hnoted, ← List.append_assoc] at hnew
      exact List.append_cancel_right hnew
    rw [← hsplit] at hm
    rcases List.mem_append.mp hm with hm | hm
    · exact drivePhaseAction_locks (hmoves.wf hs) hdriven hm fun c hc hf =>
        safe_of_inTime hs (hg e.swapId) (hcoord c hc hf) hf (hok e c he (hcoord c hc hf) hf)
    · obtain ⟨peer, heq⟩ := hpeer _ hm
      cases heq
  | message kind payload head =>
    obtain ⟨e, -, hem⟩ := hev
    exact hem.elim
  | initiate id head => cases hev.1
  | _ => exact hev.elim

/-- CORRECT: in every run whose drives of a swap that is ready to fund come while its claim window is
    open, the signer is asked for a funding only at a safe ladder, the call that builds one ends with
    the swap locked, and no swap is ever found un-funded after its funding was built. -/
theorem funding_gated_by_ladder (env : Env) (s₀ : Session) (h₀ : s₀.Fresh) (ops : List Op)
    (hok : Run.Along (step env) DrivesInTime s₀ ops) :
    (∀ k role ctx head answer, .builtFunding k role ctx head answer ∈ (s₀.exec env ops).trace →
      (assessLadder ctx.terms head s₀.ladder).isSafe = true) ∧
    (∀ op, DrivesInTime (s₀.exec env ops) op → ∀ new k role ctx head tx,
      ((s₀.exec env ops).step env op).trace = new ++ (s₀.exec env ops).trace →
      .builtFunding k role ctx head (some tx) ∈ new →
      ∃ c, ((s₀.exec env ops).step env op).coordinators.lookup k = some c ∧
        c.phase = SwapCoordinator.fundedPhase c.role ∧ c.phase.hasFundsLocked = true) ∧
    (∀ k c, (s₀.exec env ops).coordinators.lookup k = some c →
      FundingBuilt (life ((s₀.exec env ops).slot k).hist) →
      c.phase.hasFundsLocked = true ∨ c.phase.isTerminal = true) := by
  have hgate := ladderGate_run h₀ hok
  refine ⟨fun k role ctx head answer hm => ?_, fun op hop new k role ctx head tx hnew hm => ?_,
    fun k c hc hb => (hgate k).locked c hc hb⟩
  · exact (hgate k).calls _ (List.mem_filter.mpr ⟨hm, by simp [Event.swapId]⟩)
  · obtain ⟨hcfg, hwf⟩ := exec_config_wf (h₀.wf env) ops
    obtain ⟨c, hc, hp⟩ := step_locks hwf (fun k => hcfg ▸ hgate k) hop hnew hm
    exact ⟨c, hc, hp, hp ▸ SwapCoordinator.fundedPhase_locked c.role⟩

/-- In the sample run the responder is driven at head 0, in time, and its funding is built at a safe
    ladder. -/
theorem sample_funding_gated :
    .builtFunding Sample.swapId .responder (Sample.bob.responderContext Sample.proposal 0) 0
        (MockSigner.buildFunding (Sample.bob.responderContext Sample.proposal 0) .counterparty) ∈
      (Sample.bob.exec Sample.env [.message .propose Sample.propose 0,
        .message .fundingProof (Sample.fundingProof .nim) 0, .drive Sample.swapId 0]).trace ∧
    (assessLadder Sample.proposal.terms 0 Sample.bob.ladder).isSafe = true := by
  have hrun : .builtFunding Sample.swapId .responder (Sample.bob.responderContext Sample.proposal 0) 0
      (MockSigner.buildFunding (Sample.bob.responderContext Sample.proposal 0) .counterparty) ∈
    (Sample.bob.exec Sample.env [.message .propose Sample.propose 0,
      .message .fundingProof (Sample.fundingProof .nim) 0, .drive Sample.swapId 0]).trace := by
    decide +kernel
  refine ⟨hrun, (funding_gated_by_ladder Sample.env Sample.bob Sample.bob_fresh _ ?_).1 _ _ _ _ _ hrun⟩
  refine ⟨trivial, trivial, fun c hc _ => ?_, trivial⟩
  have hopen : (((Sample.bob.step Sample.env (.message .propose Sample.propose 0)).step Sample.env
      (.message .fundingProof (Sample.fundingProof .nim) 0)).coordinators.lookup Sample.swapId).all
      (fun c => c.revealDeadlineOk 0) = true := by
    decide +kernel
  rw [hc] at hopen
  exact hopen

/-- The sample mesh on a chain that shows the NIM leg unburied at the first look and buried from then
    on. -/
def slowChain : Env :=
  let consult : Event → Bool := fun e => match e with | .observed .. => true | _ => false
  { Sample.env with observe := fun tr _ => .found u64Max u64Max (if tr.any consult then 6 else 0) }

/-- The initiator's proof arrives at head 0; the leg is buried, and the swap driven, at head 4000. -/
def lateDrive : List Op :=
  [.message .propose Sample.propose 0, .message .fundingProof (Sample.fundingProof .nim) 0, .reverify,
    .drive Sample.swapId 4000]

/-- On a late drive the signer builds and broadcasts the funding at an unsafe ladder, the machine
    refuses it, and the next tick drops the swap as stale. -/
theorem funding_built_past_window :
    .builtFunding Sample.swapId .responder (Sample.bob.responderContext Sample.proposal 0) 4000
        (MockSigner.buildFunding (Sample.bob.responderContext Sample.proposal 0) .counterparty) ∈
      (Sample.bob.exec slowChain lateDrive).trace ∧
    (assessLadder Sample.proposal.terms 4000 Sample.bob.ladder).isSafe = false ∧
    ((Sample.bob.exec slowChain lateDrive).coordinators.lookup Sample.swapId).map (·.phase) =
      some .initiatorFunded ∧
    (Sample.bob.exec slowChain (lateDrive ++ [.tick 4000])).coordinators.lookup Sample.swapId = none := by
  decide +kernel

end Session

end Nimmesh
