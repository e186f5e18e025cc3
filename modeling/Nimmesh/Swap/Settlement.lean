import Nimmesh.Swap.Signer

/-! @src swap_claim.rs swap_node.rs swap_session.rs live_swap_signer.rs | name:Settlement |
    layer:properties

    When a swap may be called settled. The responder waits for the chain: its recorded claim must have
    been seen included at the depth of the NIM leg, and past `T_A` without that it is lost, never
    refunded. The initiator relies on its signer: it settles when the signer hands back the claim, and
    the live signer hands one back only once the chain confirms it. -/

namespace Nimmesh

/-- Within `l` the recorded claim of a responder was seen included at the depth of the NIM leg. -/
def ClaimConfirmed (cfg : Config) (id : SwapId) (c : SwapCoordinator) (l : List Event) : Prop :=
  ∃ tx depth, c.claimTx = some tx ∧ .observedClaim id tx (.included depth) ∈ l ∧ cfg.need .nim ≤ depth

/-- What a settled swap rests on, in the events `l` of its life. -/
def Evidence (cfg : Config) (id : SwapId) (c : SwapCoordinator) (l : List Event) : Prop :=
  match c.role with
  | .responder => ClaimConfirmed cfg id c l
  | .initiator => ∃ secret head tx, c.secret = some secret ∧ cfg.sha256 secret.1 = c.ctx.hashlock ∧
      c.revealDeadlineOk head = true ∧ .builtClaim id .initiator c.ctx secret head (some tx) ∈ l

theorem Evidence.cons {cfg : Config} {id : SwapId} {c : SwapCoordinator} {l : List Event}
    (h : Evidence cfg id c l) (e : Event) : Evidence cfg id c (e :: l) := by
  unfold Evidence at h ⊢
  cases hr : c.role with
  | responder =>
    rw [hr] at h
    obtain ⟨tx, depth, ht, hm, hd⟩ := h
    exact ⟨tx, depth, ht, List.mem_cons_of_mem _ hm, hd⟩
  | initiator =>
    rw [hr] at h
    obtain ⟨secret, head, tx, hs, ho, hd, hm⟩ := h
    exact ⟨secret, head, tx, hs, ho, hd, List.mem_cons_of_mem _ hm⟩

/-- The settlement invariant: a settled swap has its evidence, and an initiator knows the secret of
    its hashlock. -/
structure Settlement (cfg : Config) (id : SwapId) (sl : Slot) : Prop where
  evidence : ∀ c, sl.coord = some c → c.phase = .settled → Evidence cfg id c (life sl.hist)
  secret : ∀ c, sl.coord = some c → c.role = .initiator →
    ∃ secret, c.secret = some secret ∧ cfg.sha256 secret.1 = c.ctx.hashlock

/-- A step to a phase that is not settled. -/
theorem Settlement.unsettled {cfg : Config} {id : SwapId} {c c' : SwapCoordinator} {t t' : Bool}
    {h h' : List Event} (hg : Settlement cfg id ⟨some c, t, h⟩) (hctx : c'.ctx = c.ctx)
    (hsecret : c'.role = .initiator → c.role = .initiator ∧ c'.secret = c.secret)
    (hp : c'.phase ≠ .settled) : Settlement cfg id ⟨some c', t', h'⟩ := by
  refine ⟨fun d hd hs => ?_, fun d hd hr => ?_⟩
  · cases hd
    exact absurd hs hp
  · cases hd
    obtain ⟨hr', hk⟩ := hsecret hr
    rw [hk, hctx]
    exact hg.secret c rfl hr'

/-- A step that only adds an event. -/
theorem Settlement.note {cfg : Config} {id : SwapId} {c : SwapCoordinator} {t : Bool} {h : List Event}
    {e : Event} (hg : Settlement cfg id ⟨some c, t, h⟩) (hlife : life (e :: h) = e :: life h) :
    Settlement cfg id ⟨some c, t, e :: h⟩ := by
  refine ⟨fun d hd hs => ?_, hg.secret⟩
  rw [hlife]
  exact (hg.evidence d hd hs).cons e

theorem settlement_step {cfg : Config} {now : Option UInt64} {id : SwapId} (a b : Slot)
    (hs : SlotStep cfg now id a b)
    (ha : Settlement cfg id a) : Settlement cfg id b := by
  cases hs with
  | @createInitiator c h fresh =>
    refine ⟨fun d hd hp => ?_, fun d hd _ => ?_⟩
    · cases hd
      rw [fresh.phase] at hp
      cases hp
    · cases hd
      exact fresh.secret
  | @createResponder c t h head peer fresh =>
    refine ⟨fun d hd hp => ?_, fun d hd hr => ?_⟩
    · cases hd
      rw [fresh.phase] at hp
      cases hp
    · cases hd
      rw [fresh.role] at hr
      cases hr
  | accept hph hsafe => exact ha.unsettled rfl (fun hr => ⟨hr, rfl⟩) (by intro h; cases h)
  | noteWire leg wire => exact ha.note rfl
  | notePeer peer => exact ha.note rfl
  | observe obs => exact ha.note rfl
  | @observeFunded c t h obs haw hfu =>
    refine ha.unsettled rfl (fun hr => ⟨hr, rfl⟩) ?_
    rw [SwapCoordinator.withPhase_phase]
    cases c.role <;> simp [SwapCoordinator.observedPhase]
  | fundRefused hfd hre => exact ha.note rfl
  | @fund c t h head tx hfd hsafe =>
    refine ha.unsettled rfl (fun hr => ⟨hr, rfl⟩) ?_
    rw [SwapCoordinator.withPhase_phase]
    cases c.role <;> simp [SwapCoordinator.fundedPhase]
  | revealRefused hr hp hd hk => exact ha.note rfl
  | @reveal c t h head secret tx hr hp hd hk =>
    obtain ⟨secret', hk', ho⟩ := ha.secret c rfl hr
    obtain rfl : secret = secret' := Option.some.inj (hk.symm.trans hk')
    refine ⟨fun d hd' _ => ?_, fun d hd' _ => ?_⟩
    · cases hd'
      have hlife : life (.builtClaim id c.role c.ctx secret head (some tx) :: h) =
          .builtClaim id c.role c.ctx secret head (some tx) :: life h := rfl
      rw [Evidence, SwapCoordinator.withPhase_role, hr]
      rw [hr] at hlife
      refine ⟨secret, head, tx, hk, ho, hd, ?_⟩
      rw [hlife]
      exact List.mem_cons_self
    · cases hd'
      exact ⟨secret, hk, ho⟩
  | @learnSecret c t h secret hr hp ho =>
    refine ha.unsettled rfl (fun hi => ?_) (by intro h; cases h)
    rw [show c.role = .initiator from hi] at hr
    cases hr
  | @claim c t h head secret answer hr hp hu hk =>
    refine ha.unsettled rfl (fun hi => ?_) ?_
    · rw [show c.role = .initiator from hi] at hr
      cases hr
    · rw [show SwapCoordinator.phase { c with claimTx := answer.map (·.2) } = c.phase from rfl, hp]
      simp
  | @observeClaim c t h txId obs hr hp ht =>
    rcases applyClaimObservation_cases c (cfg.need .nim) obs hp with ⟨d, rfl, hd, he⟩ | ⟨rfl, he⟩ | he
    · rw [he]
      refine ⟨fun c' hc' _ => ?_, fun c' hc' hi => ?_⟩
      · cases hc'
        rw [Evidence, SwapCoordinator.withPhase_role, hr]
        exact ⟨txId, d, ht, List.mem_cons_self, hd⟩
      · cases hc'
        rw [SwapCoordinator.withPhase_role, hr] at hi
        cases hi
    · rw [he]
      refine ha.unsettled rfl (fun hi => ?_) ?_
      · rw [show c.role = .initiator from hi] at hr
        cases hr
      · rw [show SwapCoordinator.phase { c with claimTx := none } = c.phase from rfl, hp]
        simp
    · rw [he]
      exact ha.note rfl
  | refund hre hpast => exact ha.unsettled rfl (fun hr => ⟨hr, rfl⟩) (by intro h; cases h)
  | forfeit hr hp hpast => exact ha.unsettled rfl (fun hr => ⟨hr, rfl⟩) (by intro h; cases h)
  | drop hl => exact ⟨fun d hd => (by cases hd), fun d hd => by cases hd⟩

/-! ### A revealed responder -/

/-- The phases of a responder that has learned the secret. -/
def afterReveal : SwapPhase → Bool
  | .revealed | .settled | .lost => true
  | _ => false

theorem not_afterReveal_of_awaits {c : SwapCoordinator} (h : c.awaitsCounterpartyFunding = true) :
    ¬ (c.role = .responder ∧ afterReveal c.phase = true) := by
  rintro ⟨hr, hp⟩
  rcases c.awaitsCounterpartyFunding_iff.mp h with ⟨-, hp'⟩ | ⟨hi, -⟩
  · rw [hp'] at hp
    cases hp
  · rw [hr] at hi
    cases hi

theorem not_afterReveal_of_fundable {c : SwapCoordinator} (h : c.swap.fundable) :
    ¬ (c.role = .responder ∧ afterReveal c.phase = true) := by
  rintro ⟨-, hp⟩
  rcases h with ⟨-, hp'⟩ | ⟨-, hp'⟩
  · rw [show c.phase = _ from hp'] at hp
    cases hp
  · rw [show c.phase = _ from hp'] at hp
    cases hp

/-- The refund path is closed to a revealed responder, and open only to locked phases. -/
theorem not_afterReveal_of_refundable {c : SwapCoordinator} (h : c.swap.refundable) :
    ¬ (c.role = .responder ∧ afterReveal c.phase = true) := by
  rintro ⟨hr, hp⟩
  obtain ⟨hl, hn⟩ := h
  have hph : c.phase ≠ .revealed := fun h => hn ⟨hr, h⟩
  have hl' : c.phase.hasFundsLocked = true := hl
  revert hp hl' hph
  cases c.phase <;> simp [afterReveal, SwapPhase.hasFundsLocked]

/-- Since the history was `base`, the swap was created anew or is still a responder that has learned
    the secret. -/
def RevealedSince (id : SwapId) (base : List Event) (sl : Slot) : Prop :=
  ∃ new, sl.hist = new ++ base ∧
    ((∃ role peer, .created id role peer ∈ new) ∨
      ∀ c, sl.coord = some c → c.role = .responder ∧ afterReveal c.phase = true)

theorem RevealedSince.note {id : SwapId} {base : List Event} {c c' : SwapCoordinator} {t : Bool}
    {h : List Event} (e : Event) (hg : RevealedSince id base ⟨some c, t, h⟩)
    (hc : c.role = .responder → afterReveal c.phase = true →
      c'.role = .responder ∧ afterReveal c'.phase = true) :
    RevealedSince id base ⟨some c', t, e :: h⟩ := by
  obtain ⟨new, he, hcr | hco⟩ := hg
  · obtain ⟨role, peer, hm⟩ := hcr
    exact ⟨e :: new, congrArg (e :: ·) he, .inl ⟨role, peer, List.mem_cons_of_mem _ hm⟩⟩
  · refine ⟨e :: new, congrArg (e :: ·) he, .inr fun d hd => ?_⟩
    cases hd
    exact hc (hco c rfl).1 (hco c rfl).2

theorem RevealedSince.move {id : SwapId} {base : List Event} {c : SwapCoordinator} {t : Bool}
    {h : List Event} {o : Option SwapCoordinator} (hg : RevealedSince id base ⟨some c, t, h⟩)
    (hc : ∀ c', o = some c' → c.role = .responder → afterReveal c.phase = true →
      c'.role = .responder ∧ afterReveal c'.phase = true) :
    RevealedSince id base ⟨o, t, h⟩ := by
  obtain ⟨new, he, hcr | hco⟩ := hg
  · exact ⟨new, he, .inl hcr⟩
  · exact ⟨new, he, .inr fun d hd => hc d hd (hco c rfl).1 (hco c rfl).2⟩

/-- Nothing leads a responder out of the phases after the reveal. -/
theorem revealedSince_step {cfg : Config} {now : Option UInt64} {id : SwapId} {base : List Event} (a b : Slot)
    (hs : SlotStep cfg now id a b) (ha : RevealedSince id base a) : RevealedSince id base b := by
  have hcreated : ∀ {h : List Event} {o : Option SwapCoordinator} {t t' : Bool} {role : SwapRole}
      {peer : Option (NimAddress × Bytes)}, RevealedSince id base ⟨none, t, h⟩ →
      RevealedSince id base ⟨o, t', .created id role peer :: h⟩ := by
    intro h o t t' role peer hg
    obtain ⟨new, he, -⟩ := hg
    exact ⟨_ :: new, congrArg (Event.created id role peer :: ·) he,
      .inl ⟨role, peer, List.mem_cons_self⟩⟩
  cases hs with
  | createInitiator fresh => exact hcreated ha
  | createResponder fresh => exact hcreated ha
  | @accept c t h head pk peer hph hsafe =>
    refine ha.note _ fun _ hp => ?_
    rw [hph] at hp
    cases hp
  | noteWire leg wire => exact ha.note _ fun hr hp => ⟨hr, hp⟩
  | notePeer peer => exact ha.note _ fun hr hp => ⟨hr, hp⟩
  | observe obs => exact ha.note _ fun hr hp => ⟨hr, hp⟩
  | observeFunded haw hfu =>
    exact ha.note _ fun hr hp => absurd ⟨hr, hp⟩ (not_afterReveal_of_awaits haw)
  | fundRefused hfd hre => exact ha.note _ fun hr hp => ⟨hr, hp⟩
  | fund hfd hsafe => exact ha.note _ fun hr hp => absurd ⟨hr, hp⟩ (not_afterReveal_of_fundable hfd)
  | revealRefused hr hp hd hk => exact ha.note _ fun hr hp => ⟨hr, hp⟩
  | @reveal c t h head secret tx hr hp hd hk =>
    refine ha.note _ fun hr' _ => ?_
    rw [hr] at hr'
    cases hr'
  | @learnSecret c t h secret hr hp ho =>
    refine ha.move fun c' hc' _ hp' => ?_
    rw [hp] at hp'
    cases hp'
  | claim answer hr hp hu hk => exact ha.note _ fun hr hp => ⟨hr, hp⟩
  | @observeClaim c t h txId obs hr hp ht =>
    refine ha.note _ fun _ hp' => ?_
    rcases applyClaimObservation_cases c (cfg.need .nim) obs hp with ⟨d, -, -, he⟩ | ⟨-, he⟩ | he <;>
      rw [he]
    · exact ⟨hr, rfl⟩
    · exact ⟨hr, hp'⟩
    · exact ⟨hr, hp'⟩
  | refund hre hpast =>
    exact ha.move fun c' hc' hr hp => absurd ⟨hr, hp⟩ (not_afterReveal_of_refundable hre)
  | @forfeit c t h head hr hp hpast =>
    refine ha.move fun c' hc' _ _ => ?_
    cases hc'
    exact ⟨hr, rfl⟩
  | drop hl => exact ha.move fun c' hc' => by cases hc'

namespace Session

/-! ### The last tick of a claim -/

/-- A consult writes at most the coordinator of its swap. -/
theorem confirmClaim_lookup_ne (env : Env) (s : Session) {id k : SwapId} (h : k ≠ id) :
    (s.confirmClaim env id).2.coordinators.lookup k = s.coordinators.lookup k := by
  unfold confirmClaim
  cases s.coordinators.lookup id with
  | none => rfl
  | some c =>
    dsimp only
    split_ifs
    · rfl
    · split
      · rfl
      · simp only [noteVerify, log, setCoord, Table.lookup_insert_iff, if_neg h]

/-- A consult for a recorded claim applies the answer to the coordinator. -/
theorem confirmClaim_lookup (env : Env) {s : Session} {id : SwapId} {c : SwapCoordinator} {tx : Hash}
    (hc : s.coordinators.lookup id = some c) (hr : c.role = .responder) (hp : c.phase = .revealed)
    (ht : c.claimTx = some tx) :
    s.confirmClaim env id =
      ((describeClaim (s.requiredDepth .nim) (env.observeClaim s.trace .nim tx)).1,
        (((s.setCoord id (applyClaimObservation c (s.requiredDepth .nim)
            (env.observeClaim s.trace .nim tx))).log
          (.observedClaim id tx (env.observeClaim s.trace .nim tx))).noteVerify env id
          (describeClaim (s.requiredDepth .nim) (env.observeClaim s.trace .nim tx)).2)) := by
  have hcl : hasClaim c = true := (hasClaim_iff c).mpr ⟨hr, hp⟩
  unfold confirmClaim
  rw [hc]
  simp only [hcl, Bool.not_true, Bool.false_eq_true, if_false, SwapCoordinator.claimBroadcast, ht]

/-- Without a recorded claim there is nothing to consult. -/
theorem confirmClaim_of_no_claim (env : Env) {s : Session} {id : SwapId} {c : SwapCoordinator}
    (hc : s.coordinators.lookup id = some c) (hn : hasClaim c = false ∨ c.claimTx = none) :
    s.confirmClaim env id = (false, s) := by
  unfold confirmClaim
  rw [hc]
  rcases hn with hn | hn
  · simp only [hn, Bool.not_false, if_true]
  · cases hcl : hasClaim c <;> simp [hcl, SwapCoordinator.claimBroadcast, hn]

/-- A responder whose claim window is over. -/
def Foreclosed (k : SwapId) (s : Session) : Prop :=
  ∃ c, s.coordinators.lookup k = some c ∧ c.role = .responder ∧ (c.phase = .lost ∨ c.phase = .settled)

theorem foreclose_lookup_ne (env : Env) (head : UInt64) (s : Session) {id k : SwapId} (h : k ≠ id) :
    (foreclose env head s id).coordinators.lookup k = s.coordinators.lookup k := by
  have hne := confirmClaim_lookup_ne env s h
  unfold foreclose
  rcases hr : s.confirmClaim env id with ⟨_ | _, s'⟩
  · rw [hr] at hne
    dsimp only
    split
    · rw [setCoord, Table.lookup_insert_iff, if_neg h]
      exact hne
    · exact hne
  · rw [hr] at hne
    exact hne

/-- The forfeit of a revealed claim past `T_A`. -/
theorem forfeit_lost {c : SwapCoordinator} {head : UInt64} (hr : c.role = .responder)
    (hp : c.phase = .revealed) (hpast : c.swap.terms.nimTimeout < head) :
    (c.forfeitExpiredClaim head).2 = c.withPhase .lost := by
  rcases c.forfeitExpiredClaim_cases head with ⟨-, -, -, he⟩ | ⟨hn, -⟩
  · exact he
  · exact absurd ⟨hr, hp, hpast⟩ hn

/-- A revealed responder past `T_A`: one last consult, then settled or lost. -/
theorem foreclose_self {env : Env} {head : UInt64} {s : Session} {k : SwapId} {c : SwapCoordinator}
    (hc : s.coordinators.lookup k = some c) (hr : c.role = .responder) (hp : c.phase = .revealed)
    (hpast : c.swap.terms.nimTimeout < head) : Foreclosed k (foreclose env head s k) := by
  cases ht : c.claimTx with
  | none =>
    have hq := confirmClaim_of_no_claim env hc (.inr ht)
    refine ⟨c.withPhase .lost, ?_, hr, .inl rfl⟩
    simp only [foreclose, hq, hc, forfeit_lost hr hp hpast, setCoord, Table.lookup_insert_iff, if_true]
  | some tx =>
    have hq := confirmClaim_lookup env hc hr hp ht
    have hafter : ∀ c', (applyClaimObservation c (s.requiredDepth .nim)
        (env.observeClaim s.trace .nim tx)) = c' → (s.confirmClaim env k).2.coordinators.lookup k =
          some c' := by
      intro c' hc'
      rw [hq]
      simp only [noteVerify, log, setCoord, Table.lookup_insert_iff, if_true, hc']
    have hlost : ∀ c', (describeClaim (s.requiredDepth .nim) (env.observeClaim s.trace .nim tx)).1 =
        false → applyClaimObservation c (s.requiredDepth .nim) (env.observeClaim s.trace .nim tx) = c' →
        c'.role = .responder → c'.phase = .revealed → c'.swap.terms.nimTimeout < head →
        Foreclosed k (foreclose env head s k) := by
      intro c' hd hc' hr' hp' hpast'
      have hb : s.confirmClaim env k = (false, (s.confirmClaim env k).2) := by
        rw [hq, hd]
      refine ⟨c'.withPhase .lost, ?_, hr', .inl rfl⟩
      unfold foreclose
      rw [hb]
      simp only [hafter c' hc', forfeit_lost hr' hp' hpast', setCoord, Table.lookup_insert_iff, if_true]
    cases hobs : env.observeClaim s.trace .nim tx with
    | included d =>
      rw [hobs] at hlost hafter
      by_cases hd : s.requiredDepth .nim ≤ d
      · have hsettle : applyClaimObservation c (s.requiredDepth .nim) (.included d) =
            c.withPhase .settled := by
          simp only [applyClaimObservation, if_pos hd]
          rcases c.settle_cases with ⟨-, hs⟩ | ⟨hn, -⟩
          · rw [hs]
          · exact absurd hp hn
        have hb : s.confirmClaim env k = (true, (s.confirmClaim env k).2) := by
          rw [hq, hobs]
          simp only [describeClaim, if_pos hd]
        refine ⟨c.withPhase .settled, ?_, hr, .inr rfl⟩
        unfold foreclose
        rw [hb]
        exact hafter _ hsettle
      · exact hlost c (by simp only [describeClaim, if_neg hd])
          (by simp only [applyClaimObservation, if_neg hd]) hr hp hpast
    | notFound =>
      rw [hobs] at hlost
      exact hlost { c with claimTx := none } rfl rfl hr hp hpast
    | unavailable =>
      rw [hobs] at hlost
      exact hlost c rfl rfl hr hp hpast

theorem foreclose_foreclosed {env : Env} {head : UInt64} {s : Session} {k : SwapId}
    (h : Foreclosed k s) (id : SwapId) : Foreclosed k (foreclose env head s id) := by
  obtain ⟨c, hc, hr, hp⟩ := h
  by_cases hk : k = id
  · subst hk
    have hne : c.phase ≠ .revealed := by rcases hp with hp | hp <;> simp [hp]
    have hq := confirmClaim_of_no_claim env hc (.inl (by simp [hasClaim, hne]))
    have hsame : (c.forfeitExpiredClaim head).2 = c := by
      rcases c.forfeitExpiredClaim_cases head with ⟨-, hp', -, -⟩ | ⟨-, he⟩
      · exact absurd hp' hne
      · exact he
    refine ⟨c, ?_, hr, hp⟩
    simp only [foreclose, hq, hc, hsame, setCoord, Table.lookup_insert_iff, if_true]
  · exact ⟨c, by rw [foreclose_lookup_ne env head s hk, hc], hr, hp⟩

/-- The foreclosure loop reaches every revealed responder on its list. -/
theorem foreclose_fold {env : Env} {head : UInt64} {k : SwapId} : ∀ (ids : List SwapId) (s : Session),
    (∃ c, s.coordinators.lookup k = some c ∧ c.role = .responder ∧ c.phase = .revealed ∧
      c.swap.terms.nimTimeout < head ∧ k ∈ ids) ∨ Foreclosed k s →
    Foreclosed k (ids.foldl (foreclose env head) s)
  | [], s, .inl ⟨_, _, _, _, _, hm⟩ => by cases hm
  | [], s, .inr h => h
  | id :: ids, s, .inr h => foreclose_fold ids _ (.inr (foreclose_foreclosed h id))
  | id :: ids, s, .inl ⟨c, hc, hr, hp, hpast, hm⟩ => by
      refine foreclose_fold ids _ ?_
      by_cases hk : k = id
      · subst hk
        exact .inr (foreclose_self hc hr hp hpast)
      · rcases List.mem_cons.mp hm with hk' | hm
        · exact absurd hk' hk
        · exact .inl ⟨c, by rw [foreclose_lookup_ne env head s hk, hc], hr, hp, hpast, hm⟩

/-- The sweep leaves a revealed responder alone. -/
theorem sweep_keeps_revealed {s : Session} {k : SwapId} {c : SwapCoordinator} (head : UInt64)
    (hc : s.coordinators.lookup k = some c) (hr : c.role = .responder) (hp : c.phase = .revealed) :
    (s.sweep head).2.coordinators.lookup k = some c := by
  have hsame : (c.refundAfterTimeout head).2 = c := by
    rcases c.refundAfterTimeout_cases head with ⟨⟨-, hn⟩, -, -⟩ | ⟨-, he⟩
    · exact absurd ⟨hr, hp⟩ hn
    · exact he
  have hkeep : tickKeeps head c = true := by
    simp [tickKeeps, SwapCoordinator.isStale, hp, SwapPhase.isTerminal, SwapPhase.hasFundsLocked]
  rw [sweep_lookup, hc, Option.map_some, hsame, Option.filter_some, if_pos hkeep]

/-- A tick past `T_A` forecloses a revealed responder. -/
theorem tick_forecloses {env : Env} {s : Session} {k : SwapId} {c : SwapCoordinator} {head : UInt64}
    (hw : s.WF env) (hc : s.coordinators.lookup k = some c) (hr : c.role = .responder)
    (hp : c.phase = .revealed) (hpast : c.ctx.terms.nimTimeout < head) :
    Foreclosed k (s.tick env head).2 := by
  have hkeep := sweep_keeps_revealed head hc hr hp
  have hterms := (hw k c hc).terms
  refine foreclose_fold _ _ (.inl ⟨c, hkeep, hr, hp, hterms ▸ hpast, ?_⟩)
  rw [expiredIds, Table.mem_keysWhere]
  exact ⟨c, hkeep, by simp [hr, hp, hpast]⟩

/-! ### The two settlements -/

/-- The settlement invariant holds in every reachable session. -/
theorem settlement_run (env : Env) {s₀ : Session} (h₀ : s₀.Fresh) (ops : List Op) (k : SwapId) :
    Settlement (s₀.config env) k ((s₀.exec env ops).slot k) := by
  refine SlotInvariant.run (fun _ => ⟨fun a b hs _ ha => settlement_step a b hs ha, fun a _ => ?_⟩)
    (h₀.wf env) ?_ ops
  · exact ⟨fun d hd => (by cases hd), fun d hd => by cases hd⟩
  · rw [h₀.slot k]
    exact ⟨fun d hd => (by cases hd), fun d hd => by cases hd⟩

/-- A settled responder's claim was confirmed during the life of the swap. -/
theorem claimConfirmed_run (env : Env) {s₀ : Session} (h₀ : s₀.Fresh) (ops : List Op) {k : SwapId}
    {c : SwapCoordinator} (hc : (s₀.exec env ops).coordinators.lookup k = some c)
    (hr : c.role = .responder) (hp : c.phase = .settled) :
    ClaimConfirmed (s₀.config env) k c (life ((s₀.exec env ops).slot k).hist) := by
  have hev := (settlement_run env h₀ ops k).evidence c hc hp
  rwa [Evidence, hr] at hev

/-- Everything a swap's future depends on is the same: only the display notes and the record of the
    consult differ. -/
structure SameSwaps (s s' : Session) : Prop where
  coordinators : ∀ k, s'.coordinators.lookup k = s.coordinators.lookup k
  initiatedEver : s'.initiatedEver = s.initiatedEver
  fundingProofSeen : s'.fundingProofSeen = s.fundingProofSeen
  pending : s'.pending = s.pending
  config : s'.identity = s.identity ∧ s'.ladder = s.ladder ∧ s'.confirmPolicy = s.confirmPolicy

theorem confirmClaim_unavailable {env : Env} {s : Session} {k : SwapId} {c : SwapCoordinator} {tx : Hash}
    (hc : s.coordinators.lookup k = some c) (hr : c.role = .responder) (hp : c.phase = .revealed)
    (ht : c.claimTx = some tx) (hobs : env.observeClaim s.trace .nim tx = .unavailable) :
    SameSwaps s (s.confirmClaim env k).2 := by
  rw [confirmClaim_lookup env hc hr hp ht, hobs]
  refine ⟨fun k' => ?_, rfl, rfl, rfl, rfl, rfl, rfl⟩
  simp only [noteVerify, log, setCoord, applyClaimObservation, Table.lookup_insert_iff]
  by_cases hk : k' = k
  · rw [if_pos hk, hk, hc]
  · rw [if_neg hk]

theorem confirmClaim_notFound {env : Env} {s : Session} {k : SwapId} {c : SwapCoordinator} {tx : Hash}
    (hc : s.coordinators.lookup k = some c) (hr : c.role = .responder) (hp : c.phase = .revealed)
    (ht : c.claimTx = some tx) (hobs : env.observeClaim s.trace .nim tx = .notFound) :
    (s.confirmClaim env k).2.coordinators.lookup k = some { c with claimTx := none } ∧
    (∀ k', k' ≠ k → (s.confirmClaim env k).2.coordinators.lookup k' = s.coordinators.lookup k') ∧
    k ∈ (s.confirmClaim env k).2.claimsAwaitingBroadcast := by
  have hself : (s.confirmClaim env k).2.coordinators.lookup k = some { c with claimTx := none } := by
    rw [confirmClaim_lookup env hc hr hp ht, hobs]
    simp only [noteVerify, log, setCoord, Table.lookup_insert_iff, if_true]
    rfl
  refine ⟨hself, fun k' hk => confirmClaim_lookup_ne env s hk, ?_⟩
  rw [claimsAwaitingBroadcast, Table.mem_keysWhere]
  refine ⟨_, hself, ?_⟩
  have hcl : hasClaim { c with claimTx := none } = true := (hasClaim_iff _).mpr ⟨hr, hp⟩
  rw [hcl]
  rfl

/-- Once revealed, a responder stays in the phases after the reveal for the rest of its life. -/
theorem revealed_stays (env : Env) {s : Session} (hs : s.WF env) {k : SwapId} {c : SwapCoordinator}
    (hc : s.coordinators.lookup k = some c) (hr : c.role = .responder) (hp : c.phase = .revealed)
    (ops : List Op) : RevealedSince k (s.slot k).hist ((s.exec env ops).slot k) := by
  refine SlotInvariant.run (fun _ => ⟨fun a b hstep _ ha => revealedSince_step a b hstep ha, fun a ha => ?_⟩) hs
    ?_ ops
  · obtain ⟨new, he, hcr | -⟩ := ha
    · exact ⟨new, he, .inl hcr⟩
    · exact ⟨new, he, .inr fun d hd => by cases hd⟩
  · refine ⟨[], rfl, .inr fun d hd => ?_⟩
    rw [slot_coord, hc] at hd
    cases hd
    exact ⟨hr, by rw [hp]; rfl⟩

/-- CORRECT: in every run a responder is settled only if the chain showed its recorded claim included
    at the depth of the NIM leg. While it is revealed, an unavailable chain changes nothing, a claim
    the chain does not know is only cleared so that it is built again, a tick past `T_A` ends it lost
    unless the claim is confirmed, and nothing ever makes it refunded. -/
theorem responder_settles_only_on_confirmed_claim (env : Env) (s₀ : Session) (h₀ : s₀.Fresh)
    (ops : List Op) (k : SwapId) (c : SwapCoordinator)
    (hc : (s₀.exec env ops).coordinators.lookup k = some c) (hr : c.role = .responder) :
    (c.phase = .settled → ∃ tx depth tr, c.claimTx = some tx ∧ s₀.requiredDepth .nim ≤ depth ∧
      .observedClaim k tx (.included depth) ∈ life ((s₀.exec env ops).slot k).hist ∧
      env.observeClaim tr .nim tx = .included depth) ∧
    (c.phase = .revealed → ∀ tx, c.claimTx = some tx →
      env.observeClaim (s₀.exec env ops).trace .nim tx = .unavailable →
      SameSwaps (s₀.exec env ops) ((s₀.exec env ops).confirmClaim env k).2) ∧
    (c.phase = .revealed → ∀ tx, c.claimTx = some tx →
      env.observeClaim (s₀.exec env ops).trace .nim tx = .notFound →
      ((s₀.exec env ops).confirmClaim env k).2.coordinators.lookup k = some { c with claimTx := none } ∧
      (∀ k', k' ≠ k → ((s₀.exec env ops).confirmClaim env k).2.coordinators.lookup k' =
        (s₀.exec env ops).coordinators.lookup k') ∧
      k ∈ ((s₀.exec env ops).confirmClaim env k).2.claimsAwaitingBroadcast) ∧
    (c.phase = .revealed → ∀ head, c.ctx.terms.nimTimeout < head →
      ∃ c', ((s₀.exec env ops).tick env head).2.coordinators.lookup k = some c' ∧
        (c'.phase = .lost ∨ c'.phase = .settled ∧ ClaimConfirmed (s₀.config env) k c'
          (life (((s₀.exec env ops).tick env head).2.slot k).hist))) ∧
    (c.phase = .revealed → ∀ ops' new c', (s₀.exec env (ops ++ ops')).coordinators.lookup k = some c' →
      ((s₀.exec env (ops ++ ops')).slot k).hist = new ++ ((s₀.exec env ops).slot k).hist →
      (∀ role peer, .created k role peer ∉ new) → c'.role = .responder ∧ afterReveal c'.phase = true) := by
  obtain ⟨hcfg, hwf⟩ := exec_config_wf (h₀.wf env) ops
  refine ⟨fun hp => ?_, fun hp tx ht hobs => confirmClaim_unavailable hc hr hp ht hobs,
    fun hp tx ht hobs => confirmClaim_notFound hc hr hp ht hobs, fun hp head hpast => ?_,
    fun hp ops' new c' hc' hnew hlife => ?_⟩
  · obtain ⟨tx, depth, ht, hm, hd⟩ := claimConfirmed_run env h₀ ops hc hr hp
    have hmem : .observedClaim k tx (.included depth) ∈ ((s₀.exec env ops).slot k).hist :=
      life_subset _ hm
    obtain ⟨tr, htr⟩ := trace_answered env h₀ ops _ (List.mem_filter.mp hmem).1
    exact ⟨tx, depth, tr, ht, hd, hm, htr.symm⟩
  · obtain ⟨c', hc', hr', hph⟩ := tick_forecloses hwf hc hr hp hpast
    refine ⟨c', hc', hph.imp id fun hset => ⟨hset, ?_⟩⟩
    have hsnoc := exec_snoc env s₀ ops (.tick head)
    have hconf := claimConfirmed_run env h₀ (ops ++ [.tick head]) (by rw [hsnoc]; exact hc') hr' hset
    rw [hsnoc] at hconf
    exact hconf
  · have hrun : s₀.exec env (ops ++ ops') = (s₀.exec env ops).exec env ops' :=
      Run.exec_append (step env) s₀ ops ops'
    obtain ⟨new', he, hcr | hco⟩ := revealed_stays env hwf hc hr hp ops'
    · rw [← hrun, hnew] at he
      obtain rfl : new = new' := List.append_cancel_right he
      obtain ⟨role, peer, hm⟩ := hcr
      exact absurd hm (hlife role peer)
    · rw [← hrun] at hco
      exact hco c' hc'

/-- The sample responder, driven through its whole swap, is settled on a confirmed claim. -/
theorem sample_responder_settles :
    ∃ c, (Sample.bob.exec Sample.env Sample.responderRun).coordinators.lookup Sample.swapId = some c ∧
      c.role = .responder ∧ c.phase = .settled ∧
      ∃ tx depth tr, c.claimTx = some tx ∧ Sample.bob.requiredDepth .nim ≤ depth ∧
        .observedClaim Sample.swapId tx (.included depth) ∈
          life ((Sample.bob.exec Sample.env Sample.responderRun).slot Sample.swapId).hist ∧
        Sample.env.observeClaim tr .nim tx = .included depth := by
  have hrun : ((Sample.bob.exec Sample.env Sample.responderRun).coordinators.lookup Sample.swapId).any
      (fun c => decide (c.role = .responder ∧ c.phase = .settled)) = true := by
    decide +kernel
  obtain ⟨c, hc, hph⟩ := (Option.any_eq_true _ _).mp hrun
  obtain ⟨hr, hp⟩ := of_decide_eq_true hph
  exact ⟨c, hc, hr, hp, (responder_settles_only_on_confirmed_claim Sample.env Sample.bob
    Sample.bob_fresh Sample.responderRun Sample.swapId c hc hr).1 hp⟩

/-- The driver at `(Initiator, BothFunded)` leaves the swap there, or settles it on a claim the signer
    handed back. -/
theorem drive_bothFunded {env : Env} {s : Session} (hw : s.WF env) {k : SwapId} {c : SwapCoordinator}
    (hc : s.coordinators.lookup k = some c) (hr : c.role = .initiator) (hp : c.phase = .bothFunded)
    (head : UInt64) :
    (s.drivePhaseAction env k head).2.coordinators.lookup k = some c ∨
    ∃ secret tx, c.secret = some secret ∧ c.revealDeadlineOk head = true ∧
      env.buildClaim s.trace c.ctx secret = some tx ∧
      (s.drivePhaseAction env k head).2.coordinators.lookup k = some (c.withPhase .settled) := by
  have hdrive : s.drivePhaseAction env k head = s.driveReveal env k c head := by
    simp only [drivePhaseAction, hc, hr, hp]
  rw [hdrive]
  rcases driveReveal_cases (hw k c hc).terms hr hp with he | ⟨secret, hk, hd, ha, he⟩ |
    ⟨secret, wire, txId, hk, hd, ha, he⟩
  · rw [he]; exact .inl hc
  · rw [he]; exact .inl hc
  · rw [he]
    refine .inr ⟨secret, (wire, txId), hk, hd, ha, ?_⟩
    simp only [log, setCoord, Table.lookup_insert_iff, if_true]

/-- CORRECT: in every run an initiator is settled only if, with the reveal window open, its signer
    handed back a claim made with the coordinator's own secret, which opens the hashlock; if the signer
    is the live one, the chain had then shown the escrow claimed and the withdraw successful and buried.
    Until it is handed back a claim the swap stays `BothFunded`, from where it is driven again with the
    same secret and refunded at every head past `T_A`. -/
theorem initiator_settles_on_handed_back_claim (env : Env) (s₀ : Session) (h₀ : s₀.Fresh)
    (ops : List Op) (k : SwapId) (c : SwapCoordinator)
    (hc : (s₀.exec env ops).coordinators.lookup k = some c) (hr : c.role = .initiator) :
    (c.phase = .settled → ∃ secret head tx, c.secret = some secret ∧
      env.sha256 secret.1 = c.ctx.hashlock ∧ c.revealDeadlineOk head = true ∧
      .builtClaim k .initiator c.ctx secret head (some tx) ∈ life ((s₀.exec env ops).slot k).hist ∧
      ∀ (rpc : List Event → ClaimRpc) (last : List Event → Option (Bytes × Hash)),
        (∀ tr ctx secret, env.buildClaim tr ctx secret = (claimUsdc (rpc tr) (last tr) ctx secret).1) →
        ∃ tr escrow, (rpc tr).found c.ctx.hashlock = some escrow ∧
          ∃ v ∈ (rpc tr).polls, revealConfirmed v escrow tx.2 = true) ∧
    (c.phase = .bothFunded → ∀ head,
      ((s₀.exec env ops).drivePhaseAction env k head).2.coordinators.lookup k = some c ∨
      ∃ secret tx, c.secret = some secret ∧ c.revealDeadlineOk head = true ∧
        env.buildClaim (s₀.exec env ops).trace c.ctx secret = some tx ∧
        ((s₀.exec env ops).drivePhaseAction env k head).2.coordinators.lookup k =
          some (c.withPhase .settled)) ∧
    (c.phase = .bothFunded → ∀ head, c.ctx.terms.nimTimeout < head →
      (c.refundAfterTimeout head).2 = c.withPhase .refunded) := by
  obtain ⟨hcfg, hwf⟩ := exec_config_wf (h₀.wf env) ops
  refine ⟨fun hp => ?_, fun hp head => drive_bothFunded hwf hc hr hp head, fun hp head hpast => ?_⟩
  · have hev := (settlement_run env h₀ ops k).evidence c hc hp
    rw [Evidence, hr] at hev
    obtain ⟨secret, head, tx, hk, ho, hd, hm⟩ := hev
    refine ⟨secret, head, tx, hk, ho, hd, hm, fun rpc last hlive => ?_⟩
    have hmem := life_subset _ hm
    obtain ⟨tr, htr⟩ := trace_answered env h₀ ops _ (List.mem_filter.mp hmem).1
    rw [hlive] at htr
    obtain ⟨escrow, hf, hv⟩ := claimUsdc_confirmed htr.symm
    exact ⟨tr, escrow, hf, hv⟩
  · rcases c.refundAfterTimeout_cases head with ⟨-, -, he⟩ | ⟨hn, -⟩
    · exact he
    · refine absurd ⟨⟨?_, ?_⟩, ?_⟩ hn
      · rw [show c.swap.phase = .bothFunded from hp]
        rfl
      · intro h
        rw [show c.swap.role = .initiator from hr] at h
        cases h.1
      · rw [Swap.ownTimeout, show c.swap.role = .initiator from hr, (hwf k c hc).terms]
        exact hpast

/-- The sample initiator is settled on the claim its signer handed back. -/
theorem sample_initiator_settles :
    ∃ c, (Sample.alice.exec Sample.env Sample.initiatorRun).coordinators.lookup Sample.swapId = some c ∧
      c.role = .initiator ∧ c.phase = .settled ∧
      ∃ secret head tx, c.secret = some secret ∧ Sample.env.sha256 secret.1 = c.ctx.hashlock ∧
        c.revealDeadlineOk head = true ∧
        .builtClaim Sample.swapId .initiator c.ctx secret head (some tx) ∈
          life ((Sample.alice.exec Sample.env Sample.initiatorRun).slot Sample.swapId).hist := by
  have hrun : ((Sample.alice.exec Sample.env Sample.initiatorRun).coordinators.lookup
      Sample.swapId).any (fun c => decide (c.role = .initiator ∧ c.phase = .settled)) = true := by
    decide +kernel
  obtain ⟨c, hc, hph⟩ := (Option.any_eq_true _ _).mp hrun
  obtain ⟨hr, hp⟩ := of_decide_eq_true hph
  obtain ⟨secret, head, tx, hk, ho, hd, hm, -⟩ :=
    (initiator_settles_on_handed_back_claim Sample.env Sample.alice Sample.alice_fresh Sample.initiatorRun
      Sample.swapId c hc hr).1 hp
  exact ⟨c, hc, hr, hp, secret, head, tx, hk, ho, hd, hm⟩

/-- With the mock signer and a chain that never knows the claim, the initiator settles all the same:
    no consult for its claim was made. -/
theorem initiator_settles_without_inclusion :
    ((Sample.alice.exec { Sample.env with observeClaim := fun _ _ _ => .notFound }
      Sample.initiatorRun).coordinators.lookup Sample.swapId).map (fun c => (c.role, c.phase)) =
      some (.initiator, .settled) ∧
    (Sample.alice.exec { Sample.env with observeClaim := fun _ _ _ => .notFound }
      Sample.initiatorRun).trace.all (fun e => match e with | .observedClaim .. => false | _ => true) =
      true := by
  decide +kernel

end Session

end Nimmesh
