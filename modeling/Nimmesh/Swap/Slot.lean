import Mathlib.Logic.Relation
import Nimmesh.Swap.Session

/-! @src swap_session.rs | name:The life of one swap | layer:abstract

    What a session is for, seen through one swap id: a slot that is empty or holds a coordinator, a
    tombstone, and the history of the events that name the id. `SlotStep` lists everything that can
    happen to a slot, with the guard each step has passed; it names no message, no map and no tick.
    The session refines it (`Nimmesh.Swap.Refine`), so an invariant is proved once, by cases on
    `SlotStep`, and holds in every reachable session for every id. -/

namespace Nimmesh

/-- What the automaton needs to know of a session: it never changes during a run. -/
structure Config where
  ladder : LadderParams
  need : SwapLegId → UInt32
  sha256 : Bytes → Hash

structure Slot where
  coord : Option SwapCoordinator
  tombstone : Bool
  hist : List Event

/-- A coordinator is well formed for its key: it knows its id, its machine runs on the agreed terms
    and it carries the session's ladder. -/
structure WellFormed (cfg : Config) (id : SwapId) (c : SwapCoordinator) : Prop where
  swapId : c.ctx.swapId = id
  terms : c.swap.terms = c.ctx.terms
  ladder : c.ladder = cfg.ladder

/-- A coordinator as `add_initiator` receives it. -/
structure FreshInitiator (cfg : Config) (id : SwapId) (c : SwapCoordinator) : Prop
    extends WellFormed cfg id c where
  role : c.role = .initiator
  phase : c.phase = .proposed
  secret : ∃ secret, c.secret = some secret ∧ cfg.sha256 secret.1 = c.ctx.hashlock
  claimTx : c.claimTx = none
  peer : c.peerBtcPubkey = none

/-- A coordinator as a `Propose` creates it: accepted on a ladder that is safe at the head. -/
structure FreshResponder (cfg : Config) (id : SwapId) (head : UInt64) (c : SwapCoordinator) : Prop
    extends WellFormed cfg id c where
  role : c.role = .responder
  phase : c.phase = .accepted
  safe : (assessLadder c.ctx.terms head c.ladder).isSafe = true
  secret : c.secret = none
  claimTx : c.claimTx = none

/-- The events of the current life of a swap: those after its last creation. -/
def life : List Event → List Event
  | [] => []
  | .created .. :: _ => []
  | e :: h => e :: life h

theorem life_subset : ∀ h : List Event, life h ⊆ h
  | [] => by simp [life]
  | e :: h => by
      intro x hx
      cases e with
      | created => cases hx
      | _ =>
        rcases List.mem_cons.mp hx with rfl | hx
        · exact List.mem_cons_self
        · exact List.mem_cons_of_mem _ (life_subset h hx)

/-- Everything that can happen to a slot. The exits by timeout happen in a tick only, at its head
    `now`. -/
inductive SlotStep (cfg : Config) (now : Option UInt64) (id : SwapId) : Slot → Slot → Prop
  | createInitiator {c : SwapCoordinator} {h : List Event} (fresh : FreshInitiator cfg id c) :
      SlotStep cfg now id ⟨none, false, h⟩ ⟨some c, true, .created id .initiator none :: h⟩
  | createResponder {c : SwapCoordinator} {t : Bool} {h : List Event} {head : UInt64}
      {peer : NimAddress × Bytes} (fresh : FreshResponder cfg id head c) :
      SlotStep cfg now id ⟨none, t, h⟩ ⟨some c, t, .created id .responder (some peer) :: h⟩
  | accept {c : SwapCoordinator} {t : Bool} {h : List Event} {head : UInt64} {pk : Option BtcPubkey}
      {peer : NimAddress × Bytes} (phase : c.phase = .proposed)
      (safe : (assessLadder c.swap.terms head c.ladder).isSafe = true) :
      SlotStep cfg now id ⟨some c, t, h⟩
        ⟨some { c.withPhase .accepted with peerBtcPubkey := pk }, t, .accepted id peer :: h⟩
  | noteWire {c : SwapCoordinator} {t : Bool} {h : List Event} (leg : SwapLegId) (wire : Bytes) :
      SlotStep cfg now id ⟨some c, t, h⟩ ⟨some c, t, .notedWire id leg wire :: h⟩
  | notePeer {c : SwapCoordinator} {t : Bool} {h : List Event} (peer : NimAddress × Bytes) :
      SlotStep cfg now id ⟨some c, t, h⟩ ⟨some c, t, .notedPeer id peer :: h⟩
  | observe {c : SwapCoordinator} {t : Bool} {h : List Event} (obs : FundingObservation) :
      SlotStep cfg now id ⟨some c, t, h⟩ ⟨some c, t, .observed id c.counterpartyExpectation obs :: h⟩
  | observeFunded {c : SwapCoordinator} {t : Bool} {h : List Event} {obs : FundingObservation}
      (awaits : c.awaitsCounterpartyFunding = true)
      (funded : Funded obs c.counterpartyExpectation (cfg.need c.counterpartyExpectation.leg)) :
      SlotStep cfg now id ⟨some c, t, h⟩
        ⟨some (c.withPhase (SwapCoordinator.observedPhase c.role)), t,
          .observed id c.counterpartyExpectation obs :: h⟩
  | fundRefused {c : SwapCoordinator} {t : Bool} {h : List Event} {head : UInt64}
      {answer : Option (Bytes × Hash)} (fundable : c.swap.fundable)
      (refused : answer = none ∨ (assessLadder c.swap.terms head c.ladder).isSafe = false) :
      SlotStep cfg now id ⟨some c, t, h⟩ ⟨some c, t, .builtFunding id c.role c.ctx head answer :: h⟩
  | fund {c : SwapCoordinator} {t : Bool} {h : List Event} {head : UInt64} {tx : Bytes × Hash}
      (fundable : c.swap.fundable) (safe : (assessLadder c.swap.terms head c.ladder).isSafe = true) :
      SlotStep cfg now id ⟨some c, t, h⟩
        ⟨some (c.withPhase (SwapCoordinator.fundedPhase c.role)), t,
          .builtFunding id c.role c.ctx head (some tx) :: h⟩
  | revealRefused {c : SwapCoordinator} {t : Bool} {h : List Event} {head : UInt64} {secret : Hash}
      (role : c.role = .initiator) (phase : c.phase = .bothFunded)
      (deadline : c.revealDeadlineOk head = true) (knows : c.secret = some secret) :
      SlotStep cfg now id ⟨some c, t, h⟩ ⟨some c, t, .builtClaim id c.role c.ctx secret head none :: h⟩
  | reveal {c : SwapCoordinator} {t : Bool} {h : List Event} {head : UInt64} {secret : Hash}
      {tx : Bytes × Hash} (role : c.role = .initiator) (phase : c.phase = .bothFunded)
      (deadline : c.revealDeadlineOk head = true) (knows : c.secret = some secret) :
      SlotStep cfg now id ⟨some c, t, h⟩
        ⟨some (c.withPhase .settled), t, .builtClaim id c.role c.ctx secret head (some tx) :: h⟩
  | learnSecret {c : SwapCoordinator} {t : Bool} {h : List Event} {secret : Hash}
      (role : c.role = .responder) (phase : c.phase = .bothFunded)
      (opens : cfg.sha256 secret.1 = c.ctx.hashlock) :
      SlotStep cfg now id ⟨some c, t, h⟩
        ⟨some { c.withPhase .revealed with secret := some secret }, t, h⟩
  | claim {c : SwapCoordinator} {t : Bool} {h : List Event} {head : UInt64} {secret : Hash}
      (answer : Option (Bytes × Hash)) (role : c.role = .responder) (phase : c.phase = .revealed)
      (unclaimed : c.claimTx = none) (knows : c.secret = some secret) :
      SlotStep cfg now id ⟨some c, t, h⟩
        ⟨some { c with claimTx := answer.map (·.2) }, t,
          .builtClaim id c.role c.ctx secret head answer :: h⟩
  | observeClaim {c : SwapCoordinator} {t : Bool} {h : List Event} {txId : Hash}
      (obs : ClaimObservation) (role : c.role = .responder) (phase : c.phase = .revealed)
      (claimed : c.claimTx = some txId) :
      SlotStep cfg now id ⟨some c, t, h⟩
        ⟨some (Session.applyClaimObservation c (cfg.need .nim) obs), t,
          .observedClaim id txId obs :: h⟩
  | refund {c : SwapCoordinator} {t : Bool} {h : List Event} {head : UInt64}
      (refundable : c.swap.refundable) (past : c.swap.ownTimeout < head) (tick : now = some head) :
      SlotStep cfg now id ⟨some c, t, h⟩ ⟨some (c.withPhase .refunded), t, h⟩
  | forfeit {c : SwapCoordinator} {t : Bool} {h : List Event} {head : UInt64}
      (role : c.role = .responder) (phase : c.phase = .revealed)
      (past : c.swap.terms.nimTimeout < head) (tick : now = some head) :
      SlotStep cfg now id ⟨some c, t, h⟩ ⟨some (c.withPhase .lost), t, h⟩
  | drop {c : SwapCoordinator} {t : Bool} {h : List Event} (unlocked : c.phase.hasFundsLocked = false) :
      SlotStep cfg now id ⟨some c, t, h⟩ ⟨none, t, h⟩

/-- Any number of steps. -/
abbrev SlotSteps (cfg : Config) (now : Option UInt64) (id : SwapId) : Slot → Slot → Prop :=
  Relation.ReflTransGen (SlotStep cfg now id)

/-- The coordinator a slot holds, if any, is well formed. -/
def Slot.WF (cfg : Config) (id : SwapId) (sl : Slot) : Prop :=
  ∀ c, sl.coord = some c → WellFormed cfg id c

/-- The invariant rule of the automaton. -/
theorem SlotSteps.preserves {cfg : Config} {now : Option UInt64} {id : SwapId} {I : Slot → Prop}
    (hstep : ∀ a b, SlotStep cfg now id a b → I a → I b) {a b : Slot} (h : SlotSteps cfg now id a b)
    (ha : I a) : I b := by
  induction h with
  | refl => exact ha
  | tail _ hs ih => exact hstep _ _ hs ih

theorem WellFormed.withPhase {cfg : Config} {id : SwapId} {c : SwapCoordinator}
    (h : WellFormed cfg id c) (ph : SwapPhase) : WellFormed cfg id (c.withPhase ph) :=
  ⟨h.swapId, h.terms, h.ladder⟩

/-- Observing a claim keeps everything but the phase and the recorded claim. -/
theorem applyClaimObservation_cases (c : SwapCoordinator) (need : UInt32) (obs : ClaimObservation)
    (hp : c.phase = .revealed) :
    (∃ d, obs = .included d ∧ need ≤ d ∧
      Session.applyClaimObservation c need obs = c.withPhase .settled) ∨
    (obs = .notFound ∧ Session.applyClaimObservation c need obs = { c with claimTx := none }) ∨
    Session.applyClaimObservation c need obs = c := by
  cases obs with
  | included d =>
    by_cases hd : need ≤ d
    · rcases c.settle_cases with ⟨-, he⟩ | ⟨hne, -⟩
      · exact .inl ⟨d, rfl, hd, by simp only [Session.applyClaimObservation, if_pos hd, he]⟩
      · exact absurd hp hne
    · exact .inr (.inr (by simp only [Session.applyClaimObservation, if_neg hd]))
  | notFound => exact .inr (.inl ⟨rfl, rfl⟩)
  | unavailable => exact .inr (.inr rfl)

theorem SlotStep.wf {cfg : Config} {now : Option UInt64} {id : SwapId} {a b : Slot}
    (h : SlotStep cfg now id a b)
    (ha : a.WF cfg id) : b.WF cfg id := by
  intro c' hc'
  cases h with
  | createInitiator fresh => cases hc'; exact fresh.toWellFormed
  | createResponder fresh => cases hc'; exact fresh.toWellFormed
  | observeClaim obs _ phase _ =>
    cases hc'
    rcases applyClaimObservation_cases _ (cfg.need .nim) obs phase with ⟨d, -, -, he⟩ | ⟨-, he⟩ | he <;>
      rw [he]
    · exact (ha _ rfl).withPhase _
    · exact ⟨(ha _ rfl).swapId, (ha _ rfl).terms, (ha _ rfl).ladder⟩
    · exact ha _ rfl
  | drop => cases hc'
  | _ => cases hc'; exact ⟨(ha _ rfl).swapId, (ha _ rfl).terms, (ha _ rfl).ladder⟩

theorem SlotSteps.wf {cfg : Config} {now : Option UInt64} {id : SwapId} {a b : Slot}
    (h : SlotSteps cfg now id a b)
    (ha : a.WF cfg id) : b.WF cfg id :=
  SlotSteps.preserves (fun _ _ hs => hs.wf) h ha

/-- The history only grows. -/
theorem SlotSteps.hist_suffix {cfg : Config} {now : Option UInt64} {id : SwapId} {a b : Slot}
    (h : SlotSteps cfg now id a b) :
    a.hist <:+ b.hist := by
  refine SlotSteps.preserves (I := fun sl => a.hist <:+ sl.hist) (fun x y hs hx => ?_) h
    List.suffix_rfl
  cases hs with
  | learnSecret | refund | forfeit | drop => exact hx
  | _ => exact hx.trans (List.suffix_cons _ _)

/-! ### The three kinds of steps -/

/-- This node's funds are locked, or the swap is over. -/
def pastFunding (ph : SwapPhase) : Prop := ph.hasFundsLocked = true ∨ ph.isTerminal = true

theorem not_pastFunding_of_fundable {c : SwapCoordinator} (hf : c.swap.fundable) :
    ¬ pastFunding c.phase := by
  rcases hf with ⟨-, hp⟩ | ⟨-, hp⟩ <;>
    simp [pastFunding, SwapCoordinator.phase, hp, SwapPhase.hasFundsLocked, SwapPhase.isTerminal]

/-- What a step of a held coordinator keeps, and what it can ask the signer: nothing is created, the role
    and the context stay, a funding is asked only for the coordinator itself while it is ready to fund,
    and the funding that is built is recorded unless the ladder is unsafe. -/
structure InnerStep (id : SwapId) (c c' : SwapCoordinator) (new : List Event) : Prop where
  role : c'.role = c.role
  ctx : c'.ctx = c.ctx
  single : new.length ≤ 1
  creates : ∀ i r peer, .created i r peer ∉ new
  asks : ∀ i r ctx head answer, .builtFunding i r ctx head answer ∈ new →
    i = id ∧ r = c.role ∧ ctx = c.ctx ∧ c.swap.fundable ∧
      ((assessLadder c.swap.terms head c.ladder).isSafe = true → answer ≠ none → pastFunding c'.phase)
  past : pastFunding c.phase → pastFunding c'.phase

/-- A step that asks for no funding. -/
theorem InnerStep.quiet {id : SwapId} {c c' : SwapCoordinator} {new : List Event}
    (role : c'.role = c.role) (ctx : c'.ctx = c.ctx) (single : new.length ≤ 1)
    (creates : ∀ i r peer, .created i r peer ∉ new)
    (asks : ∀ i r ctx head answer, .builtFunding i r ctx head answer ∉ new)
    (past : pastFunding c.phase → pastFunding c'.phase) : InnerStep id c c' new :=
  ⟨role, ctx, single, creates, fun i r ctx head answer h => absurd h (asks i r ctx head answer), past⟩

/-- Every step creates a coordinator in an empty slot, moves the one that is held, or drops it. -/
theorem SlotStep.kinds {cfg : Config} {now : Option UInt64} {id : SwapId} {a b : Slot}
    (h : SlotStep cfg now id a b) :
    (∃ c peer, a.coord = none ∧ b.coord = some c ∧ b.hist = .created id c.role peer :: a.hist ∧
      ¬ pastFunding c.phase) ∨
    (∃ c c' new, a.coord = some c ∧ b.coord = some c' ∧ b.hist = new ++ a.hist ∧
      InnerStep id c c' new) ∨
    (∃ c, a.coord = some c ∧ b.coord = none ∧ b.hist = a.hist ∧ c.phase.hasFundsLocked = false) := by
  cases h with
  | @createInitiator c h fresh =>
    refine .inl ⟨c, none, rfl, rfl, by rw [fresh.role], ?_⟩
    simp [fresh.phase, pastFunding, SwapPhase.hasFundsLocked, SwapPhase.isTerminal]
  | @createResponder c t h head peer fresh =>
    refine .inl ⟨c, some peer, rfl, rfl, by rw [fresh.role], ?_⟩
    simp [fresh.phase, pastFunding, SwapPhase.hasFundsLocked, SwapPhase.isTerminal]
  | drop hl => exact .inr (.inr ⟨_, rfl, rfl, rfl, hl⟩)
  | @accept c t h head pk peer hph hsafe =>
    refine .inr (.inl ⟨c, _, [_], rfl, rfl, rfl, .quiet rfl rfl le_rfl (by simp) (by simp) fun hp => ?_⟩)
    simp [hph, pastFunding, SwapPhase.hasFundsLocked, SwapPhase.isTerminal] at hp
  | @observeFunded c t h obs haw hfu =>
    refine .inr (.inl ⟨c, _, [_], rfl, rfl, rfl, .quiet rfl rfl le_rfl (by simp) (by simp) fun hp => ?_⟩)
    rcases c.awaitsCounterpartyFunding_iff.mp haw with ⟨-, hp'⟩ | ⟨hi, -⟩
    · simp [hp', pastFunding, SwapPhase.hasFundsLocked, SwapPhase.isTerminal] at hp
    · simp [hi, pastFunding, SwapCoordinator.observedPhase, SwapPhase.hasFundsLocked]
  | @fundRefused c t h head answer hfd hre =>
    refine .inr (.inl ⟨c, c, [_], rfl, rfl, rfl, rfl, rfl, le_rfl, by simp, ?_, fun h => h⟩)
    intro i r ctx head' answer' hm
    obtain ⟨rfl, rfl, rfl, rfl, rfl⟩ := Event.builtFunding.inj (List.mem_singleton.mp hm)
    refine ⟨rfl, rfl, rfl, hfd, fun hs hne => ?_⟩
    rcases hre with hnone | hbad
    · exact absurd hnone hne
    · rw [hs] at hbad
      cases hbad
  | @fund c t h head tx hfd hsafe =>
    have hpast : pastFunding (SwapCoordinator.fundedPhase c.role) :=
      .inl (SwapCoordinator.fundedPhase_locked c.role)
    refine .inr (.inl ⟨c, _, [_], rfl, rfl, rfl, rfl, rfl, le_rfl, by simp, ?_, fun _ => hpast⟩)
    intro i r ctx head' answer' hm
    obtain ⟨rfl, rfl, rfl, -, -⟩ := Event.builtFunding.inj (List.mem_singleton.mp hm)
    exact ⟨rfl, rfl, rfl, hfd, fun _ _ => hpast⟩
  | @observeClaim c t h txId obs hr hp ht =>
    refine .inr (.inl ⟨c, _, [_], rfl, rfl, rfl, ?_⟩)
    rcases applyClaimObservation_cases c (cfg.need .nim) obs hp with ⟨d, -, -, he⟩ | ⟨-, he⟩ | he <;>
      rw [he]
    · exact .quiet rfl rfl le_rfl (by simp) (by simp) fun _ => .inr rfl
    · exact .quiet rfl rfl le_rfl (by simp) (by simp) fun h => h
    · exact .quiet rfl rfl le_rfl (by simp) (by simp) fun h => h
  | reveal =>
    exact .inr (.inl ⟨_, _, [_], rfl, rfl, rfl,
      .quiet rfl rfl le_rfl (by simp) (by simp) fun _ => .inr rfl⟩)
  | learnSecret =>
    exact .inr (.inl ⟨_, _, [], rfl, rfl, rfl,
      .quiet rfl rfl (Nat.zero_le _) (by simp) (by simp) fun _ => .inl rfl⟩)
  | refund | forfeit =>
    exact .inr (.inl ⟨_, _, [], rfl, rfl, rfl,
      .quiet rfl rfl (Nat.zero_le _) (by simp) (by simp) fun _ => .inr rfl⟩)
  | _ =>
    exact .inr (.inl ⟨_, _, [_], rfl, rfl, rfl,
      .quiet rfl rfl le_rfl (by simp) (by simp) fun h => h⟩)

end Nimmesh
