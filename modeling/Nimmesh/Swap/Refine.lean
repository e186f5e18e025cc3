import Nimmesh.Swap.Node
import Nimmesh.Swap.Slot

/-! @src swap_session.rs swap_node.rs swap_claim.rs | name:The session refines the slot automaton |
    layer:refinement

    Each function of the session and of the driver moves the slot of every id by steps of the
    automaton, keeps the configuration, and extends the trace by events of a known kind. `Moves` packs
    the three; it is reflexive and composes, so a compound function is the composition of its parts
    and a loop is an induction over its list. -/

namespace Nimmesh

namespace Session

def config (env : Env) (s : Session) : Config := ⟨s.ladder, s.requiredDepth, env.sha256⟩

/-- A session seen through one swap id. -/
def slot (s : Session) (k : SwapId) : Slot :=
  ⟨s.coordinators.lookup k, s.hasInitiated k, s.trace.filter fun e => e.swapId = k⟩

/-- Every coordinator of the session is well formed for its key. -/
def WF (env : Env) (s : Session) : Prop := ∀ k, (s.slot k).WF (s.config env) k

@[simp] theorem slot_coord (s : Session) (k : SwapId) : (s.slot k).coord = s.coordinators.lookup k := rfl

theorem slot_setCoord_self (s : Session) (id : SwapId) (c : SwapCoordinator) :
    (s.setCoord id c).slot id = { s.slot id with coord := some c } := by
  simp only [slot, setCoord, hasInitiated, Table.lookup_insert_iff, if_true]

theorem slot_setCoord_ne (s : Session) {id k : SwapId} (h : k ≠ id) (c : SwapCoordinator) :
    (s.setCoord id c).slot k = s.slot k := by
  simp only [slot, setCoord, hasInitiated, Table.lookup_insert_iff, if_neg h]

theorem slot_log_self (s : Session) (e : Event) :
    (s.log e).slot e.swapId = { s.slot e.swapId with hist := e :: (s.slot e.swapId).hist } := by
  simp [slot, log, hasInitiated]

theorem slot_log_ne (s : Session) {e : Event} {k : SwapId} (h : k ≠ e.swapId) :
    (s.log e).slot k = s.slot k := by
  simp only [slot, log, hasInitiated, List.filter_cons, decide_eq_true_eq, if_neg (Ne.symm h)]

/-! ### Moves -/

variable {n : Option UInt64}

/-- From `s` to `s'` every slot made steps of the automaton, the configuration stayed, and the events
    added to the trace satisfy `P`. -/
structure Moves (env : Env) (now : Option UInt64) (P : Event → Prop) (s s' : Session) : Prop where
  config : s'.config env = s.config env
  slots : ∀ k, SlotSteps (s.config env) now k (s.slot k) (s'.slot k)
  grows : ∃ new, s'.trace = new ++ s.trace ∧ ∀ e ∈ new, P e

namespace Moves

variable {env : Env} {P : Event → Prop} {s s' s'' : Session}

theorem refl (s : Session) : Moves env n P s s :=
  ⟨rfl, fun _ => .refl, [], rfl, by simp⟩

theorem trans (h : Moves env n P s s') (h' : Moves env n P s' s'') : Moves env n P s s'' := by
  refine ⟨h'.config.trans h.config, fun k => ?_, ?_⟩
  · have hk := h'.slots k
    rw [h.config] at hk
    exact (h.slots k).trans hk
  · obtain ⟨new, he, hp⟩ := h.grows
    obtain ⟨new', he', hp'⟩ := h'.grows
    refine ⟨new' ++ new, by rw [he', he, List.append_assoc], fun e hmem => ?_⟩
    rcases List.mem_append.mp hmem with hm | hm
    · exact hp' e hm
    · exact hp e hm

theorem mono {Q : Event → Prop} (hpq : ∀ e, P e → Q e) (h : Moves env n P s s') : Moves env n Q s s' := by
  obtain ⟨new, he, hp⟩ := h.grows
  exact ⟨h.config, h.slots, new, he, fun e hm => hpq e (hp e hm)⟩

theorem wf (h : Moves env n P s s') (hs : s.WF env) : s'.WF env := by
  intro k
  rw [h.config]
  exact (h.slots k).wf (hs k)

/-- A function that touches neither the coordinators nor the trace. -/
theorem of_eq (hl : s'.ladder = s.ladder) (hp : s'.confirmPolicy = s.confirmPolicy)
    (ha : s'.counterpartyChain = s.counterpartyChain) (hc : s'.coordinators = s.coordinators)
    (hi : s'.initiatedEver = s.initiatedEver) (ht : s'.trace = s.trace) : Moves env n P s s' := by
  refine ⟨?_, fun k => ?_, [], ht, by simp⟩
  · simp only [Session.config, hl, Config.mk.injEq, true_and, and_true]
    funext leg
    rw [requiredDepth, requiredDepth, hp, ha]
  · simp only [slot, hasInitiated, hc, hi, ht]; exact .refl

/-- A loop whose body moves. -/
theorem foldl {α : Type*} {f : Session → α → Session}
    (hf : ∀ s a, s.WF env → Moves env n P s (f s a)) :
    ∀ (l : List α) (s : Session), s.WF env → Moves env n P s (l.foldl f s)
  | [], s, _ => refl s
  | a :: l, s, hs => (hf s a hs).trans (foldl hf l (f s a) ((hf s a hs).wf hs))

end Moves

/-- Write one coordinator and log one event of the same id: the slot of that id makes the given step
    and no other slot moves. -/
theorem moves_setCoord_log {env : Env} {P : Event → Prop} {s : Session} {id : SwapId}
    {c' : SwapCoordinator} {e : Event} (hid : e.swapId = id) (hP : P e)
    (hstep : SlotStep (s.config env) n id (s.slot id)
      ⟨some c', (s.slot id).tombstone, e :: (s.slot id).hist⟩) :
    Moves env n P s ((s.setCoord id c').log e) := by
  subst hid
  refine ⟨rfl, fun k => ?_, [e], rfl, by simpa using hP⟩
  by_cases hk : k = e.swapId
  · subst hk
    rw [slot_log_self, slot_setCoord_self]
    exact .single hstep
  · rw [slot_log_ne _ hk, slot_setCoord_ne _ hk]

/-- Log one event of an id that the session holds. -/
theorem moves_log {env : Env} {P : Event → Prop} {s : Session} {e : Event} (hP : P e)
    (hstep : SlotStep (s.config env) n e.swapId (s.slot e.swapId)
      { s.slot e.swapId with hist := e :: (s.slot e.swapId).hist }) :
    Moves env n P s (s.log e) := by
  refine ⟨rfl, fun k => ?_, [e], rfl, by simpa using hP⟩
  by_cases hk : k = e.swapId
  · subst hk
    rw [slot_log_self]
    exact .single hstep
  · rw [slot_log_ne _ hk]

/-- Write one coordinator without an event. -/
theorem moves_setCoord {env : Env} {P : Event → Prop} {s : Session} {id : SwapId}
    {c' : SwapCoordinator}
    (hstep : SlotSteps (s.config env) n id (s.slot id) { s.slot id with coord := some c' }) :
    Moves env n P s (s.setCoord id c') := by
  refine ⟨rfl, fun k => ?_, [], rfl, by simp⟩
  by_cases hk : k = id
  · subst hk
    rw [slot_setCoord_self]
    exact hstep
  · rw [slot_setCoord_ne _ hk]

theorem slot_eq_of_lookup {s : Session} {id : SwapId} {c : SwapCoordinator}
    (h : s.coordinators.lookup id = some c) :
    s.slot id = ⟨some c, (s.slot id).tombstone, (s.slot id).hist⟩ := by
  rw [← h]; rfl

theorem slot_eq_of_not_mem {s : Session} {id : SwapId} (h : id ∉ s.coordinators) :
    s.slot id = ⟨none, (s.slot id).tombstone, (s.slot id).hist⟩ := by
  rw [← AList.lookup_eq_none.mpr h]; rfl

theorem noteVerify_moves {env : Env} {P : Event → Prop} (s : Session) (id : SwapId) (text : String) :
    Moves env n P s (s.noteVerify env id text) :=
  .of_eq rfl rfl rfl rfl rfl rfl

/-! ### Kinds of events -/

/-- The events of the verification and claim consults, with the answer the chain gave: they create,
    accept, fund and address nothing. -/
def Quiet (env : Env) : Event → Prop
  | .observed _ expect obs => ∃ tr, obs = env.observe tr expect
  | .observedClaim _ txId obs => ∃ tr, obs = env.observeClaim tr .nim txId
  | .notedWire .. => True
  | _ => False

/-! ### The session's functions -/

theorem verifyCounterpartyFunding_moves (env : Env) {s : Session} {id : SwapId} {c : SwapCoordinator}
    (hc : s.coordinators.lookup id = some c) :
    Moves env n (Quiet env) s (s.verifyCounterpartyFunding env id c).2 := by
  unfold verifyCounterpartyFunding
  dsimp only
  refine Moves.trans ?_ (noteVerify_moves _ _ _)
  refine moves_setCoord_log rfl ⟨s.trace, rfl⟩ ?_
  rw [slot_eq_of_lookup hc]
  rcases c.verifyAndObserveFunding_cases (env.observe s.trace)
      (s.requiredDepth c.counterpartyExpectation.leg) with ⟨hf, ha, he⟩ | ⟨e, he⟩
  · rw [he]; exact .observeFunded ha hf
  · rw [he]; exact .observe _

theorem reverifyOne_moves {env : Env} (acc : List SwapId × Session) (id : SwapId) :
    Moves env n (Quiet env) acc.2 (reverifyOne env acc id).2 := by
  unfold reverifyOne
  cases hc : acc.2.coordinators.lookup id with
  | none => exact .refl _
  | some c =>
    have hm := verifyCounterpartyFunding_moves (n := n) env hc
    rcases hr : acc.2.verifyCounterpartyFunding env id c with ⟨_ | _, s'⟩ <;> rw [hr] at hm <;>
      simpa [hr] using hm

theorem reverifyFold_moves {env : Env} : ∀ (ids : List SwapId) (acc : List SwapId × Session),
    Moves env n (Quiet env) acc.2 (ids.foldl (reverifyOne env) acc).2
  | [], _ => .refl _
  | id :: ids, acc => (reverifyOne_moves acc id).trans (reverifyFold_moves ids _)

theorem reverifyAwaitedFunding_moves (env : Env) (s : Session) :
    Moves env n (Quiet env) s (s.reverifyAwaitedFunding env).2 :=
  (reverifyFold_moves s.awaitingIds ([], s)).trans (.of_eq rfl rfl rfl rfl rfl rfl)

theorem hasClaim_iff (c : SwapCoordinator) :
    hasClaim c = true ↔ c.role = .responder ∧ c.phase = .revealed := by
  simp [hasClaim]

theorem confirmClaim_moves (env : Env) (s : Session) (id : SwapId) :
    Moves env n (Quiet env) s (s.confirmClaim env id).2 := by
  unfold confirmClaim
  cases hc : s.coordinators.lookup id with
  | none => exact .refl _
  | some c =>
    by_cases hcl : hasClaim c = true
    · cases ht : c.claimBroadcast with
      | none => simp only [hcl, ht, Bool.not_true, Bool.false_eq_true, if_false]; exact .refl _
      | some txId =>
        simp only [hcl, ht, Bool.not_true, Bool.false_eq_true, if_false]
        refine Moves.trans ?_ (noteVerify_moves _ _ _)
        refine moves_setCoord_log rfl ⟨s.trace, rfl⟩ ?_
        rw [slot_eq_of_lookup hc]
        obtain ⟨hr, hp⟩ := (hasClaim_iff c).mp hcl
        exact .observeClaim _ hr hp ht
    · simp only [hcl, Bool.not_false, if_true]
      exact .refl _

theorem confirmPendingClaims_moves (env : Env) (s : Session) (hs : s.WF env) :
    Moves env n (Quiet env) s (s.confirmPendingClaims env) :=
  Moves.foldl (fun s id _ => confirmClaim_moves env s id) _ s hs

theorem foreclose_moves (env : Env) (head : UInt64) (s : Session) (id : SwapId) :
    Moves env (some head) (Quiet env) s (foreclose env head s id) := by
  unfold foreclose
  have hm := confirmClaim_moves (n := some head) env s id
  rcases hr : s.confirmClaim env id with ⟨_ | _, s'⟩
  · rw [hr] at hm
    simp only
    cases hc : s'.coordinators.lookup id with
    | none => exact hm
    | some c =>
      refine hm.trans (moves_setCoord ?_)
      rw [slot_eq_of_lookup hc]
      rcases c.forfeitExpiredClaim_cases head with ⟨hro, hp, ht, he⟩ | ⟨-, he⟩
      · rw [he]; exact .single (.forfeit hro hp ht rfl)
      · rw [he]
  · rw [hr] at hm; exact hm

/-- What a tick drops has no funds locked. -/
theorem unlocked_of_not_tickKeeps {head : UInt64} {c : SwapCoordinator}
    (h : tickKeeps head c = false) : c.phase.hasFundsLocked = false := by
  unfold tickKeeps at h
  cases hl : c.phase.hasFundsLocked with
  | false => rfl
  | true =>
    have hst : c.isStale head = false := by unfold SwapCoordinator.isStale; simp [hl]
    have hte : c.phase.isTerminal = false := by
      revert hl; cases c.phase <;> simp [SwapPhase.hasFundsLocked, SwapPhase.isTerminal]
    simp [hst, hte] at h

/-- Dropping an entry that is not locked, or keeping it. -/
theorem slotSteps_filter {cfg : Config} {k : SwapId} {c : SwapCoordinator} {t : Bool} {h : List Event}
    {keep : SwapCoordinator → Bool} (hk : keep c = false → c.phase.hasFundsLocked = false) :
    SlotSteps cfg n k ⟨some c, t, h⟩ ⟨(some c).filter keep, t, h⟩ := by
  cases hkeep : keep c with
  | true => simp only [Option.filter, hkeep, if_true]; exact .refl
  | false =>
    simp only [Option.filter, hkeep, Bool.false_eq_true, if_false]
    exact .single (.drop (hk hkeep))

theorem sweep_lookup (s : Session) (head : UInt64) (k : SwapId) :
    (s.sweep head).2.coordinators.lookup k =
      ((s.coordinators.lookup k).map fun c => (c.refundAfterTimeout head).2).filter (tickKeeps head) := by
  simp only [sweep, pruneDroppedSwapState, Table.lookup_retain, Table.lookup_mapVals]

theorem sweep_moves (env : Env) (s : Session) (head : UInt64) :
    Moves env (some head) (Quiet env) s (s.sweep head).2 := by
  refine ⟨rfl, fun k => ?_, [], rfl, by simp⟩
  have hslot : (s.sweep head).2.slot k =
      ⟨(s.sweep head).2.coordinators.lookup k, (s.slot k).tombstone, (s.slot k).hist⟩ := rfl
  rw [hslot, sweep_lookup]
  cases hc : s.coordinators.lookup k with
  | none =>
    rw [slot_eq_of_not_mem (AList.lookup_eq_none.mp hc)]
    exact .refl
  | some c =>
    rw [slot_eq_of_lookup hc]
    have hrefund : SlotSteps (s.config env) (some head) k ⟨some c, (s.slot k).tombstone, (s.slot k).hist⟩
        ⟨some (c.refundAfterTimeout head).2, (s.slot k).tombstone, (s.slot k).hist⟩ := by
      rcases c.refundAfterTimeout_cases head with ⟨hr, ht, he⟩ | ⟨-, he⟩
      · rw [he]; exact .single (.refund hr ht rfl)
      · rw [he]
    exact hrefund.trans (slotSteps_filter unlocked_of_not_tickKeeps)

theorem tick_moves (env : Env) (s : Session) (head : UInt64) (hs : s.WF env) :
    Moves env (some head) (Quiet env) s (s.tick env head).2 := by
  have h1 := sweep_moves env s head
  exact h1.trans (Moves.foldl (fun s id _ => foreclose_moves env head s id) _ _ (h1.wf hs))

/-- Erasing the coordinator of an id that has no funds locked. -/
theorem tearDown_moves {env : Env} {P : Event → Prop} {s : Session} {id : SwapId}
    {c : SwapCoordinator} (hc : s.coordinators.lookup id = some c)
    (hl : c.phase.hasFundsLocked = false) : Moves env n P s (s.tearDown id) := by
  refine ⟨rfl, fun k => ?_, [], rfl, by simp⟩
  by_cases hk : k = id
  · subst hk
    have hslot : (s.tearDown k).slot k = ⟨none, (s.slot k).tombstone, (s.slot k).hist⟩ := by
      simp only [slot, tearDown, hasInitiated, Table.lookup_erase_iff, if_true]
    rw [hslot, slot_eq_of_lookup hc]
    exact .single (.drop hl)
  · have hslot : (s.tearDown id).slot k = s.slot k := by
      simp only [slot, tearDown, hasInitiated, Table.lookup_erase_iff, if_neg hk]
    rw [hslot]

theorem reapTerminal_moves (env : Env) (s : Session) : Moves env n (Quiet env) s s.reapTerminal := by
  refine ⟨rfl, fun k => ?_, [], rfl, by simp⟩
  have hslot : s.reapTerminal.slot k =
      ⟨(s.coordinators.lookup k).filter fun c => !c.phase.isTerminal, (s.slot k).tombstone,
        (s.slot k).hist⟩ := by
    simp only [slot, reapTerminal, pruneDroppedSwapState, hasInitiated, Table.lookup_retain]
  rw [hslot]
  cases hc : s.coordinators.lookup k with
  | none => rw [slot_eq_of_not_mem (AList.lookup_eq_none.mp hc)]; exact .refl
  | some c =>
    rw [slot_eq_of_lookup hc]
    refine slotSteps_filter fun hk => ?_
    revert hk
    cases c.phase <;> simp [SwapPhase.hasFundsLocked, SwapPhase.isTerminal]

theorem cancel_moves (env : Env) (s : Session) (id : SwapId) : Moves env n (Quiet env) s (s.cancel id).2 := by
  unfold cancel
  cases hc : s.coordinators.lookup id with
  | none => exact .refl _
  | some c =>
    cases hl : c.phase.hasFundsLocked with
    | true => simp only [hl, if_true]; exact .refl _
    | false => simp only [hl, Bool.false_eq_true, if_false]; exact tearDown_moves hc hl

theorem onAbort_moves (env : Env) {P : Event → Prop} (s : Session) (e : SwapEnvelope) :
    Moves env n P s (s.onAbort e) := by
  unfold onAbort
  cases hc : s.coordinators.lookup e.swapId with
  | none => exact .refl _
  | some c =>
    cases hl : c.phase.hasFundsLocked with
    | true => simp only [hl, if_true]; exact .refl _
    | false => simp only [hl, Bool.false_eq_true, if_false]; exact tearDown_moves hc hl

/-! ### Messages -/

/-- The checks of a `Propose` for a swap that is not held: a free slot, complete terms at a rate and a
    size the node takes, a signature that verifies and a ladder that is safe at the head. -/
def Admits (env : Env) (s : Session) (e : SwapEnvelope) (head : UInt64) : Prop :=
  s.coordinators.len < s.identity.maxConcurrentSwaps ∧
  ∃ p, SwapProposal.fromEnvelope e = some p ∧
    s.identity.ratePolicy.accepts p.giveAmount p.takeAmount = true ∧
    s.withinCaps p.giveAmount p.takeAmount = true ∧
    SwapProposal.verifyEnvelope env.toCrypto e = true ∧
    (assessLadder p.terms head s.ladder).isSafe = true

/-- The events a message can add: a creation by an admitted `Propose` for an id that is not held, an
    acceptance of a proposed swap by an `Accept`, or quiet ones. -/
def MessageEmits (env : Env) (s : Session) (kind : SwapKind) (e : SwapEnvelope) (head : UInt64) :
    Event → Prop
  | .created id role peer => kind = .propose ∧ role = .responder ∧ id = e.swapId ∧
      id ∉ s.coordinators ∧ Admits env s e head ∧
      ∃ p, SwapProposal.fromEnvelope e = some p ∧ peer = some (p.nimAddress, p.btcAddress)
  | .accepted id peer => kind = .accept ∧ id = e.swapId ∧
      (∃ c, s.coordinators.lookup id = some c ∧ c.phase = .proposed) ∧
      ∃ a, SwapAcceptance.fromEnvelope e = some a ∧ peer = (a.nimAddress, a.btcAddress)
  | ev => Quiet env ev

theorem messageEmits_of_quiet {env : Env} {s : Session} {kind : SwapKind} {e : SwapEnvelope}
    {head : UInt64} (ev : Event) (h : Quiet env ev) : MessageEmits env s kind e head ev := by
  cases ev <;> first | exact h | exact h.elim

/-- The responder that an admitted `Propose` leaves behind. -/
def admitted (s : Session) (p : SwapProposal) (head : UInt64) : SwapCoordinator :=
  { (SwapCoordinator.newResponder (s.responderContext p head) s.ladder).withPhase .accepted
    with peerBtcPubkey := some p.btcPubkey }

/-- A `Propose` adds the responder of its proposal if it is admitted and its id is not held, and
    changes nothing otherwise. -/
theorem onPropose_exact (env : Env) (s : Session) (e : SwapEnvelope) (head : UInt64) :
    (∃ p, e.swapId ∉ s.coordinators ∧ Admits env s e head ∧ SwapProposal.fromEnvelope e = some p ∧
      (s.onPropose env e head).2 = (s.setCoord e.swapId (s.admitted p head)).log
        (.created e.swapId .responder (some (p.nimAddress, p.btcAddress)))) ∨
    ((e.swapId ∈ s.coordinators ∨ ¬ Admits env s e head) ∧ (s.onPropose env e head).2 = s) := by
  unfold onPropose
  by_cases hmem : e.swapId ∈ s.coordinators
  · rw [if_pos hmem]
    exact .inr ⟨.inl hmem, rfl⟩
  rw [if_neg hmem]
  by_cases hcap : s.identity.maxConcurrentSwaps ≤ s.coordinators.len
  · rw [if_pos hcap]
    exact .inr ⟨.inr fun h => absurd h.1 (not_lt.mpr hcap), rfl⟩
  rw [if_neg hcap]
  cases hp : SwapProposal.fromEnvelope e with
  | none =>
    refine .inr ⟨.inr ?_, rfl⟩
    rintro ⟨-, p, hp', -⟩
    rw [hp] at hp'
    cases hp'
  | some p =>
    have hadmits : Admits env s e head ↔ s.identity.ratePolicy.accepts p.giveAmount p.takeAmount = true ∧
        s.withinCaps p.giveAmount p.takeAmount = true ∧
        SwapProposal.verifyEnvelope env.toCrypto e = true ∧
        (assessLadder p.terms head s.ladder).isSafe = true := by
      simp [Admits, hp, not_le.mp hcap]
    dsimp only
    split_ifs with hrate hcaps
    · exact .inr ⟨.inr fun h => by simp [(hadmits.mp h).1] at hrate, rfl⟩
    · exact .inr ⟨.inr fun h => by simp [(hadmits.mp h).2.1] at hcaps, rfl⟩
    · rcases (SwapCoordinator.newResponder (s.responderContext p head) s.ladder).recvPropose_cases
          env.toCrypto e head hp rfl rfl with ⟨hv, -, hs, he⟩ | ⟨hn, err, he⟩
      · refine .inl ⟨p, hmem, hadmits.mpr ⟨by simpa using hrate, by simpa using hcaps, hv, hs⟩, rfl, ?_⟩
        rw [he]
        dsimp only
        split <;> rfl
      · refine .inr ⟨.inr fun h => hn ⟨(hadmits.mp h).2.2.1, rfl, (hadmits.mp h).2.2.2⟩, ?_⟩
        rw [he]

/-- What a `Propose` creates is a fresh responder of the automaton. -/
theorem onPropose_cases (env : Env) (s : Session) (e : SwapEnvelope) (head : UInt64) :
    (e.swapId ∉ s.coordinators ∧ Admits env s e head ∧ ∃ p c,
      SwapProposal.fromEnvelope e = some p ∧ FreshResponder (s.config env) e.swapId head c ∧
      (s.onPropose env e head).2 = (s.setCoord e.swapId c).log
        (.created e.swapId .responder (some (p.nimAddress, p.btcAddress)))) ∨
    ((e.swapId ∈ s.coordinators ∨ ¬ Admits env s e head) ∧ (s.onPropose env e head).2 = s) := by
  rcases onPropose_exact env s e head with ⟨p, hmem, had, hp, he⟩ | h
  · refine .inl ⟨hmem, had, p, s.admitted p head, hp, ?_, he⟩
    obtain ⟨-, p', hp', -, -, -, hsafe⟩ := had
    cases hp.symm.trans hp'
    exact { swapId := SwapProposal.fromEnvelope_swapId hp, terms := rfl, ladder := rfl,
            role := rfl, phase := rfl, safe := hsafe, secret := rfl, claimTx := rfl }
  · exact .inr h

theorem onPropose_moves (env : Env) (s : Session) (e : SwapEnvelope) (head : UInt64) :
    Moves env n (MessageEmits env s .propose e head) s (s.onPropose env e head).2 := by
  rcases onPropose_cases env s e head with ⟨hmem, had, p, c, hp, hfresh, he⟩ | ⟨-, he⟩
  · rw [he]
    refine moves_setCoord_log rfl ⟨rfl, rfl, rfl, hmem, had, p, hp, rfl⟩ ?_
    rw [slot_eq_of_not_mem hmem]
    exact .createResponder hfresh
  · rw [he]
    exact .refl _

/-- An `Accept` advances a proposed swap whose ladder is safe at the head, and changes nothing
    otherwise. -/
theorem onAccept_cases (env : Env) {s : Session} (hs : s.WF env) (e : SwapEnvelope) (head : UInt64) :
    (∃ c a, s.coordinators.lookup e.swapId = some c ∧ SwapAcceptance.fromEnvelope e = some a ∧
      c.phase = .proposed ∧ (assessLadder c.swap.terms head c.ladder).isSafe = true ∧
      (s.onAccept e head).2 =
        (s.setCoord e.swapId { c.withPhase .accepted with peerBtcPubkey := some a.btcPubkey }).log
          (.accepted e.swapId (a.nimAddress, a.btcAddress))) ∨
    ((∀ c a, s.coordinators.lookup e.swapId = some c → SwapAcceptance.fromEnvelope e = some a →
        ¬ (c.phase = .proposed ∧ (assessLadder c.swap.terms head c.ladder).isSafe = true)) ∧
      (∀ k, (s.onAccept e head).2.coordinators.lookup k = s.coordinators.lookup k) ∧
      (s.onAccept e head).2.trace = s.trace ∧ Moves env n (fun _ => False) s (s.onAccept e head).2) := by
  unfold onAccept
  cases hc : s.coordinators.lookup e.swapId with
  | none => exact .inr ⟨fun c a h => (by cases h), fun _ => rfl, rfl, .refl _⟩
  | some c =>
    rcases c.recvAccept_cases e head with ⟨a, ha, -, hp, hsafe, he⟩ | ⟨hn, err, he⟩
    · exact .inl ⟨c, a, rfl, ha, hp, hsafe, by simp only [he, ha]⟩
    · refine .inr ⟨fun c' a hc' ha h => ?_, fun k => ?_, ?_, ?_⟩
      · cases hc'
        have hid : a.swapId = c.ctx.swapId :=
          (SwapAcceptance.fromEnvelope_swapId ha).trans (hs _ c hc).swapId.symm
        exact hn a ha ⟨hid, h⟩
      · simp only [he, setCoord, Table.lookup_insert_iff]
        by_cases hk : k = e.swapId
        · rw [if_pos hk, hk, hc]
        · rw [if_neg hk]
      · simp only [he]
        rfl
      · simp only [he]
        refine moves_setCoord ?_
        rw [slot_eq_of_lookup hc]

theorem onAccept_moves (env : Env) {s : Session} (hs : s.WF env) (e : SwapEnvelope) (head : UInt64) :
    Moves env n (MessageEmits env s .accept e head) s (s.onAccept e head).2 := by
  rcases onAccept_cases env hs e head with ⟨c, a, hc, ha, hp, hsafe, he⟩ | ⟨-, -, -, hm⟩
  · rw [he]
    refine moves_setCoord_log rfl ⟨rfl, rfl, ⟨c, hc, hp⟩, a, ha, rfl⟩ ?_
    rw [slot_eq_of_lookup hc]
    exact .accept hp hsafe
  · exact hm.mono fun _ h => h.elim

theorem noteFundingWire_coordinators (s : Session) (e : SwapEnvelope) :
    (s.noteFundingWire e).coordinators = s.coordinators := by
  unfold noteFundingWire; split <;> rfl

theorem noteFundingWire_moves {env : Env} {s : Session} {e : SwapEnvelope} {c : SwapCoordinator}
    (hc : s.coordinators.lookup e.swapId = some c) : Moves env n (Quiet env) s (s.noteFundingWire e) := by
  unfold noteFundingWire
  split
  · refine moves_log trivial ?_
    rw [Event.swapId, slot_eq_of_lookup hc]
    exact .noteWire _ _
  · exact .refl _

theorem onFundingProof_moves (env : Env) (s : Session) (e : SwapEnvelope) :
    Moves env n (Quiet env) s (s.onFundingProof env e).2 := by
  unfold onFundingProof
  cases hc : s.coordinators.lookup e.swapId with
  | none => exact .refl _
  | some c =>
    have hmark : Moves env n (Quiet env) (s.noteFundingWire e) ((s.noteFundingWire e).markProofSeen e.swapId) :=
      .of_eq rfl rfl rfl rfl rfl rfl
    have hc' : ((s.noteFundingWire e).markProofSeen e.swapId).coordinators.lookup e.swapId = some c := by
      rw [markProofSeen, noteFundingWire_coordinators, hc]
    have h := ((noteFundingWire_moves hc).trans hmark).trans
      (verifyCounterpartyFunding_moves env hc')
    dsimp only
    split <;> exact h

/-- A message moves every slot by steps of the automaton. -/
theorem onMessage_moves {env : Env} {s : Session} (hs : s.WF env) {kind : SwapKind} {payload : Bytes}
    {head : UInt64} {e : SwapEnvelope} (he : decodeSwap kind payload = .ok e) :
    Moves env n (MessageEmits env s kind e head) s (s.onMessage env kind payload head).2 := by
  unfold onMessage
  rw [he]
  cases kind with
  | propose => exact onPropose_moves env s e head
  | accept => exact onAccept_moves env hs e head
  | fundingProof => exact (onFundingProof_moves env s e).mono messageEmits_of_quiet
  | preimageReveal => dsimp only; split <;> exact .refl _
  | abort => exact onAbort_moves env s e

end Session

end Nimmesh
