import Nimmesh.Swap.Settlement

/-! @src swap_session.rs swap_coordinator.rs | name:Removal of coordinators | layer:properties

    A coordinator leaves the session through an `Abort`, a cancel, a reap or a tick, each with its own
    guard. A coordinator with funds locked survives all of them until a tick past its own refund
    timeout; and what a tick removes is refunded, was already over, or could no longer be funded. -/

namespace Nimmesh

namespace Session

/-! ### Calls that remove nothing -/

/-- Every swap held in `s` is held in `s'`. -/
def Keeps (s s' : Session) : Prop := ∀ k, k ∈ s.coordinators → k ∈ s'.coordinators

namespace Keeps

theorem refl (s : Session) : Keeps s s := fun _ h => h

theorem trans {s s' s'' : Session} (h : Keeps s s') (h' : Keeps s' s'') : Keeps s s'' :=
  fun k hk => h' k (h k hk)

theorem of_eq {s s' : Session} (h : s'.coordinators = s.coordinators) : Keeps s s' := by
  intro k hk
  rwa [h]

theorem setCoord (s : Session) (id : SwapId) (c : SwapCoordinator) : Keeps s (s.setCoord id c) := by
  intro k hk
  rw [Session.setCoord, AList.mem_insert]
  exact .inr hk

theorem foldl {α : Type*} {f : Session → α → Session} (hf : ∀ s a, Keeps s (f s a)) :
    ∀ (l : List α) (s : Session), Keeps s (l.foldl f s)
  | [], s => refl s
  | a :: l, s => (hf s a).trans (foldl hf l (f s a))

end Keeps

theorem verifyCounterpartyFunding_keeps (env : Env) (s : Session) (id : SwapId) (c : SwapCoordinator) :
    Keeps s (s.verifyCounterpartyFunding env id c).2 :=
  (Keeps.setCoord s id _).trans (.of_eq rfl)

theorem confirmClaim_keeps (env : Env) (s : Session) (id : SwapId) :
    Keeps s (s.confirmClaim env id).2 := by
  unfold confirmClaim
  split
  · exact .refl s
  · split_ifs
    · exact .refl s
    · split
      · exact .refl s
      · exact (Keeps.setCoord s id _).trans (.of_eq rfl)

theorem foreclose_keeps (env : Env) (head : UInt64) (s : Session) (id : SwapId) :
    Keeps s (foreclose env head s id) := by
  have hk := confirmClaim_keeps env s id
  unfold foreclose
  rcases hr : s.confirmClaim env id with ⟨_ | _, s'⟩
  · rw [hr] at hk
    dsimp only
    split
    · exact hk.trans (.setCoord s' id _)
    · exact hk
  · rw [hr] at hk
    exact hk

theorem reverifyAwaitedFunding_keeps (env : Env) (s : Session) :
    Keeps s (s.reverifyAwaitedFunding env).2 := by
  have hone : ∀ (ids : List SwapId) (acc : List SwapId × Session),
      Keeps acc.2 (ids.foldl (reverifyOne env) acc).2 := by
    intro ids
    induction ids with
    | nil => exact fun acc => .refl acc.2
    | cons id ids ih =>
      intro acc
      refine Keeps.trans ?_ (ih _)
      unfold reverifyOne
      split
      · exact .refl acc.2
      · rename_i c _
        have hk := verifyCounterpartyFunding_keeps env acc.2 id c
        rcases hr : acc.2.verifyCounterpartyFunding env id c with ⟨_ | _, s'⟩ <;>
          rw [hr] at hk <;> exact hk
  exact (hone s.awaitingIds ([], s)).trans (.of_eq rfl)

theorem drivePhaseAction_keeps (env : Env) (s : Session) (id : SwapId) (head : UInt64) :
    Keeps s (s.drivePhaseAction env id head).2 := by
  have hfund : ∀ c leg, Keeps s (s.driveFund env id c head leg).2 := by
    intro c leg
    unfold driveFund
    dsimp only
    split
    · exact .of_eq rfl
    · split <;> exact (Keeps.of_eq rfl).trans (.setCoord _ id _)
  have hreveal : ∀ c, Keeps s (s.driveReveal env id c head).2 := by
    intro c
    unfold driveReveal
    split_ifs
    · exact .refl s
    · split
      · exact .refl s
      · dsimp only
        split
        · exact .of_eq rfl
        · split <;> exact (Keeps.of_eq rfl).trans (.setCoord _ id _)
  have hclaim : ∀ c, Keeps s (s.attemptResponderClaim env id c head) := by
    intro c
    refine Keeps.trans ?_ (confirmClaim_keeps env _ id)
    unfold broadcastClaim
    split
    · dsimp only
      split
      · exact .of_eq rfl
      · exact (Keeps.of_eq rfl).trans (.setCoord _ id _)
    · exact .refl s
  unfold drivePhaseAction
  split
  · exact .refl s
  · split
    · exact hfund _ _
    · exact hfund _ _
    · exact hreveal _
    · exact hclaim _
    · exact .refl s

theorem driveSwap_keeps (env : Env) (s : Session) (kind : SwapKind) (payload : Bytes) (head : UInt64) :
    Keeps s (s.driveSwap env kind payload head).2 := by
  unfold driveSwap
  split
  · exact .refl s
  · rename_i e _
    refine Keeps.trans (.of_eq (notePeer_coordinators s kind e)) (Keeps.trans ?_
      (drivePhaseAction_keeps env _ e.swapId head))
    unfold learnSecret
    split
    · split
      · exact .setCoord _ _ _
      · exact .refl _
    · exact .refl _

theorem initiateFromIntent_keeps (env : Env) (s : Session) (id : SwapId) (head : UInt64) :
    Keeps s (s.initiateFromIntent env id head).2 := by
  unfold initiateFromIntent
  split
  · exact .refl s
  · split_ifs
    · exact (Keeps.setCoord s id _).trans (.of_eq rfl)
    · exact .refl s

/-! ### Calls that remove -/

theorem onPropose_keeps (env : Env) (s : Session) (e : SwapEnvelope) (head : UInt64) :
    Keeps s (s.onPropose env e head).2 := by
  rcases onPropose_cases env s e head with ⟨-, -, p, c, -, -, he⟩ | ⟨-, he⟩
  · rw [he]
    exact Keeps.setCoord s e.swapId c
  · rw [he]
    exact .refl s

theorem onAccept_keeps (s : Session) (e : SwapEnvelope) (head : UInt64) :
    Keeps s (s.onAccept e head).2 := by
  unfold onAccept
  split
  · exact .refl s
  · split
    · exact Keeps.setCoord s e.swapId _
    · dsimp only
      split <;> exact Keeps.setCoord s e.swapId _

theorem onFundingProof_keeps (env : Env) (s : Session) (e : SwapEnvelope) :
    Keeps s (s.onFundingProof env e).2 := by
  unfold onFundingProof
  split
  · exact .refl s
  · rename_i c _
    have hnote : Keeps s ((s.noteFundingWire e).markProofSeen e.swapId) :=
      .of_eq (by rw [markProofSeen, noteFundingWire_coordinators])
    have hver := hnote.trans (verifyCounterpartyFunding_keeps env
      ((s.noteFundingWire e).markProofSeen e.swapId) e.swapId c)
    dsimp only
    split <;> exact hver

/-- An `Abort` for a locked swap meets the lock; one for another swap does not concern it. -/
theorem onAbort_keeps_locked {s : Session} {k : SwapId} {c : SwapCoordinator}
    (hc : s.coordinators.lookup k = some c) (hl : c.phase.hasFundsLocked = true) (e : SwapEnvelope) :
    k ∈ (s.onAbort e).coordinators := by
  have hk : k ∈ s.coordinators := (Table.mem_iff_lookup _ _).mpr ⟨c, hc⟩
  unfold onAbort
  split
  · rename_i c' hc'
    split_ifs with hl'
    · exact hk
    · have hne : k ≠ e.swapId := by
        rintro rfl
        rw [hc] at hc'
        cases hc'
        exact hl' hl
      rw [tearDown, AList.mem_erase]
      exact ⟨hne, hk⟩
  · exact hk

/-- A message removes at most one swap, and never one with funds locked. -/
theorem onMessage_keeps_locked {env : Env} {s : Session} {k : SwapId} {c : SwapCoordinator}
    (hc : s.coordinators.lookup k = some c) (hl : c.phase.hasFundsLocked = true) (kind : SwapKind)
    (payload : Bytes) (head : UInt64) : k ∈ (s.onMessage env kind payload head).2.coordinators := by
  have hk : k ∈ s.coordinators := (Table.mem_iff_lookup _ _).mpr ⟨c, hc⟩
  unfold onMessage
  split
  · exact hk
  · rename_i e _
    cases kind with
    | propose => exact onPropose_keeps env s e head k hk
    | accept => exact onAccept_keeps s e head k hk
    | fundingProof => exact onFundingProof_keeps env s e k hk
    | preimageReveal => dsimp only; split <;> exact hk
    | abort => exact onAbort_keeps_locked hc hl e

/-- A cancel leaves a locked swap as it is. -/
theorem cancel_lookup_locked {s : Session} {k : SwapId} {c : SwapCoordinator}
    (hc : s.coordinators.lookup k = some c) (hl : c.phase.hasFundsLocked = true) (id : SwapId) :
    (s.cancel id).2.coordinators.lookup k = some c := by
  unfold cancel
  split
  · exact hc
  · rename_i c' hc'
    split_ifs with hl'
    · exact hc
    · have hne : k ≠ id := by
        rintro rfl
        rw [hc] at hc'
        cases hc'
        exact hl' hl
      rw [tearDown, Table.lookup_erase_iff, if_neg hne, hc]

/-! ### What a tick removes -/

/-- The refund is due: locked, not a responder's revealed leg, and past the own timeout. -/
def RefundDue (c : SwapCoordinator) (head : UInt64) : Prop :=
  c.swap.refundable ∧ c.swap.ownTimeout < head

/-- The foreclosure loop creates no coordinator. -/
theorem foreclose_lookup_none {env : Env} {head : UInt64} {s : Session} {k : SwapId}
    (h : s.coordinators.lookup k = none) (id : SwapId) :
    (foreclose env head s id).coordinators.lookup k = none := by
  by_cases hk : k = id
  · subst hk
    have hq : s.confirmClaim env k = (false, s) := by
      unfold confirmClaim
      rw [h]
    simp only [foreclose, hq, h]
  · rw [foreclose_lookup_ne env head s hk, h]

theorem foreclose_fold_none {env : Env} {head : UInt64} {k : SwapId} :
    ∀ (ids : List SwapId) (s : Session), s.coordinators.lookup k = none →
      (ids.foldl (foreclose env head) s).coordinators.lookup k = none
  | [], _, h => h
  | id :: ids, _, h => foreclose_fold_none ids _ (foreclose_lookup_none h id)

/-- A tick removes what its sweep removes: the foreclosure only moves phases. -/
theorem tick_lookup_none_iff (env : Env) (s : Session) (head : UInt64) (k : SwapId) :
    (s.tick env head).2.coordinators.lookup k = none ↔
      (s.sweep head).2.coordinators.lookup k = none := by
  constructor
  · intro h
    rw [AList.lookup_eq_none] at h ⊢
    exact fun hk => h (Keeps.foldl (foreclose_keeps env head) _ _ k hk)
  · intro h
    exact foreclose_fold_none _ _ h

theorem not_refundDue_of_stale {c : SwapCoordinator} {head : UInt64} (h : c.isStale head = true) :
    ¬ RefundDue c head := by
  rintro ⟨⟨hl, -⟩, -⟩
  have hl' : c.phase.hasFundsLocked = true := hl
  rw [((c.isStale_iff head).mp h).2.1] at hl'
  cases hl'

theorem not_refundDue_of_terminal {c : SwapCoordinator} {head : UInt64}
    (h : c.phase.isTerminal = true) : ¬ RefundDue c head := by
  rintro ⟨⟨hl, -⟩, -⟩
  have hl' : c.phase.hasFundsLocked = true := hl
  revert h hl'
  cases c.phase <;> simp [SwapPhase.hasFundsLocked, SwapPhase.isTerminal]

/-- What one tick does to a coordinator's place in the session. -/
theorem sweep_lookup_none_iff {s : Session} {k : SwapId} {c : SwapCoordinator}
    (hc : s.coordinators.lookup k = some c) (head : UInt64) :
    (s.sweep head).2.coordinators.lookup k = none ↔
      RefundDue c head ∨ c.phase.isTerminal = true ∨ c.isStale head = true := by
  rw [sweep_lookup, hc, Option.map_some, Option.filter_some]
  rcases c.refundAfterTimeout_cases head with ⟨hr, ht, he⟩ | ⟨hn, he⟩
  · have hdrop : tickKeeps head (c.withPhase .refunded) = false := rfl
    rw [he, hdrop]
    simp only [Bool.false_eq_true, if_false, true_iff]
    exact .inl ⟨hr, ht⟩
  · rw [he]
    have hiff : tickKeeps head c = true ↔ ¬ (c.phase.isTerminal = true ∨ c.isStale head = true) := by
      simp [tickKeeps]
    have hdue : ¬ RefundDue c head := hn
    by_cases hkeep : tickKeeps head c = true
    · rw [if_pos hkeep]
      simp [hdue, hiff.mp hkeep]
    · rw [if_neg hkeep]
      have hover := not_not.mp fun h => hkeep (hiff.mpr h)
      simp [hover]

/-- The ids a tick reports are those of the un-funded swaps it dropped as stale. -/
theorem mem_tick_stale_iff {env : Env} {s : Session} {k : SwapId} {c : SwapCoordinator}
    (hc : s.coordinators.lookup k = some c) (head : UInt64) :
    k ∈ (s.tick env head).1 ↔ c.isStale head = true := by
  have hids : (s.tick env head).1 = (s.sweep head).1 := rfl
  rw [hids, sweep, Table.mem_keysWhere]
  simp only [Table.lookup_mapVals, hc, Option.map_some, Option.some.injEq, exists_eq_left']
  rcases c.refundAfterTimeout_cases head with ⟨hr, ht, he⟩ | ⟨-, he⟩
  · rw [he]
    constructor
    · intro h
      cases h
    · intro h
      exact absurd ⟨hr, ht⟩ (not_refundDue_of_stale h)
  · rw [he]

/-- A locked swap whose refund is not due survives a tick. -/
theorem tick_keeps_locked {env : Env} {s : Session} {k : SwapId} {c : SwapCoordinator}
    (hc : s.coordinators.lookup k = some c) (hl : c.phase.hasFundsLocked = true) {head : UInt64}
    (hle : head ≤ c.swap.ownTimeout) : k ∈ (s.tick env head).2.coordinators := by
  have hnone := (tick_lookup_none_iff env s head k).trans (sweep_lookup_none_iff hc head)
  rw [← not_not (a := k ∈ _), ← AList.lookup_eq_none, hnone]
  rintro (⟨-, hpast⟩ | hterm | hstale)
  · exact absurd hpast (UInt64.not_lt.mpr hle)
  · revert hl hterm
    cases c.phase <;> simp [SwapPhase.hasFundsLocked, SwapPhase.isTerminal]
  · rw [((c.isStale_iff head).mp hstale).2.1] at hl
    cases hl

/-- Every call but the unconditional `remove`, and a tick past its own timeout, keeps a locked swap. -/
theorem step_keeps_locked {env : Env} {s : Session} {k : SwapId} {c : SwapCoordinator}
    (hc : s.coordinators.lookup k = some c) (hl : c.phase.hasFundsLocked = true) (op : Op)
    (hop : ∀ id, op ≠ .remove id) (htick : ∀ head, op = .tick head → head ≤ c.swap.ownTimeout) :
    k ∈ (s.step env op).coordinators := by
  have hk : k ∈ s.coordinators := (Table.mem_iff_lookup _ _).mpr ⟨c, hc⟩
  cases op with
  | message kind payload head => exact onMessage_keeps_locked hc hl kind payload head
  | driveSwap kind payload head => exact driveSwap_keeps env s kind payload head k hk
  | drive id head => exact drivePhaseAction_keeps env s id head k hk
  | reverify => exact reverifyAwaitedFunding_keeps env s k hk
  | tick head => exact tick_keeps_locked hc hl (htick head rfl)
  | confirmClaims => exact Keeps.foldl (confirmClaim_keeps env) _ s k hk
  | initiate id head => exact initiateFromIntent_keeps env s id head k hk
  | cancel id => exact (Table.mem_iff_lookup _ _).mpr ⟨c, cancel_lookup_locked hc hl id⟩
  | reap =>
    refine (Table.mem_iff_lookup _ _).mpr ⟨c, ?_⟩
    simp only [step, reapTerminal, pruneDroppedSwapState, Table.lookup_retain, hc, Option.filter_some]
    revert hl
    cases c.phase <;> simp [SwapPhase.hasFundsLocked, SwapPhase.isTerminal]
  | remove id => exact absurd rfl (hop id)
  | record id mt payload => exact hk
  | retransmit => exact hk
  | fastDue nowMs =>
    simp only [step, fastDue]
    split_ifs <;> exact hk

/-- CORRECT: in every reachable session a swap with funds locked is still held after every call but a
    `remove`, unless the call is a tick past its own refund timeout, and a cancel does not even touch
    it. A tick removes a swap without a refund exactly when the swap was already over or is un-funded,
    not over and past the last head at which it could be funded, and it reports exactly the latter. -/
theorem locked_never_dropped_early (env : Env) (s₀ : Session) (h₀ : s₀.Fresh) (ops : List Op)
    (k : SwapId) (c : SwapCoordinator)
    (hc : (s₀.exec env ops).coordinators.lookup k = some c) :
    (c.phase.hasFundsLocked = true → ∀ op : Op, (∀ id, op ≠ .remove id) →
      (∀ head, op = .tick head → head ≤ c.swap.ownTimeout) →
      k ∈ ((s₀.exec env ops).step env op).coordinators) ∧
    (c.phase.hasFundsLocked = true → ∀ id,
      ((s₀.exec env ops).cancel id).2.coordinators.lookup k = some c) ∧
    (∀ head, (((s₀.exec env ops).tick env head).2.coordinators.lookup k = none ∧ ¬ RefundDue c head) ↔
      c.phase.isTerminal = true ∨ (c.phase.isTerminal = false ∧ c.phase.hasFundsLocked = false ∧
        Word.satSub c.ctx.terms.counterpartyTimeout s₀.ladder.minClaimWindowBlocks < head)) ∧
    (∀ head, k ∈ ((s₀.exec env ops).tick env head).1 ↔
      (c.phase.isTerminal = false ∧ c.phase.hasFundsLocked = false ∧
        Word.satSub c.ctx.terms.counterpartyTimeout s₀.ladder.minClaimWindowBlocks < head)) := by
  obtain ⟨hcfg, hwf⟩ := exec_config_wf (h₀.wf env) ops
  have hladder : c.ladder = s₀.ladder := (hwf k c hc).ladder.trans (congrArg Config.ladder hcfg)
  have hstale : ∀ head, c.isStale head = true ↔
      (c.phase.isTerminal = false ∧ c.phase.hasFundsLocked = false ∧
        Word.satSub c.ctx.terms.counterpartyTimeout s₀.ladder.minClaimWindowBlocks < head) := by
    intro head
    rw [c.isStale_iff head, SwapCoordinator.lastFundable, hladder]
  refine ⟨fun hl op hop htick => step_keeps_locked hc hl op hop htick,
    fun hl id => cancel_lookup_locked hc hl id, fun head => ?_, fun head => ?_⟩
  · rw [tick_lookup_none_iff, sweep_lookup_none_iff hc head, ← hstale head]
    constructor
    · rintro ⟨hdue | hover, hn⟩
      · exact absurd hdue hn
      · exact hover
    · intro hover
      refine ⟨.inr hover, ?_⟩
      rcases hover with hterm | hst
      · exact not_refundDue_of_terminal hterm
      · exact not_refundDue_of_stale hst
  · rw [mem_tick_stale_iff hc head, hstale head]

/-- The sample responder at `BothFunded`: an `Abort` of its counterparty leaves it in the session. -/
theorem sample_locked_survives_abort :
    ∃ c, (Sample.bob.exec Sample.env (Sample.responderRun.take 4)).coordinators.lookup Sample.swapId =
        some c ∧ c.phase.hasFundsLocked = true ∧
      Sample.swapId ∈ ((Sample.bob.exec Sample.env (Sample.responderRun.take 4)).step Sample.env
        (.message .abort (Sample.wire (abortEnvelope Sample.swapId 0)) 0)).coordinators := by
  have hrun : ((Sample.bob.exec Sample.env (Sample.responderRun.take 4)).coordinators.lookup
      Sample.swapId).any (fun c => c.phase.hasFundsLocked) = true := by
    decide +kernel
  obtain ⟨c, hc, hl⟩ := (Option.any_eq_true _ _).mp hrun
  exact ⟨c, hc, hl, (locked_never_dropped_early Sample.env Sample.bob Sample.bob_fresh _ Sample.swapId c
    hc).1 hl _ (by simp) (by simp)⟩

/-- A settled swap is removed by the next tick, without a refund and long before any timeout. -/
theorem tick_removes_settled :
    ((Sample.alice.exec Sample.env Sample.initiatorRun).coordinators.lookup Sample.swapId).map
      (fun c => (c.phase, decide (c.swap.ownTimeout < 0))) = some (.settled, false) ∧
    ((Sample.alice.exec Sample.env Sample.initiatorRun).tick Sample.env 0).2.coordinators.lookup
      Sample.swapId = none := by
  decide +kernel

end Session

end Nimmesh
