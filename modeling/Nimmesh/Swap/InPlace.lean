import Nimmesh.Swap.Origin

/-! @src swap_session.rs swap_node.rs swap_claim.rs | name:Answers in their place | layer:refinement

    Every answer in a trace was given to a question asked right there: the environment saw exactly the
    events below it. So what a verifier or a signer remembers can be read off the trace as a function,
    and an answer is that function's value at its own place. -/

namespace Nimmesh

/-- The leg that a role funds. -/
def fundedLeg : SwapRole → SwapLegId
  | .initiator => .nim
  | .responder => .counterparty

/-- The event carries what the environment answers after the trace. -/
def AnsweredAt (env : Env) (tr : List Event) : Event → Prop
  | .observed _ expect obs => obs = env.observe tr expect
  | .observedClaim _ txId obs => obs = env.observeClaim tr .nim txId
  | .builtFunding _ role ctx _ answer => answer = env.buildFunding tr ctx (fundedLeg role)
  | .builtClaim _ _ ctx secret _ answer => answer = env.buildClaim tr ctx secret
  | _ => True

/-- Every event of the trace (newest first) was answered in its place. -/
def InPlace (env : Env) : List Event → Prop
  | [] => True
  | ev :: tr => AnsweredAt env tr ev ∧ InPlace env tr

theorem InPlace.split {env : Env} {ev : Event} {old : List Event} :
    ∀ {new : List Event}, InPlace env (new ++ ev :: old) → AnsweredAt env old ev ∧ InPlace env old
  | [], h => h
  | _ :: _, h => InPlace.split h.2

namespace Session

variable {env : Env} {s : Session}

theorem verifyCounterpartyFunding_inPlace (h : InPlace env s.trace) (id : SwapId) (c : SwapCoordinator) :
    InPlace env (s.verifyCounterpartyFunding env id c).2.trace :=
  ⟨rfl, h⟩

theorem onPropose_inPlace (h : InPlace env s.trace) (e : SwapEnvelope) (head : UInt64) :
    InPlace env (s.onPropose env e head).2.trace := by
  rcases onPropose_cases env s e head with ⟨-, -, p, c, -, -, he⟩ | ⟨-, he⟩ <;> rw [he]
  · exact ⟨trivial, h⟩
  · exact h

theorem onAccept_inPlace (h : InPlace env s.trace) (e : SwapEnvelope) (head : UInt64) :
    InPlace env (s.onAccept e head).2.trace := by
  simp only [onAccept]
  split
  · exact h
  · split
    · exact h
    · split
      · exact ⟨trivial, h⟩
      · exact h

theorem noteFundingWire_inPlace (h : InPlace env s.trace) (e : SwapEnvelope) :
    InPlace env (s.noteFundingWire e).trace := by
  simp only [noteFundingWire]
  split
  · exact ⟨trivial, h⟩
  · exact h

theorem onFundingProof_inPlace (h : InPlace env s.trace) (e : SwapEnvelope) :
    InPlace env (s.onFundingProof env e).2.trace := by
  simp only [onFundingProof]
  split
  · exact h
  · have hnoted : InPlace env ((s.noteFundingWire e).markProofSeen e.swapId).trace :=
      noteFundingWire_inPlace h e
    split <;> exact verifyCounterpartyFunding_inPlace hnoted _ _

theorem onAbort_inPlace (h : InPlace env s.trace) (e : SwapEnvelope) : InPlace env (s.onAbort e).trace := by
  simp only [onAbort]
  split
  · split_ifs <;> exact h
  · exact h

theorem onMessage_inPlace (h : InPlace env s.trace) (kind : SwapKind) (payload : Bytes) (head : UInt64) :
    InPlace env (s.onMessage env kind payload head).2.trace := by
  simp only [onMessage]
  split
  · exact h
  · rename_i e he
    cases kind with
    | propose => exact onPropose_inPlace h e head
    | accept => exact onAccept_inPlace h e head
    | fundingProof => exact onFundingProof_inPlace h e
    | preimageReveal => dsimp only; split <;> exact h
    | abort => exact onAbort_inPlace h e

theorem reverifyFold_inPlace (ids : List SwapId) (acc : List SwapId × Session)
    (h : InPlace env acc.2.trace) : InPlace env (ids.foldl (reverifyOne env) acc).2.trace := by
  induction ids generalizing acc with
  | nil => exact h
  | cons id ids ih =>
    refine ih _ ?_
    simp only [reverifyOne]
    split
    · exact h
    · rename_i c hc
      have hver := verifyCounterpartyFunding_inPlace h id c
      split <;> rename_i heq <;> rw [heq] at hver <;> exact hver

theorem confirmClaim_inPlace (h : InPlace env s.trace) (id : SwapId) :
    InPlace env (s.confirmClaim env id).2.trace := by
  simp only [confirmClaim]
  split
  · exact h
  · split_ifs
    · exact h
    · split
      · exact h
      · exact ⟨rfl, h⟩

theorem confirmPendingClaims_inPlace (h : InPlace env s.trace) :
    InPlace env (s.confirmPendingClaims env).trace := by
  simp only [confirmPendingClaims]
  generalize s.coordinators.keysWhere _ = ids
  induction ids generalizing s with
  | nil => exact h
  | cons id ids ih => exact ih (confirmClaim_inPlace h id)

theorem foreclose_inPlace (h : InPlace env s.trace) (head : UInt64) (id : SwapId) :
    InPlace env (foreclose env head s id).trace := by
  have hcon := confirmClaim_inPlace h id
  simp only [foreclose]
  split <;> rename_i heq <;> rw [heq] at hcon
  · exact hcon
  · split <;> exact hcon

theorem tick_inPlace (h : InPlace env s.trace) (head : UInt64) : InPlace env (s.tick env head).2.trace := by
  have hfold : ∀ (ids : List SwapId) (s : Session), InPlace env s.trace →
      InPlace env (ids.foldl (foreclose env head) s).trace := by
    intro ids
    induction ids with
    | nil => intro s h; exact h
    | cons id ids ih => intro s h; exact ih _ (foreclose_inPlace h head id)
  exact hfold _ _ h

theorem broadcastClaim_inPlace (h : InPlace env s.trace) (id : SwapId) (c : SwapCoordinator)
    (head : UInt64) : InPlace env (s.broadcastClaim env id c head).trace := by
  simp only [broadcastClaim]
  split
  · split <;> exact ⟨rfl, h⟩
  · exact h

theorem driveFund_inPlace (h : InPlace env s.trace) (id : SwapId) (c : SwapCoordinator) (head : UInt64) :
    InPlace env (s.driveFund env id c head (fundedLeg c.role)).2.trace := by
  simp only [driveFund]
  split
  · exact ⟨rfl, h⟩
  · split <;> exact ⟨rfl, h⟩

theorem driveReveal_inPlace (h : InPlace env s.trace) (id : SwapId) (c : SwapCoordinator) (head : UInt64) :
    InPlace env (s.driveReveal env id c head).2.trace := by
  simp only [driveReveal]
  split_ifs
  · exact h
  · split
    · exact h
    · split
      · exact ⟨rfl, h⟩
      · split <;> exact ⟨rfl, h⟩

theorem drivePhaseAction_inPlace (h : InPlace env s.trace) (id : SwapId) (head : UInt64) :
    InPlace env (s.drivePhaseAction env id head).2.trace := by
  simp only [drivePhaseAction]
  split
  · exact h
  · rename_i c hc
    split
    · rename_i hr _
      have hfund := driveFund_inPlace h id c head
      rw [hr] at hfund
      exact hfund
    · rename_i hr _
      have hfund := driveFund_inPlace h id c head
      rw [hr] at hfund
      exact hfund
    · exact driveReveal_inPlace h id c head
    · exact confirmClaim_inPlace (broadcastClaim_inPlace h id c head) id
    · exact h

theorem notePeer_inPlace (h : InPlace env s.trace) (kind : SwapKind) (e : SwapEnvelope) :
    InPlace env (s.notePeer kind e).trace := by
  rcases notePeer_cases s kind e with ⟨peer, -, -, he⟩ | ⟨-, he⟩ <;> rw [he]
  · exact ⟨trivial, h⟩
  · exact h

theorem driveSwap_inPlace (h : InPlace env s.trace) (kind : SwapKind) (payload : Bytes) (head : UInt64) :
    InPlace env (s.driveSwap env kind payload head).2.trace := by
  simp only [driveSwap]
  split
  · exact h
  · refine drivePhaseAction_inPlace ?_ _ head
    rw [learnSecret_trace]
    exact notePeer_inPlace h kind _

/-- STEP: no call puts an answer out of its place. -/
theorem step_inPlace (h : InPlace env s.trace) (op : Op) : InPlace env (s.step env op).trace := by
  cases op with
  | message kind payload head => exact onMessage_inPlace h kind payload head
  | driveSwap kind payload head => exact driveSwap_inPlace h kind payload head
  | drive id head => exact drivePhaseAction_inPlace h id head
  | reverify => exact reverifyFold_inPlace s.awaitingIds ([], s) h
  | tick head => exact tick_inPlace h head
  | confirmClaims => exact confirmPendingClaims_inPlace h
  | initiate id head =>
    simp only [step, initiateFromIntent]
    split
    · exact h
    · split_ifs
      · exact ⟨trivial, h⟩
      · exact h
  | cancel id =>
    simp only [step, cancel]
    split
    · exact h
    · split_ifs <;> exact h
  | fastDue nowMs =>
    simp only [step, fastDue]
    split_ifs <;> exact h
  | _ => exact h

/-- RUN: every answer in the trace of a run is in its place. -/
theorem exec_inPlace (env : Env) {s₀ : Session} (h₀ : s₀.Fresh) (ops : List Op) :
    InPlace env (s₀.exec env ops).trace := by
  refine Run.exec_preserves (step env) (I := fun s => InPlace env s.trace) (fun _ op h => step_inPlace h op)
    ops s₀ ?_
  rw [h₀.trace]
  trivial

end Session

end Nimmesh
