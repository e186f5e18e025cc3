import Nimmesh.Lib.Run
import Nimmesh.Lib.Word
import Nimmesh.Swap.Wire

/-! @src swap.rs | name:Swap state machine | layer:model

    The height-anchored lifecycle of one cross-chain HTLC swap, seen from one node. `assessLadder`
    decides when it is safe to fund, `assessRevealDeadline` when it is safe to reveal, and the
    methods of `Swap` say which transitions are legal. A Rust method `&mut self → Result<T, E>` is a
    function to `Except E T × Swap`: the result and the swap left behind, so that "an error changes
    nothing" is a statement to prove and not a feature of the embedding. -/

namespace Nimmesh
open Word

def defaultDeltaSafeBlocks : UInt64 := 3600

def defaultMinClaimWindowBlocks : UInt64 := 1800

/-- Which side this node plays: the initiator gives the NIM leg, the responder the other one. -/
inductive SwapRole where | initiator | responder
  deriving DecidableEq, Repr

/-- The agreed timelocks: `T_A` on the NIM leg, `T_B` on the counterparty leg. -/
structure SwapTerms where
  nimTimeout : UInt64
  counterpartyTimeout : UInt64
  deriving DecidableEq, Repr

/-- Thresholds of the timelock-ladder check. -/
structure LadderParams where
  deltaSafeBlocks : UInt64 := defaultDeltaSafeBlocks
  minClaimWindowBlocks : UInt64 := defaultMinClaimWindowBlocks
  deriving DecidableEq, Repr

inductive LadderVerdict where
  | safe
  | inverted
  | marginTooThin (got need : UInt64)
  | windowTooShort (got need : UInt64)
  deriving DecidableEq, Repr

def LadderVerdict.isSafe : LadderVerdict → Bool
  | .safe => true
  | _ => false

/-- Is it safe to fund this swap at `currentHead`? -/
def assessLadder (terms : SwapTerms) (currentHead : UInt64) (params : LadderParams) : LadderVerdict :=
  if terms.nimTimeout ≤ terms.counterpartyTimeout then .inverted
  else
    let margin := terms.nimTimeout - terms.counterpartyTimeout
    if margin < params.deltaSafeBlocks then .marginTooThin margin params.deltaSafeBlocks
    else
      let window := satSub terms.counterpartyTimeout currentHead
      if window < params.minClaimWindowBlocks then .windowTooShort window params.minClaimWindowBlocks
      else .safe

inductive RevealVerdict where
  | safe
  | deadlineTooClose (got need : UInt64)
  deriving DecidableEq, Repr

def RevealVerdict.isSafe : RevealVerdict → Bool
  | .safe => true
  | _ => false

/-- Is it still safe for the initiator to reveal the secret at `currentHead`? -/
def assessRevealDeadline (terms : SwapTerms) (currentHead : UInt64) (params : LadderParams) :
    RevealVerdict :=
  let window := satSub terms.counterpartyTimeout currentHead
  if window < params.minClaimWindowBlocks then .deadlineTooClose window params.minClaimWindowBlocks
  else .safe

inductive SwapPhase where
  | proposed | accepted | initiatorFunded | selfFunded | bothFunded | revealed
  | settled | aborted | refunded | lost
  deriving DecidableEq, Repr

/-- Whether this node has funds locked in an HTLC. -/
def SwapPhase.hasFundsLocked : SwapPhase → Bool
  | .selfFunded | .bothFunded | .revealed => true
  | _ => false

def SwapPhase.isTerminal : SwapPhase → Bool
  | .settled | .aborted | .refunded | .lost => true
  | _ => false

inductive SwapError where
  | illegalTransition (src : SwapPhase) (action : String)
  | unsafeLadder (verdict : LadderVerdict)
  | revealTooLate (verdict : RevealVerdict)
  | timeoutNotReached (timeout head : UInt64)
  deriving DecidableEq, Repr

/-- What the caller should do on chain after a transition. -/
inductive SwapAction where
  | fundLeg (leg : SwapLegId) (timeout : UInt64)
  | claimLeg (leg : SwapLegId)
  | refundLeg (leg : SwapLegId)
  | none
  deriving DecidableEq, Repr

structure Swap where
  role : SwapRole
  terms : SwapTerms
  phase : SwapPhase
  deriving DecidableEq, Repr

namespace Swap

def new (role : SwapRole) (terms : SwapTerms) : Swap := ⟨role, terms, .proposed⟩

/-- The leg this node funds. -/
def ownLeg (s : Swap) : SwapLegId :=
  match s.role with
  | .initiator => .nim
  | .responder => .counterparty

/-- The leg this node claims. -/
def claimLeg (s : Swap) : SwapLegId :=
  match s.role with
  | .initiator => .counterparty
  | .responder => .nim

/-- The timeout of this node's own funded leg. -/
def ownTimeout (s : Swap) : UInt64 :=
  match s.role with
  | .initiator => s.terms.nimTimeout
  | .responder => s.terms.counterpartyTimeout

/-- `Proposed → Accepted`, refused when the ladder is unsafe. -/
def accept (s : Swap) (currentHead : UInt64) (params : LadderParams) : Except SwapError Unit × Swap :=
  if s.phase ≠ .proposed then (.error (.illegalTransition s.phase "accept"), s)
  else
    let verdict := assessLadder s.terms currentHead params
    if !verdict.isSafe then (.error (.unsafeLadder verdict), s)
    else (.ok (), { s with phase := .accepted })

/-- (Responder) the initiator's funding was observed on-chain. -/
def observeInitiatorFunded (s : Swap) : Except SwapError Unit × Swap :=
  match s.role, s.phase with
  | .responder, .accepted => (.ok (), { s with phase := .initiatorFunded })
  | _, _ => (.error (.illegalTransition s.phase "observe_initiator_funded"), s)

/-- Fund this node's own leg, re-checking the ladder. -/
def fund (s : Swap) (currentHead : UInt64) (params : LadderParams) :
    Except SwapError SwapAction × Swap :=
  let legal := match s.role, s.phase with
    | .initiator, .accepted => true
    | .responder, .initiatorFunded => true
    | _, _ => false
  if !legal then (.error (.illegalTransition s.phase "fund"), s)
  else
    let verdict := assessLadder s.terms currentHead params
    if !verdict.isSafe then (.error (.unsafeLadder verdict), s)
    else (.ok (.fundLeg s.ownLeg s.ownTimeout), { s with phase := .selfFunded })

/-- The counterparty's leg was observed funded: `SelfFunded → BothFunded`, whatever the role. -/
def observeCounterpartyFunded (s : Swap) : Except SwapError Unit × Swap :=
  if s.phase ≠ .selfFunded then
    (.error (.illegalTransition s.phase "observe_counterparty_funded"), s)
  else (.ok (), { s with phase := .bothFunded })

/-- (Initiator) claim the counterparty leg, revealing the secret. -/
def revealAndClaim (s : Swap) (currentHead : UInt64) (params : LadderParams) :
    Except SwapError SwapAction × Swap :=
  match s.role, s.phase with
  | .initiator, .bothFunded =>
    let verdict := assessRevealDeadline s.terms currentHead params
    if !verdict.isSafe then (.error (.revealTooLate verdict), s)
    else (.ok (.claimLeg s.claimLeg), { s with phase := .revealed })
  | _, _ => (.error (.illegalTransition s.phase "reveal_and_claim"), s)

/-- (Responder) the secret was observed. -/
def observeSecret (s : Swap) : Except SwapError SwapAction × Swap :=
  match s.role, s.phase with
  | .responder, .bothFunded => (.ok (.claimLeg s.claimLeg), { s with phase := .revealed })
  | _, _ => (.error (.illegalTransition s.phase "observe_secret"), s)

/-- This node's claim settled on-chain. -/
def observeSettled (s : Swap) : Except SwapError Unit × Swap :=
  if s.phase ≠ .revealed then (.error (.illegalTransition s.phase "observe_settled"), s)
  else (.ok (), { s with phase := .settled })

/-- (Responder) the claim window closed at `T_A` with the claim unconfirmed. -/
def forfeitClaim (s : Swap) (currentHead : UInt64) : Except SwapError Unit × Swap :=
  match s.role, s.phase with
  | .responder, .revealed =>
    let timeout := s.terms.nimTimeout
    if currentHead ≤ timeout then (.error (.timeoutNotReached timeout currentHead), s)
    else (.ok (), { s with phase := .lost })
  | _, _ => (.error (.illegalTransition s.phase "forfeit_claim"), s)

/-- Cancel before this node has funded. -/
def abort (s : Swap) : Except SwapError Unit × Swap :=
  if s.phase.hasFundsLocked || s.phase.isTerminal then
    (.error (.illegalTransition s.phase "abort"), s)
  else (.ok (), { s with phase := .aborted })

/-- Refund this node's own leg past its timeout; never a responder's revealed leg, which is spent. -/
def refundAfterTimeout (s : Swap) (currentHead : UInt64) : Except SwapError SwapAction × Swap :=
  if !s.phase.hasFundsLocked || (s.role = .responder ∧ s.phase = .revealed) then
    (.error (.illegalTransition s.phase "refund"), s)
  else
    let timeout := s.ownTimeout
    if currentHead ≤ timeout then (.error (.timeoutNotReached timeout currentHead), s)
    else (.ok (.refundLeg s.ownLeg), { s with phase := .refunded })

end Swap

/-! ### The two gates as bounds -/

/-- The ladder is safe exactly when `T_B < T_A`, the margin covers `Δ_safe` and the claim window is
    still open at `head`. -/
theorem assessLadder_safe_iff (t : SwapTerms) (head : UInt64) (p : LadderParams) :
    (assessLadder t head p).isSafe = true ↔
      t.counterpartyTimeout.toNat < t.nimTimeout.toNat ∧
      p.deltaSafeBlocks.toNat ≤ t.nimTimeout.toNat - t.counterpartyTimeout.toNat ∧
      p.minClaimWindowBlocks.toNat ≤ t.counterpartyTimeout.toNat - head.toNat := by
  unfold assessLadder
  by_cases hinv : t.nimTimeout ≤ t.counterpartyTimeout
  · rw [if_pos hinv]
    rw [UInt64.le_iff_toNat_le] at hinv
    simp only [LadderVerdict.isSafe, Bool.false_eq_true, false_iff]
    omega
  · rw [if_neg hinv]
    have hlt : t.counterpartyTimeout < t.nimTimeout := UInt64.not_le.mp hinv
    have hsub : (t.nimTimeout - t.counterpartyTimeout).toNat =
        t.nimTimeout.toNat - t.counterpartyTimeout.toNat :=
      UInt64.toNat_sub_of_le _ _ (UInt64.le_of_lt hlt)
    rw [UInt64.lt_iff_toNat_lt] at hlt
    simp only [UInt64.lt_iff_toNat_lt, hsub, toNat_satSub]
    split_ifs <;> simp only [LadderVerdict.isSafe, Bool.false_eq_true, false_iff, true_iff] <;> omega

theorem assessRevealDeadline_safe_iff (t : SwapTerms) (head : UInt64) (p : LadderParams) :
    (assessRevealDeadline t head p).isSafe = true ↔
      p.minClaimWindowBlocks.toNat ≤ t.counterpartyTimeout.toNat - head.toNat := by
  unfold assessRevealDeadline
  simp only [UInt64.lt_iff_toNat_lt, toNat_satSub]
  split_ifs <;> simp only [RevealVerdict.isSafe, Bool.false_eq_true, false_iff, true_iff] <;> omega

/-- A ladder that is safe at a head is safe at every earlier one. -/
theorem assessLadder_safe_of_le {t : SwapTerms} {h h' : UInt64} {p : LadderParams} (hle : h' ≤ h)
    (hs : (assessLadder t h p).isSafe = true) : (assessLadder t h' p).isSafe = true := by
  rw [UInt64.le_iff_toNat_le] at hle
  rw [assessLadder_safe_iff] at hs ⊢
  obtain ⟨h1, h2, h3⟩ := hs
  exact ⟨h1, h2, by omega⟩

/-! ### What each method can do

    One lemma per method: either the transition is legal, with the guards it passed, or the method
    returns an error and the swap is what it was. Nothing above this file unfolds a method. -/

namespace Swap

theorem accept_cases (s : Swap) (head : UInt64) (p : LadderParams) :
    (s.phase = .proposed ∧ (assessLadder s.terms head p).isSafe = true ∧
      s.accept head p = (.ok (), { s with phase := .accepted })) ∨
    (¬ (s.phase = .proposed ∧ (assessLadder s.terms head p).isSafe = true) ∧
      ∃ e, s.accept head p = (.error e, s)) := by
  unfold accept
  by_cases hp : s.phase = .proposed
  · rw [if_neg (not_not.mpr hp)]
    cases hv : (assessLadder s.terms head p).isSafe with
    | true => exact .inl ⟨hp, rfl, by simp [hv]⟩
    | false => exact .inr ⟨by simp, .unsafeLadder (assessLadder s.terms head p), by simp [hv]⟩
  · exact .inr ⟨fun h => hp h.1, _, if_pos hp⟩

theorem observeInitiatorFunded_cases (s : Swap) :
    (s.role = .responder ∧ s.phase = .accepted ∧
      s.observeInitiatorFunded = (.ok (), { s with phase := .initiatorFunded })) ∨
    ∃ e, s.observeInitiatorFunded = (.error e, s) := by
  unfold observeInitiatorFunded
  split
  · exact .inl ⟨‹_›, ‹_›, rfl⟩
  · exact .inr ⟨_, rfl⟩

/-- `fund` is legal for an initiator at `Accepted` and for a responder at `InitiatorFunded`. -/
def fundable (s : Swap) : Prop :=
  (s.role = .initiator ∧ s.phase = .accepted) ∨ (s.role = .responder ∧ s.phase = .initiatorFunded)

instance (s : Swap) : Decidable s.fundable := inferInstanceAs (Decidable (_ ∨ _))

theorem fund_cases (s : Swap) (head : UInt64) (p : LadderParams) :
    (s.fundable ∧ (assessLadder s.terms head p).isSafe = true ∧
      s.fund head p = (.ok (.fundLeg s.ownLeg s.ownTimeout), { s with phase := .selfFunded })) ∨
    ((¬ s.fundable ∨ (assessLadder s.terms head p).isSafe = false) ∧
      ∃ e, s.fund head p = (.error e, s)) := by
  obtain ⟨role, terms, phase⟩ := s
  cases hv : (assessLadder terms head p).isSafe <;> cases role <;> cases phase <;>
    simp [fund, fundable, hv]

theorem observeCounterpartyFunded_cases (s : Swap) :
    (s.phase = .selfFunded ∧
      s.observeCounterpartyFunded = (.ok (), { s with phase := .bothFunded })) ∨
    ∃ e, s.observeCounterpartyFunded = (.error e, s) := by
  unfold observeCounterpartyFunded
  by_cases hp : s.phase = .selfFunded
  · exact .inl ⟨hp, if_neg (not_not.mpr hp)⟩
  · exact .inr ⟨_, if_pos hp⟩

theorem revealAndClaim_cases (s : Swap) (head : UInt64) (p : LadderParams) :
    (s.role = .initiator ∧ s.phase = .bothFunded ∧
      (assessRevealDeadline s.terms head p).isSafe = true ∧
      s.revealAndClaim head p = (.ok (.claimLeg s.claimLeg), { s with phase := .revealed })) ∨
    ((¬ (s.role = .initiator ∧ s.phase = .bothFunded) ∨
        (assessRevealDeadline s.terms head p).isSafe = false) ∧
      ∃ e, s.revealAndClaim head p = (.error e, s)) := by
  obtain ⟨role, terms, phase⟩ := s
  cases hv : (assessRevealDeadline terms head p).isSafe <;> cases role <;> cases phase <;>
    simp [revealAndClaim, hv]

theorem observeSecret_cases (s : Swap) :
    (s.role = .responder ∧ s.phase = .bothFunded ∧
      s.observeSecret = (.ok (.claimLeg s.claimLeg), { s with phase := .revealed })) ∨
    (¬ (s.role = .responder ∧ s.phase = .bothFunded) ∧ ∃ e, s.observeSecret = (.error e, s)) := by
  obtain ⟨role, terms, phase⟩ := s
  cases role <;> cases phase <;> simp [observeSecret]

theorem observeSettled_cases (s : Swap) :
    (s.phase = .revealed ∧ s.observeSettled = (.ok (), { s with phase := .settled })) ∨
    (s.phase ≠ .revealed ∧ ∃ e, s.observeSettled = (.error e, s)) := by
  unfold observeSettled
  by_cases hp : s.phase = .revealed
  · exact .inl ⟨hp, if_neg (not_not.mpr hp)⟩
  · exact .inr ⟨hp, _, if_pos hp⟩

theorem forfeitClaim_cases (s : Swap) (head : UInt64) :
    (s.role = .responder ∧ s.phase = .revealed ∧ s.terms.nimTimeout < head ∧
      s.forfeitClaim head = (.ok (), { s with phase := .lost })) ∨
    (¬ (s.role = .responder ∧ s.phase = .revealed ∧ s.terms.nimTimeout < head) ∧
      ∃ e, s.forfeitClaim head = (.error e, s)) := by
  obtain ⟨role, terms, phase⟩ := s
  by_cases hle : head ≤ terms.nimTimeout
  · cases role <;> cases phase <;> simp [forfeitClaim, hle, UInt64.not_lt.mpr hle]
  · cases role <;> cases phase <;> simp [forfeitClaim, hle, UInt64.not_le.mp hle]

theorem abort_cases (s : Swap) :
    (s.phase.hasFundsLocked = false ∧ s.phase.isTerminal = false ∧
      s.abort = (.ok (), { s with phase := .aborted })) ∨
    ∃ e, s.abort = (.error e, s) := by
  obtain ⟨role, terms, phase⟩ := s
  cases phase <;> simp [abort, SwapPhase.hasFundsLocked, SwapPhase.isTerminal]

/-- The phases `refundAfterTimeout` can leave: locked, except a responder's revealed one. -/
def refundable (s : Swap) : Prop :=
  s.phase.hasFundsLocked = true ∧ ¬ (s.role = .responder ∧ s.phase = .revealed)

instance (s : Swap) : Decidable s.refundable := inferInstanceAs (Decidable (_ ∧ _))

theorem refundAfterTimeout_cases (s : Swap) (head : UInt64) :
    (s.refundable ∧ s.ownTimeout < head ∧
      s.refundAfterTimeout head = (.ok (.refundLeg s.ownLeg), { s with phase := .refunded })) ∨
    (¬ (s.refundable ∧ s.ownTimeout < head) ∧ ∃ e, s.refundAfterTimeout head = (.error e, s)) := by
  obtain ⟨role, terms, phase⟩ := s
  unfold refundAfterTimeout
  by_cases hr : (⟨role, terms, phase⟩ : Swap).refundable
  · have hgo : ¬ ((!phase.hasFundsLocked || decide (role = .responder ∧ phase = .revealed)) = true) := by
      obtain ⟨h1, h2⟩ := hr
      simp only [h1, Bool.not_true, Bool.false_or, decide_eq_true_eq]
      exact h2
    by_cases hle : head ≤ (⟨role, terms, phase⟩ : Swap).ownTimeout
    · refine .inr ⟨fun h => UInt64.not_lt.mpr hle h.2, .timeoutNotReached (ownTimeout ⟨role, terms, phase⟩) head, ?_⟩
      rw [if_neg hgo, if_pos hle]
    · refine .inl ⟨hr, UInt64.not_le.mp hle, ?_⟩
      rw [if_neg hgo, if_neg hle]
  · refine .inr ⟨fun h => hr h.1, .illegalTransition phase "refund", if_pos ?_⟩
    unfold refundable at hr
    simp only [Bool.or_eq_true, Bool.not_eq_true', decide_eq_true_eq]
    by_cases hl : phase.hasFundsLocked = true
    · exact .inr (not_not.mp fun h => hr ⟨hl, h⟩)
    · exact .inl (Bool.not_eq_true _ ▸ hl)

end Swap

end Nimmesh
