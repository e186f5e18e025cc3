import Nimmesh.Swap.Machine

/-! @src swap.rs | name:Swap lifecycle over whole runs | layer:properties

    The methods of `Swap` as one step function, and what every finite sequence of them preserves. The
    legal transitions are a relation `Legal`; `apply_cases` connects it to the code (a method either
    makes a legal transition or returns an error and changes nothing), and every rule of the
    lifecycle is read off `Legal`. -/

namespace Nimmesh
open Word

/-- One call of a `Swap` method, with the head it is given. -/
inductive SwapOp where
  | accept (head : UInt64)
  | observeInitiatorFunded
  | fund (head : UInt64)
  | observeCounterpartyFunded
  | revealAndClaim (head : UInt64)
  | observeSecret
  | observeSettled
  | forfeitClaim (head : UInt64)
  | abort
  | refundAfterTimeout (head : UInt64)
  deriving DecidableEq, Repr

/-- The head a method is called at; the observations carry none. -/
def SwapOp.head? : SwapOp → Option UInt64
  | .accept h | .fund h | .revealAndClaim h | .forfeitClaim h | .refundAfterTimeout h => some h
  | _ => Option.none

namespace Swap

/-- A bookkeeping transition has no on-chain action. -/
def quiet (r : Except SwapError Unit × Swap) : Except SwapError SwapAction × Swap :=
  (r.1.map fun _ => .none, r.2)

/-- Call one method. -/
def apply (params : LadderParams) (s : Swap) : SwapOp → Except SwapError SwapAction × Swap
  | .accept h => quiet (s.accept h params)
  | .observeInitiatorFunded => quiet s.observeInitiatorFunded
  | .fund h => s.fund h params
  | .observeCounterpartyFunded => quiet s.observeCounterpartyFunded
  | .revealAndClaim h => s.revealAndClaim h params
  | .observeSecret => s.observeSecret
  | .observeSettled => quiet s.observeSettled
  | .forfeitClaim h => quiet (s.forfeitClaim h)
  | .abort => quiet s.abort
  | .refundAfterTimeout h => s.refundAfterTimeout h

/-- The swap a method call leaves behind. -/
def next (params : LadderParams) (s : Swap) (op : SwapOp) : Swap := (s.apply params op).2

/-- The legal transitions: what each method may do to the phase, and under which guard. -/
inductive Legal (params : LadderParams) (s : Swap) : SwapOp → SwapPhase → Prop
  | accept {h : UInt64} (phase : s.phase = .proposed)
      (ladder : (assessLadder s.terms h params).isSafe = true) : Legal params s (.accept h) .accepted
  | observeInitiatorFunded (role : s.role = .responder) (phase : s.phase = .accepted) :
      Legal params s .observeInitiatorFunded .initiatorFunded
  | fund {h : UInt64} (legal : s.fundable)
      (ladder : (assessLadder s.terms h params).isSafe = true) : Legal params s (.fund h) .selfFunded
  | observeCounterpartyFunded (phase : s.phase = .selfFunded) :
      Legal params s .observeCounterpartyFunded .bothFunded
  | revealAndClaim {h : UInt64} (role : s.role = .initiator) (phase : s.phase = .bothFunded)
      (deadline : (assessRevealDeadline s.terms h params).isSafe = true) :
      Legal params s (.revealAndClaim h) .revealed
  | observeSecret (role : s.role = .responder) (phase : s.phase = .bothFunded) :
      Legal params s .observeSecret .revealed
  | observeSettled (phase : s.phase = .revealed) : Legal params s .observeSettled .settled
  | forfeitClaim {h : UInt64} (role : s.role = .responder) (phase : s.phase = .revealed)
      (past : s.terms.nimTimeout < h) : Legal params s (.forfeitClaim h) .lost
  | abort (unlocked : s.phase.hasFundsLocked = false) (live : s.phase.isTerminal = false) :
      Legal params s .abort .aborted
  | refundAfterTimeout {h : UInt64} (legal : s.refundable) (past : s.ownTimeout < h) :
      Legal params s (.refundAfterTimeout h) .refunded

/-- A method makes a legal transition, or returns an error and leaves the swap as it was. -/
theorem apply_cases (params : LadderParams) (s : Swap) (op : SwapOp) :
    (∃ a ph, s.apply params op = (.ok a, { s with phase := ph }) ∧ Legal params s op ph) ∨
    ∃ e, s.apply params op = (.error e, s) := by
  cases op with
  | accept h =>
    rcases s.accept_cases h params with ⟨hp, hl, he⟩ | ⟨-, e, he⟩
    · exact .inl ⟨_, _, by simp only [apply, quiet, he]; rfl, .accept hp hl⟩
    · exact .inr ⟨e, by simp only [apply, quiet, he]; rfl⟩
  | observeInitiatorFunded =>
    rcases s.observeInitiatorFunded_cases with ⟨hr, hp, he⟩ | ⟨e, he⟩
    · exact .inl ⟨_, _, by simp only [apply, quiet, he]; rfl, .observeInitiatorFunded hr hp⟩
    · exact .inr ⟨e, by simp only [apply, quiet, he]; rfl⟩
  | fund h =>
    rcases s.fund_cases h params with ⟨hf, hl, he⟩ | ⟨-, e, he⟩
    · exact .inl ⟨_, _, he, .fund hf hl⟩
    · exact .inr ⟨e, he⟩
  | observeCounterpartyFunded =>
    rcases s.observeCounterpartyFunded_cases with ⟨hp, he⟩ | ⟨e, he⟩
    · exact .inl ⟨_, _, by simp only [apply, quiet, he]; rfl, .observeCounterpartyFunded hp⟩
    · exact .inr ⟨e, by simp only [apply, quiet, he]; rfl⟩
  | revealAndClaim h =>
    rcases s.revealAndClaim_cases h params with ⟨hr, hp, hd, he⟩ | ⟨-, e, he⟩
    · exact .inl ⟨_, _, he, .revealAndClaim hr hp hd⟩
    · exact .inr ⟨e, he⟩
  | observeSecret =>
    rcases s.observeSecret_cases with ⟨hr, hp, he⟩ | ⟨-, e, he⟩
    · exact .inl ⟨_, _, he, .observeSecret hr hp⟩
    · exact .inr ⟨e, he⟩
  | observeSettled =>
    rcases s.observeSettled_cases with ⟨hp, he⟩ | ⟨-, e, he⟩
    · exact .inl ⟨_, _, by simp only [apply, quiet, he]; rfl, .observeSettled hp⟩
    · exact .inr ⟨e, by simp only [apply, quiet, he]; rfl⟩
  | forfeitClaim h =>
    rcases s.forfeitClaim_cases h with ⟨hr, hp, hh, he⟩ | ⟨-, e, he⟩
    · exact .inl ⟨_, _, by simp only [apply, quiet, he]; rfl, .forfeitClaim hr hp hh⟩
    · exact .inr ⟨e, by simp only [apply, quiet, he]; rfl⟩
  | abort =>
    rcases s.abort_cases with ⟨hl, ht, he⟩ | ⟨e, he⟩
    · exact .inl ⟨_, _, by simp only [apply, quiet, he]; rfl, .abort hl ht⟩
    · exact .inr ⟨e, by simp only [apply, quiet, he]; rfl⟩
  | refundAfterTimeout h =>
    rcases s.refundAfterTimeout_cases h with ⟨hr, hh, he⟩ | ⟨-, e, he⟩
    · exact .inl ⟨_, _, he, .refundAfterTimeout hr hh⟩
    · exact .inr ⟨e, he⟩

/-- The swap after a call is the old one, or the old one moved by a legal transition. -/
theorem next_cases (params : LadderParams) (s : Swap) (op : SwapOp) :
    (∃ ph, s.next params op = { s with phase := ph } ∧ Legal params s op ph) ∨
    s.next params op = s := by
  rcases apply_cases params s op with ⟨a, ph, he, hl⟩ | ⟨e, he⟩
  · exact .inl ⟨ph, by rw [next, he], hl⟩
  · exact .inr (by rw [next, he])

@[simp] theorem next_role (params : LadderParams) (s : Swap) (op : SwapOp) :
    (s.next params op).role = s.role := by
  rcases next_cases params s op with ⟨ph, he, -⟩ | he <;> rw [he]

@[simp] theorem next_terms (params : LadderParams) (s : Swap) (op : SwapOp) :
    (s.next params op).terms = s.terms := by
  rcases next_cases params s op with ⟨ph, he, -⟩ | he <;> rw [he]

/-! ### The rules of the lifecycle -/

/-- What one call may do to a swap: it locks funds only on a safe ladder, it leaves a locked phase
    only to `Settled`, to `Refunded` past the own timeout or to `Lost`, it never moves a terminal
    swap, and an error changes nothing. -/
structure StepSound (params : LadderParams) (s : Swap) (op : SwapOp) : Prop where
  locksSafely : s.phase.hasFundsLocked = false → (s.next params op).phase.hasFundsLocked = true →
    ∃ h, op = .fund h ∧ (assessLadder s.terms h params).isSafe = true
  exits : s.phase.hasFundsLocked = true → (s.next params op).phase.hasFundsLocked = false →
    (s.next params op).phase = .settled ∨ (s.next params op).phase = .lost ∨
    ((s.next params op).phase = .refunded ∧ ∃ h, op = .refundAfterTimeout h ∧ s.ownTimeout < h)
  terminal : s.phase.isTerminal = true → s.next params op = s
  error : ∀ e, (s.apply params op).1 = .error e → s.next params op = s

/-- A locked swap has an exit: at some later head a method succeeds and takes it out of the locked
    phases. -/
def HasExit (params : LadderParams) (s : Swap) : Prop :=
  s.phase.hasFundsLocked = true → ∀ head, ∃ head' op, head ≤ head' ∧ op.head?.getD head' = head' ∧
    (∃ a, (s.apply params op).1 = .ok a) ∧ (s.next params op).phase.hasFundsLocked = false

/-- Every call of every method obeys the step rules. -/
theorem stepSound (params : LadderParams) (s : Swap) (op : SwapOp) : StepSound params s op := by
  rcases apply_cases params s op with ⟨a, ph, he, hl⟩ | ⟨e, he⟩
  · have hn : s.next params op = { s with phase := ph } := by rw [next, he]
    refine ⟨fun hu hk => ?_, fun hk hu => ?_, fun ht => ?_, fun e' he' => ?_⟩
    · rw [hn] at hk
      cases hl with
      | fund hf hs => exact ⟨_, rfl, hs⟩
      | observeCounterpartyFunded hp => rw [hp] at hu; simp [SwapPhase.hasFundsLocked] at hu
      | revealAndClaim hr hp hd => rw [hp] at hu; simp [SwapPhase.hasFundsLocked] at hu
      | observeSecret hr hp => rw [hp] at hu; simp [SwapPhase.hasFundsLocked] at hu
      | _ => simp [SwapPhase.hasFundsLocked] at hk
    · rw [hn] at hu ⊢
      cases hl with
      | observeSettled hp => exact .inl rfl
      | forfeitClaim hr hp hh => exact .inr (.inl rfl)
      | refundAfterTimeout hr hh => exact .inr (.inr ⟨rfl, _, rfl, hh⟩)
      | accept hp hs => rw [hp] at hk; simp [SwapPhase.hasFundsLocked] at hk
      | observeInitiatorFunded hr hp => rw [hp] at hk; simp [SwapPhase.hasFundsLocked] at hk
      | abort hl ht => rw [hl] at hk; simp at hk
      | _ => simp [SwapPhase.hasFundsLocked] at hu
    · -- no legal transition starts in a terminal phase
      exfalso
      cases hl with
      | accept hp _ => rw [hp] at ht; simp [SwapPhase.isTerminal] at ht
      | fund hf _ => rcases hf with ⟨-, hp⟩ | ⟨-, hp⟩ <;> rw [hp] at ht <;>
          simp [SwapPhase.isTerminal] at ht
      | abort _ hlive => rw [hlive] at ht; simp at ht
      | refundAfterTimeout hr _ =>
        have := hr.1
        revert ht this
        cases s.phase <;> simp [SwapPhase.hasFundsLocked, SwapPhase.isTerminal]
      | observeCounterpartyFunded hp => rw [hp] at ht; simp [SwapPhase.isTerminal] at ht
      | observeSettled hp => rw [hp] at ht; simp [SwapPhase.isTerminal] at ht
      | observeInitiatorFunded _ hp => rw [hp] at ht; simp [SwapPhase.isTerminal] at ht
      | revealAndClaim _ hp _ => rw [hp] at ht; simp [SwapPhase.isTerminal] at ht
      | observeSecret _ hp => rw [hp] at ht; simp [SwapPhase.isTerminal] at ht
      | forfeitClaim _ hp _ => rw [hp] at ht; simp [SwapPhase.isTerminal] at ht
    · rw [he] at he'; cases he'
  · have hn : s.next params op = s := by rw [next, he]
    refine ⟨fun hu hk => ?_, fun hk hu => ?_, fun _ => hn, fun _ _ => hn⟩
    · rw [hn, hu] at hk; simp at hk
    · rw [hn, hk] at hu; simp at hu

/-- A locked swap whose own timeout is not the largest word has an exit: a revealed one settles, the
    others refund at a head past the timeout. -/
theorem hasExit_of_ownTimeout {params : LadderParams} {s : Swap} (ht : s.ownTimeout ≠ u64Max) :
    HasExit params s := by
  intro hk head
  by_cases hp : s.phase = .revealed
  · rcases s.observeSettled_cases with ⟨-, he⟩ | ⟨hne, -⟩
    · have ha : s.apply params .observeSettled = (.ok .none, { s with phase := .settled }) := by
        simp only [apply, quiet, he]; rfl
      exact ⟨head, .observeSettled, UInt64.le_refl head, rfl, ⟨_, by rw [ha]⟩, by rw [next, ha]; rfl⟩
    · exact absurd hp hne
  · obtain ⟨head', hle, hlt⟩ := exists_gt_of_ne_max ht head
    have hr : s.refundable := ⟨hk, fun h => hp h.2⟩
    rcases s.refundAfterTimeout_cases head' with ⟨-, -, he⟩ | ⟨hno, -⟩
    · exact ⟨head', .refundAfterTimeout head', hle, rfl, ⟨_, by rw [apply, he]⟩,
        by rw [next, apply, he]; rfl⟩
    · exact absurd ⟨hr, hlt⟩ hno

/-! ### Whole runs -/

/-- The swap after a sequence of calls on a fresh one. -/
def after (params : LadderParams) (role : SwapRole) (terms : SwapTerms) (ops : List SwapOp) : Swap :=
  Run.exec (next params) (new role terms) ops

/-- The lifecycle rules hold in every state that a sequence of calls reaches. -/
def Lifecycle (params : LadderParams) (role : SwapRole) (terms : SwapTerms) : Prop :=
  ∀ ops, (∀ op, StepSound params (after params role terms ops) op) ∧
    HasExit params (after params role terms ops)

/-- What a run keeps: the role and terms, and a swap past `Proposed` that is not aborted had a safe
    ladder at some head. -/
structure RunInv (params : LadderParams) (role : SwapRole) (terms : SwapTerms) (s : Swap) : Prop where
  role_eq : s.role = role
  terms_eq : s.terms = terms
  ladder : s.phase ≠ .proposed → s.phase ≠ .aborted → (assessLadder terms 0 params).isSafe = true

theorem runInv_step {params : LadderParams} {role : SwapRole} {terms : SwapTerms} (s : Swap)
    (op : SwapOp) (hi : RunInv params role terms s) : RunInv params role terms (s.next params op) := by
  obtain ⟨rfl, rfl, hlad⟩ := hi
  refine ⟨next_role .., next_terms .., fun hp ha => ?_⟩
  rcases next_cases params s op with ⟨ph, he, hl⟩ | he
  · rw [he] at hp ha
    cases hl with
    | accept _ hs => exact assessLadder_safe_of_le (UInt64.zero_le) hs
    | fund _ hs => exact assessLadder_safe_of_le (UInt64.zero_le) hs
    | abort => exact absurd rfl ha
    | refundAfterTimeout hr _ =>
      have hk := hr.1
      exact hlad (fun h => by rw [h] at hk; simp [SwapPhase.hasFundsLocked] at hk)
        (fun h => by rw [h] at hk; simp [SwapPhase.hasFundsLocked] at hk)
    | observeCounterpartyFunded hq => exact hlad (by simp [hq]) (by simp [hq])
    | observeSettled hq => exact hlad (by simp [hq]) (by simp [hq])
    | observeInitiatorFunded _ hq => exact hlad (by simp [hq]) (by simp [hq])
    | revealAndClaim _ hq _ => exact hlad (by simp [hq]) (by simp [hq])
    | observeSecret _ hq => exact hlad (by simp [hq]) (by simp [hq])
    | forfeitClaim _ hq _ => exact hlad (by simp [hq]) (by simp [hq])
  · rw [he] at hp ha
    exact hlad hp ha

theorem runInv_after (params : LadderParams) (role : SwapRole) (terms : SwapTerms) (ops : List SwapOp) :
    RunInv params role terms (after params role terms ops) :=
  Run.exec_preserves _ runInv_step ops _ ⟨rfl, rfl, fun h => absurd rfl h⟩

/-- With the largest word as `T_A` an initiator that waits for the counterparty leg has no exit. -/
theorem not_hasExit_of_max {params : LadderParams} {s : Swap} (hr : s.role = .initiator)
    (hp : s.phase = .selfFunded) (ht : s.terms.nimTimeout = u64Max) : ¬ HasExit params s := by
  intro hex
  obtain ⟨head', op, -, -, ⟨a, ha⟩, hu⟩ := hex (by rw [hp]; rfl) 0
  rcases apply_cases params s op with ⟨a', ph, he, hl⟩ | ⟨e, he⟩
  · rw [next, he] at hu
    cases hl with
    | refundAfterTimeout _ hlt =>
      rw [ownTimeout, hr, ht] at hlt
      exact UInt64.not_lt.mpr (le_u64Max _) hlt
    | accept hq _ => rw [hp] at hq; cases hq
    | observeInitiatorFunded _ hq => rw [hp] at hq; cases hq
    | fund hf _ => rcases hf with ⟨-, hq⟩ | ⟨-, hq⟩ <;> rw [hp] at hq <;> cases hq
    | observeSettled hq => rw [hp] at hq; cases hq
    | forfeitClaim _ hq _ => rw [hp] at hq; cases hq
    | abort hul _ => rw [hp] at hul; simp [SwapPhase.hasFundsLocked] at hul
    | _ => simp [SwapPhase.hasFundsLocked] at hu
  · rw [he] at ha; cases ha

/-- An initiator that is offered a safe ladder reaches `SelfFunded` in two calls. -/
theorem after_accept_fund {params : LadderParams} {terms : SwapTerms}
    (hs : (assessLadder terms 0 params).isSafe = true) :
    after params .initiator terms [.accept 0, .fund 0] = ⟨.initiator, terms, .selfFunded⟩ := by
  have h1 : (new .initiator terms).next params (.accept 0) = ⟨.initiator, terms, .accepted⟩ := by
    simp [next, apply, quiet, accept, new, hs]
  have h2 : (⟨.initiator, terms, .accepted⟩ : Swap).next params (.fund 0) =
      ⟨.initiator, terms, .selfFunded⟩ := by
    simp [next, apply, fund, hs]
  rw [after, Run.exec_cons, h1, Run.exec_cons, h2, Run.exec_nil]

/-- CORRECT: the lifecycle rules hold in every reachable state of a swap, unless it is an initiator's
    swap whose `T_A` is the largest 64-bit word and whose ladder can be funded at all: no head is past
    that timeout, so its locked funds have no refund. -/
theorem lifecycle_iff (params : LadderParams) (role : SwapRole) (terms : SwapTerms) :
    Lifecycle params role terms ↔
      ¬ (role = .initiator ∧ terms.nimTimeout = u64Max ∧
        (assessLadder terms 0 params).isSafe = true) := by
  constructor
  · rintro hlife ⟨rfl, ht, hs⟩
    have hexit := (hlife [.accept 0, .fund 0]).2
    rw [after_accept_fund hs] at hexit
    exact not_hasExit_of_max rfl rfl ht hexit
  · intro hcond ops
    refine ⟨stepSound params _, fun hk => ?_⟩
    have hinv := runInv_after params role terms ops
    have hs : (assessLadder terms 0 params).isSafe = true :=
      hinv.ladder (fun h => by rw [h] at hk; simp [SwapPhase.hasFundsLocked] at hk)
        (fun h => by rw [h] at hk; simp [SwapPhase.hasFundsLocked] at hk)
    refine hasExit_of_ownTimeout (fun hmax => ?_) hk
    rw [ownTimeout, hinv.role_eq, hinv.terms_eq] at hmax
    cases role with
    | initiator => exact hcond ⟨rfl, hmax, hs⟩
    | responder =>
      -- `T_B < T_A`, so the responder's own timeout is never the largest word
      have hlt := ((assessLadder_safe_iff terms 0 params).mp hs).1
      have hle := UInt64.le_iff_toNat_le.mp (le_u64Max terms.nimTimeout)
      have hcp : terms.counterpartyTimeout = u64Max := hmax
      rw [hcp] at hlt
      omega

/-- Past the claim window of `T_B`, an initiator's locked swap with the largest word as `T_A` stays
    locked whatever is called. -/
theorem stuck_step {params : LadderParams} {terms : SwapTerms} (hmax : terms.nimTimeout = u64Max)
    (s : Swap) (op : SwapOp)
    (hs : s.role = .initiator ∧ s.terms = terms ∧ (s.phase = .selfFunded ∨ s.phase = .bothFunded))
    (hlate : ∀ h, op.head? = some h → (assessRevealDeadline terms h params).isSafe = false) :
    (s.next params op).role = .initiator ∧ (s.next params op).terms = terms ∧
      ((s.next params op).phase = .selfFunded ∨ (s.next params op).phase = .bothFunded) := by
  obtain ⟨hr, rfl, hp⟩ := hs
  refine ⟨(next_role ..).trans hr, next_terms .., ?_⟩
  rcases next_cases params s op with ⟨ph, he, hl⟩ | he
  · rw [he]
    cases hl with
    | observeCounterpartyFunded => exact .inr rfl
    | fund => exact .inl rfl
    | revealAndClaim _ _ hd => rw [hlate _ rfl] at hd; cases hd
    | refundAfterTimeout _ hlt =>
      rw [ownTimeout, hr, hmax] at hlt
      exact absurd hlt (UInt64.not_lt.mpr (le_u64Max _))
    | accept hq _ => rcases hp with hp | hp <;> rw [hp] at hq <;> cases hq
    | observeSettled hq => rcases hp with hp | hp <;> rw [hp] at hq <;> cases hq
    | abort hul _ => rcases hp with hp | hp <;> rw [hp] at hul <;> cases hul
    | observeInitiatorFunded hq _ => rw [hr] at hq; cases hq
    | observeSecret hq _ => rw [hr] at hq; cases hq
    | forfeitClaim hq _ _ => rw [hr] at hq; cases hq
  · rw [he]; exact hp

theorem stuck_run {params : LadderParams} {terms : SwapTerms} (hmax : terms.nimTimeout = u64Max) :
    ∀ (ops : List SwapOp) (s : Swap),
      s.role = .initiator ∧ s.terms = terms ∧ (s.phase = .selfFunded ∨ s.phase = .bothFunded) →
      (∀ op ∈ ops, ∀ h, op.head? = some h → (assessRevealDeadline terms h params).isSafe = false) →
      (Run.exec (next params) s ops).phase.hasFundsLocked = true
  | [], s, hs, _ => by rcases hs.2.2 with hp | hp <;> rw [Run.exec_nil, hp] <;> rfl
  | op :: ops, s, hs, hlate =>
      stuck_run hmax ops (s.next params op)
        (stuck_step hmax s op hs (hlate op List.mem_cons_self))
        (fun op' hop => hlate op' (List.mem_cons_of_mem _ hop))

/-- With `T_A = u64::MAX` and `T_B = 10_000` the rules fail: an initiator that accepted and funded at
    head 0 has no exit, and from head `10_000` on no sequence of calls ever unlocks its funds. -/
theorem lifecycle_fails_at_max :
    ¬ Lifecycle {} .initiator ⟨u64Max, 10000⟩ ∧
    after {} .initiator ⟨u64Max, 10000⟩ [.accept 0, .fund 0] =
      ⟨.initiator, ⟨u64Max, 10000⟩, .selfFunded⟩ ∧
    ∀ ops : List SwapOp, (∀ op ∈ ops, ∀ h, op.head? = some h → 10000 ≤ h) →
      (Run.exec (next {}) ⟨.initiator, ⟨u64Max, 10000⟩, .selfFunded⟩ ops).phase.hasFundsLocked =
        true := by
  have hs : (assessLadder ⟨u64Max, 10000⟩ 0 {}).isSafe = true := by decide
  refine ⟨fun hlife => ?_, after_accept_fund hs, fun ops hops => ?_⟩
  · have hexit := (hlife [.accept 0, .fund 0]).2
    rw [after_accept_fund hs] at hexit
    exact not_hasExit_of_max rfl rfl rfl hexit
  · refine stuck_run rfl ops _ ⟨rfl, rfl, .inl rfl⟩ fun op hop h hh => ?_
    have hle := UInt64.le_iff_toNat_le.mp (hops op hop h hh)
    rw [← Bool.not_eq_true, assessRevealDeadline_safe_iff]
    have h1 : (10000 : UInt64).toNat = 10000 := rfl
    have h2 : defaultMinClaimWindowBlocks.toNat = 1800 := rfl
    simp only [h1] at hle ⊢
    rw [h2]
    omega

end Swap

end Nimmesh
