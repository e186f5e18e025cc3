import Nimmesh.Lib.Lockstep
import Nimmesh.Live.EvmForward

/-! @src swap_leg.rs swap_usdc_leg.rs | name:The USDC leg against the contract | layer:refinement

    `UsdcLeg` is the repository's in-memory picture of one swap on the escrow contract. Run beside the
    contract, call by call, it succeeds and fails with it and shows the state of the slot. -/

namespace Nimmesh

inductive LegOutcome where | unfunded | funded | claimed | refunded
  deriving DecidableEq, Repr

/-- The public parameters of one leg. -/
structure HtlcParams where
  hashlock : Hash
  amount : UInt64
  timeout : UInt64
  deriving DecidableEq

inductive LegError where
  | notUnfunded
  | notFunded
  | wrongPreimage
  | claimWindowClosed (timeout head : UInt64)
  | timeoutNotReached (timeout head : UInt64)
  deriving DecidableEq

/-- The escrow entry of a leg. -/
structure UsdcSwapState where
  swapId : Hash
  params : HtlcParams
  deriving DecidableEq

structure UsdcLeg where
  sender : EvmAddress
  receiver : EvmAddress
  state : Option UsdcSwapState := none
  outcome : LegOutcome := .unfunded
  revealed : Option Hash := none
  deriving DecidableEq

namespace UsdcLeg

def fund (keccak256 : Bytes → Hash) (leg : UsdcLeg) (params : HtlcParams) :
    Except LegError Unit × UsdcLeg :=
  if leg.outcome ≠ .unfunded then (.error .notUnfunded, leg)
  else
    let swapId := usdcSwapId keccak256 leg.sender leg.receiver params.amount params.hashlock params.timeout
    (.ok (), { leg with state := some ⟨swapId, params⟩, outcome := .funded })

def claim (sha256 : Bytes → Hash) (leg : UsdcLeg) (preimage : Hash) (head : UInt64) :
    Except LegError Unit × UsdcLeg :=
  match leg.outcome, leg.state with
  | .funded, some s =>
    if sha256 preimage.1 ≠ s.params.hashlock then (.error .wrongPreimage, leg)
    else if s.params.timeout < head then (.error (.claimWindowClosed s.params.timeout head), leg)
    else (.ok (), { leg with outcome := .claimed, revealed := some preimage })
  | _, _ => (.error .notFunded, leg)

def refund (leg : UsdcLeg) (head : UInt64) : Except LegError Unit × UsdcLeg :=
  match leg.outcome, leg.state with
  | .funded, some s =>
    if head ≤ s.params.timeout then (.error (.timeoutNotReached s.params.timeout head), leg)
    else (.ok (), { leg with outcome := .refunded })
  | _, _ => (.error .notFunded, leg)

theorem fund_cases (keccak256 : Bytes → Hash) (leg : UsdcLeg) (params : HtlcParams) :
    (leg.outcome = .unfunded ∧ leg.fund keccak256 params = (.ok (),
      { leg with
        state := some ⟨usdcSwapId keccak256 leg.sender leg.receiver params.amount params.hashlock params.timeout,
          params⟩,
        outcome := .funded })) ∨
    (leg.outcome ≠ .unfunded ∧ leg.fund keccak256 params = (.error .notUnfunded, leg)) := by
  unfold fund
  by_cases h : leg.outcome = .unfunded
  · exact .inl ⟨h, if_neg (not_not.mpr h)⟩
  · exact .inr ⟨h, if_pos h⟩

theorem claim_cases (sha256 : Bytes → Hash) (leg : UsdcLeg) (preimage : Hash) (head : UInt64) :
    (∃ s, leg.outcome = .funded ∧ leg.state = some s ∧ sha256 preimage.1 = s.params.hashlock ∧
      head ≤ s.params.timeout ∧ leg.claim sha256 preimage head =
        (.ok (), { leg with outcome := .claimed, revealed := some preimage })) ∨
    ((∀ s, leg.outcome = .funded → leg.state = some s →
        ¬ (sha256 preimage.1 = s.params.hashlock ∧ head ≤ s.params.timeout)) ∧
      ∃ e, leg.claim sha256 preimage head = (.error e, leg)) := by
  unfold claim
  split
  · rename_i s hf hs
    split_ifs with hsha htime
    · refine .inr ⟨fun s' _ hs' h => ?_, _, rfl⟩
      cases hs.symm.trans hs'
      exact hsha h.1
    · refine .inr ⟨fun s' _ hs' h => ?_, _, rfl⟩
      cases hs.symm.trans hs'
      exact absurd htime (UInt64.not_lt.mpr h.2)
    · exact .inl ⟨s, hf, hs, not_not.mp hsha, UInt64.not_lt.mp htime, rfl⟩
  · rename_i hno
    exact .inr ⟨fun s hf hs => (hno s hf hs).elim, _, rfl⟩

theorem refund_cases (leg : UsdcLeg) (head : UInt64) :
    (∃ s, leg.outcome = .funded ∧ leg.state = some s ∧ s.params.timeout < head ∧
      leg.refund head = (.ok (), { leg with outcome := .refunded })) ∨
    ((∀ s, leg.outcome = .funded → leg.state = some s → ¬ s.params.timeout < head) ∧
      ∃ e, leg.refund head = (.error e, leg)) := by
  unfold refund
  split
  · rename_i s hf hs
    split_ifs with htime
    · refine .inr ⟨fun s' _ hs' h => ?_, _, rfl⟩
      cases hs.symm.trans hs'
      exact absurd h (UInt64.not_lt.mpr htime)
    · exact .inl ⟨s, hf, hs, UInt64.not_le.mp htime, rfl⟩
  · rename_i hno
    exact .inr ⟨fun s hf hs => (hno s hf hs).elim, _, rfl⟩

end UsdcLeg

/-! ### The leg beside the contract -/

/-- A call on the leg; `msg` is what the contract sees of the funding transaction. -/
inductive LegOp where
  | fund (params : HtlcParams) (msg : Msg)
  | claim (preimage : Hash)
  | refund

/-- A call and its time. -/
structure LegCall where
  time : UInt64
  op : LegOp

namespace Htlc

variable {T : Type} (h : Htlc T)

/-- The call on the leg. -/
def legStep (leg : UsdcLeg) (c : LegCall) : Bool × UsdcLeg :=
  let r := match c.op with
    | .fund params _ => leg.fund h.keccak256 params
    | .claim preimage => leg.claim h.sha256 preimage c.time
    | .refund => leg.refund c.time
  (r.1.isOk, r.2)

/-- The corresponding call of the contract; an unfunded leg has no slot yet and names `slot`. -/
def contractCall (leg : UsdcLeg) (slot : Hash) : LegOp → Call h.self
  | .fund params msg => .newSwap msg leg.receiver (u256OfU64 params.amount) params.hashlock
      (u256OfU64 params.timeout)
  | .claim preimage => .withdraw ((leg.state.map (·.swapId)).getD slot) preimage
  | .refund => .refund ((leg.state.map (·.swapId)).getD slot)

/-- The transaction on the contract. -/
def contractStep (slot : Hash) (w : HtlcWorld T) (leg : UsdcLeg) (c : LegCall) : Bool × HtlcWorld T :=
  let call := h.contractCall leg slot c.op
  ((h.run { w with now := u256OfU64 c.time } call).isOk, h.step w ⟨u256OfU64 c.time, call⟩)

end Htlc

/-- The state of the slot that an outcome stands for. -/
def LegOutcome.escrowState : LegOutcome → EscrowState
  | .unfunded => .none
  | .funded => .live
  | .claimed => .claimed
  | .refunded => .refunded

/-- The slot of a leg with its parameters. -/
def UsdcLeg.escrow (leg : UsdcLeg) (params : HtlcParams) : Escrow :=
  ⟨leg.sender, leg.receiver, u256OfU64 params.amount, params.hashlock, u256OfU64 params.timeout,
    leg.outcome.escrowState⟩

/-- The outcome of the leg is the state of the slot, and a funded leg names the slot and what is in it. -/
def Corresponds {T : Type} (slot : Hash) (leg : UsdcLeg) (w : HtlcWorld T) : Prop :=
  (w.slot slot).state = leg.outcome.escrowState ∧
  match leg.state with
  | none => leg.outcome = .unfunded
  | some s => leg.outcome ≠ .unfunded ∧ s.swapId = slot ∧ w.slot slot = leg.escrow s.params

namespace Corresponds

variable {T : Type} {slot : Hash} {leg : UsdcLeg} {w : HtlcWorld T}

/-- The slot a leg's calls name is the one it corresponds to. -/
theorem names (hc : Corresponds slot leg w) : (leg.state.map (·.swapId)).getD slot = slot := by
  cases hs : leg.state with
  | none => rfl
  | some s =>
    have h2 := hc.2
    rw [hs] at h2
    exact h2.2.1

/-- The slot is live exactly when the leg is funded; then it holds the parameters of the leg. -/
theorem live_iff (hc : Corresponds slot leg w) : (w.slot slot).state = .live ↔ leg.outcome = .funded := by
  rw [hc.1]
  cases leg.outcome <;> simp [LegOutcome.escrowState]

theorem free_iff (hc : Corresponds slot leg w) :
    (w.slot slot).state = .none ↔ leg.outcome = .unfunded := by
  rw [hc.1]
  cases leg.outcome <;> simp [LegOutcome.escrowState]

theorem params (hc : Corresponds slot leg w) (hf : leg.outcome = .funded) :
    ∃ params, leg.state = some ⟨slot, params⟩ ∧ w.slot slot = leg.escrow params := by
  have h2 := hc.2
  cases hs : leg.state with
  | none =>
    rw [hs, hf] at h2
    cases h2
  | some s =>
    rw [hs] at h2
    obtain ⟨-, hid, hslot⟩ := h2
    exact ⟨s.params, by rw [← hid], hslot⟩

end Corresponds

namespace Htlc

variable {T : Type} (h : Htlc T)

/-! ### One call on both sides -/

variable {slot : Hash} {leg : UsdcLeg} {w : HtlcWorld T} {c : LegCall}

/-- After a call both sides gave the same answer and correspond, and the token has not moved while the leg
    is unfunded. -/
structure Agreed (slot : Hash) (w : HtlcWorld T) (leg' : Bool × UsdcLeg) (w' : Bool × HtlcWorld T) : Prop where
  answer : leg'.1 = w'.1
  corresponds : Corresponds slot leg'.2 w'.2
  unmoved : leg'.2.outcome = .unfunded → w'.2.token = w.token

theorem Agreed.refused (hc : Corresponds slot leg w) (hleg : h.legStep leg c = (false, leg))
    (hrun : ∃ err, h.run { w with now := u256OfU64 c.time } (h.contractCall leg slot c.op) = .error err) :
    Agreed slot w (h.legStep leg c) (h.contractStep slot w leg c) := by
  obtain ⟨err, hrun⟩ := hrun
  rw [hleg, contractStep, hrun, h.step_of_error hrun]
  exact ⟨rfl, hc, fun _ => rfl⟩

theorem Agreed.done (leg' : UsdcLeg) {w' : HtlcWorld T} {params : HtlcParams}
    (hleg : h.legStep leg c = (true, leg'))
    (hrun : h.run { w with now := u256OfU64 c.time } (h.contractCall leg slot c.op) = .ok w')
    (hne : leg'.outcome ≠ .unfunded) (hstate : leg'.state = some ⟨slot, params⟩)
    (hswaps : w'.swaps = w.swaps.insert slot (leg'.escrow params)) :
    Agreed slot w (h.legStep leg c) (h.contractStep slot w leg c) := by
  rw [hleg, contractStep, hrun, h.step_of_ok hrun]
  have hslot : w'.slot slot = leg'.escrow params := by rw [slot_insert hswaps, if_pos rfl]
  refine ⟨rfl, ⟨by rw [hslot]; rfl, ?_⟩, fun hun => absurd hun hne⟩
  rw [hstate]
  exact ⟨hne, rfl, hslot⟩

/-- The time comparisons of the two sides agree. -/
theorem u256OfU64_lt_iff (a b : UInt64) : u256OfU64 a < u256OfU64 b ↔ a < b := by
  rw [BitVec.lt_def, toNat_u256OfU64, toNat_u256OfU64, UInt64.lt_iff_toNat_lt]

theorem u256OfU64_le_iff (a b : UInt64) : u256OfU64 a ≤ u256OfU64 b ↔ a ≤ b := by
  rw [BitVec.le_def, toNat_u256OfU64, toNat_u256OfU64, UInt64.le_iff_toNat_le]

theorem claim_agrees (hhon : h.token.Honours) (hi : h.Inv w) (hc : Corresponds slot leg w) (time : UInt64)
    (preimage : Hash) :
    Agreed slot w (h.legStep leg ⟨time, .claim preimage⟩)
      (h.contractStep slot w leg ⟨time, .claim preimage⟩) := by
  have hcall : h.contractCall leg slot (.claim preimage) = .withdraw slot preimage := by
    rw [contractCall, hc.names]
  have hcontract := h.withdraw_cases hhon { w with now := u256OfU64 time } slot
    (rfl : _ = w.slot slot) preimage (hi.covers h)
  rcases leg.claim_cases h.sha256 preimage time with ⟨s, hf, hs, hsha, htime, hleg⟩ | ⟨hno, e, hleg⟩
  · obtain ⟨params, hstate, hslot⟩ := hc.params hf
    rw [hs] at hstate
    cases hstate
    have hopen : (w.slot slot).state = .live ∧ h.sha256 preimage.1 = (w.slot slot).hashlock ∧
        u256OfU64 time ≤ (w.slot slot).timelock := by
      refine ⟨hc.live_iff.mpr hf, ?_, ?_⟩ <;> rw [hslot]
      · exact hsha
      · exact (u256OfU64_le_iff _ _).mpr htime
    rcases hcontract with ⟨-, -, -, w', hok, hswaps⟩ | ⟨hno, -⟩
    · refine Agreed.done h { leg with outcome := .claimed, revealed := some preimage }
        (by simp only [legStep, hleg]; rfl) (by rw [hcall]; exact hok) LegOutcome.noConfusion hs ?_
      rw [hswaps, hslot]
      rfl
    · exact absurd hopen hno
  · rcases hcontract with ⟨hlive, hopen, hin, -⟩ | ⟨-, herr⟩
    · have hf := hc.live_iff.mp hlive
      obtain ⟨params, hstate, hslot⟩ := hc.params hf
      rw [hslot] at hopen hin
      exact absurd ⟨hopen, (u256OfU64_le_iff _ _).mp hin⟩ (hno _ hf hstate)
    · exact Agreed.refused h hc (by simp only [legStep, hleg]; rfl) (by rw [hcall]; exact herr)

theorem refund_agrees (hhon : h.token.Honours) (hi : h.Inv w) (hc : Corresponds slot leg w) (time : UInt64) :
    Agreed slot w (h.legStep leg ⟨time, .refund⟩) (h.contractStep slot w leg ⟨time, .refund⟩) := by
  have hcall : h.contractCall leg slot .refund = .refund slot := by rw [contractCall, hc.names]
  have hcontract := h.refund_cases hhon { w with now := u256OfU64 time } slot
    (rfl : _ = w.slot slot) (hi.covers h)
  rcases leg.refund_cases time with ⟨s, hf, hs, htime, hleg⟩ | ⟨hno, e, hleg⟩
  · obtain ⟨params, hstate, hslot⟩ := hc.params hf
    rw [hs] at hstate
    cases hstate
    have hdue : (w.slot slot).state = .live ∧ (w.slot slot).timelock < u256OfU64 time := by
      refine ⟨hc.live_iff.mpr hf, ?_⟩
      rw [hslot]
      exact (u256OfU64_lt_iff _ _).mpr htime
    rcases hcontract with ⟨-, -, w', hok, hswaps⟩ | ⟨hno, -⟩
    · refine Agreed.done h { leg with outcome := .refunded }
        (by simp only [legStep, hleg]; rfl) (by rw [hcall]; exact hok) LegOutcome.noConfusion hs ?_
      rw [hswaps, hslot]
      rfl
    · exact absurd hdue hno
  · rcases hcontract with ⟨hlive, hdue, -⟩ | ⟨-, herr⟩
    · have hf := hc.live_iff.mp hlive
      obtain ⟨params, hstate, hslot⟩ := hc.params hf
      rw [hslot] at hdue
      exact absurd ((u256OfU64_lt_iff _ _).mp hdue) (hno _ hf hstate)
    · exact Agreed.refused h hc (by simp only [legStep, hleg]; rfl) (by rw [hcall]; exact herr)

theorem fund_agrees (hhon : h.token.Honours) {params : HtlcParams} {msg : Msg} {time : UInt64}
    (hc : Corresponds (usdcSwapId h.keccak256 leg.sender leg.receiver params.amount params.hashlock
      params.timeout) leg w)
    (hamount : params.amount ≠ 0) (hrecv : leg.receiver ≠ zeroAddress) (hmsg : h.msgSender msg = leg.sender)
    (hready : leg.outcome = .unfunded → time < params.timeout ∧
      params.amount.toNat ≤ h.token.balanceOf w.token leg.sender ∧
      params.amount.toNat ≤ h.token.allowance w.token leg.sender h.self) :
    Agreed (usdcSwapId h.keccak256 leg.sender leg.receiver params.amount params.hashlock params.timeout) w
      (h.legStep leg ⟨time, .fund params msg⟩)
      (h.contractStep (usdcSwapId h.keccak256 leg.sender leg.receiver params.amount params.hashlock
        params.timeout) w leg ⟨time, .fund params msg⟩) := by
  have hid : usdcSwapId h.keccak256 leg.sender leg.receiver params.amount params.hashlock params.timeout =
      swapIdFor h.keccak256 leg.sender leg.receiver (u256OfU64 params.amount) params.hashlock
        (u256OfU64 params.timeout) := usdcSwapId_eq ..
  have hrun : ∀ v : HtlcWorld T, h.run v (h.contractCall leg
      (usdcSwapId h.keccak256 leg.sender leg.receiver params.amount params.hashlock params.timeout)
      (.fund params msg)) = h.newSwapFrom v leg.sender leg.receiver (u256OfU64 params.amount) params.hashlock
        (u256OfU64 params.timeout) := by
    intro v
    rw [contractCall, run, newSwap, hmsg]
  rcases leg.fund_cases h.keccak256 params with ⟨hun, hleg⟩ | ⟨hun, hleg⟩
  · obtain ⟨htime, hbal, hal⟩ := hready hun
    obtain ⟨w', hok⟩ := h.newSwapFrom_succeeds hhon { w with now := u256OfU64 time } leg.sender leg.receiver
      (u256OfU64 params.amount) params.hashlock (u256OfU64 params.timeout) hrecv
      (by
        intro h0
        have hnat := congrArg BitVec.toNat h0
        rw [toNat_u256OfU64] at hnat
        exact hamount (UInt64.toNat_inj.mp hnat))
      ((u256OfU64_lt_iff _ _).mpr htime)
      (by
        have hfree := hc.free_iff.mpr hun
        rw [hid] at hfree
        exact hfree)
      (by rw [toNat_u256OfU64]; exact hbal) (by rw [toNat_u256OfU64]; exact hal)
    refine Agreed.done h _ (by simp only [legStep, hleg]; rfl) (by rw [hrun]; exact hok) LegOutcome.noConfusion
      rfl ?_
    rw [(h.newSwapFrom_writes hok).2, hid]
    rfl
  · refine Agreed.refused h hc (by simp only [legStep, hleg]; rfl) ?_
    rw [hrun]
    -- the slot is taken, so no funding call can write it
    cases hok : h.newSwapFrom { w with now := u256OfU64 time } leg.sender leg.receiver
        (u256OfU64 params.amount) params.hashlock (u256OfU64 params.timeout) with
    | error err => exact ⟨err, rfl⟩
    | ok w' =>
      have hfree := (h.newSwapFrom_writes hok).1
      rw [← hid] at hfree
      exact absurd (hc.free_iff.mp hfree) hun

/-! ### Every run of one swap -/

/-- The calls of one swap: whenever it is funded it is on the same terms, by its sender, and with a
    timelock that is still ahead if the leg is not funded yet. -/
def OneSwap (sender : EvmAddress) (params : HtlcParams) (leg : UsdcLeg) (c : LegCall) : Prop :=
  ∀ p msg, c.op = .fund p msg →
    p = params ∧ h.msgSender msg = sender ∧ (leg.outcome = .unfunded → c.time < params.timeout)

/-- The leg of a swap beside a solvent escrow, with the tokens ready while it is unfunded. -/
structure Beside (sender receiver : EvmAddress) (params : HtlcParams) (leg : UsdcLeg) (w : HtlcWorld T) :
    Prop where
  inv : h.Inv w
  funder : leg.sender = sender
  payee : leg.receiver = receiver
  corresponds : Corresponds
    (usdcSwapId h.keccak256 sender receiver params.amount params.hashlock params.timeout) leg w
  ready : leg.outcome = .unfunded → params.amount.toNat ≤ h.token.balanceOf w.token sender ∧
    params.amount.toNat ≤ h.token.allowance w.token sender h.self

theorem legStep_parties (leg : UsdcLeg) (c : LegCall) :
    (h.legStep leg c).2.sender = leg.sender ∧ (h.legStep leg c).2.receiver = leg.receiver ∧
      ((h.legStep leg c).2.outcome = .unfunded → leg.outcome = .unfunded) := by
  unfold legStep
  cases c.op with
  | fund params msg =>
    rcases leg.fund_cases h.keccak256 params with ⟨hun, he⟩ | ⟨-, he⟩ <;> simp [he]
  | claim preimage =>
    rcases leg.claim_cases h.sha256 preimage c.time with ⟨s, -, -, -, -, he⟩ | ⟨-, e, he⟩ <;> simp [he]
  | refund =>
    rcases leg.refund_cases c.time with ⟨s, -, -, -, he⟩ | ⟨-, e, he⟩ <;> simp [he]

/-- STEP: a call of the swap gets the same answer on both sides and leaves them beside each other. -/
theorem Beside.step (hstd : h.token.Standard) (hkey : h.token.Keyless h.self) (hhon : h.token.Honours)
    {sender receiver : EvmAddress} {params : HtlcParams} (hamount : params.amount ≠ 0)
    (hrecv : receiver ≠ zeroAddress) (leg : UsdcLeg) (w : HtlcWorld T) (c : LegCall)
    (hb : h.Beside sender receiver params leg w) (hc : h.OneSwap sender params leg c) :
    (h.legStep leg c).1 = (h.contractStep (usdcSwapId h.keccak256 sender receiver params.amount
        params.hashlock params.timeout) w leg c).1 ∧
      h.Beside sender receiver params (h.legStep leg c).2 (h.contractStep (usdcSwapId h.keccak256 sender
        receiver params.amount params.hashlock params.timeout) w leg c).2 := by
  obtain ⟨hinv, rfl, rfl, hcor, hready⟩ := hb
  have hag : Agreed (usdcSwapId h.keccak256 leg.sender leg.receiver params.amount params.hashlock
      params.timeout) w (h.legStep leg c) (h.contractStep (usdcSwapId h.keccak256 leg.sender leg.receiver
        params.amount params.hashlock params.timeout) w leg c) := by
    obtain ⟨time, op⟩ := c
    cases op with
    | fund p msg =>
      obtain ⟨rfl, hmsg, hfuture⟩ := hc p msg rfl
      exact h.fund_agrees hhon hcor hamount hrecv hmsg fun hun => ⟨hfuture hun, hready hun⟩
    | claim preimage => exact h.claim_agrees hhon hinv hcor time preimage
    | refund => exact h.refund_agrees hhon hinv hcor time
  obtain ⟨hsender, hreceiver, hun⟩ := h.legStep_parties leg c
  refine ⟨hag.answer, Inv.step h hstd hkey hinv _, hsender, hreceiver, hag.corresponds, fun hu => ?_⟩
  rw [hag.unmoved hu]
  exact hready (hun hu)

/-- CORRECT: over any history of the escrow, the calls of one swap succeed on the leg exactly when they
    succeed on the contract, with leg and slot in correspondence throughout; the slot id is the contract's;
    and a forward request has the contract's digest and calldata that the contract reads back as it. -/
theorem usdcLeg_in_step (hstd : h.token.Standard) (hkey : h.token.Keyless h.self) (hhon : h.token.Honours)
    (t : T) (hun : h.token.Unapproved t h.self) (before : List (Tx h.self)) (sender receiver : EvmAddress)
    (params : HtlcParams) (hamount : params.amount ≠ 0) (hrecv : receiver ≠ zeroAddress)
    (hfree : ((h.exec (.deployed t) before).slot (usdcSwapId h.keccak256 sender receiver params.amount
      params.hashlock params.timeout)).state = .none)
    (hbal : params.amount.toNat ≤ h.token.balanceOf (h.exec (.deployed t) before).token sender)
    (hal : params.amount.toNat ≤ h.token.allowance (h.exec (.deployed t) before).token sender h.self)
    (calls : List LegCall)
    (hcalls : Run.Along (fun leg c => (h.legStep leg c).2) (h.OneSwap sender params)
      { sender, receiver } calls) :
    Run.InStep h.legStep (h.contractStep (usdcSwapId h.keccak256 sender receiver params.amount
        params.hashlock params.timeout))
      (Corresponds (usdcSwapId h.keccak256 sender receiver params.amount params.hashlock params.timeout))
      { sender, receiver } (h.exec (.deployed t) before) calls ∧
    (∀ a b amount hashlock timelock, usdcSwapId h.keccak256 a b amount hashlock timelock =
      swapIdFor h.keccak256 a b (u256OfU64 amount) hashlock (u256OfU64 timelock)) ∧
    ∀ (f : Forwarder) (c : ForwardCall) (v : UInt8) (r s : Hash),
      forwardRequestDigest f.keccak256 f.domainSeparator c = f.requestDigest c.request ∧
      f.decodeExecute (forwarderExecute f.keccak256 c v r s) = some (c.request, ⟨v, r, s⟩) := by
  refine ⟨?_, fun a b amount hashlock timelock => usdcSwapId_eq .., fun f c v r s =>
    ⟨forwardRequestDigest_eq f c, decodeExecute_forwarderExecute f c v r s⟩⟩
  refine Run.inStep_of_step (I := h.Beside sender receiver params) (fun leg w hb => hb.corresponds)
    (fun leg w c hb hc => Beside.step h hstd hkey hhon hamount hrecv leg w c hb hc) calls _ _ ?_ hcalls
  exact { inv := h.exec_inv hstd hkey hun before
          funder := rfl
          payee := rfl
          corresponds := ⟨hfree, rfl⟩
          ready := fun _ => ⟨hbal, hal⟩ }

end Htlc

/-! ### A sample swap on the leg -/

namespace Sample

def legParams : HtlcParams := ⟨hashlock, 100000, 1005000⟩

/-- Other terms of the same parties. -/
def legParams2 : HtlcParams := ⟨hashlock, 100000, 1005200⟩

def leg : UsdcLeg := { sender := funderAddress, receiver := claimAddress }

/-- Funded, refused a refund at the timelock, claimed in that second, refused a refund. -/
def legCalls : List LegCall :=
  [⟨1000000, .fund legParams ⟨funderAddress, []⟩⟩, ⟨1005000, .refund⟩, ⟨1005000, .claim secret⟩,
   ⟨1005001, .refund⟩]

theorem relay_unapproved : relay.htlc.token.Unapproved relayUsdc relay.htlc.self := by
  intro s
  have hread : relay.htlc.token.allowance relayUsdc relay.htlc.self s =
      if relay.htlc.self = funderAddress ∧ s = escrowAddress then 1000000 else 0 := rfl
  rw [hread, if_neg fun hos => absurd hos.1 (by decide)]

end Sample

namespace Htlc

/-- The sample swap, call by call: funded, refused, claimed, refused on both sides. -/
theorem sample_leg_in_step :
    Run.InStep Sample.relay.htlc.legStep (Sample.relay.htlc.contractStep Sample.escrowSlot)
      (Corresponds Sample.escrowSlot) Sample.leg (HtlcWorld.deployed Sample.relayUsdc) Sample.legCalls ∧
    (Run.exec (fun leg c => (Sample.relay.htlc.legStep leg c).2) Sample.leg Sample.legCalls).outcome =
      .claimed := by
  have hkey : Sample.relay.htlc.token.Keyless Sample.relay.htlc.self := by
    intro t now spender value sig
    simp [Sample.relay, MockUsdc.erc20, MockUsdc.permit]
  have hslot : usdcSwapId Sample.relay.htlc.keccak256 Sample.funderAddress Sample.claimAddress
      Sample.legParams.amount Sample.legParams.hashlock Sample.legParams.timeout = Sample.escrowSlot := by
    decide +kernel
  have hcalls : Run.Along (fun leg c => (Sample.relay.htlc.legStep leg c).2)
      (Sample.relay.htlc.OneSwap Sample.funderAddress Sample.legParams) Sample.leg Sample.legCalls := by
    refine ⟨?_, ?_, ?_, ?_, trivial⟩ <;> intro p msg hop
    · cases hop
      exact ⟨rfl, by decide, fun _ => by decide⟩
    all_goals cases hop
  have hrun := Sample.relay.htlc.usdcLeg_in_step MockUsdc.standard hkey MockUsdc.honours Sample.relayUsdc
    Sample.relay_unapproved [] Sample.funderAddress Sample.claimAddress Sample.legParams (by decide)
    (by decide) (by rfl) (by decide) (by decide) Sample.legCalls hcalls
  rw [hslot] at hrun
  exact ⟨hrun.1, by decide +kernel⟩

/-- A second `fund` on other terms: the leg refuses it, the contract opens a second slot. -/
theorem second_fund_diverges :
    ¬ Run.InStep Sample.relay.htlc.legStep (Sample.relay.htlc.contractStep Sample.escrowSlot)
      (Corresponds Sample.escrowSlot) Sample.leg (HtlcWorld.deployed Sample.relayUsdc)
      [⟨1000000, .fund Sample.legParams ⟨Sample.funderAddress, []⟩⟩,
       ⟨1000000, .fund Sample.legParams2 ⟨Sample.funderAddress, []⟩⟩] := by
  rintro ⟨-, -, -, hsame, -⟩
  revert hsame
  decide +kernel

end Htlc

end Nimmesh
