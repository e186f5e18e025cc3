import Nimmesh.Contract.Htlc
import Nimmesh.Swap.Signer

/-! @src contracts/src/NimmeshHtlc.sol | name:Escrow solvency and single payout | layer:properties

    Whatever transactions reach the chain, the escrow holds at least what its live slots have locked,
    and each slot is created once, keeps its parameters, and is paid out once by one of its two exits.
    The token is any standard ERC-20. -/

namespace Nimmesh

namespace Htlc

variable {T : Type} (h : Htlc T)

/-- The payouts `ps` of slot `e` are those its state tells of. -/
def PaidAs (swapId : Hash) (e : Escrow) (ps : List Payout) : Prop :=
  match e.state with
  | .none => ps = []
  | .live => ps = []
  | .claimed => ∃ secret time, ps = [⟨swapId, e.receiver, e.amount, some secret, time⟩] ∧
      h.sha256 secret.1 = e.hashlock ∧ time ≤ e.timelock
  | .refunded => ∃ time, ps = [⟨swapId, e.sender, e.amount, none, time⟩] ∧ e.timelock < time

/-- What one transaction does to one slot. -/
inductive SlotStep (swapId : Hash) (w w' : HtlcWorld T) : Prop where
  | same (slot : w'.slot swapId = w.slot swapId) (paid : w'.paid swapId = w.paid swapId)
  | created (before : (w.slot swapId).state = .none) (after : (w'.slot swapId).state = .live)
      (paid : w'.paid swapId = w.paid swapId)
  | claimed (secret : Hash) (before : (w.slot swapId).state = .live)
      (after : w'.slot swapId = { w.slot swapId with state := .claimed })
      (unlocked : h.sha256 secret.1 = (w.slot swapId).hashlock)
      (open_ : w'.now ≤ (w.slot swapId).timelock)
      (paid : w'.paid swapId =
        ⟨swapId, (w.slot swapId).receiver, (w.slot swapId).amount, some secret, w'.now⟩ :: w.paid swapId)
      (moved : h.token.Moved w.token w'.token h.self (w.slot swapId).receiver (w.slot swapId).amount.toNat)
  | refunded (before : (w.slot swapId).state = .live)
      (after : w'.slot swapId = { w.slot swapId with state := .refunded })
      (expired : (w.slot swapId).timelock < w'.now)
      (paid : w'.paid swapId =
        ⟨swapId, (w.slot swapId).sender, (w.slot swapId).amount, none, w'.now⟩ :: w.paid swapId)
      (moved : h.token.Moved w.token w'.token h.self (w.slot swapId).sender (w.slot swapId).amount.toNat)

/-! ### One transaction -/

theorem slot_insert {w w' : HtlcWorld T} {id swapId : Hash} {e : Escrow}
    (hs : w'.swaps = w.swaps.insert id e) :
    w'.slot swapId = if swapId = id then e else w.slot swapId := by
  simp only [HtlcWorld.slot, hs, Table.lookup_insert_iff]
  split_ifs <;> rfl

/-- A slot in use is one that was written. -/
theorem lookup_of_used {w : HtlcWorld T} {id : Hash} (hused : (w.slot id).state ≠ .none) :
    w.swaps.lookup id = some (w.slot id) := by
  rw [HtlcWorld.slot] at hused ⊢
  cases hl : w.swaps.lookup id with
  | none =>
    rw [hl] at hused
    exact absurd rfl hused
  | some e => rw [Option.getD_some]

theorem paid_cons {w w' : HtlcWorld T} {p : Payout} {swapId : Hash} (hp : w'.payouts = p :: w.payouts) :
    w'.paid swapId = if p.swapId = swapId then p :: w.paid swapId else w.paid swapId := by
  simp only [HtlcWorld.paid, hp, List.filter_cons, decide_eq_true_eq]

theorem paid_eq {w w' : HtlcWorld T} {swapId : Hash} (hp : w'.payouts = w.payouts) :
    w'.paid swapId = w.paid swapId := by
  simp only [HtlcWorld.paid, hp]

/-- A payout for another slot leaves a slot and its payouts alone. -/
theorem Resolved.same {w w' : HtlcWorld T} {id swapId : Hash} {e : Escrow} {state : EscrowState} {p : Payout}
    (hr : h.Resolved w w' id e state p) (hne : swapId ≠ id) : h.SlotStep swapId w w' := by
  refine .same ?_ ?_
  · rw [slot_insert hr.swaps, if_neg hne]
  · rw [paid_cons hr.payouts, if_neg (by rw [hr.paid.1]; exact hne.symm)]

theorem step_slot (hstd : h.token.Standard) (w : HtlcWorld T) (tx : Tx h.self) (swapId : Hash) :
    h.SlotStep swapId w (h.step w tx) := by
  obtain ⟨hnow, ⟨id, e, hc⟩ | ⟨id, e, secret, hr, hsec, htime⟩ | ⟨id, e, hr, htime⟩ | ⟨call, heq⟩ | heq⟩ :=
    h.step_cases w tx
  · by_cases hid : swapId = id
    · subst hid
      refine .created hc.fresh ?_ (paid_eq hc.payouts)
      rw [slot_insert hc.swaps, if_pos rfl]
      exact hc.live
    · refine .same ?_ (paid_eq hc.payouts)
      rw [slot_insert hc.swaps, if_neg hid]
  · by_cases hid : swapId = id
    · subst hid
      have hslot := hr.slot
      subst hslot
      refine .claimed secret hr.live ?_ hsec (by rw [hnow]; exact htime) ?_ (hstd.transfer hr.moved).1
      · rw [slot_insert hr.swaps, if_pos rfl]
      · rw [paid_cons hr.payouts, if_pos rfl, hnow]
    · exact hr.same h hid
  · by_cases hid : swapId = id
    · subst hid
      have hslot := hr.slot
      subst hslot
      refine .refunded hr.live ?_ (by rw [hnow]; exact htime) ?_ (hstd.transfer hr.moved).1
      · rw [slot_insert hr.swaps, if_pos rfl]
      · rw [paid_cons hr.payouts, if_pos rfl, hnow]
    · exact hr.same h hid
  · rw [heq]
    exact .same rfl rfl
  · rw [heq]
    exact .same rfl rfl

/-- The escrow's own invariant: written slots are in use, it has approved nobody, it can pay its live
    slots, and the payouts match the states. -/
structure Inv (w : HtlcWorld T) : Prop where
  written : ∀ swapId e, w.swaps.lookup swapId = some e → e.state ≠ .none
  unapproved : h.token.Unapproved w.token h.self
  solvent : w.swaps.total Escrow.locked ≤ h.token.balanceOf w.token h.self
  paid : ∀ swapId, h.PaidAs swapId (w.slot swapId) (w.paid swapId)

theorem SlotStep.paidAs {w w' : HtlcWorld T} {swapId : Hash} (hs : h.SlotStep swapId w w')
    (hp : h.PaidAs swapId (w.slot swapId) (w.paid swapId)) :
    h.PaidAs swapId (w'.slot swapId) (w'.paid swapId) := by
  cases hs with
  | same slot paid =>
    rw [slot, paid]
    exact hp
  | created before after paid =>
    simp only [PaidAs, before] at hp
    simp only [PaidAs, after, paid, hp]
  | claimed secret before after unlocked open_ paid moved =>
    simp only [PaidAs, before] at hp
    simp only [PaidAs, after, paid, hp]
    exact ⟨secret, w'.now, rfl, unlocked, open_⟩
  | refunded before after expired paid moved =>
    simp only [PaidAs, before] at hp
    simp only [PaidAs, after, paid, hp]
    exact ⟨w'.now, rfl, expired⟩

/-- The tokens of a new slot come from an account that is not the escrow: it has approved nobody. -/
theorem Created.pulled_in (hstd : h.token.Standard) (hkey : h.token.Keyless h.self) {w w' : HtlcWorld T}
    {swapId : Hash} {e : Escrow} (hun : h.token.Unapproved w.token h.self) (hc : h.Created w w' swapId e) :
    h.token.balanceOf w'.token h.self = h.token.balanceOf w.token h.self + e.amount.toNat ∧
      h.token.Unapproved w'.token h.self := by
  obtain ⟨t, hpull, ht⟩ := hc.pulled
  have hpos := hc.positive
  -- a permit before the pull is one of the funder's, who has a key
  have hbefore : h.token.balanceOf t h.self = h.token.balanceOf w.token h.self ∧
      h.token.Unapproved t h.self := by
    rcases ht with rfl | ⟨now, sig, hpermit⟩
    · exact ⟨rfl, hun⟩
    · obtain ⟨hb, hal⟩ := hstd.permit hpermit
      have hne : h.self ≠ e.sender := by
        intro heq
        rw [← heq, hkey] at hpermit
        cases hpermit
      exact ⟨hb _, fun s => (hal _ s hne).trans (hun s)⟩
  obtain ⟨hle, hm, hal⟩ := hstd.transferFrom hpull
  have hne : h.self ≠ e.sender := by
    intro heq
    rw [← heq, hbefore.2] at hle
    omega
  refine ⟨?_, fun s => ?_⟩
  · have hbal := hm.2 h.self
    rw [if_neg hne, if_pos rfl, hbefore.1] at hbal
    omega
  · have hs := hal h.self s
    rw [hbefore.2 s] at hs
    exact Nat.le_zero.mp hs

/-- A payout takes at most the amount of its slot from the escrow, and that slot no longer locks it. -/
theorem Resolved.solvent (hstd : h.token.Standard) {w w' : HtlcWorld T} {swapId : Hash} {e : Escrow}
    {state : EscrowState} {p : Payout} (hi : h.Inv w) (hst : state ≠ .live)
    (hr : h.Resolved w w' swapId e state p) :
    w'.swaps.total Escrow.locked ≤ h.token.balanceOf w'.token h.self ∧
      h.token.Unapproved w'.token h.self := by
  obtain ⟨hm, hal⟩ := hstd.transfer hr.moved
  refine ⟨?_, fun s => (hal _ s).trans (hi.unapproved s)⟩
  have hlook : w.swaps.lookup swapId = some e := by
    rw [← hr.slot]
    exact lookup_of_used (by rw [hr.slot, hr.live]; exact EscrowState.noConfusion)
  have htotal := Table.total_insert_of_lookup Escrow.locked hlook { e with state }
  have hbal := hm.2 h.self
  have hsol := hi.solvent
  simp only [Escrow.locked, hr.live, if_true, if_neg hst] at htotal
  rw [hr.swaps]
  rw [if_pos rfl] at hbal
  omega

theorem Inv.step (hstd : h.token.Standard) (hkey : h.token.Keyless h.self) {w : HtlcWorld T} (hi : h.Inv w)
    (tx : Tx h.self) : h.Inv (h.step w tx) := by
  have hpaid : ∀ swapId, h.PaidAs swapId ((h.step w tx).slot swapId) ((h.step w tx).paid swapId) :=
    fun swapId => (h.step_slot hstd w tx swapId).paidAs h (hi.paid swapId)
  -- writing a slot in use keeps all written slots in use
  have hwritten : ∀ {id : Hash} {e : Escrow}, (h.step w tx).swaps = w.swaps.insert id e → e.state ≠ .none →
      ∀ swapId e', (h.step w tx).swaps.lookup swapId = some e' → e'.state ≠ .none := by
    intro id e hs hne swapId e' hl
    rw [hs, Table.lookup_insert_iff] at hl
    split_ifs at hl with hid
    · cases hl
      exact hne
    · exact hi.written swapId e' hl
  obtain ⟨-, ⟨id, e, hc⟩ | ⟨id, e, secret, hr, -, -⟩ | ⟨id, e, hr, -⟩ | ⟨call, heq⟩ | heq⟩ := h.step_cases w tx
  · obtain ⟨hbal, hun⟩ := hc.pulled_in h hstd hkey hi.unapproved
    refine ⟨hwritten hc.swaps (by rw [hc.live]; exact EscrowState.noConfusion), hun, ?_, hpaid⟩
    have hnot : id ∉ w.swaps := by
      intro hmem
      obtain ⟨e', hl⟩ := (Table.mem_iff_lookup _ _).mp hmem
      have hfresh := hc.fresh
      simp only [HtlcWorld.slot, hl, Option.getD_some] at hfresh
      exact hi.written id e' hl hfresh
    have hsol := hi.solvent
    rw [hc.swaps, Table.total_insert_of_notMem _ hnot, hbal]
    simp only [Escrow.locked, hc.live, if_true]
    omega
  · obtain ⟨hsol, hun⟩ := hr.solvent h hstd hi EscrowState.noConfusion
    exact ⟨hwritten hr.swaps EscrowState.noConfusion, hun, hsol, hpaid⟩
  · obtain ⟨hsol, hun⟩ := hr.solvent h hstd hi EscrowState.noConfusion
    exact ⟨hwritten hr.swaps EscrowState.noConfusion, hun, hsol, hpaid⟩
  · obtain ⟨hbal, hun⟩ := Erc20.outside_keeps hstd hkey hi.unapproved tx.time call
    rw [heq] at hpaid ⊢
    exact ⟨hi.written, hun, hi.solvent.trans hbal, hpaid⟩
  · rw [heq] at hpaid ⊢
    exact ⟨hi.written, hi.unapproved, hi.solvent, hpaid⟩

/-! ### Every run -/

theorem Inv.deployed {t : T} (hun : h.token.Unapproved t h.self) : h.Inv (.deployed t) where
  written _ _ hl := by cases hl
  unapproved := hun
  solvent := Nat.zero_le _
  paid _ := rfl

theorem exec_inv (hstd : h.token.Standard) (hkey : h.token.Keyless h.self) {t : T}
    (hun : h.token.Unapproved t h.self) (txs : List (Tx h.self)) : h.Inv (h.exec (.deployed t) txs) :=
  Run.exec_preserves (I := h.Inv) h.step (fun _ tx hi => Inv.step h hstd hkey hi tx) txs _
    (Inv.deployed h hun)

/-- A slot in use stays in use, with the parameters it was created with. -/
theorem exec_slot (hstd : h.token.Standard) (swapId : Hash) (txs : List (Tx h.self)) (w : HtlcWorld T)
    (hused : (w.slot swapId).state ≠ .none) :
    ∃ state, state ≠ .none ∧ (h.exec w txs).slot swapId = { w.slot swapId with state } := by
  induction txs generalizing w with
  | nil => exact ⟨(w.slot swapId).state, hused, rfl⟩
  | cons tx txs ih =>
    have hone : ∃ state, state ≠ .none ∧ (h.step w tx).slot swapId = { w.slot swapId with state } := by
      cases h.step_slot hstd w tx swapId with
      | same slot _ => exact ⟨(w.slot swapId).state, hused, slot⟩
      | created before _ _ => exact absurd before hused
      | claimed _ _ after _ _ _ _ => exact ⟨.claimed, EscrowState.noConfusion, after⟩
      | refunded _ after _ _ _ => exact ⟨.refunded, EscrowState.noConfusion, after⟩
    obtain ⟨state, hne, hslot⟩ := hone
    obtain ⟨state', hne', hlast⟩ := ih (h.step w tx) (by rw [hslot]; exact hne)
    refine ⟨state', hne', ?_⟩
    rw [hslot] at hlast
    exact hlast

/-- A transaction without a payout takes nothing from the escrow. -/
theorem step_balance (hstd : h.token.Standard) (hkey : h.token.Keyless h.self) {w : HtlcWorld T}
    (hi : h.Inv w) (tx : Tx h.self) (hp : (h.step w tx).payouts = w.payouts) :
    h.token.balanceOf w.token h.self ≤ h.token.balanceOf (h.step w tx).token h.self := by
  obtain ⟨-, ⟨id, e, hc⟩ | ⟨id, e, secret, hr, -, -⟩ | ⟨id, e, hr, -⟩ | ⟨call, heq⟩ | heq⟩ := h.step_cases w tx
  · rw [(hc.pulled_in h hstd hkey hi.unapproved).1]
    exact Nat.le_add_right _ _
  · rw [hr.payouts] at hp
    exact absurd hp (List.cons_ne_self _ _)
  · rw [hr.payouts] at hp
    exact absurd hp (List.cons_ne_self _ _)
  · rw [heq]
    exact (Erc20.outside_keeps hstd hkey hi.unapproved tx.time call).1
  · rw [heq]

/-- CORRECT: after any transactions the escrow can pay all its live slots; a slot in use keeps its
    parameters for ever; each step of a slot is one of `None → Live`, `Live → Claimed`, `Live → Refunded`;
    the payouts of a slot are the one its final state tells of; and without a payout nothing leaves. -/
theorem solvent_and_paid_once (hstd : h.token.Standard) (hkey : h.token.Keyless h.self) (t : T)
    (hun : h.token.Unapproved t h.self) (txs : List (Tx h.self)) :
    let w := h.exec (.deployed t) txs
    w.swaps.total Escrow.locked ≤ h.token.balanceOf w.token h.self ∧
    (∀ swapId, h.PaidAs swapId (w.slot swapId) (w.paid swapId)) ∧
    (∀ swapId, (w.slot swapId).state ≠ .none → ∀ txs', ∃ state, state ≠ .none ∧
      (h.exec w txs').slot swapId = { w.slot swapId with state }) ∧
    (∀ tx swapId, h.SlotStep swapId w (h.step w tx)) ∧
    (∀ tx, (h.step w tx).payouts = w.payouts →
      h.token.balanceOf w.token h.self ≤ h.token.balanceOf (h.step w tx).token h.self) := by
  intro w
  have hi : h.Inv w := h.exec_inv hstd hkey hun txs
  exact ⟨hi.solvent, hi.paid, fun swapId hused txs' => h.exec_slot hstd swapId txs' w hused,
    fun tx swapId => h.step_slot hstd w tx swapId, fun tx hp => h.step_balance hstd hkey hi tx hp⟩

/-! ### What succeeds -/

theorem step_of_ok {w w' : HtlcWorld T} {time : U256} {call : Call h.self}
    (hok : h.run { w with now := time } call = .ok w') : h.step w ⟨time, call⟩ = w' := by
  simp only [step, hok]

theorem step_of_error {w : HtlcWorld T} {time : U256} {call : Call h.self} {err : HtlcError}
    (he : h.run { w with now := time } call = .error err) :
    h.step w ⟨time, call⟩ = { w with now := time } := by
  simp only [step, he]

/-- A funding call succeeds for a slot that is not in use, when the token honours the pull. -/
theorem newSwapFrom_succeeds (hhon : h.token.Honours) (w : HtlcWorld T) (funder receiver : EvmAddress)
    (amount : U256) (hashlock : Hash) (timelock : U256) (hrecv : receiver ≠ zeroAddress) (hamount : amount ≠ 0)
    (hfuture : w.now < timelock)
    (hfree : (w.slot (swapIdFor h.keccak256 funder receiver amount hashlock timelock)).state = .none)
    (hbal : amount.toNat ≤ h.token.balanceOf w.token funder)
    (hal : amount.toNat ≤ h.token.allowance w.token funder h.self) :
    ∃ w', h.newSwapFrom w funder receiver amount hashlock timelock = .ok w' := by
  obtain ⟨t, ht⟩ : ∃ t, h.token.transferFrom w.token h.self funder h.self amount.toNat = some (true, t) :=
    hhon.transferFrom hbal hal
  rw [newSwapFrom, if_neg hrecv, if_neg hamount, if_neg (BitVec.not_le.mpr hfuture)]
  simp only [hfree, ne_eq, not_true_eq_false, if_false, ht]
  exact ⟨_, rfl⟩

/-- The escrow holds what a live slot has locked. -/
theorem Inv.covers {w : HtlcWorld T} (hi : h.Inv w) {id : Hash} (hlive : (w.slot id).state = .live) :
    (w.slot id).amount.toNat ≤ h.token.balanceOf w.token h.self := by
  have hused : (w.slot id).state ≠ .none := by
    rw [hlive]
    exact EscrowState.noConfusion
  have hle := Table.le_total_of_lookup Escrow.locked (lookup_of_used hused)
  rw [Escrow.locked, if_pos hlive] at hle
  exact hle.trans hi.solvent

/-- A payout of a slot the escrow covers succeeds, and writes the state of the slot. -/
theorem payOut_succeeds (hhon : h.token.Honours) {w : HtlcWorld T} {id : Hash} {s : Escrow}
    (hcov : s.amount.toNat ≤ h.token.balanceOf w.token h.self) (state : EscrowState) (event : HtlcEvent)
    (dst : EvmAddress) (secret : Option Hash) :
    ∃ w', h.payOut w id s state event dst secret = .ok w' ∧ w'.swaps = w.swaps.insert id { s with state } := by
  obtain ⟨t, ht⟩ : ∃ t, h.token.transfer w.token h.self dst s.amount.toNat = some (true, t) := hhon.transfer hcov
  simp only [payOut, ht]
  exact ⟨_, rfl, rfl⟩

/-- `withdraw` succeeds exactly on a live slot that is opened in time, and claims it. -/
theorem withdraw_cases (hhon : h.token.Honours) (w : HtlcWorld T) (id : Hash) {e : Escrow}
    (hslot : w.slot id = e) (secret : Hash)
    (hcov : e.state = .live → e.amount.toNat ≤ h.token.balanceOf w.token h.self) :
    (e.state = .live ∧ h.sha256 secret.1 = e.hashlock ∧ w.now ≤ e.timelock ∧
      ∃ w', h.withdraw w id secret = .ok w' ∧ w'.swaps = w.swaps.insert id { e with state := .claimed }) ∨
    (¬ (e.state = .live ∧ h.sha256 secret.1 = e.hashlock ∧ w.now ≤ e.timelock) ∧
      ∃ err, h.withdraw w id secret = .error err) := by
  simp only [withdraw, hslot]
  split_ifs with h1 h2 h3 h4
  · exact .inr ⟨fun hn => by simp [h1] at hn, _, rfl⟩
  · exact .inr ⟨fun hn => h2 hn.1, _, rfl⟩
  · exact .inr ⟨fun hn => h3 hn.2.1, _, rfl⟩
  · exact .inr ⟨fun hn => absurd h4 (BitVec.not_lt.mpr hn.2.2), _, rfl⟩
  · have hlive := not_not.mp h2
    exact .inl ⟨hlive, not_not.mp h3, BitVec.not_lt.mp h4, h.payOut_succeeds hhon (hcov hlive) _ _ _ _⟩

/-- `refund` succeeds exactly on a live slot after its timelock, and refunds it. -/
theorem refund_cases (hhon : h.token.Honours) (w : HtlcWorld T) (id : Hash) {e : Escrow}
    (hslot : w.slot id = e) (hcov : e.state = .live → e.amount.toNat ≤ h.token.balanceOf w.token h.self) :
    (e.state = .live ∧ e.timelock < w.now ∧ ∃ w', h.refund w id = .ok w' ∧
        w'.swaps = w.swaps.insert id { e with state := .refunded }) ∨
    (¬ (e.state = .live ∧ e.timelock < w.now) ∧ ∃ err, h.refund w id = .error err) := by
  simp only [refund, hslot]
  split_ifs with h1 h2 h3
  · exact .inr ⟨fun hn => by simp [h1] at hn, _, rfl⟩
  · exact .inr ⟨fun hn => h2 hn.1, _, rfl⟩
  · exact .inr ⟨fun hn => absurd hn.2 (BitVec.not_lt.mpr h3), _, rfl⟩
  · have hlive := not_not.mp h2
    exact .inl ⟨hlive, BitVec.not_le.mp h3, h.payOut_succeeds hhon (hcov hlive) _ _ _ _⟩

end Htlc

/-! ### A run of the escrow -/

namespace Sample

def funder : EvmAddress := ByteArr.fill 20 0x11

def receiver : EvmAddress := ByteArr.fill 20 0x22

/-- The slot of five USDC from `funder` to `receiver` under the sample hashlock until 1 000 000. -/
def slotId : Hash := ⟨[0x3d, 0x8d, 0xf3, 0x75, 0x78, 0x03, 0x14, 0x38, 0x69, 0xa7, 0x52, 0x55, 0x31, 0xce, 0xff, 0x03,
    0x48, 0x1b, 0x59, 0xb3, 0x83, 0x16, 0x0d, 0xe0, 0x4a, 0x3c, 0xe2, 0x5a, 0xa9, 0x83, 0x80, 0x37], rfl⟩

/-- A deployment over the repository's USDC; nobody signs a permit. -/
def htlc : Htlc MockUsdc where
  self := ByteArr.fill 20 0xEE
  token := MockUsdc.erc20 fun _ _ _ _ _ => none
  trustedForwarder := zeroAddress
  sha256 b := if b = secret.1 then hashlock else ByteArr.fill 32 0
  keccak256 b :=
    if b = funder.1 ++ receiver.1 ++ abiWord 5000000 ++ hashlock.1 ++ abiWord 1000000 then slotId
    else ByteArr.fill 32 0

/-- The funder has seven USDC and approved five. -/
def usdc : MockUsdc where
  balanceOf a := if a = funder then 7000000 else 0
  allowance o s := if o = funder ∧ s = htlc.self then 5000000 else 0
  nonces _ := 0

/-- Funded, refused a refund at the timelock, claimed in that second, claimed again. -/
def escrowTxs : List (Htlc.Tx htlc.self) :=
  [⟨900000, .newSwap ⟨funder, []⟩ receiver 5000000 hashlock 1000000⟩, ⟨1000000, .refund slotId⟩,
   ⟨1000000, .withdraw slotId secret⟩, ⟨1000000, .withdraw slotId secret⟩]

end Sample

namespace Htlc

theorem sample_slot_paid_once :
    let w := Sample.htlc.exec (.deployed Sample.usdc) Sample.escrowTxs
    (w.slot Sample.slotId).state = .claimed ∧
    w.swaps.total Escrow.locked ≤ Sample.htlc.token.balanceOf w.token Sample.htlc.self ∧
    ∃ secret time, w.paid Sample.slotId = [⟨Sample.slotId, Sample.receiver, 5000000, some secret, time⟩] := by
  have hself : Sample.htlc.self ≠ Sample.funder := by decide
  have hun : Sample.htlc.token.Unapproved Sample.usdc Sample.htlc.self := by
    intro s
    have hread : Sample.htlc.token.allowance Sample.usdc Sample.htlc.self s =
        if Sample.htlc.self = Sample.funder ∧ s = Sample.htlc.self then 5000000 else 0 := rfl
    rw [hread, if_neg fun hos => hself hos.1]
  have hkey : Sample.htlc.token.Keyless Sample.htlc.self := by
    intro t now spender value sig
    simp [Sample.htlc, MockUsdc.erc20, MockUsdc.permit]
  have hrun := Sample.htlc.solvent_and_paid_once MockUsdc.standard hkey Sample.usdc hun Sample.escrowTxs
  have hslot : (Sample.htlc.exec (.deployed Sample.usdc) Sample.escrowTxs).slot Sample.slotId =
      ⟨Sample.funder, Sample.receiver, 5000000, Sample.hashlock, 1000000, .claimed⟩ := by decide +kernel
  revert hrun hslot
  generalize Sample.htlc.exec (.deployed Sample.usdc) Sample.escrowTxs = w
  rintro ⟨hsol, hpaid, -⟩ hslot
  have hone := hpaid Sample.slotId
  simp only [hslot, PaidAs] at hone
  obtain ⟨secret, time, hps, -, -⟩ := hone
  exact ⟨by rw [hslot], hsol, secret, time, hps⟩

end Htlc

end Nimmesh
