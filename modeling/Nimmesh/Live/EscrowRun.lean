import Nimmesh.Contract.Solvency
import Nimmesh.Live.EscrowChain

/-! @src contracts/src/NimmeshHtlc.sol polygon_verifier.rs amoy_swap_verifier.rs | name:The chain of an escrow |
    layer:refinement

    The transactions of the escrow, each mined in a block, make an escrow chain: a slot is logged once, in
    the transaction that creates it, with the parameters it keeps. So what a scan of an honest node reports
    is locked in the escrow, and the recipient can claim it with the secret until the timelock. -/

namespace Nimmesh

/-- What a `NewSwap` scan sees of an event. -/
def HtlcEvent.logged (block : UInt64) : HtlcEvent → Option LoggedSwap
  | .newSwap swapId _ receiver amount hashlock timelock =>
    some ⟨swapId, receiver, amount, hashlock, timelock, block⟩
  | _ => none

/-- The escrow with the creations it logged, oldest first. -/
structure EscrowRun (T : Type) where
  world : HtlcWorld T
  logs : List LoggedSwap := []

/-- The creations among the new events. -/
def newLogs {T : Type} (block : UInt64) (w w' : HtlcWorld T) : List LoggedSwap :=
  ((w'.events.take (w'.events.length - w.events.length)).reverse).filterMap (·.logged block)

/-- A slot is logged as it is: in use, and with these parameters. -/
def LoggedSwap.Of (l : LoggedSwap) (e : Escrow) : Prop :=
  ∃ sender state, state ≠ .none ∧ e = ⟨sender, l.receiver, l.amount, l.hashlock, l.timelock, state⟩

namespace Htlc

variable {T : Type} (h : Htlc T)

/-- What one transaction does to the slots and the events. -/
inductive EventStep (w w' : HtlcWorld T) : Prop where
  | created (swapId : Hash) (e : Escrow) (fresh : (w.slot swapId).state = .none) (live : e.state = .live)
      (swaps : w'.swaps = w.swaps.insert swapId e)
      (events : w'.events = .newSwap swapId e.sender e.receiver e.amount e.hashlock e.timelock :: w.events)
  | resolved (swapId : Hash) (state : EscrowState) (event : HtlcEvent) (live : (w.slot swapId).state = .live)
      (used : state ≠ .none) (swaps : w'.swaps = w.swaps.insert swapId { w.slot swapId with state })
      (events : w'.events = event :: w.events) (other : ∀ block, event.logged block = none)
  | same (swaps : w'.swaps = w.swaps) (events : w'.events = w.events)

/-- The time and the token of the state before do not matter. -/
theorem EventStep.of_eq {w₀ w w' : HtlcWorld T} (hw : EventStep w w') (hs : w.swaps = w₀.swaps)
    (he : w.events = w₀.events) : EventStep w₀ w' := by
  have hslot : ∀ swapId, w.slot swapId = w₀.slot swapId := fun swapId => by
    rw [HtlcWorld.slot, HtlcWorld.slot, hs]
  cases hw with
  | created swapId e fresh live swaps events =>
    rw [hslot] at fresh
    rw [hs] at swaps
    rw [he] at events
    exact .created swapId e fresh live swaps events
  | resolved swapId state event live used swaps events other =>
    rw [hslot] at live swaps
    rw [hs] at swaps
    rw [he] at events
    exact .resolved swapId state event live used swaps events other
  | same swaps events => exact .same (swaps.trans hs) (events.trans he)

theorem newSwapFrom_event {w w' : HtlcWorld T} {funder receiver : EvmAddress} {amount : U256} {hashlock : Hash}
    {timelock : U256} (hok : h.newSwapFrom w funder receiver amount hashlock timelock = .ok w') :
    EventStep w w' := by
  simp only [newSwapFrom] at hok
  split_ifs at hok with h1 h2 h3 h4
  split at hok
  · cases hok
  · cases hok
  · cases hok
    exact .created _ ⟨funder, receiver, amount, hashlock, timelock, .live⟩ (not_not.mp h4) rfl rfl rfl

theorem payOut_event {w w' : HtlcWorld T} {swapId : Hash} {state : EscrowState} {event : HtlcEvent}
    {dst : EvmAddress} {secret : Option Hash} (hlive : (w.slot swapId).state = .live) (hused : state ≠ .none)
    (hother : ∀ block, event.logged block = none)
    (hok : h.payOut w swapId (w.slot swapId) state event dst secret = .ok w') : EventStep w w' := by
  simp only [payOut] at hok
  split at hok
  · cases hok
  · cases hok
  · cases hok
    exact .resolved swapId state event hlive hused rfl rfl hother

/-- STEP: a slot is logged as it is created, and by no other event. -/
theorem step_event (w : HtlcWorld T) (tx : Tx h.self) : EventStep w (h.step w tx) := by
  cases hrun : h.run { w with now := tx.time } tx.call with
  | error err =>
    have hstep : h.step w tx = { w with now := tx.time } := by simp only [step, hrun]
    rw [hstep]
    exact .same rfl rfl
  | ok w' =>
    have hstep : h.step w tx = w' := by simp only [step, hrun]
    rw [hstep]
    cases hcall : tx.call with
    | newSwap msg receiver amount hashlock timelock =>
      rw [hcall] at hrun
      exact (h.newSwapFrom_event hrun).of_eq rfl rfl
    | newSwapWithPermit msg receiver amount hashlock timelock sig =>
      rw [hcall] at hrun
      exact (h.newSwapFrom_event hrun).of_eq rfl rfl
    | withdraw swapId secret =>
      rw [hcall] at hrun
      simp only [run, withdraw] at hrun
      split_ifs at hrun with h1 h2 h3 h4
      exact (h.payOut_event (not_not.mp h2) EscrowState.noConfusion (fun _ => rfl) hrun).of_eq rfl rfl
    | refund swapId =>
      rw [hcall] at hrun
      simp only [run, refund] at hrun
      split_ifs at hrun with h1 h2 h3
      exact (h.payOut_event (not_not.mp h2) EscrowState.noConfusion (fun _ => rfl) hrun).of_eq rfl rfl
    | token call =>
      rw [hcall] at hrun
      cases hrun
      exact .same rfl rfl

/-! ### Every run -/

/-- Mine a transaction in a block. -/
def mine (r : EscrowRun T) (m : UInt64 × Tx h.self) : EscrowRun T :=
  let w := h.step r.world m.2
  ⟨w, r.logs ++ newLogs m.1 r.world w⟩

/-- The escrow after these transactions. -/
def mined (t : T) (ms : List (UInt64 × Tx h.self)) : EscrowRun T := Run.exec h.mine ⟨.deployed t, []⟩ ms

theorem newLogs_cons {w w' : HtlcWorld T} {event : HtlcEvent} (block : UInt64)
    (he : w'.events = event :: w.events) : newLogs block w w' = (event.logged block).toList := by
  have hlen : (event :: w.events).length - w.events.length = 1 := by
    rw [List.length_cons]
    omega
  rw [newLogs, he, hlen]
  cases hl : event.logged block <;> simp [hl]

theorem newLogs_same {w w' : HtlcWorld T} (block : UInt64) (he : w'.events = w.events) :
    newLogs block w w' = [] := by
  rw [newLogs, he, Nat.sub_self, List.take_zero]
  rfl

/-- The logs and the slots tell of the same creations. -/
structure Logged (r : EscrowRun T) : Prop where
  of : ∀ l ∈ r.logs, l.Of (r.world.slot l.swapId)
  once : (r.logs.map (·.swapId)).Nodup
  complete : ∀ swapId, (r.world.slot swapId).state ≠ .none → ∃ l ∈ r.logs, l.swapId = swapId

theorem Logged.deployed (t : T) : Logged (T := T) ⟨.deployed t, []⟩ where
  of l hl := by cases hl
  once := List.nodup_nil
  complete swapId hused := absurd rfl hused

theorem Logged.mine {r : EscrowRun T} (hr : Logged r) (m : UInt64 × Tx h.self) : Logged (h.mine r m) := by
  cases h.step_event r.world m.2 with
  | created swapId e fresh live swaps events =>
    have hlogs : (h.mine r m).logs = r.logs ++ [⟨swapId, e.receiver, e.amount, e.hashlock, e.timelock, m.1⟩] := by
      rw [Htlc.mine, newLogs_cons m.1 events]
      rfl
    have hslot : ∀ id, (h.mine r m).world.slot id = if id = swapId then e else r.world.slot id := fun id =>
      slot_insert swaps
    -- a slot that was logged is in use, so it is not the fresh one
    have hne : ∀ l ∈ r.logs, l.swapId ≠ swapId := by
      intro l hl heq
      obtain ⟨sender, state, hused, hof⟩ := hr.of l hl
      rw [heq] at hof
      rw [hof] at fresh
      exact hused fresh
    refine ⟨fun l hl => ?_, ?_, fun id hused => ?_⟩
    · rw [hlogs] at hl
      rw [hslot]
      rcases List.mem_append.mp hl with hl | hl
      · rw [if_neg (hne l hl)]
        exact hr.of l hl
      · rw [List.mem_singleton.mp hl, if_pos rfl]
        refine ⟨e.sender, .live, EscrowState.noConfusion, ?_⟩
        rw [← live]
    · rw [hlogs, List.map_append, List.nodup_append]
      refine ⟨hr.once, List.nodup_singleton _, fun a ha b hb => ?_⟩
      obtain ⟨l, hl, rfl⟩ := List.mem_map.mp ha
      rw [List.mem_singleton.mp hb]
      exact hne l hl
    · rw [hlogs]
      rw [hslot] at hused
      split_ifs at hused with hid
      · exact ⟨_, List.mem_append_right _ (List.mem_singleton_self _), hid.symm⟩
      · obtain ⟨l, hl, hl'⟩ := hr.complete id hused
        exact ⟨l, List.mem_append_left _ hl, hl'⟩
  | resolved swapId state event live used swaps events other =>
    have hlogs : (h.mine r m).logs = r.logs := by
      rw [Htlc.mine, newLogs_cons m.1 events, other]
      exact List.append_nil _
    have hslot : ∀ id, (h.mine r m).world.slot id =
        if id = swapId then { r.world.slot swapId with state } else r.world.slot id := fun id =>
      slot_insert swaps
    refine ⟨fun l hl => ?_, by rw [hlogs]; exact hr.once, fun id hused => ?_⟩
    · rw [hlogs] at hl
      obtain ⟨sender, state', hused, hof⟩ := hr.of l hl
      rw [hslot]
      split_ifs with hid
      · rw [hid] at hof
        rw [hof]
        exact ⟨sender, state, used, rfl⟩
      · exact ⟨sender, state', hused, hof⟩
    · rw [hlogs]
      rw [hslot] at hused
      split_ifs at hused with hid
      · subst hid
        exact hr.complete id (by rw [live]; exact EscrowState.noConfusion)
      · exact hr.complete id hused
  | same swaps events =>
    have hlogs : (h.mine r m).logs = r.logs := by
      rw [Htlc.mine, newLogs_same m.1 events]
      exact List.append_nil _
    have hslot : ∀ id, (h.mine r m).world.slot id = r.world.slot id := fun id => by
      rw [HtlcWorld.slot, HtlcWorld.slot, Htlc.mine, swaps]
    refine ⟨fun l hl => ?_, by rw [hlogs]; exact hr.once, fun id hused => ?_⟩
    · rw [hlogs] at hl
      rw [hslot]
      exact hr.of l hl
    · rw [hlogs]
      rw [hslot] at hused
      exact hr.complete id hused

/-- RUN: every creation is logged once, as the slot still is. -/
theorem logged_mined (t : T) (ms : List (UInt64 × Tx h.self)) : Logged (h.mined t ms) :=
  Run.exec_preserves (I := Logged) h.mine (fun _ m hr => hr.mine h m) ms _ (Logged.deployed t)

theorem mined_append (t : T) (ms : List (UInt64 × Tx h.self)) (m : UInt64 × Tx h.self) :
    h.mined t (ms ++ [m]) = h.mine (h.mined t ms) m := by
  rw [mined, Run.exec_append]
  rfl

theorem world_mined (t : T) (ms : List (UInt64 × Tx h.self)) :
    (h.mined t ms).world = h.exec (.deployed t) (ms.map (·.2)) := by
  induction ms using List.reverseRecOn with
  | nil => rfl
  | append_singleton ms m ih =>
    rw [mined_append, List.map_append, exec, Run.exec_append]
    change h.step (h.mined t ms).world m.2 = _
    rw [ih]
    rfl

theorem inv_mined (hstd : h.token.Standard) (hkey : h.token.Keyless h.self) {t : T}
    (hun : h.token.Unapproved t h.self) (ms : List (UInt64 × Tx h.self)) : h.Inv (h.mined t ms).world := by
  rw [world_mined]
  exact h.exec_inv hstd hkey hun _

/-- A log is in the block of the transaction that made it. -/
theorem block_of_logged {t : T} {ms : List (UInt64 × Tx h.self)} {l : LoggedSwap}
    (hl : l ∈ (h.mined t ms).logs) : ∃ m ∈ ms, l.block = m.1 := by
  induction ms using List.reverseRecOn with
  | nil => cases hl
  | append_singleton ms m ih =>
    rw [mined_append] at hl
    rcases List.mem_append.mp hl with hl | hl
    · obtain ⟨m', hm', hb⟩ := ih hl
      exact ⟨m', List.mem_append_left _ hm', hb⟩
    · refine ⟨m, List.mem_append_right _ (List.mem_singleton_self m), ?_⟩
      obtain ⟨event, -, hlog⟩ := List.mem_filterMap.mp hl
      cases event with
      | newSwap swapId sender receiver amount hashlock timelock =>
        cases hlog
        rfl
      | withdrawn => cases hlog
      | refunded => cases hlog

/-! ### What a scan reports -/

/-- The chain that these transactions make. -/
def chainOf (t : T) (ms : List (UInt64 × Tx h.self)) (head : UInt64) (finalized : Option UInt64)
    (hhead : ∀ m ∈ ms, m.1 ≤ head) : EscrowChain where
  logs := (h.mined t ms).logs
  slots := (h.mined t ms).world.slot
  head := head
  finalized := finalized
  below l hl := by
    obtain ⟨m, hm, hb⟩ := h.block_of_logged hl
    rw [hb]
    exact hhead m hm

/-- The slot is live, and until its timelock the secret of its hashlock moves its amount to the receiver. -/
structure Claimable (w : HtlcWorld T) (swapId : Hash) (e : Escrow) : Prop where
  slot : w.slot swapId = e
  live : e.state = .live
  claim : ∀ secret time, h.sha256 secret.1 = e.hashlock → time ≤ e.timelock →
    ∃ w', h.run { w with now := time } (.withdraw swapId secret) = .ok w' ∧
      w'.slot swapId = { e with state := .claimed } ∧
      h.token.Moved w.token w'.token h.self e.receiver e.amount.toNat

/-- A live slot can be claimed: the escrow holds what it locks. -/
theorem claimable_of_live (hstd : h.token.Standard) (hhon : h.token.Honours) {w : HtlcWorld T} (hi : h.Inv w)
    {swapId : Hash} {e : Escrow} (hslot : w.slot swapId = e) (hlive : e.state = .live) :
    h.Claimable w swapId e := by
  subst hslot
  refine ⟨rfl, hlive, fun secret time hsecret htime => ?_⟩
  have hcov : (w.slot swapId).amount.toNat ≤ h.token.balanceOf w.token h.self := hi.covers h hlive
  obtain ⟨-, -, -, w', hok, hswaps⟩ | ⟨hno, -⟩ :=
    h.withdraw_cases hhon { w with now := time } swapId rfl secret fun _ => hcov
  · have hafter : w'.slot swapId = { w.slot swapId with state := .claimed } := by
      rw [slot_insert hswaps, if_pos rfl]
      rfl
    have hrun : h.run { w with now := time } (.withdraw swapId secret) = .ok w' := hok
    have hstep := h.step_slot hstd w ⟨time, .withdraw swapId secret⟩ swapId
    rw [h.step_of_ok hrun] at hstep
    refine ⟨w', hrun, hafter, ?_⟩
    cases hstep with
    | same slot _ =>
      rw [slot] at hafter
      rw [hafter] at hlive
      cases hlive
    | created before _ _ =>
      rw [hlive] at before
      cases before
    | claimed _ _ _ _ _ _ moved => exact moved
    | refunded _ after _ _ _ =>
      rw [hafter] at after
      cases congrArg Escrow.state after
  · exact absurd ⟨hlive, hsecret, htime⟩ hno

end Htlc

namespace EscrowChain

variable {T : Type} {h : Htlc T} {t : T} {ms : List (UInt64 × Htlc.Tx h.self)} {head : UInt64}
  {finalized : Option UInt64} {hhead : ∀ m ∈ ms, m.1 ≤ head}

/-- The escrow that a scan reports is one slot of the contract, with what its log says. -/
theorem slot_of_reported {receiver : EvmAddress} {fromBlock : UInt64} {hashlock : Hash} {l : LoggedSwap}
    (hl : (h.chainOf t ms head finalized hhead).reported receiver fromBlock hashlock = some l) :
    ∃ e, (h.mined t ms).world.slot l.swapId = e ∧ e.state = .live ∧ e.receiver = receiver ∧
      e.hashlock = hashlock ∧ e.amount.toNat = l.amount64.toNat ∧ e.timelock.toNat = l.timelock64.toNat := by
  obtain ⟨hmem, hreceiver, -, hhash, ⟨hamount, htimelock⟩, hlive⟩ := mem_of_reported hl
  obtain ⟨sender, state, -, hof⟩ := (h.logged_mined t ms).of l hmem
  have hstate : state = .live := by
    have hslot : ((h.mined t ms).world.slot l.swapId).state = .live := hlive
    rw [hof] at hslot
    exact hslot
  have h64 : ∀ n, n < 2 ^ 64 → n = (UInt64.ofNat n).toNat := fun n hn => by
    rw [UInt64.toNat_ofNat', Nat.mod_eq_of_lt hn]
  exact ⟨_, hof, hstate, hreceiver, hhash, h64 _ hamount, h64 _ htimelock⟩

/-- CORRECT: what the deployed-contract scan finds on an honest node is a slot of the contract that pays the
    recipient under the hashlock; it holds the amount and can be claimed until the timeout. -/
theorem ShownBy.found_is_claimable (hstd : h.token.Standard) (hkey : h.token.Keyless h.self)
    (hhon : h.token.Honours) (hun : h.token.Unapproved t h.self) {v : PolygonHtlcVerifier}
    {reads : PolygonReads} (hs : (h.chainOf t ms head finalized hhead).ShownBy v reads)
    {secondary : Option PolygonReads} {expect : HtlcExpectation} {amount timeout : UInt64} {k : UInt32}
    (hfound : v.observe reads secondary expect = .found amount timeout k) :
    ∃ swapId e, h.Claimable (h.mined t ms).world swapId e ∧ e.receiver.1 = expect.recipient ∧
      e.hashlock = expect.hashlock ∧ e.amount.toNat = amount.toNat ∧ e.timelock.toNat = timeout.toNat := by
  obtain ⟨-, recipient, low, l, hrec, -, hl, rfl, rfl, -⟩ := (hs.observe_found_iff _ _ _ _ _).mp hfound
  obtain ⟨e, hslot, hlive, hreceiver, hhash, hamount, htimelock⟩ := slot_of_reported hl
  have hi := h.inv_mined hstd hkey hun ms
  exact ⟨l.swapId, e, h.claimable_of_live hstd hhon hi hslot hlive, by rw [hreceiver, hrec], hhash, hamount,
    htimelock⟩

/-- CORRECT: so is what the swap verifier finds, and that slot is recorded for the claim. -/
theorem ShownTo.found_is_claimable (hstd : h.token.Standard) (hkey : h.token.Keyless h.self)
    (hhon : h.token.Honours) (hun : h.token.Unapproved t h.self) {v : AmoyHtlcSwapVerifier}
    {reads : AmoyReads} (hs : (h.chainOf t ms head finalized hhead).ShownTo v reads)
    {secondary : Option AmoyReads} {nowS : UInt64} {store : PolygonFundingStore} {expect : HtlcExpectation}
    {amount timeout : UInt64} {k : UInt32}
    (hfound : (v.observe reads secondary nowS store expect).1 = .found amount timeout k) :
    ∃ swapId e, h.Claimable (h.mined t ms).world swapId e ∧ e.receiver = v.ownClaimAddress ∧
      e.hashlock = expect.hashlock ∧ e.amount.toNat = amount.toNat ∧
      termEquivalentOfTimelockS (.ofNat e.timelock.toNat) nowS expect.termAnchor v.slackS = timeout ∧
      (v.observe reads secondary nowS store expect).2.found.lookup expect.hashlock =
        some ⟨swapId, amount, .ofNat e.timelock.toNat⟩ := by
  obtain ⟨hleg, anchor, low, block, escrow, hanchor, hscan, rfl, rfl, -⟩ :=
    (v.observe_found_iff _ _ _ _ _ _ _ _).mp hfound
  obtain ⟨logs, _, hlogs, -, -, hearliest, -⟩ := (v.scan_eq_picked_iff _ _ _ _ _ _ _).mp hscan
  rw [hs.logs, Option.some.injEq] at hlogs
  subst hlogs
  obtain ⟨l, hl, rfl, rfl⟩ := (hs.earliest_iff _ _ _ _ _).mp hearliest
  obtain ⟨e, hslot, hlive, hreceiver, hhash, hamount, htimelock⟩ := slot_of_reported hl
  have hi := h.inv_mined hstd hkey hun ms
  have htime : UInt64.ofNat e.timelock.toNat = l.found.timelockS := by
    rw [htimelock, UInt64.ofNat_toNat]
    rfl
  refine ⟨l.swapId, e, h.claimable_of_live hstd hhon hi hslot hlive, hreceiver, hhash, hamount, ?_, ?_⟩
  · rw [htime]
  · rw [htime]
    exact v.recorded_of_pick (v.pick_of_scan hleg hanchor hscan) nowS

end EscrowChain

end Nimmesh
