import Nimmesh.Contract.Solvency

/-! @src contracts/src/NimmeshHtlc.sol | name:No escrow is stuck | layer:properties

    The other half of solvency. Each live slot has an exit at every time: the secret until the timelock, the refund
    after it, both open to anyone. Whatever reaches the chain before, no transaction can close the exit other than by
    paying the slot out itself. -/

namespace Nimmesh

namespace Htlc

variable {T : Type} (h : Htlc T)

/-- The transaction is an exit of a slot with these parameters: the secret in time, or a refund after it. -/
def Exits (swapId : Hash) (e : Escrow) (tx : Tx h.self) : Prop :=
  (∃ secret, tx.call = .withdraw swapId secret ∧ h.sha256 secret.1 = e.hashlock ∧ tx.time ≤ e.timelock) ∨
    (tx.call = .refund swapId ∧ e.timelock < tx.time)

/-- The slot is claimed or refunded. -/
def Settled (w : HtlcWorld T) (swapId : Hash) : Prop :=
  (w.slot swapId).state = .claimed ∨ (w.slot swapId).state = .refunded

/-- A slot is paid out in this step, to the party that its new state names. -/
structure PaysOut (swapId : Hash) (w w' : HtlcWorld T) (p : Payout) : Prop where
  live : (w.slot swapId).state = .live
  slot : w'.slot swapId = { w.slot swapId with state := .claimed } ∧ p.dst = (w.slot swapId).receiver ∨
    w'.slot swapId = { w.slot swapId with state := .refunded } ∧ p.dst = (w.slot swapId).sender
  amount : p.amount = (w.slot swapId).amount
  moved : h.token.Moved w.token w'.token h.self p.dst p.amount.toNat
  paid : w'.paid swapId = p :: w.paid swapId

/-! ### One transaction -/

/-- STEP: a live slot stays as it is, or is paid out. -/
theorem step_of_live (hstd : h.token.Standard) {w : HtlcWorld T} {swapId : Hash}
    (hlive : (w.slot swapId).state = .live) (tx : Tx h.self) :
    ((h.step w tx).slot swapId = w.slot swapId ∧ (h.step w tx).paid swapId = w.paid swapId) ∨
      ∃ p, h.PaysOut swapId w (h.step w tx) p := by
  cases h.step_slot hstd w tx swapId with
  | same slot paid => exact .inl ⟨slot, paid⟩
  | created before _ _ => rw [hlive] at before; cases before
  | claimed secret _ after _ _ paid moved => exact .inr ⟨_, hlive, .inl ⟨after, rfl⟩, rfl, moved, paid⟩
  | refunded _ after _ paid moved => exact .inr ⟨_, hlive, .inr ⟨after, rfl⟩, rfl, moved, paid⟩

/-- STEP: a settled slot and its payouts stay as they are. -/
theorem step_of_settled (hstd : h.token.Standard) {w : HtlcWorld T} {swapId : Hash}
    (hset : Settled w swapId) (tx : Tx h.self) :
    (h.step w tx).slot swapId = w.slot swapId ∧ (h.step w tx).paid swapId = w.paid swapId := by
  have hne : (w.slot swapId).state ≠ .none ∧ (w.slot swapId).state ≠ .live := by
    rcases hset with hs | hs
    · rw [hs]; exact ⟨EscrowState.noConfusion, EscrowState.noConfusion⟩
    · rw [hs]; exact ⟨EscrowState.noConfusion, EscrowState.noConfusion⟩
  cases h.step_slot hstd w tx swapId with
  | same slot paid => exact ⟨slot, paid⟩
  | created before _ _ => exact absurd before hne.1
  | claimed _ before _ _ _ _ _ => exact absurd before hne.2
  | refunded before _ _ _ _ => exact absurd before hne.2

/-- STEP: an exit of a live slot settles it, since the escrow covers it. -/
theorem step_exits (hhon : h.token.Honours) {w : HtlcWorld T} (hi : h.Inv w) {swapId : Hash}
    (hlive : (w.slot swapId).state = .live) {tx : Tx h.self} (hexit : h.Exits swapId (w.slot swapId) tx) :
    Settled (h.step w tx) swapId := by
  obtain ⟨time, call⟩ := tx
  have hcov := hi.covers h hlive
  have hslot : ∀ {w' : HtlcWorld T} {state : EscrowState},
      w'.swaps = w.swaps.insert swapId { w.slot swapId with state } → (w'.slot swapId).state = state := by
    intro w' state hs
    rw [slot_insert hs, if_pos rfl]
  rcases hexit with ⟨secret, hcall, hsecret, htime⟩ | ⟨hcall, htime⟩
  · obtain rfl : call = .withdraw swapId secret := hcall
    rcases h.withdraw_cases hhon { w with now := time } swapId rfl secret fun _ => hcov with
      ⟨-, -, -, w', hok, hswaps⟩ | ⟨hno, -⟩
    · have hrun : h.run { w with now := time } (.withdraw swapId secret) = .ok w' := hok
      rw [h.step_of_ok hrun]
      exact .inl (hslot hswaps)
    · exact absurd ⟨hlive, hsecret, htime⟩ hno
  · obtain rfl : call = .refund swapId := hcall
    rcases h.refund_cases hhon { w with now := time } swapId rfl fun _ => hcov with
      ⟨-, -, w', hok, hswaps⟩ | ⟨hno, -⟩
    · have hrun : h.run { w with now := time } (.refund swapId) = .ok w' := hok
      rw [h.step_of_ok hrun]
      exact .inr (hslot hswaps)
    · exact absurd ⟨hlive, htime⟩ hno

/-! ### Every run -/

/-- RUN: a settled slot and its payouts stay as they are. -/
theorem exec_of_settled (hstd : h.token.Standard) {swapId : Hash} (txs : List (Tx h.self)) {w : HtlcWorld T}
    (hset : Settled w swapId) :
    (h.exec w txs).slot swapId = w.slot swapId ∧ (h.exec w txs).paid swapId = w.paid swapId := by
  induction txs generalizing w with
  | nil => exact ⟨rfl, rfl⟩
  | cons tx txs ih =>
    obtain ⟨hslot, hpaid⟩ := h.step_of_settled hstd hset tx
    obtain ⟨hslot', hpaid'⟩ := ih (w := h.step w tx) (by unfold Settled; rwa [hslot])
    exact ⟨hslot'.trans hslot, hpaid'.trans hpaid⟩

theorem PaysOut.settled {swapId : Hash} {w w' : HtlcWorld T} {p : Payout} (hp : h.PaysOut swapId w w' p) :
    Settled w' swapId := by
  rcases hp.slot with ⟨hs, -⟩ | ⟨hs, -⟩
  · exact .inl (by rw [hs])
  · exact .inr (by rw [hs])

/-- RUN: of some transactions with an exit of a live slot among them, the first one that touches the slot pays it
    out. -/
theorem exec_exits (hstd : h.token.Standard) (hhon : h.token.Honours) (hkey : h.token.Keyless h.self)
    {swapId : Hash} (txs : List (Tx h.self)) {w : HtlcWorld T} (hi : h.Inv w)
    (hlive : (w.slot swapId).state = .live) (hexit : ∃ tx ∈ txs, h.Exits swapId (w.slot swapId) tx) :
    ∃ pre tx post p, txs = pre ++ tx :: post ∧ (h.exec w pre).slot swapId = w.slot swapId ∧
      (h.exec w pre).paid swapId = w.paid swapId ∧
      h.PaysOut swapId (h.exec w pre) (h.step (h.exec w pre) tx) p := by
  induction txs generalizing w with
  | nil =>
    obtain ⟨tx, htx, -⟩ := hexit
    cases htx
  | cons tx txs ih =>
    rcases h.step_of_live hstd hlive tx with ⟨hslot, hpaid⟩ | ⟨p, hp⟩
    · have hlater : ∃ tx ∈ txs, h.Exits swapId (w.slot swapId) tx := by
        obtain ⟨tx', htx', hex⟩ := hexit
        rcases List.mem_cons.mp htx' with rfl | htx'
        · -- the exit itself finds the slot live and settles it
          have hset := h.step_exits hhon hi hlive hex
          rw [Settled, hslot, hlive] at hset
          rcases hset with hs | hs <;> cases hs
        · exact ⟨tx', htx', hex⟩
      obtain ⟨pre, tx', post, p, rfl, hslot', hpaid', hp⟩ := ih (hi.step h hstd hkey tx) (by rwa [hslot])
        (by rwa [hslot])
      exact ⟨tx :: pre, tx', post, p, rfl, hslot'.trans hslot, hpaid'.trans hpaid, hp⟩
    · exact ⟨[], tx, txs, p, rfl, rfl, rfl, hp⟩

/-- RUN: take any slot that is live after any transactions, and any later transactions of anybody, among them an exit
    of the slot. One of these pays the slot out: its whole amount moves from the escrow to its receiver or its sender,
    as its state says from then on, and whatever follows, this stays the only payout of the slot. -/
theorem exit_never_blocked (hstd : h.token.Standard) (hhon : h.token.Honours) (hkey : h.token.Keyless h.self) (t : T)
    (hun : h.token.Unapproved t h.self) (txs txs' more : List (Tx h.self)) (swapId : Hash)
    (hlive : ((h.exec (.deployed t) txs).slot swapId).state = .live)
    (hexit : ∃ tx ∈ txs', h.Exits swapId ((h.exec (.deployed t) txs).slot swapId) tx) :
    let w := h.exec (.deployed t) txs
    ∃ pre tx post p, txs' = pre ++ tx :: post ∧ h.PaysOut swapId (h.exec w pre) (h.step (h.exec w pre) tx) p ∧
      (h.exec w pre).slot swapId = w.slot swapId ∧
      (h.exec w (txs' ++ more)).slot swapId = (h.step (h.exec w pre) tx).slot swapId ∧
      (h.exec w (txs' ++ more)).paid swapId = [p] := by
  have hinv := h.exec_inv hstd hkey hun txs
  generalize h.exec (.deployed t) txs = w at hlive hexit hinv
  have hunpaid : w.paid swapId = [] := by
    have hpaid := hinv.paid swapId
    rwa [PaidAs, hlive] at hpaid
  obtain ⟨pre, tx, post, p, rfl, hslot, hpaid, hp⟩ := h.exec_exits hstd hhon hkey txs' hinv hlive hexit
  have hsplit : h.exec w ((pre ++ tx :: post) ++ more) = h.exec (h.step (h.exec w pre) tx) (post ++ more) := by
    rw [List.append_assoc, List.cons_append]
    exact Run.exec_append h.step w pre (tx :: (post ++ more))
  obtain ⟨hkeep, hsame⟩ := h.exec_of_settled hstd (post ++ more) (hp.settled h)
  refine ⟨pre, tx, post, p, rfl, hp, hslot, by rw [hsplit, hkeep], ?_⟩
  rw [hsplit, hsame, hp.paid, hpaid, hunpaid]

/-- The sample slot, refused a refund at its timelock, is refunded a second later. -/
theorem sample_exit_never_blocked :
    let w := Sample.htlc.exec (.deployed Sample.usdc)
      [⟨900000, .newSwap ⟨Sample.funder, []⟩ Sample.receiver 5000000 Sample.hashlock 1000000⟩]
    ∃ p, (Sample.htlc.exec w ([⟨1000000, .refund Sample.slotId⟩, ⟨1000001, .refund Sample.slotId⟩] ++
      [⟨1000002, .withdraw Sample.slotId Sample.secret⟩])).paid Sample.slotId = [p] := by
  have hself : Sample.htlc.self ≠ Sample.funder := by decide
  have hun : Sample.htlc.token.Unapproved Sample.usdc Sample.htlc.self := by
    intro s
    have hread : Sample.htlc.token.allowance Sample.usdc Sample.htlc.self s =
        if Sample.htlc.self = Sample.funder ∧ s = Sample.htlc.self then 5000000 else 0 := rfl
    rw [hread, if_neg fun hos => hself hos.1]
  have hkey : Sample.htlc.token.Keyless Sample.htlc.self := by
    intro t now spender value sig
    simp [Sample.htlc, MockUsdc.erc20, MockUsdc.permit]
  obtain ⟨pre, tx, post, p, -, -, -, -, hpaid⟩ := Sample.htlc.exit_never_blocked MockUsdc.standard MockUsdc.honours hkey
    Sample.usdc hun [⟨900000, .newSwap ⟨Sample.funder, []⟩ Sample.receiver 5000000 Sample.hashlock 1000000⟩]
    [⟨1000000, .refund Sample.slotId⟩, ⟨1000001, .refund Sample.slotId⟩]
    [⟨1000002, .withdraw Sample.slotId Sample.secret⟩] Sample.slotId (by decide +kernel)
    ⟨⟨1000001, .refund Sample.slotId⟩, by simp, .inr ⟨rfl, by decide +kernel⟩⟩
  exact ⟨p, hpaid⟩

end Htlc

end Nimmesh
