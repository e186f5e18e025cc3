import Nimmesh.Lib.Run
import Nimmesh.Live.Signer

/-! @src live_swap_signer.rs swap_signer.rs | name:One signer, several swaps | layer:properties

    Calls on a live signer, in any order and for any swaps. What a call hands back belongs to the swap
    it was made for as long as the one slot a signer remembers a transaction in was not filled for
    another swap; `filledBy` and `claimedFor` record for whom it was filled. -/

namespace Nimmesh

/-! ### The responder's fundings -/

structure ResponderState where
  book : PeerBook := ∅
  last : Option LandedFunding := none
  filledBy : Option SwapContext := none

inductive ResponderCall where
  | notePeer (swapId : SwapId) (peer : PeerAddressing)
  | buildFunding (ctx : SwapContext) (leg : SwapLegId) (rpc : AmoyRpc) (nowS : UInt64)
  | buildClaim (ctx : SwapContext) (secret : Hash) (rpc : NimRpc) (store : NimFundingStore)

/-- The slot is empty, was filled for the same swap, or its escrow reads neither live nor claimed. -/
def ResponderState.SlotFree (s : ResponderState) : ResponderCall → Prop
  | .buildFunding ctx _ rpc _ => ∀ filled, s.filledBy = some filled →
      (filled.hashlock = ctx.hashlock ∧ filled.takeAmount = ctx.takeAmount) ∨
      ∀ f, s.last = some f →
        rpc.escrowState f.swapId ≠ some stateLive ∧ rpc.escrowState f.swapId ≠ some stateClaimed
  | _ => True

namespace LiveResponder

variable (cfg : LiveResponder)

/-- What a call hands back. -/
def answer (s : ResponderState) : ResponderCall → Option (Bytes × Hash)
  | .notePeer _ _ => none
  | .buildFunding ctx leg rpc nowS => (cfg.buildFunding rpc nowS s.book s.last ctx leg).result
  | .buildClaim ctx secret rpc store => cfg.claimNim rpc store ctx secret

/-- What a call leaves behind. -/
def step (s : ResponderState) : ResponderCall → ResponderState
  | .notePeer swapId peer => { s with book := s.book.note swapId peer }
  | .buildFunding ctx leg rpc nowS =>
    let o := cfg.buildFunding rpc nowS s.book s.last ctx leg
    { s with last := o.last, filledBy := if o.result.isSome && o.handed.isSome then some ctx else s.filledBy }
  | .buildClaim .. => s

/-- The bytes are a `newSwap` of the escrow with this amount and hashlock. -/
def EncodesNewSwap (wire : Bytes) (amount : UInt64) (hashlock : Hash) : Prop :=
  ∃ receiver timelock,
    TxTo wire cfg.htlc (htlcNewSwap cfg.crypto.keccak256 receiver amount hashlock timelock)

/-- A call's answer is its own swap's: it encodes that swap's `newSwap`, and what another swap left in
    the slot made no difference. -/
def PerSwap (s : ResponderState) : ResponderCall → Prop
  | .buildFunding ctx leg rpc nowS =>
    (∀ tx, cfg.answer s (.buildFunding ctx leg rpc nowS) = some tx →
      cfg.EncodesNewSwap tx.1 ctx.takeAmount ctx.hashlock ∧ tx.2 = cfg.crypto.keccak256 tx.1) ∧
    ∀ other, s.filledBy = some other → other.hashlock ≠ ctx.hashlock →
      cfg.answer s (.buildFunding ctx leg rpc nowS) =
        cfg.answer { s with last := none } (.buildFunding ctx leg rpc nowS)
  | _ => True

/-- The slot holds nothing, or what was planned for the swap that filled it. -/
def SlotInv (s : ResponderState) : Prop :=
  (s.last = none ∧ s.filledBy = none) ∨
    ∃ ctx plan, s.filledBy = some ctx ∧ s.last = some (cfg.planned plan ctx)

theorem planned_encodes (plan : FundingPlan) (ctx : SwapContext) :
    cfg.EncodesNewSwap (cfg.planned plan ctx).wire ctx.takeAmount ctx.hashlock ∧
      (cfg.planned plan ctx).txId = cfg.crypto.keccak256 (cfg.planned plan ctx).wire := by
  refine ⟨⟨plan.receiver, plan.timelock, signWith_txTo _ ?_ _⟩, rfl⟩
  have hlen := length_htlcNewSwap cfg.crypto.keccak256 plan.receiver ctx.takeAmount ctx.hashlock plan.timelock
  exact lt_of_le_of_lt hlen (by decide)

/-- A funding call replays the slot, hands back what it planned and remembers it, or hands back nothing
    and remembers what it did. -/
theorem fundUsdc_cases (rpc : AmoyRpc) (nowS : UInt64) (book : PeerBook) (last : Option LandedFunding)
    (ctx : SwapContext) :
    (∃ tx, replayFunding rpc last = some tx ∧ cfg.fundUsdc rpc nowS book last ctx = ⟨some tx, last, none⟩) ∨
    (replayFunding rpc last = none ∧
      ((∃ plan, cfg.landsSeen rpc (cfg.planned plan ctx).wire = true ∧
        cfg.fundUsdc rpc nowS book last ctx = ⟨some ((cfg.planned plan ctx).wire, (cfg.planned plan ctx).txId),
          some (cfg.planned plan ctx), some (cfg.planned plan ctx)⟩) ∨
       (∃ plan, cfg.landsSeen rpc (cfg.planned plan ctx).wire = false ∧
        cfg.fundUsdc rpc nowS book last ctx = ⟨none, last, some (cfg.planned plan ctx)⟩) ∨
       cfg.fundUsdc rpc nowS book last ctx = ⟨none, last, none⟩)) := by
  cases hr : replayFunding rpc last with
  | some tx => exact .inl ⟨tx, rfl, by simp only [fundUsdc, hr]⟩
  | none =>
    refine .inr ⟨rfl, ?_⟩
    simp only [fundUsdc, hr]
    cases hp : cfg.prepareFunding rpc nowS book ctx with
    | none => exact .inr (.inr rfl)
    | some plan =>
      cases ha : cfg.landsSeen rpc (cfg.approveRaw plan ctx) with
      | false => exact .inr (.inr (by simp [ha]))
      | true =>
        cases hn : cfg.landsSeen rpc (cfg.planned plan ctx).wire with
        | false => exact .inr (.inl ⟨plan, hn, by simp [ha, hn]⟩)
        | true => exact .inl ⟨plan, hn, by simp [ha, hn]⟩

theorem replayFunding_some {rpc : AmoyRpc} {last : Option LandedFunding} {tx : Bytes × Hash}
    (h : replayFunding rpc last = some tx) : ∃ f, last = some f ∧ tx = (f.wire, f.txId) ∧
      (rpc.escrowState f.swapId = some stateLive ∨ rpc.escrowState f.swapId = some stateClaimed) := by
  cases last with
  | none => cases h
  | some f =>
    simp only [replayFunding, Option.bind_some] at h
    split_ifs at h with hs
    exact ⟨f, rfl, (Option.some.inj h).symm, hs⟩

/-- Without a replay the slot does not matter for the answer. -/
theorem fundUsdc_result_eq {rpc : AmoyRpc} {last : Option LandedFunding} (h : replayFunding rpc last = none)
    (nowS : UInt64) (book : PeerBook) (ctx : SwapContext) :
    (cfg.fundUsdc rpc nowS book last ctx).result = (cfg.fundUsdc rpc nowS book none ctx).result := by
  have hnone : replayFunding rpc none = none := rfl
  simp only [fundUsdc, h, hnone]
  cases cfg.prepareFunding rpc nowS book ctx with
  | none => rfl
  | some plan => simp only; split_ifs <;> rfl

theorem SlotInv.step {s : ResponderState} (h : cfg.SlotInv s) (call : ResponderCall) :
    cfg.SlotInv (cfg.step s call) := by
  cases call with
  | notePeer swapId peer => exact h
  | buildClaim ctx secret rpc store => exact h
  | buildFunding ctx leg rpc nowS =>
    cases leg with
    | nim => exact h
    | counterparty =>
      obtain ⟨tx, -, he⟩ | ⟨-, ⟨plan, -, he⟩ | ⟨plan, -, he⟩ | he⟩ :=
        cfg.fundUsdc_cases rpc nowS s.book s.last ctx
      · simpa only [LiveResponder.step, buildFunding, he, Option.isSome_none, Bool.and_false, Bool.false_eq_true,
          if_false] using h
      · refine .inr ⟨ctx, plan, ?_, ?_⟩
        · simp [LiveResponder.step, buildFunding, he]
        · simp only [LiveResponder.step, buildFunding, he]
      · simpa only [LiveResponder.step, buildFunding, he, Option.isSome_none, Bool.false_and, Bool.false_eq_true,
          if_false] using h
      · simpa only [LiveResponder.step, buildFunding, he, Option.isSome_none, Bool.false_and, Bool.false_eq_true,
          if_false] using h

/-- A call that finds the slot free answers for its own swap. -/
theorem perSwap_of_slotFree {s : ResponderState} (hi : cfg.SlotInv s) {call : ResponderCall}
    (hfree : s.SlotFree call) : cfg.PerSwap s call := by
  cases call with
  | notePeer swapId peer => trivial
  | buildClaim ctx secret rpc store => trivial
  | buildFunding ctx leg rpc nowS =>
    cases leg with
    | nim => exact ⟨fun tx h => absurd h (Option.some_ne_none tx).symm, fun _ _ _ => rfl⟩
    | counterparty =>
      -- a replay under the condition is one of the same swap
      have hreplay : ∀ tx, replayFunding rpc s.last = some tx → ∃ filled plan, s.filledBy = some filled ∧
          s.last = some (cfg.planned plan filled) ∧ tx = ((cfg.planned plan filled).wire,
            (cfg.planned plan filled).txId) ∧ filled.hashlock = ctx.hashlock ∧
          filled.takeAmount = ctx.takeAmount := by
        intro tx htx
        obtain ⟨f, hf, rfl, hread⟩ := replayFunding_some htx
        rcases hi with ⟨hn, -⟩ | ⟨filled, plan, hb, hl⟩
        · rw [hf] at hn
          cases hn
        · rw [hf] at hl
          cases hl
          refine ⟨filled, plan, hb, hf, rfl, ?_⟩
          rcases hfree filled hb with hsame | hdead
          · exact hsame
          · obtain ⟨h1, h2⟩ := hdead _ hf
            exact absurd hread (not_or.mpr ⟨h1, h2⟩)
      constructor
      · intro tx htx
        obtain ⟨tx', hr, he⟩ | ⟨-, ⟨plan, -, he⟩ | ⟨plan, -, he⟩ | he⟩ :=
          cfg.fundUsdc_cases rpc nowS s.book s.last ctx
        · obtain ⟨filled, plan, -, -, rfl, hh, ha⟩ := hreplay tx' hr
          simp only [answer, buildFunding, he] at htx
          cases htx
          obtain ⟨henc, hid⟩ := cfg.planned_encodes plan filled
          rw [hh, ha] at henc
          exact ⟨henc, hid⟩
        · simp only [answer, buildFunding, he] at htx
          cases htx
          exact cfg.planned_encodes plan ctx
        · simp only [answer, buildFunding, he] at htx
          cases htx
        · simp only [answer, buildFunding, he] at htx
          cases htx
      · intro other hother hne
        cases hr : replayFunding rpc s.last with
        | none => exact cfg.fundUsdc_result_eq hr nowS s.book ctx
        | some tx =>
          obtain ⟨filled, plan, hb, -, -, hh, -⟩ := hreplay tx hr
          rw [hother] at hb
          cases hb
          exact absurd hh hne

end LiveResponder

/-! ### The initiator's claims -/

structure InitiatorState where
  book : PeerBook := ∅
  lastClaim : Option (Bytes × Hash) := none
  claimedFor : Option (Hash × Hash) := none

inductive InitiatorCall where
  | notePeer (swapId : SwapId) (peer : PeerAddressing)
  | buildFunding (ctx : SwapContext) (leg : SwapLegId) (rpc : NimRpc) (nowMs : UInt64)
  | buildClaim (ctx : SwapContext) (secret : Hash) (rpc : AmoyRpc) (found : Hash → Option Hash)

/-- The slot is empty, or was filled for the same secret and escrow. -/
def InitiatorState.SlotFree (s : InitiatorState) : InitiatorCall → Prop
  | .buildClaim ctx secret _ found => ∀ filled, s.claimedFor = some filled →
      ∀ escrow, found ctx.hashlock = some escrow → filled = (secret, escrow)
  | _ => True

namespace LiveInitiator

variable (cfg : LiveInitiator)

/-- `build_funding`: only the NIM leg is the initiator's. -/
def buildFunding (rpc : NimRpc) (nowMs : UInt64) (book : PeerBook) (ctx : SwapContext) :
    SwapLegId → Option (Bytes × Hash) × Option (HtlcCreation × Bytes)
  | .nim => cfg.fundNim rpc nowMs book ctx
  | .counterparty => (none, none)

/-- What a call hands back. -/
def answer (s : InitiatorState) : InitiatorCall → Option (Bytes × Hash)
  | .notePeer _ _ => none
  | .buildFunding ctx leg rpc nowMs => (cfg.buildFunding rpc nowMs s.book ctx leg).1
  | .buildClaim ctx secret rpc found => (claimUsdc (cfg.claimRpc rpc found) s.lastClaim ctx secret).1

/-- What a call leaves behind. -/
def step (s : InitiatorState) : InitiatorCall → InitiatorState
  | .notePeer swapId peer => { s with book := s.book.note swapId peer }
  | .buildFunding .. => s
  | .buildClaim ctx secret rpc found =>
    let lastClaim := (claimUsdc (cfg.claimRpc rpc found) s.lastClaim ctx secret).2
    { s with
      lastClaim,
      claimedFor := if s.lastClaim.isNone && lastClaim.isSome then (found ctx.hashlock).map (secret, ·)
        else s.claimedFor }

/-- The answer is the secret and a `withdraw` of this escrow with it, under that transaction's hash. -/
def EncodesWithdraw (tx : Bytes × Hash) (escrow secret : Hash) : Prop :=
  ∃ raw, tx = (secret.1 ++ raw, cfg.crypto.keccak256 raw) ∧
    TxTo raw cfg.htlc (htlcWithdraw cfg.crypto.keccak256 escrow secret)

/-- A claim's answer is its own swap's: it withdraws the escrow found for its hashlock with its secret,
    and what another swap left in the slot made no difference. -/
def PerSwap (s : InitiatorState) : InitiatorCall → Prop
  | .buildClaim ctx secret rpc found =>
    (∀ tx, cfg.answer s (.buildClaim ctx secret rpc found) = some tx →
      ∃ escrow, found ctx.hashlock = some escrow ∧ cfg.EncodesWithdraw tx escrow secret) ∧
    ∀ other, s.claimedFor = some other → other.1 ≠ secret →
      cfg.answer s (.buildClaim ctx secret rpc found) =
        cfg.answer { s with lastClaim := none } (.buildClaim ctx secret rpc found)
  | _ => True

/-- The slot holds nothing, or a withdraw for whom it was filled. -/
def SlotInv (s : InitiatorState) : Prop :=
  (s.lastClaim = none ∧ s.claimedFor = none) ∨
    ∃ secret escrow tx, s.claimedFor = some (secret, escrow) ∧ s.lastClaim = some tx ∧
      cfg.EncodesWithdraw tx escrow secret

/-- What the claim sends is a `withdraw` of the found escrow with the secret. -/
theorem send_encodes {rpc : AmoyRpc} {found : Hash → Option Hash} {escrow secret : Hash} {tx : Bytes × Hash}
    (h : (cfg.claimRpc rpc found).send escrow secret = some tx) :
    cfg.EncodesWithdraw (secret.1 ++ tx.1, tx.2) escrow secret := by
  obtain ⟨raw, hraw, hsend⟩ := Option.bind_eq_some_iff.mp h
  have htx : tx = (raw, cfg.crypto.keccak256 raw) := by
    simp only [sendEvmTx] at hsend
    split_ifs at hsend
    · exact (Option.some.inj hsend).symm
    · exact (Option.some.inj hsend).symm
  subst htx
  simp only [withdrawRaw, Option.bind_eq_bind, Option.bind_eq_some_iff] at hraw
  obtain ⟨price, -, nonce, -, hraw⟩ := hraw
  cases hraw
  refine ⟨_, rfl, signWith_txTo _ ?_ _⟩
  exact lt_of_le_of_lt (length_htlcWithdraw cfg.crypto.keccak256 escrow secret) (by decide)

/-- A claim replays the slot or keeps it, or fills the empty slot with what it sent for the found escrow. -/
theorem claimUsdc_sent (rpc : AmoyRpc) (found : Hash → Option Hash) (last : Option (Bytes × Hash))
    (ctx : SwapContext) (secret : Hash) :
    ((claimUsdc (cfg.claimRpc rpc found) last ctx secret).2 = last ∧
      ∀ tx, (claimUsdc (cfg.claimRpc rpc found) last ctx secret).1 = some tx →
        last = some tx ∧ ∃ escrow, found ctx.hashlock = some escrow) ∨
    (last = none ∧ ∃ escrow sent, found ctx.hashlock = some escrow ∧
      (cfg.claimRpc rpc found).send escrow secret = some sent ∧
      (claimUsdc (cfg.claimRpc rpc found) last ctx secret).2 = some (secret.1 ++ sent.1, sent.2) ∧
      ∀ tx, (claimUsdc (cfg.claimRpc rpc found) last ctx secret).1 = some tx →
        tx = (secret.1 ++ sent.1, sent.2)) := by
  have hfound : (cfg.claimRpc rpc found).found = found := rfl
  cases hf : found ctx.hashlock with
  | none =>
    refine .inl ⟨by simp only [claimUsdc, hfound, hf], fun tx htx => ?_⟩
    simp only [claimUsdc, hfound, hf] at htx
    cases htx
  | some escrow =>
    cases last with
    | some claim =>
      refine .inl ⟨by simp only [claimUsdc, hfound, hf], fun tx htx => ⟨?_, escrow, rfl⟩⟩
      simp only [claimUsdc, hfound, hf] at htx
      split at htx
      · split_ifs at htx
        exact htx
      · cases htx
    | none =>
      have hstays : ∀ out : Option (Bytes × Hash) × Option (Bytes × Hash), out = (none, none) →
          out.2 = none ∧ ∀ tx, out.1 = some tx → none = some tx ∧ ∃ e, some escrow = some e := by
        rintro out rfl
        exact ⟨rfl, fun tx htx => by cases htx⟩
      cases hsend : (cfg.claimRpc rpc found).send escrow secret with
      | none => exact .inl (hstays _ (by simp only [claimUsdc, hfound, hf, hsend]))
      | some tx =>
        cases hw : (cfg.claimRpc rpc found).waitReceipt tx.2 with
        | none => exact .inl (hstays _ (by simp only [claimUsdc, hfound, hf, hsend, hw]))
        | some receipt =>
          cases hs : receipt.success with
          | false => exact .inl (hstays _ (by simp [claimUsdc, hfound, hf, hsend, hw, hs]))
          | true =>
            refine .inr ⟨rfl, escrow, tx, rfl, hsend, ?_, ?_⟩
            · simp [claimUsdc, hfound, hf, hsend, hw, hs]
            · intro tx' htx
              simp only [claimUsdc, hfound, hf, hsend, hw, hs, Bool.not_true, Bool.false_eq_true, if_false]
                at htx
              split_ifs at htx
              exact (Option.some.inj htx).symm

/-- A claim replays the slot or keeps it, or fills the empty slot with a withdraw of the found escrow. -/
theorem claimUsdc_cases (rpc : AmoyRpc) (found : Hash → Option Hash) (last : Option (Bytes × Hash))
    (ctx : SwapContext) (secret : Hash) :
    ((claimUsdc (cfg.claimRpc rpc found) last ctx secret).2 = last ∧
      ∀ tx, (claimUsdc (cfg.claimRpc rpc found) last ctx secret).1 = some tx →
        last = some tx ∧ ∃ escrow, found ctx.hashlock = some escrow) ∨
    (last = none ∧ ∃ escrow claim, found ctx.hashlock = some escrow ∧
      cfg.EncodesWithdraw claim escrow secret ∧
      (claimUsdc (cfg.claimRpc rpc found) last ctx secret).2 = some claim ∧
      ∀ tx, (claimUsdc (cfg.claimRpc rpc found) last ctx secret).1 = some tx → tx = claim) := by
  obtain hkeep | ⟨hnone, escrow, sent, hf, hsend, hlast, hans⟩ := cfg.claimUsdc_sent rpc found last ctx secret
  · exact .inl hkeep
  · exact .inr ⟨hnone, escrow, _, hf, cfg.send_encodes hsend, hlast, hans⟩

theorem SlotInv.step {s : InitiatorState} (h : cfg.SlotInv s) (call : InitiatorCall) :
    cfg.SlotInv (cfg.step s call) := by
  cases call with
  | notePeer swapId peer => exact h
  | buildFunding ctx leg rpc nowMs => exact h
  | buildClaim ctx secret rpc found =>
    obtain ⟨he, -⟩ | ⟨hn, escrow, claim, hf, henc, he, -⟩ :=
      cfg.claimUsdc_cases rpc found s.lastClaim ctx secret
    · have hflag : (s.lastClaim.isNone && s.lastClaim.isSome) = false := by cases s.lastClaim <;> rfl
      simpa only [LiveInitiator.step, he, hflag, Bool.false_eq_true, if_false] using h
    · refine .inr ⟨secret, escrow, claim, ?_, he, henc⟩
      rw [hn] at he
      simp only [LiveInitiator.step, hn, he, hf, Option.isNone_none, Option.isSome_some, Bool.and_self, if_true,
        Option.map_some]

/-- A claim that finds the slot free answers for its own swap. -/
theorem perSwap_of_slotFree {s : InitiatorState} (hi : cfg.SlotInv s) {call : InitiatorCall}
    (hfree : s.SlotFree call) : cfg.PerSwap s call := by
  cases call with
  | notePeer swapId peer => trivial
  | buildFunding ctx leg rpc nowMs => trivial
  | buildClaim ctx secret rpc found =>
    constructor
    · intro tx htx
      obtain ⟨-, hrep⟩ | ⟨-, escrow, claim, hf, henc, -, hans⟩ :=
        cfg.claimUsdc_cases rpc found s.lastClaim ctx secret
      · obtain ⟨hl, escrow, hf⟩ := hrep tx htx
        rcases hi with ⟨hn, -⟩ | ⟨secret', escrow', tx', hb, hl', henc⟩
        · rw [hl] at hn
          cases hn
        · rw [hl] at hl'
          cases hl'
          cases hfree _ hb escrow hf
          exact ⟨escrow, hf, henc⟩
      · cases hans tx htx
        exact ⟨escrow, hf, henc⟩
    · intro other hother hne
      cases hf : found ctx.hashlock with
      | some escrow =>
        cases hfree other hother escrow hf
        exact absurd rfl hne
      | none =>
        have hfound : (cfg.claimRpc rpc found).found = found := rfl
        simp only [answer, claimUsdc, hfound, hf]

end LiveInitiator

/-- CORRECT: in every sequence of calls that each find the signer's slot free of other swaps, a funding
    of the responder is the `newSwap` of its own context, a claim of the initiator begins with its own
    secret and withdraws the escrow found for its own hashlock, and what another swap left in the slot
    changes nothing. -/
theorem live_calls_per_swap (responder : LiveResponder) (initiator : LiveInitiator) :
    (∀ pre call, Run.Along responder.step ResponderState.SlotFree {} (pre ++ [call]) →
      responder.PerSwap (Run.exec responder.step {} pre) call) ∧
    (∀ pre call, Run.Along initiator.step InitiatorState.SlotFree {} (pre ++ [call]) →
      initiator.PerSwap (Run.exec initiator.step {} pre) call) := by
  constructor
  · intro pre call ha
    have hi : responder.SlotInv (Run.exec responder.step {} pre) :=
      Run.exec_preserves (I := responder.SlotInv) responder.step
        (fun _ c h => LiveResponder.SlotInv.step responder h c) pre {} (.inl ⟨rfl, rfl⟩)
    exact responder.perSwap_of_slotFree hi ((Run.along_append _ _ _ _ _).mp ha).2.1
  · intro pre call ha
    have hi : initiator.SlotInv (Run.exec initiator.step {} pre) :=
      Run.exec_preserves (I := initiator.SlotInv) initiator.step
        (fun _ c h => LiveInitiator.SlotInv.step initiator h c) pre {} (.inl ⟨rfl, rfl⟩)
    exact initiator.perSwap_of_slotFree hi ((Run.along_append _ _ _ _ _).mp ha).2.1

namespace Sample

/-- The USDC side of the sample responder; it never asks the NIM side here. -/
def usdcSigner : LiveResponder where
  crypto := ⟨keccak256, fun _ => ByteArr.fill 32 0, crypto.addressOf⟩
  evmKey := ⟨funderAddress, signHash⟩
  htlc := escrowAddress
  usdc := usdcToken
  nimClaimKey := ⟨bobPubkey.1, fun _ => []⟩

/-- The claim side of the sample initiator. -/
def claimSigner : LiveInitiator where
  crypto := ⟨keccak256, fun _ => ByteArr.fill 32 0, crypto.addressOf⟩
  nimKey := ⟨pubkey.1, fun _ => []⟩
  evmGasKey := ⟨gasAddress, signHash⟩
  htlc := escrowAddress

/-- Another swap: 0.07 USDC under the SHA-256 of `43…43`. -/
def otherContext : SwapContext :=
  { fundingContext with
    swapId := ByteArr.fill 16 0xB2
    hashlock := word32 0x4113d54b0b611294b7f595b691c9db541fc0fc719848d6c5c34522eacc0b3a24
    takeAmount := 70000 }

/-- The escrow of the first swap reads live, everything else is unknown. -/
def firstLive (id : Hash) : Option UInt64 := if id = escrowSlot then some stateLive else none

/-- Both peers are known and the first swap is funded. -/
def firstFunded : List ResponderCall :=
  [.notePeer swapId initiatorPeer, .notePeer otherContext.swapId initiatorPeer,
   .buildFunding fundingContext .counterparty (amoy 0 firstLive) 1000000]

/-- The signed `newSwap` of the first swap. -/
def firstFunding : Bytes × Hash :=
  ((newSwapTx 1 1005000).signWith keccak256 ⟨funderAddress, signHash⟩,
    word32 0x790267fc1503c972be169a37351081a0f595a0d50e0ff712a945e5ff250ef1ba)

/-- The signed `withdraw` of the first swap's escrow. -/
def firstWithdraw : Bytes × Hash :=
  (secret.1 ++ (withdrawTx 0 escrowSlot).signWith keccak256 ⟨gasAddress, signHash⟩,
    word32 0x26eb7d389476237dcfe9fab388ff0aef7308043aa2492a5903346bcedd6bea34)

end Sample

/-- A call for the same swap, and the first claim of the other side, are in order. -/
theorem sample_calls_per_swap :
    (∃ tx, Sample.usdcSigner.answer (Run.exec Sample.usdcSigner.step {} Sample.firstFunded)
        (.buildFunding Sample.fundingContext .counterparty (Sample.amoy 2 Sample.firstLive) 1000100) = some tx ∧
      Sample.usdcSigner.EncodesNewSwap tx.1 100000 Sample.hashlock) ∧
    ∃ tx, Sample.claimSigner.answer {} (.buildClaim Sample.fundingContext Sample.secret
        (Sample.amoy 0 fun _ => some stateClaimed) fun _ => some Sample.escrowSlot) = some tx ∧
      Sample.claimSigner.EncodesWithdraw tx Sample.escrowSlot Sample.secret := by
  obtain ⟨hfund, hclaim⟩ := live_calls_per_swap Sample.usdcSigner Sample.claimSigner
  constructor
  · have hanswer : Sample.usdcSigner.answer (Run.exec Sample.usdcSigner.step {} Sample.firstFunded)
        (.buildFunding Sample.fundingContext .counterparty (Sample.amoy 2 Sample.firstLive) 1000100) =
        some Sample.firstFunding := by decide +kernel
    have hby : (Run.exec Sample.usdcSigner.step {} Sample.firstFunded).filledBy =
        some Sample.fundingContext := by decide +kernel
    have hfree : (Run.exec Sample.usdcSigner.step {} Sample.firstFunded).SlotFree
        (.buildFunding Sample.fundingContext .counterparty (Sample.amoy 2 Sample.firstLive) 1000100) := by
      intro filled hfilled
      rw [Option.some.inj (hfilled.symm.trans hby)]
      exact .inl ⟨rfl, rfl⟩
    have hfirst : Run.Along Sample.usdcSigner.step ResponderState.SlotFree {} Sample.firstFunded :=
      ⟨trivial, trivial, fun filled hfilled => absurd hfilled (by simp [LiveResponder.step]), trivial⟩
    have hper := hfund Sample.firstFunded (.buildFunding Sample.fundingContext .counterparty
      (Sample.amoy 2 Sample.firstLive) 1000100) ((Run.along_append _ _ _ _ _).mpr ⟨hfirst, hfree, trivial⟩)
    exact ⟨_, hanswer, (hper.1 _ hanswer).1⟩
  · have hanswer : Sample.claimSigner.answer {} (.buildClaim Sample.fundingContext Sample.secret
        (Sample.amoy 0 fun _ => some stateClaimed) fun _ => some Sample.escrowSlot) =
        some Sample.firstWithdraw := by decide +kernel
    have hfree : InitiatorState.SlotFree {} (.buildClaim Sample.fundingContext Sample.secret
        (Sample.amoy 0 fun _ => some stateClaimed) fun _ => some Sample.escrowSlot) := by
      intro filled hfilled
      cases hfilled
    have hper := hclaim [] (.buildClaim Sample.fundingContext Sample.secret
      (Sample.amoy 0 fun _ => some stateClaimed) fun _ => some Sample.escrowSlot) ⟨hfree, trivial⟩
    obtain ⟨escrow, hf, henc⟩ := hper.1 _ hanswer
    cases hf
    exact ⟨_, hanswer, henc⟩

theorem htlcNewSwap_hashlock_inj {keccak256 : Bytes → Hash} {receiver receiver' : EvmAddress}
    {amount amount' timelock timelock' : UInt64} {hashlock hashlock' : Hash}
    (h : htlcNewSwap keccak256 receiver amount hashlock timelock =
      htlcNewSwap keccak256 receiver' amount' hashlock' timelock') : hashlock = hashlock' := by
  have hhead := List.append_inj_left' h rfl
  exact Subtype.ext (List.append_inj_right' hhead (hashlock.2.trans hashlock'.2.symm))

/-- The other swap is handed the funding of the first: nothing is escrowed for it. -/
theorem other_swap_gets_first_funding :
    ¬ Sample.usdcSigner.PerSwap (Run.exec Sample.usdcSigner.step {} Sample.firstFunded)
      (.buildFunding Sample.otherContext .counterparty (Sample.amoy 2 Sample.firstLive) 1000100) := by
  rintro ⟨henc, -⟩
  have hanswer : Sample.usdcSigner.answer (Run.exec Sample.usdcSigner.step {} Sample.firstFunded)
      (.buildFunding Sample.otherContext .counterparty (Sample.amoy 2 Sample.firstLive) 1000100) =
      some Sample.firstFunding := by decide +kernel
  obtain ⟨⟨receiver, timelock, htx⟩, -⟩ := henc _ hanswer
  have hdata : (Sample.newSwapTx 1 1005000).data =
      htlcNewSwap Sample.keccak256 Sample.claimAddress 100000 Sample.hashlock 1005000 := by decide +kernel
  have hlen : (Sample.newSwapTx 1 1005000).data.length < 2 ^ 63 := by decide +kernel
  have hfirst : TxTo Sample.firstFunding.1 (Sample.newSwapTx 1 1005000).dest (Sample.newSwapTx 1 1005000).data :=
    signWith_txTo Sample.keccak256 hlen ⟨Sample.funderAddress, Sample.signHash⟩
  have hsame := (hfirst.unique htx).2
  rw [hdata] at hsame
  have hhash : Sample.hashlock ≠ Sample.otherContext.hashlock := by decide +kernel
  exact hhash (htlcNewSwap_hashlock_inj hsame)

end Nimmesh
