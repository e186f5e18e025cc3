import Nimmesh.Live.AmoyCrossRead
import Nimmesh.Live.BtcCrossRead
import Nimmesh.Live.PolygonLedger
import Nimmesh.Live.VerifiedEscrow

/-! @src swap_funding_verify.rs polygon_verifier.rs amoy_swap_verifier.rs btc_verifier.rs |
    name:Dust beside the funding | layer:properties

    Anyone can make another HTLC to the same recipient under the same hashlock. Every verifier reduces the
    matching ones to a single one before its amount and timeout are judged: the deepest, the earliest
    logged, the first listed. So an adequate HTLC passes the gate exactly when the one that is reported in
    its place is adequate too. -/

namespace Nimmesh
open Word

/-- The gate passes on an observation. -/
def Passes (obs : FundingObservation) (expect : HtlcExpectation) (need : UInt32) : Prop :=
  ∃ d, requireFunded obs expect need = .ok d

instance (obs : FundingObservation) (expect : HtlcExpectation) (need : UInt32) :
    Decidable (Passes obs expect need) :=
  match h : requireFunded obs expect need with
  | .ok d => .isTrue ⟨d, h⟩
  | .error _ => .isFalse fun ⟨d, hd⟩ => by rw [h] at hd; cases hd

/-! ### The ledger -/

/-- EXACT: beside an HTLC that is deep enough, the ledger passes the gate exactly when the deepest matching
    one has the amount and the timeout. -/
theorem LedgerVerifier.passes_iff (ledger : LedgerVerifier) (expect : HtlcExpectation) (need : UInt32)
    {h : OnChainHtlc} (hmem : h ∈ ledger.htlcs) (hmatch : Matches expect h) (hdeep : need ≤ h.confirmations) :
    Passes (ledger.observe expect) expect need ↔
      ∃ r, ledger.reported expect = some r ∧ expect.minAmount ≤ r.amount ∧ expect.minTimeout ≤ r.timeout := by
  have hdeepest : ∀ r, ledger.reported expect = some r → need ≤ r.confirmations := by
    intro r hr
    have hin : h ∈ ledger.htlcs.filter (Matches expect) := List.mem_filter.mpr ⟨hmem, by simpa using hmatch⟩
    have hle := List.le_of_mem_argmax hin hr
    rw [UInt32.le_iff_toNat_le] at hdeep ⊢
    exact hdeep.trans hle
  rw [Passes, requireFunded_ok_iff]
  constructor
  · rintro ⟨a, t, c, hobs, hamount, htimeout, -⟩
    obtain ⟨r, hr, rfl, rfl, rfl⟩ := (ledger.observe_found_iff expect a t c).mp hobs
    exact ⟨r, hr, hamount, htimeout⟩
  · rintro ⟨r, hr, hamount, htimeout⟩
    exact ⟨_, _, _, (ledger.observe_found_iff expect _ _ _).mpr ⟨r, hr, rfl, rfl, rfl⟩, hamount, htimeout,
      hdeepest r hr⟩

/-! ### The escrow contract -/

namespace EscrowChain

variable {chain : EscrowChain}

theorem le_depthBelow {need : UInt32} {finalized : Option UInt64} {head block : UInt64}
    (h : need.toNat ≤ head.toNat - block.toNat + 1) : need ≤ depthBelow finalized head block := by
  have hlt := need.toNat_lt
  rw [UInt32.le_iff_toNat_le]
  cases hfinal : finalized.any (block ≤ ·) with
  | true =>
    have hmax : finalizedConfirmations.toNat = 2 ^ 32 - 1 := rfl
    rw [depthBelow_of_final hfinal, hmax]
    omega
  | false =>
    rw [toNat_depthBelow hfinal]
    omega

/-- The escrow that is reported is no later than any live one that the scan reaches. -/
theorem reported_le {receiver : EvmAddress} {fromBlock : UInt64} {hashlock : Hash} {h r : LoggedSwap}
    (hmem : h ∈ chain.logs) (hreceiver : h.receiver = receiver) (hfrom : fromBlock ≤ h.block)
    (hlive : chain.LiveUnder hashlock h) (hr : chain.reported receiver fromBlock hashlock = some r) :
    r.block.toNat ≤ h.block.toNat := by
  have hin : h ∈ (chain.logsTo receiver fromBlock).filter (chain.LiveUnder hashlock) := by
    rw [List.mem_filter, logsTo, List.mem_filter]
    exact ⟨⟨hmem, by simpa using ⟨hreceiver, hfrom⟩⟩, by simpa using hlive⟩
  exact List.le_of_mem_argmin (f := fun l : LoggedSwap => l.block.toNat) hin hr

end EscrowChain

/-- EXACT: beside a live escrow that is deep enough, the deployed-contract scan passes the gate exactly when
    the earliest live one has the amount and the timeout. -/
theorem PolygonHtlcVerifier.passes_iff (v : PolygonHtlcVerifier) (chain : EscrowChain) (reads : PolygonReads)
    (secondary : Option PolygonReads) (expect : HtlcExpectation) (need : UInt32) (hs : chain.ShownBy v reads)
    (hsec : ∀ sec, secondary = some sec → chain.ShownBy v sec) {h : LoggedSwap} (hmem : h ∈ chain.logs)
    (hleg : expect.leg = .counterparty) (hrec : expect.recipient = h.receiver.1)
    (hfrom : v.fromBlock ≤ h.block) (hlive : chain.LiveUnder expect.hashlock h)
    (hdeep : need.toNat ≤ chain.head.toNat - h.block.toNat + 1) :
    Passes (v.observe reads secondary expect) expect need ↔
      ∃ r, chain.reported h.receiver v.fromBlock expect.hashlock = some r ∧
        expect.minAmount ≤ r.amount64 ∧ expect.minTimeout ≤ r.timelock64 := by
  have hlow := PolygonReads.crossHead_agree fun sec hs' => (hsec sec hs').head
  rw [Passes, requireFunded_ok_iff]
  constructor
  · rintro ⟨a, t, c, hobs, hamount, htimeout, -⟩
    obtain ⟨-, recipient, low, r, he, -, hr, rfl, rfl, -⟩ := (hs.observe_found_iff secondary expect a t c).mp hobs
    obtain rfl : recipient = h.receiver := Subtype.ext (he.symm.trans hrec)
    exact ⟨r, hr, hamount, htimeout⟩
  · rintro ⟨r, hr, hamount, htimeout⟩
    have hle := EscrowChain.reported_le hmem rfl hfrom hlive hr
    exact ⟨_, _, _, (hs.observe_found_iff secondary expect _ _ _).mpr
      ⟨hleg, h.receiver, chain.head, r, hrec, hlow, hr, rfl, rfl, rfl⟩, hamount, htimeout,
      EscrowChain.le_depthBelow (by omega)⟩

/-- A store that holds the genuine funding as a candidate, and no anchor that starts the scan past it. -/
structure PolygonFundingStore.Reaches (store : PolygonFundingStore) (v : AmoyHtlcSwapVerifier)
    (reads : AmoyReads) (block : UInt64) : Prop where
  mined : ∃ genuine ∈ store.candidates, minedAt reads genuine = some block
  resolved : ∀ a, store.anchorBlock = some a → satSub a v.fromBlockMargin ≤ block

/-- The scan starts at or before the block of the genuine funding. -/
theorem PolygonFundingStore.Reaches.anchor {store : PolygonFundingStore} {v : AmoyHtlcSwapVerifier}
    {reads : AmoyReads} {block : UInt64} (h : store.Reaches v reads block) :
    ∃ anchor, (store.anchor reads).1 = some anchor ∧ satSub anchor v.fromBlockMargin ≤ block := by
  rw [PolygonFundingStore.anchor]
  cases hanchor : store.anchorBlock with
  | some a => exact ⟨a, rfl, h.resolved a hanchor⟩
  | none =>
    obtain ⟨genuine, hgen, hblock⟩ := h.mined
    have hin : block ∈ store.candidates.filterMap (minedAt reads) := List.mem_filterMap.mpr ⟨genuine, hgen, hblock⟩
    have hearliest := earliestCandidate_eq reads store.candidates
    cases hbest : (store.candidates.filterMap (minedAt reads)).argmin (·.toNat) with
    | none =>
      rw [List.argmin_eq_none.mp hbest] at hin
      cases hin
    | some best =>
      rw [hbest] at hearliest
      have hle := List.le_of_mem_argmin hin hbest
      refine ⟨best, by simp only [hearliest], ?_⟩
      rw [UInt64.le_iff_toNat_le, toNat_satSub]
      omega

/-- EXACT: with the genuine funding noted and mined, the anchored scan passes the gate exactly when the
    earliest live escrow from its start on has the amount and the timeout. -/
theorem AmoyHtlcSwapVerifier.passes_iff (v : AmoyHtlcSwapVerifier) (chain : EscrowChain) (reads : AmoyReads)
    (secondary : Option AmoyReads) (nowS : UInt64) (store : PolygonFundingStore) (expect : HtlcExpectation)
    (need : UInt32) (hs : chain.ShownTo v reads) (hsec : ∀ sec, secondary = some sec → chain.ShownTo v sec)
    {h : LoggedSwap} (hmem : h ∈ chain.logs) (hleg : expect.leg = .counterparty)
    (hrec : h.receiver = v.ownClaimAddress) (hlive : chain.LiveUnder expect.hashlock h)
    (hreach : store.Reaches v reads h.block) (hdeep : need.toNat ≤ chain.head.toNat - h.block.toNat + 1) :
    ∃ anchor, (store.anchor reads).1 = some anchor ∧
      (Passes (v.observe reads secondary nowS store expect).1 expect need ↔
        ∃ r, chain.reported v.ownClaimAddress (satSub anchor v.fromBlockMargin) expect.hashlock = some r ∧
          expect.minAmount ≤ r.amount64 ∧ expect.minTimeout ≤
            termEquivalentOfTimelockS r.timelock64 nowS expect.termAnchor v.slackS) := by
  obtain ⟨anchor, hanchor, hfrom⟩ := hreach.anchor
  have hlow := crossHead_agree fun sec hs' => (hsec sec hs').head
  refine ⟨anchor, hanchor, ?_⟩
  rw [Passes, requireFunded_ok_iff]
  constructor
  · rintro ⟨a, t, c, hobs, hamount, htimeout, -⟩
    obtain ⟨-, anchor', low, r, ha, -, hr, -, rfl, rfl, -⟩ :=
      (hs.observe_found_iff secondary nowS store expect a t c).mp hobs
    obtain rfl : anchor' = anchor := Option.some.inj (ha.symm.trans hanchor)
    exact ⟨r, hr, hamount, htimeout⟩
  · rintro ⟨r, hr, hamount, htimeout⟩
    have hle := EscrowChain.reported_le hmem hrec hfrom hlive hr
    obtain ⟨-, -, -, hunder⟩ := EscrowChain.mem_of_reported hr
    have hsecond : ∀ sec, secondary = some sec → sec.escrowState r.swapId = some stateLive := by
      intro sec hsome
      rw [(hsec sec hsome).slot, (EscrowState.code_eq_live _).mpr hunder.2.2]
    exact ⟨_, _, _, (hs.observe_found_iff secondary nowS store expect _ _ _).mpr
      ⟨hleg, anchor, chain.head, r, hanchor, hlow, hr, hsecond, rfl, rfl, rfl⟩, hamount, htimeout,
      EscrowChain.le_depthBelow (by omega)⟩

/-! ### The Bitcoin script -/

/-- The source answers every read of the verifier from the chain. -/
structure BtcChain.ShownBy (chain : BtcChain) (v : BtcHtlcVerifier) (reads : BitcoinReads) : Prop
    extends chain.AnsweredBy v reads where
  answers : ∃ txs, reads.addressTxs v.expectedAddr = some txs
  knows : ∀ c ∈ chain.txs, ∃ s, reads.txStatus c.tx.txid = some s
  tipped : reads.tipHeight = some chain.tip

namespace BtcHtlcVerifier

variable {v : BtcHtlcVerifier} {chain : BtcChain} {reads : BitcoinReads}

theorem spent_of_holds (hs : chain.ShownBy v reads) {txs : List BtcAddressTx}
    (htxs : reads.addressTxs v.expectedAddr = some txs) {f : BtcFunding} {valueSat : UInt64}
    (h : chain.Holds v.expectedSpk f.outpoint valueSat) : spent txs f.outpoint = false := by
  rw [Bool.eq_false_iff]
  intro hspent
  obtain ⟨tx, htx, ho⟩ := List.any_eq_true.mp hspent
  obtain ⟨o, hin, heq⟩ := List.any_eq_true.mp ho
  obtain ⟨c, hc, rfl⟩ := hs.listed txs htxs tx htx
  rw [of_decide_eq_true heq] at hin
  exact h.2 c hc hin

/-- The depth is enough exactly when none is needed or the transaction is buried that deep. -/
theorem le_btcDepth_iff (hs : chain.ShownBy v reads) {txid : String} {s : BtcTxStatus} {block : UInt64}
    (hstatus : reads.txStatus txid = some s) (hb : s.block = some block) (need : UInt32) :
    need ≤ btcDepth chain.tip block ↔ need = 0 ∨ chain.Confirmed txid need.toNat := by
  have hlt := need.toNat_lt
  rw [UInt32.le_iff_toNat_le, toNat_btcDepth]
  obtain ⟨c, hc, hid, hblock⟩ := (hs.status txid s hstatus block).mp hb
  constructor
  · intro h
    exact .inr ⟨c, hc, hid, block, hblock, by omega⟩
  · rintro (rfl | ⟨c', hc', hid', b, hb', hdeep⟩)
    · exact Nat.zero_le _
    · have hsame := (hs.status txid s hstatus b).mpr ⟨c', hc', hid', hb'⟩
      rw [hb] at hsame
      cases hsame
      omega

/-- EXACT: beside an adequate output of the script, the gate passes exactly when the output that is listed
    first is unspent and has the amount and the depth. -/
theorem passes_iff (v : BtcHtlcVerifier) (chain : BtcChain) (reads : BitcoinReads)
    (secondary : Option BitcoinReads) (expect : HtlcExpectation) (need : UInt32) (hs : chain.ShownBy v reads)
    (hsec : ∀ sec, secondary = some sec → chain.ShownBy v sec) (hleg : expect.leg = .counterparty)
    (hhash : v.hashlock = expect.hashlock) (htime : expect.minTimeout ≤ v.cltvLocktime) :
    ∃ txs, reads.addressTxs v.expectedAddr = some txs ∧
      (Passes (v.observe reads secondary expect) expect need ↔
        ∃ f, (v.payments txs).head? = some f ∧ chain.Holds v.expectedSpk f.outpoint f.valueSat ∧
          expect.minAmount ≤ f.valueSat ∧
          (need = 0 ∨ chain.Confirmed f.outpoint.txid need.toNat)) := by
  obtain ⟨txs, htxs⟩ := hs.answers
  refine ⟨txs, htxs, ?_⟩
  have hcross : ∀ txid s block, reads.txStatus txid = some s → s.block = some block →
      crossTip secondary txid block chain.tip = some chain.tip := by
    intro txid s block hstatus hb
    cases secondary with
    | none => rfl
    | some sec =>
      obtain ⟨c, hc, rfl, hblock⟩ := (hs.status txid s hstatus block).mp hb
      obtain ⟨s', hs'⟩ := (hsec sec rfl).knows c hc
      exact crossTip_eq_some.mpr ⟨s', chain.tip, hs', ((hsec sec rfl).status _ s' hs' block).mpr ⟨c, hc, rfl, hblock⟩,
        (hsec sec rfl).tipped, ite_self _⟩
  rw [Passes, requireFunded_ok_iff]
  constructor
  · rintro ⟨a, t, k, hobs, hamount, -, hdeep⟩
    obtain ⟨-, -, -, txs', f, s, htxs', hf, hspent, hstatus, rfl, hdepth⟩ :=
      (v.observe_found_iff _ _ _ _ _ _).mp hobs
    obtain rfl : txs' = txs := Option.some.inj (htxs'.symm.trans htxs)
    refine ⟨f, hf, (holds_iff_listsTruly htxs hf hspent).mpr (listsTruly_of_answered hs.toAnsweredBy), hamount, ?_⟩
    rcases hdepth with ⟨-, rfl⟩ | ⟨block, tip, low, hb, ht, hlow, rfl⟩
    · exact .inl (UInt32.le_zero_iff.mp hdeep)
    · obtain rfl : tip = chain.tip := Option.some.inj (ht.symm.trans hs.tipped)
      obtain rfl : low = chain.tip := Option.some.inj (hlow.symm.trans (hcross _ s block hstatus hb))
      exact (le_btcDepth_iff hs hstatus hb need).mp hdeep
  · rintro ⟨f, hf, hholds, hamount, hdepth⟩
    obtain ⟨⟨value, ⟨c, hc, hid, -⟩, -⟩, -⟩ := id hholds
    obtain ⟨s, hstatus⟩ := hs.knows c hc
    rw [hid] at hstatus
    have hspent := spent_of_holds hs htxs hholds
    cases hb : s.block with
    | none =>
      have hzero : need = 0 := by
        rcases hdepth with h0 | ⟨c', hc', hid', b, hb', -⟩
        · exact h0
        · have hsome := (hs.status _ s hstatus b).mpr ⟨c', hc', hid', hb'⟩
          rw [hb] at hsome
          cases hsome
      exact ⟨_, _, 0, (v.observe_found_iff _ _ _ _ _ _).mpr ⟨hleg, hhash, rfl, txs, f, s, htxs, hf, hspent,
        hstatus, rfl, .inl ⟨hb, rfl⟩⟩, hamount, htime, hzero ▸ UInt32.le_refl 0⟩
    | some block =>
      exact ⟨_, _, _, (v.observe_found_iff _ _ _ _ _ _).mpr ⟨hleg, hhash, rfl, txs, f, s, htxs, hf, hspent,
        hstatus, rfl, .inr ⟨block, chain.tip, chain.tip, hb, hs.tipped, hcross _ s block hstatus hb, rfl⟩⟩,
        hamount, htime, (le_btcDepth_iff hs hstatus hb need).mpr hdepth⟩

end BtcHtlcVerifier

/-- EXACT: beside an HTLC that is deep enough, whatever else anyone put on the chain, each verifier passes the
    gate exactly when the one HTLC it reports is adequate: the deepest of the ledger, the earliest logged
    that is live, the first listed output of the script. -/
theorem dust_exact :
    (∀ (ledger : LedgerVerifier) (expect : HtlcExpectation) (need : UInt32) (h : OnChainHtlc),
      h ∈ ledger.htlcs → LedgerVerifier.Matches expect h → need ≤ h.confirmations →
      (Passes (ledger.observe expect) expect need ↔
        ∃ r, ledger.reported expect = some r ∧ expect.minAmount ≤ r.amount ∧
          expect.minTimeout ≤ r.timeout)) ∧
    (∀ (v : PolygonHtlcVerifier) (chain : EscrowChain) (reads : PolygonReads)
      (secondary : Option PolygonReads) (expect : HtlcExpectation) (need : UInt32) (h : LoggedSwap),
      chain.ShownBy v reads → (∀ sec, secondary = some sec → chain.ShownBy v sec) → h ∈ chain.logs →
      expect.leg = .counterparty → expect.recipient = h.receiver.1 → v.fromBlock ≤ h.block →
      chain.LiveUnder expect.hashlock h → need.toNat ≤ chain.head.toNat - h.block.toNat + 1 →
      (Passes (v.observe reads secondary expect) expect need ↔
        ∃ r, chain.reported h.receiver v.fromBlock expect.hashlock = some r ∧
          expect.minAmount ≤ r.amount64 ∧ expect.minTimeout ≤ r.timelock64)) ∧
    (∀ (v : AmoyHtlcSwapVerifier) (chain : EscrowChain) (reads : AmoyReads) (secondary : Option AmoyReads)
      (nowS : UInt64) (store : PolygonFundingStore) (expect : HtlcExpectation) (need : UInt32)
      (h : LoggedSwap),
      chain.ShownTo v reads → (∀ sec, secondary = some sec → chain.ShownTo v sec) → h ∈ chain.logs →
      expect.leg = .counterparty → h.receiver = v.ownClaimAddress → chain.LiveUnder expect.hashlock h →
      store.Reaches v reads h.block → need.toNat ≤ chain.head.toNat - h.block.toNat + 1 →
      ∃ anchor, (store.anchor reads).1 = some anchor ∧
        (Passes (v.observe reads secondary nowS store expect).1 expect need ↔
          ∃ r, chain.reported v.ownClaimAddress (satSub anchor v.fromBlockMargin) expect.hashlock = some r ∧
            expect.minAmount ≤ r.amount64 ∧ expect.minTimeout ≤
              termEquivalentOfTimelockS r.timelock64 nowS expect.termAnchor v.slackS)) ∧
    (∀ (v : BtcHtlcVerifier) (chain : BtcChain) (reads : BitcoinReads) (secondary : Option BitcoinReads)
      (expect : HtlcExpectation) (need : UInt32),
      chain.ShownBy v reads → (∀ sec, secondary = some sec → chain.ShownBy v sec) →
      expect.leg = .counterparty → v.hashlock = expect.hashlock → expect.minTimeout ≤ v.cltvLocktime →
      ∃ txs, reads.addressTxs v.expectedAddr = some txs ∧
        (Passes (v.observe reads secondary expect) expect need ↔
          ∃ f, (v.payments txs).head? = some f ∧ chain.Holds v.expectedSpk f.outpoint f.valueSat ∧
            expect.minAmount ≤ f.valueSat ∧
            (need = 0 ∨ chain.Confirmed f.outpoint.txid need.toNat))) := by
  refine ⟨fun ledger expect need h hmem hmatch hdeep => ?_,
    fun v chain reads secondary expect need h hs hsec hmem hleg hrec hfrom hlive hdeep => ?_,
    fun v chain reads secondary nowS store expect need h hs hsec hmem hleg hrec hlive hreach hdeep => ?_,
    fun v chain reads secondary expect need hs hsec hleg hhash htime => ?_⟩
  · exact ledger.passes_iff expect need hmem hmatch hdeep
  · exact v.passes_iff chain reads secondary expect need hs hsec hmem hleg hrec hfrom hlive hdeep
  · exact v.passes_iff chain reads secondary nowS store expect need hs hsec hmem hleg hrec hlive hreach hdeep
  · exact v.passes_iff chain reads secondary expect need hs hsec hleg hhash htime

/-! ### One micro-USDC in front -/

namespace Sample

/-- The sample escrow in block 100, and one micro-USDC under the same hashlock in block `dust`. -/
def crowdedLogs (dust : UInt64) : List LoggedSwap :=
  [loggedEscrow 100, ⟨cheapSlot, claimAddress, 1, hashlock, 1005000, dust⟩]

def crowded (dust : UInt64) (h : dust ≤ 150) : EscrowChain where
  logs := crowdedLogs dust
  slots := liveSlots (crowdedLogs dust)
  head := 150
  finalized := none
  below l hl := by
    rcases List.mem_cons.mp hl with rfl | hl
    · decide
    · rw [List.mem_singleton.mp hl]
      exact h

/-- The two escrows on the ledger. -/
def crowdedLedger : LedgerVerifier where
  htlcs := [⟨.counterparty, hashlock, claimAddress.1, 100000, 1005000, 51⟩,
    ⟨.counterparty, hashlock, claimAddress.1, 1, 1005000, 53⟩]

/-- The genuine funding was mined in block 100. -/
def fundingReceipt (hash : Hash) : Option TxReceipt :=
  if hash = word32 7 then some ⟨true, 100⟩ else none

/-- One satoshi to the same script. -/
def dustPaying : BtcAddressTx :=
  ⟨"2d711642b726b04401627ca9fbac32f5c8530fb1903cc4db02258717921a4881", [], [⟨btcVerifier.expectedSpk, 1⟩]⟩

def crowdedBtc : BtcChain where
  txs := [⟨btcPaying btcVerifier.expectedSpk, some 100⟩, ⟨dustPaying, some 120⟩]
  tip := 150
  below := by simp
  short c hc := by
    rcases List.mem_cons.mp hc with rfl | hc
    · exact (by decide : 1 < 2 ^ 32)
    · rw [List.mem_singleton.mp hc]
      exact (by decide : 1 < 2 ^ 32)

/-- A source that lists the newest first. -/
def crowdedReads : BitcoinReads where
  addressTxs _ := some [dustPaying, btcPaying btcVerifier.expectedSpk]
  txStatus txid := some (if txid = dustPaying.txid then ⟨true, some 120⟩
    else if txid = (btcPaying btcVerifier.expectedSpk).txid then ⟨true, some 100⟩ else ⟨false, none⟩)
  tipHeight := some 150

theorem crowdedBtc_shown : crowdedBtc.ShownBy btcVerifier crowdedReads where
  listed txs h tx htx := by
    cases h
    rcases List.mem_cons.mp htx with rfl | htx
    · exact ⟨_, List.mem_cons_of_mem _ (List.mem_singleton_self _), rfl⟩
    · exact ⟨_, List.mem_cons_self, (List.mem_singleton.mp htx).symm⟩
  complete txs h c hc o value _ _ := by
    cases h
    rcases List.mem_cons.mp hc with rfl | hc
    · exact List.mem_cons_of_mem _ (List.mem_singleton_self _)
    · rw [List.mem_singleton.mp hc]
      exact List.mem_cons_self
  status txid s h b := by
    have hne : ¬ (btcPaying btcVerifier.expectedSpk).txid = dustPaying.txid := by decide
    simp only [crowdedReads, Option.some.injEq] at h
    subst h
    simp only [crowdedBtc, List.mem_cons, List.not_mem_nil, or_false, exists_eq_or_imp, exists_eq_left]
    by_cases hdust : txid = dustPaying.txid
    · subst hdust
      simp [hne, BtcTxStatus.block]
    · have hdust' : ¬ dustPaying.txid = txid := fun h => hdust h.symm
      by_cases hfund : txid = (btcPaying btcVerifier.expectedSpk).txid
      · subst hfund
        simp [hne, hdust', BtcTxStatus.block]
      · have hfund' : ¬ (btcPaying btcVerifier.expectedSpk).txid = txid := fun h => hfund h.symm
        simp [hdust, hdust', hfund, hfund', BtcTxStatus.block]
  tip n h := (Option.some.inj h).symm
  answers := ⟨_, rfl⟩
  knows c _ := ⟨_, rfl⟩
  tipped := rfl

/-- The sample output is unspent, and 51 blocks deep. -/
theorem crowdedBtc_funds : crowdedBtc.Funds btcVerifier.expectedSpk
    ⟨(btcPaying btcVerifier.expectedSpk).txid, 0⟩ 20000 3 := by
  refine ⟨⟨⟨20000, ⟨_, List.mem_cons_self, rfl, rfl⟩, UInt64.le_refl _⟩, fun c hc => ?_⟩,
    _, List.mem_cons_self, rfl, 100, rfl, by decide⟩
  rcases List.mem_cons.mp hc with rfl | hc
  · exact List.not_mem_nil
  · rw [List.mem_singleton.mp hc]
    exact List.not_mem_nil

end Sample

/-- The dust of a later block leaves the sample escrow verifiable. -/
theorem sample_dust_exact :
    Passes (Sample.scanVerifier.observe (Sample.crowded 120 (by decide)).serve none Sample.scanExpectation)
      Sample.scanExpectation 20 := by
  have hreported : (Sample.crowded 120 (by decide)).reported Sample.claimAddress 50 Sample.hashlock =
      some (Sample.loggedEscrow 100) := by decide +kernel
  refine (dust_exact.2.1 Sample.scanVerifier (Sample.crowded 120 (by decide)) _ none Sample.scanExpectation 20
    (Sample.loggedEscrow 100) (EscrowChain.shownBy_serve _ _) (fun _ h => by cases h) (by decide) rfl rfl
    (by decide) (by decide +kernel) (by decide)).mpr ⟨_, hreported, by decide +kernel, by decide +kernel⟩

/-- With every verifier, dust in front of an adequate HTLC keeps it from passing the gate. -/
theorem dust_hides_the_funding :
    (∃ (ledger : LedgerVerifier) (expect : HtlcExpectation) (need : UInt32) (h : OnChainHtlc),
      h ∈ ledger.htlcs ∧ LedgerVerifier.Matches expect h ∧ expect.minAmount ≤ h.amount ∧
      expect.minTimeout ≤ h.timeout ∧ need ≤ h.confirmations ∧
      ¬ Passes (ledger.observe expect) expect need) ∧
    (∃ (v : PolygonHtlcVerifier) (chain : EscrowChain) (expect : HtlcExpectation) (need : UInt32)
      (h : LoggedSwap), h ∈ chain.logs ∧ expect.leg = .counterparty ∧ expect.recipient = h.receiver.1 ∧
      v.fromBlock ≤ h.block ∧ chain.LiveUnder expect.hashlock h ∧ expect.minAmount ≤ h.amount64 ∧
      expect.minTimeout ≤ h.timelock64 ∧ need.toNat ≤ chain.head.toNat - h.block.toNat + 1 ∧
      ¬ Passes (v.observe chain.serve none expect) expect need) ∧
    (∃ (v : AmoyHtlcSwapVerifier) (chain : EscrowChain) (receipt : Hash → Option TxReceipt) (nowS : UInt64)
      (store : PolygonFundingStore) (expect : HtlcExpectation) (need : UInt32) (h : LoggedSwap),
      h ∈ chain.logs ∧ expect.leg = .counterparty ∧ h.receiver = v.ownClaimAddress ∧
      chain.LiveUnder expect.hashlock h ∧ store.Reaches v (chain.serveAmoy receipt) h.block ∧
      expect.minAmount ≤ h.amount64 ∧
      expect.minTimeout ≤ termEquivalentOfTimelockS h.timelock64 nowS expect.termAnchor v.slackS ∧
      need.toNat ≤ chain.head.toNat - h.block.toNat + 1 ∧
      ¬ Passes (v.observe (chain.serveAmoy receipt) none nowS store expect).1 expect need) ∧
    (∃ (v : BtcHtlcVerifier) (chain : BtcChain) (reads : BitcoinReads) (expect : HtlcExpectation)
      (need : UInt32) (o : BtcOutpoint), chain.ShownBy v reads ∧ expect.leg = .counterparty ∧
      v.hashlock = expect.hashlock ∧ expect.minTimeout ≤ v.cltvLocktime ∧
      chain.Funds v.expectedSpk o expect.minAmount need.toNat ∧
      ¬ Passes (v.observe reads none expect) expect need) := by
  refine ⟨⟨Sample.crowdedLedger, Sample.scanExpectation, 20, _, List.mem_cons_self, by decide +kernel⟩,
    ⟨Sample.scanVerifier, Sample.crowded 98 (by decide), Sample.scanExpectation, 20, Sample.loggedEscrow 100,
      by decide, rfl, rfl, by decide, by decide +kernel⟩,
    ⟨Sample.amoyVerifier, Sample.crowded 98 (by decide), Sample.fundingReceipt, 1000000, Sample.anchored,
      Sample.scanExpectation, 20, Sample.loggedEscrow 100, by decide, rfl, rfl, by decide +kernel,
      ⟨⟨_, List.mem_singleton_self _, by decide +kernel⟩, fun _ h => by cases h⟩, by decide +kernel⟩,
    ⟨Sample.btcVerifier, Sample.crowdedBtc, Sample.crowdedReads,
      ⟨.counterparty, Sample.hashlock, 20000, 5000, [], 0⟩, 3,
      ⟨(Sample.btcPaying Sample.btcVerifier.expectedSpk).txid, 0⟩, Sample.crowdedBtc_shown, rfl, rfl, by decide,
      Sample.crowdedBtc_funds, by decide +kernel⟩⟩

end Nimmesh
