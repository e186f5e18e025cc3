import Nimmesh.Live.EscrowChain
import Nimmesh.Swap.LedgerVerifier

/-! @src polygon_verifier.rs swap_funding_verify.rs | name:The scan refines the ledger | layer:refinement

    The live escrows of the chain, each at its depth below the head, are a ledger. The scan of the
    deployed contract and the ledger verifier pick the same one: the lowest block is the greatest depth.
    Finality and a second head change the depth that is reported, never the escrow. -/

namespace Nimmesh

namespace EscrowChain

variable {chain : EscrowChain} {v : PolygonHtlcVerifier} {reads : PolygonReads}

/-- A log as the ledger holds it. -/
def onLedger (chain : EscrowChain) (l : LoggedSwap) : OnChainHtlc where
  leg := .counterparty
  hashlock := l.hashlock
  recipient := l.receiver.1
  amount := l.amount64
  timeout := l.timelock64
  confirmations := (chain.head - l.block + 1).toNat.toUInt32

/-- The live escrows in log order. -/
def ledger (chain : EscrowChain) : LedgerVerifier where
  htlcs := (chain.logs.filter fun l => (chain.slots l.swapId).state = .live).map chain.onLedger

/-! ### The depth -/

theorem toNat_onLedger (hhead : chain.head.toNat < 2 ^ 32 - 1) {l : LoggedSwap} (hl : l ∈ chain.logs) :
    (chain.onLedger l).confirmations.toNat = chain.head.toNat - l.block.toNat + 1 := by
  have hle := UInt64.le_iff_toNat_le.mp (chain.below l hl)
  have hone : (1 : UInt64).toNat = 1 := rfl
  have hsub : (chain.head - l.block).toNat = chain.head.toNat - l.block.toNat :=
    UInt64.toNat_sub_of_le _ _ (chain.below l hl)
  have hdepth : (chain.head - l.block + 1).toNat = chain.head.toNat - l.block.toNat + 1 := by
    rw [UInt64.toNat_add, hsub, hone, Nat.mod_eq_of_lt (by omega)]
  rw [onLedger, hdepth, Nat.toUInt32_eq, UInt32.toNat_ofNat', Nat.mod_eq_of_lt (by omega)]

/-- Deeper on the ledger is lower on the chain. -/
theorem onLedger_lt_iff (hhead : chain.head.toNat < 2 ^ 32 - 1) {l l' : LoggedSwap} (hl : l ∈ chain.logs)
    (hl' : l' ∈ chain.logs) :
    (chain.onLedger l).confirmations.toNat < (chain.onLedger l').confirmations.toNat ↔
      l'.block.toNat < l.block.toNat := by
  have hle := UInt64.le_iff_toNat_le.mp (chain.below l hl)
  have hle' := UInt64.le_iff_toNat_le.mp (chain.below l' hl')
  rw [toNat_onLedger hhead hl, toNat_onLedger hhead hl']
  omega

/-- Below one head the scan counts the depth of the ledger, below a lower head less. -/
theorem depthBelow_le_onLedger (hhead : chain.head.toNat < 2 ^ 32 - 1) {l : LoggedSwap} (hl : l ∈ chain.logs)
    {finalized : Option UInt64} {low : UInt64} (hlow : low ≤ chain.head)
    (hfinal : finalized.any (l.block ≤ ·) = false) :
    depthBelow finalized low l.block ≤ (chain.onLedger l).confirmations ∧
      (low = chain.head → depthBelow finalized low l.block = (chain.onLedger l).confirmations) := by
  have hle := UInt64.le_iff_toNat_le.mp (chain.below l hl)
  rw [UInt64.le_iff_toNat_le] at hlow
  constructor
  · rw [UInt32.le_iff_toNat_le, toNat_depthBelow hfinal, toNat_onLedger hhead hl]
    omega
  · rintro rfl
    apply UInt32.toNat_inj.mp
    rw [toNat_depthBelow hfinal, toNat_onLedger hhead hl]
    omega

/-! ### The same escrow -/

/-- The matching HTLCs of the ledger are the logs that the scan keeps. -/
theorem ledger_matching (hsmall : ∀ l ∈ chain.logs, l.Small) (hfrom : ∀ l ∈ chain.logs, v.fromBlock ≤ l.block)
    {expect : HtlcExpectation} (hleg : expect.leg = .counterparty) {recipient : EvmAddress}
    (hrec : expect.recipient = recipient.1) :
    chain.ledger.htlcs.filter (LedgerVerifier.Matches expect) =
      ((chain.logsTo recipient v.fromBlock).filter (chain.LiveUnder expect.hashlock)).map chain.onLedger := by
  rw [ledger, logsTo, List.filter_map, List.filter_filter, List.filter_filter]
  congr 1
  refine List.filter_congr fun l hl => ?_
  have hreceiver : l.receiver.1 = recipient.1 ↔ l.receiver = recipient := Subtype.ext_iff.symm
  rw [Function.comp, ← Bool.decide_and, ← Bool.decide_and]
  apply decide_eq_decide.mpr
  simp only [LedgerVerifier.Matches, onLedger, hleg, hrec, hreceiver, LiveUnder, hsmall l hl, hfrom l hl]
  tauto

theorem ShownBy.observe_found_to_iff (hs : chain.ShownBy v reads) {expect : HtlcExpectation}
    (hleg : expect.leg = .counterparty) {recipient : EvmAddress} (hrec : expect.recipient = recipient.1)
    (secondary : Option PolygonReads) (a t : UInt64) (c : UInt32) :
    v.observe reads secondary expect = .found a t c ↔
      ∃ low l, PolygonReads.crossHead secondary chain.head = some low ∧
        chain.reported recipient v.fromBlock expect.hashlock = some l ∧ l.amount64 = a ∧
        l.timelock64 = t ∧ depthBelow (reads.conservativeFinalized secondary low) low l.block = c := by
  rw [hs.observe_found_iff]
  constructor
  · rintro ⟨-, recipient', low, l, he, h⟩
    obtain rfl : recipient' = recipient := Subtype.ext (he.symm.trans hrec)
    exact ⟨low, l, h⟩
  · rintro ⟨low, l, h⟩
    exact ⟨hleg, recipient, low, l, hrec, h⟩

section

variable {expect : HtlcExpectation} {recipient : EvmAddress} (hhead : chain.head.toNat < 2 ^ 32 - 1)
  (hsmall : ∀ l ∈ chain.logs, l.Small) (hfrom : ∀ l ∈ chain.logs, v.fromBlock ≤ l.block)
  (hleg : expect.leg = .counterparty) (hrec : expect.recipient = recipient.1)

include hhead hsmall hfrom hleg hrec

/-- The deepest on the ledger is the earliest on the chain. -/
theorem ledger_reported :
    chain.ledger.reported expect =
      (chain.reported recipient v.fromBlock expect.hashlock).map chain.onLedger := by
  rw [LedgerVerifier.reported, ledger_matching hsmall hfrom hleg hrec, reported]
  refine Select.argmax_map fun l hl l' hl' => ?_
  have hmem : ∀ l ∈ (chain.logsTo recipient v.fromBlock).filter (chain.LiveUnder expect.hashlock),
      l ∈ chain.logs := fun l hl => List.mem_of_mem_filter (List.mem_of_mem_filter hl)
  exact onLedger_lt_iff hhead (hmem l hl) (hmem l' hl')

/-- What the ledger finds is the escrow that the scan reports. -/
theorem ledger_observe_found_iff (a t : UInt64) (c : UInt32) :
    chain.ledger.observe expect = .found a t c ↔
      ∃ l, chain.reported recipient v.fromBlock expect.hashlock = some l ∧ l.amount64 = a ∧
        l.timelock64 = t ∧ (chain.onLedger l).confirmations = c := by
  rw [LedgerVerifier.observe_found_iff, ledger_reported hhead hsmall hfrom hleg hrec]
  constructor
  · rintro ⟨_, hmap, rfl, rfl, rfl⟩
    obtain ⟨l, hl, rfl⟩ := Option.map_eq_some_iff.mp hmap
    exact ⟨l, hl, rfl, rfl, rfl⟩
  · rintro ⟨l, hl, rfl, rfl, rfl⟩
    exact ⟨chain.onLedger l, by rw [hl, Option.map_some], rfl, rfl, rfl⟩

/-- What the scan finds, the ledger finds; no shallower, unless it is final. -/
theorem ShownBy.found_on_ledger (hs : chain.ShownBy v reads) {secondary : Option PolygonReads}
    {a t : UInt64} {c : UInt32} (h : v.observe reads secondary expect = .found a t c) :
    ∃ l c' low, chain.ledger.reported expect = some (chain.onLedger l) ∧
      chain.ledger.observe expect = .found a t c' ∧
      PolygonReads.crossHead secondary chain.head = some low ∧
      ((reads.conservativeFinalized secondary low).any (l.block ≤ ·) ∧ c = finalizedConfirmations ∨
        c ≤ c') := by
  obtain ⟨low, l, hlow, hl, rfl, rfl, rfl⟩ := (hs.observe_found_to_iff hleg hrec secondary a t c).mp h
  refine ⟨l, (chain.onLedger l).confirmations, low,
    by rw [ledger_reported hhead hsmall hfrom hleg hrec, hl, Option.map_some],
    (ledger_observe_found_iff hhead hsmall hfrom hleg hrec _ _ _).mpr ⟨l, hl, rfl, rfl, rfl⟩, hlow, ?_⟩
  cases hfinal : (reads.conservativeFinalized secondary low).any (l.block ≤ ·) with
  | true => exact .inl ⟨rfl, depthBelow_of_final hfinal⟩
  | false =>
    exact .inr (depthBelow_le_onLedger hhead (mem_of_reported hl).1 (PolygonReads.crossHead_le hlow)
      hfinal).1

/-- Without finality and a second head the two give the same answer. -/
theorem ShownBy.found_alone_iff (hs : chain.ShownBy v reads) (hnone : reads.finalizedHead = none)
    (a t : UInt64) (c : UInt32) :
    v.observe reads none expect = .found a t c ↔ chain.ledger.observe expect = .found a t c := by
  rw [hs.observe_found_to_iff hleg hrec, ledger_observe_found_iff hhead hsmall hfrom hleg hrec]
  have hdepth : ∀ l, chain.reported recipient v.fromBlock expect.hashlock = some l →
      depthBelow (reads.conservativeFinalized none chain.head) chain.head l.block =
        (chain.onLedger l).confirmations := by
    intro l hl
    have hfinal : (reads.conservativeFinalized none chain.head).any (l.block ≤ ·) = false := by
      simp [PolygonReads.conservativeFinalized, hnone]
    exact (depthBelow_le_onLedger hhead (mem_of_reported hl).1 (UInt64.le_refl _) hfinal).2 rfl
  constructor
  · rintro ⟨low, l, hlow, hl, ha, ht, rfl⟩
    cases hlow
    exact ⟨l, hl, ha, ht, (hdepth l hl).symm⟩
  · rintro ⟨l, hl, ha, ht, rfl⟩
    exact ⟨chain.head, l, rfl, hl, ha, ht, hdepth l hl⟩

end

/-- CORRECT: the scan of an honest node reports the escrow that the ledger reports. Without finality and a
    second head it is the same answer; with them it is the same escrow, at the maximal depth if it is
    final, otherwise no deeper; and it is absent only where the second head is not read or is too far off.
    So nothing passes the gate whose amount or timeout the ledger would refuse. -/
theorem polygon_refines_ledger (v : PolygonHtlcVerifier) (chain : EscrowChain) (reads : PolygonReads)
    (hs : chain.ShownBy v reads) (hhead : chain.head.toNat < 2 ^ 32 - 1)
    (hsmall : ∀ l ∈ chain.logs, l.Small) (hfrom : ∀ l ∈ chain.logs, v.fromBlock ≤ l.block)
    (expect : HtlcExpectation) (hleg : expect.leg = .counterparty) (hrec : expect.recipient.length = 20) :
    (reads.finalizedHead = none → ∀ a t c,
      v.observe reads none expect = .found a t c ↔ chain.ledger.observe expect = .found a t c) ∧
    (∀ secondary a t c, v.observe reads secondary expect = .found a t c → ∃ l c' low,
      chain.ledger.reported expect = some (chain.onLedger l) ∧
      chain.ledger.observe expect = .found a t c' ∧
      PolygonReads.crossHead secondary chain.head = some low ∧
      ((reads.conservativeFinalized secondary low).any (l.block ≤ ·) ∧ c = finalizedConfirmations ∨ c ≤ c')) ∧
    (∀ secondary a t c, chain.ledger.observe expect = .found a t c →
      if PolygonReads.crossHead secondary chain.head = none then
        v.observe reads secondary expect = .absent
      else ∃ c', v.observe reads secondary expect = .found a t c') ∧
    (∀ secondary need d, requireFunded (v.observe reads secondary expect) expect need = .ok d →
      ∃ a t c, chain.ledger.observe expect = .found a t c ∧ expect.minAmount ≤ a ∧ expect.minTimeout ≤ t) := by
  let recipient : EvmAddress := ⟨expect.recipient, hrec⟩
  have hto : expect.recipient = recipient.1 := rfl
  refine ⟨fun hnone a t c => ShownBy.found_alone_iff hhead hsmall hfrom hleg hto hs hnone a t c,
    fun secondary a t c h => ShownBy.found_on_ledger hhead hsmall hfrom hleg hto hs h, fun secondary a t c h => ?_,
    fun secondary need d h => ?_⟩
  · split_ifs with hlow
    · have hofbytes : ByteArr.ofBytes? 20 expect.recipient = some recipient :=
        ByteArr.ofBytes?_eq_some.mpr rfl
      simp only [PolygonHtlcVerifier.observe, PolygonHtlcVerifier.observeUsdc, if_neg (not_not.mpr hleg),
        hofbytes, hs.logs, hs.head, hlow]
    · obtain ⟨low, hlow⟩ := Option.ne_none_iff_exists'.mp hlow
      obtain ⟨l, hl, rfl, rfl, -⟩ := (ledger_observe_found_iff hhead hsmall hfrom hleg hto a t c).mp h
      exact ⟨_, (hs.observe_found_to_iff hleg hto secondary _ _ _).mpr ⟨low, l, hlow, hl, rfl, rfl, rfl⟩⟩
  · obtain ⟨a, t, c, hobs, hmin, htime, -⟩ := (requireFunded_ok_iff _ _ _).mp ⟨d, h⟩
    obtain ⟨-, c', -, -, hfound, -⟩ := ShownBy.found_on_ledger hhead hsmall hfrom hleg hto hs hobs
    exact ⟨a, t, c', hfound, hmin, htime⟩

end EscrowChain

namespace Sample

/-- The scan of the sample contract, deployed in block 50. -/
def scanVerifier : PolygonHtlcVerifier where
  keccak256 b :=
    if b = asciiBytes "getSwap(bytes32)" then
      word32 0x3da0e66e8dc882be45abb05b50b7d263e1484fbc21a5ac8dd856dff4714790bf
    else keccak256 b
  htlc := escrowAddress
  fromBlock := 50

end Sample

namespace EscrowChain

/-- The sample escrow passes the gate at depth 51, and it does so on the ledger. -/
theorem sample_polygon_refines_ledger :
    (Sample.escrowIn 100 150 (by decide)).ledger.observe Sample.scanExpectation = .found 100000 1005000 51 := by
  have hscan : Sample.scanVerifier.observe (Sample.escrowIn 100 150 (by decide)).serve none
      Sample.scanExpectation = .found 100000 1005000 51 := by decide +kernel
  exact ((polygon_refines_ledger Sample.scanVerifier (Sample.escrowIn 100 150 (by decide)) _
    (shownBy_serve _ _) (by decide) (by decide) (by decide) Sample.scanExpectation rfl rfl).1 rfl _ _ _).mp hscan

/-- An honest second node that lags by 20 blocks makes the funded escrow absent. -/
theorem lagging_second_is_absent :
    ¬ ∀ (v : PolygonHtlcVerifier) (chain behind : EscrowChain) (expect : HtlcExpectation),
      chain.head.toNat < 2 ^ 32 - 1 → (∀ l ∈ chain.logs, l.Small) →
      (∀ l ∈ chain.logs, v.fromBlock ≤ l.block) → expect.leg = .counterparty →
      expect.recipient.length = 20 → behind.logs = chain.logs → behind.slots = chain.slots →
      behind.head ≤ chain.head → ∀ a t c, chain.ledger.observe expect = .found a t c →
      ∃ c', v.observe chain.serve (some behind.serve) expect = .found a t c' := by
  intro h
  obtain ⟨c', hc⟩ := h Sample.scanVerifier (Sample.escrowIn 100 150 (by decide))
    (Sample.escrowIn 100 130 (by decide)) Sample.scanExpectation (by decide) (by decide) (by decide) rfl rfl rfl
    rfl (by decide) 100000 1005000 51 (by decide +kernel)
  have habsent : Sample.scanVerifier.observe (Sample.escrowIn 100 150 (by decide)).serve
      (some (Sample.escrowIn 100 130 (by decide)).serve) Sample.scanExpectation = .absent := by decide +kernel
  rw [habsent] at hc
  cases hc

end EscrowChain

end Nimmesh
