import Nimmesh.Live.Dust
import Nimmesh.Live.NimHints

/-! @src amoy_swap_verifier.rs swap_funding_verify.rs | name:Hints for the USDC funding | layer:properties

    Every wire is a candidate, up to 32 of them, and the scan starts a little before the earliest that was
    mined. Nothing ties a candidate to a swap: any old transaction moves the start of every scan back, and
    the first start that is resolved stays. A verdict depends on the hints through that start alone. -/

namespace Nimmesh
open Word

/-- What happens to the store while a swap waits: a hint is noted, or there is an observation. -/
inductive HintOp where
  | note (leg : SwapLegId) (wire : Bytes)
  | observe (reads : AmoyReads) (secondary : Option AmoyReads) (nowS : UInt64) (expect : HtlcExpectation)

namespace AmoyHtlcSwapVerifier

/-- `note_funding_wire`: a hint for the other leg is ignored. -/
def noteFundingWire (v : AmoyHtlcSwapVerifier) (store : PolygonFundingStore) (leg : SwapLegId) (wire : Bytes) :
    PolygonFundingStore :=
  if leg = .counterparty then store.noteCandidate v.keccak256 wire else store

def hintStep (v : AmoyHtlcSwapVerifier) (store : PolygonFundingStore) : HintOp → PolygonFundingStore
  | .note leg wire => v.noteFundingWire store leg wire
  | .observe reads secondary nowS expect => (v.observe reads secondary nowS store expect).2

/-- The store after a sequence of hints and observations. -/
def hinted (v : AmoyHtlcSwapVerifier) (ops : List HintOp) : PolygonFundingStore := Run.exec v.hintStep {} ops

end AmoyHtlcSwapVerifier

/-! ### The candidates that are kept -/

namespace PolygonFundingStore

theorem anchor_candidates (chain : AmoyReads) (store : PolygonFundingStore) :
    (store.anchor chain).2.candidates = store.candidates := by
  simp only [anchor]
  split
  · rfl
  · split <;> rfl

theorem noteCandidate_candidates (keccak256 : Bytes → Hash) (store : PolygonFundingStore) (wire : Bytes) :
    (store.noteCandidate keccak256 wire).candidates =
      if keccak256 wire ∈ store.candidates ∨ maxCandidates ≤ store.candidates.length then store.candidates
      else store.candidates ++ [keccak256 wire] := by
  simp only [noteCandidate]
  split_ifs <;> rfl

end PolygonFundingStore

namespace AmoyHtlcSwapVerifier

variable {v : AmoyHtlcSwapVerifier}

theorem observe_candidates (v : AmoyHtlcSwapVerifier) (reads : AmoyReads) (secondary : Option AmoyReads)
    (nowS : UInt64) (store : PolygonFundingStore) (expect : HtlcExpectation) :
    (v.observe reads secondary nowS store expect).2.candidates = store.candidates := by
  have hanchor := store.anchor_candidates reads
  simp only [observe]
  split_ifs
  · rfl
  · generalize store.anchor reads = r at hanchor
    obtain ⟨anchor, store'⟩ := r
    cases anchor with
    | none => exact hanchor
    | some a =>
      dsimp only
      split <;> exact hanchor

/-- STEP: candidates are only added. -/
theorem candidates_hintStep (v : AmoyHtlcSwapVerifier) (store : PolygonFundingStore) (op : HintOp) :
    store.candidates <+: (v.hintStep store op).candidates := by
  cases op with
  | observe reads secondary nowS expect =>
    rw [hintStep, observe_candidates]
  | note leg wire =>
    rw [hintStep, noteFundingWire]
    split_ifs with hleg
    · rw [PolygonFundingStore.noteCandidate_candidates]
      split_ifs
      · exact List.prefix_rfl
      · exact List.prefix_append _ _
    · exact List.prefix_rfl

theorem hinted_append (v : AmoyHtlcSwapVerifier) (ops : List HintOp) (op : HintOp) :
    v.hinted (ops ++ [op]) = v.hintStep (v.hinted ops) op := by
  rw [hinted, Run.exec_append]
  rfl

/-- RUN: candidates are only added. -/
theorem candidates_hinted (v : AmoyHtlcSwapVerifier) (ops ops' : List HintOp) :
    (v.hinted ops).candidates <+: (v.hinted (ops ++ ops')).candidates := by
  induction ops' using List.reverseRecOn with
  | nil => rw [List.append_nil]
  | append_singleton ops' op ih =>
    rw [← List.append_assoc, hinted_append]
    exact ih.trans (v.candidates_hintStep _ op)

/-- A hash is a candidate because of a wire for this leg that came while there was room. -/
theorem mem_candidates_iff (v : AmoyHtlcSwapVerifier) (hash : Hash) (ops : List HintOp) :
    hash ∈ (v.hinted ops).candidates ↔
      ∃ before wire after, ops = before ++ .note .counterparty wire :: after ∧ v.keccak256 wire = hash ∧
        (v.hinted before).candidates.length < maxCandidates := by
  constructor
  · intro h
    induction ops using List.reverseRecOn with
    | nil => cases h
    | append_singleton ops op ih =>
      by_cases hin : hash ∈ (v.hinted ops).candidates
      · obtain ⟨before, wire, after, rfl, rest⟩ := ih hin
        exact ⟨before, wire, after ++ [op], by simp, rest⟩
      · rw [hinted_append] at h
        cases op with
        | observe reads secondary nowS expect =>
          rw [hintStep, observe_candidates] at h
          exact absurd h hin
        | note leg wire =>
          rw [hintStep, noteFundingWire] at h
          split_ifs at h with hleg
          · subst hleg
            rw [PolygonFundingStore.noteCandidate_candidates] at h
            split_ifs at h with hfull
            · exact absurd h hin
            · rw [not_or, not_le] at hfull
              rcases List.mem_append.mp h with h | h
              · exact absurd h hin
              · exact ⟨ops, wire, [], rfl, (List.mem_singleton.mp h).symm, hfull.2⟩
          · exact absurd h hin
  · rintro ⟨before, wire, after, rfl, rfl, hroom⟩
    have hkept : v.keccak256 wire ∈ (v.hinted (before ++ [.note .counterparty wire])).candidates := by
      rw [hinted_append, hintStep, noteFundingWire, if_pos rfl, PolygonFundingStore.noteCandidate_candidates]
      split_ifs with h
      · exact h.resolve_right (by omega)
      · exact List.mem_append_right _ (List.mem_singleton_self _)
    have hprefix := v.candidates_hinted (before ++ [.note .counterparty wire]) after
    rw [List.append_assoc, List.singleton_append] at hprefix
    exact hprefix.subset hkept

end AmoyHtlcSwapVerifier

/-! ### Where a scan starts -/

/-- The block in which a transaction was mined with success, by these receipts. -/
def blockOf (receipt : Hash → Option TxReceipt) (hash : Hash) : Option UInt64 :=
  (receipt hash).bind fun r => if r.success then some r.blockNumber else none

theorem minedAt_eq (reads : AmoyReads) : PolygonFundingStore.minedAt reads = blockOf reads.receipt := rfl

/-- The scan starts where it would start with the genuine funding as the only candidate: at the anchor, once that
    is resolved, else at the earliest candidate that was mined. -/
structure StartsAtGenuine (v : AmoyHtlcSwapVerifier) (receipt : Hash → Option TxReceipt)
    (store : PolygonFundingStore) (genuine : Hash) : Prop where
  anchored : ∀ a, store.anchorBlock = some a →
    ∃ b, blockOf receipt genuine = some b ∧ satSub a v.fromBlockMargin = satSub b v.fromBlockMargin
  unmined : store.anchorBlock = none → blockOf receipt genuine = none →
    ∀ hash ∈ store.candidates, blockOf receipt hash = none
  kept : store.anchorBlock = none → ∀ b, blockOf receipt genuine = some b →
    ∃ hash ∈ store.candidates, ∃ a, blockOf receipt hash = some a ∧
      satSub a v.fromBlockMargin = satSub b v.fromBlockMargin
  earliest : store.anchorBlock = none → ∀ b, blockOf receipt genuine = some b →
    ∀ hash ∈ store.candidates, ∀ a, blockOf receipt hash = some a →
      satSub b v.fromBlockMargin ≤ satSub a v.fromBlockMargin

namespace StartsAtGenuine

variable {v : AmoyHtlcSwapVerifier} {receipt : Hash → Option TxReceipt} {store : PolygonFundingStore}
  {genuine : Hash} {a b : UInt64}

/-- Past the resolution the candidates no longer matter. -/
theorem anchored_iff (hanchor : store.anchorBlock = some a) :
    StartsAtGenuine v receipt store genuine ↔
      ∃ b, blockOf receipt genuine = some b ∧ satSub a v.fromBlockMargin = satSub b v.fromBlockMargin := by
  constructor
  · intro h
    exact h.anchored a hanchor
  · intro h
    exact ⟨by simpa [hanchor] using h, by simp [hanchor], by simp [hanchor], by simp [hanchor]⟩

theorem unmined_iff (hanchor : store.anchorBlock = none) (hblock : blockOf receipt genuine = none) :
    StartsAtGenuine v receipt store genuine ↔ ∀ hash ∈ store.candidates, blockOf receipt hash = none := by
  constructor
  · intro h
    exact h.unmined hanchor hblock
  · intro h
    exact ⟨by simp [hanchor], fun _ _ => h, by simp [hblock], by simp [hblock]⟩

theorem mined_iff (hanchor : store.anchorBlock = none) (hblock : blockOf receipt genuine = some b) :
    StartsAtGenuine v receipt store genuine ↔
      (∃ hash ∈ store.candidates, ∃ a, blockOf receipt hash = some a ∧
        satSub a v.fromBlockMargin = satSub b v.fromBlockMargin) ∧
      ∀ hash ∈ store.candidates, ∀ a, blockOf receipt hash = some a →
        satSub b v.fromBlockMargin ≤ satSub a v.fromBlockMargin := by
  constructor
  · intro h
    exact ⟨h.kept hanchor b hblock, h.earliest hanchor b hblock⟩
  · rintro ⟨hkept, hearliest⟩
    refine ⟨by simp [hanchor], by simp [hblock], fun _ b' hb' => ?_, fun _ b' hb' => ?_⟩
    all_goals
      obtain rfl : b = b' := Option.some.inj (hblock.symm.trans hb')
      assumption

end StartsAtGenuine

namespace AmoyHtlcSwapVerifier

variable {v : AmoyHtlcSwapVerifier} {reads : AmoyReads} {store store' : PolygonFundingStore}

/-- The first block that an observation scans. -/
def startOf (v : AmoyHtlcSwapVerifier) (reads : AmoyReads) (store : PolygonFundingStore) : Option UInt64 :=
  (store.anchor reads).1.map (satSub · v.fromBlockMargin)

theorem satSub_mono {a b : UInt64} (c : UInt64) (h : a.toNat ≤ b.toNat) : satSub a c ≤ satSub b c := by
  rw [UInt64.le_iff_toNat_le, toNat_satSub, toNat_satSub]
  omega

theorem startOf_eq (v : AmoyHtlcSwapVerifier) (reads : AmoyReads) (store : PolygonFundingStore) :
    v.startOf reads store = match store.anchorBlock with
      | some a => some (satSub a v.fromBlockMargin)
      | none => ((store.candidates.filterMap (blockOf reads.receipt)).argmin (·.toNat)).map
          (satSub · v.fromBlockMargin) := by
  rw [startOf, PolygonFundingStore.anchor]
  cases store.anchorBlock with
  | some a => rfl
  | none =>
    dsimp only
    rw [PolygonFundingStore.earliestCandidate_eq, minedAt_eq]
    cases (store.candidates.filterMap (blockOf reads.receipt)).argmin (·.toNat) <;> rfl

/-- With the genuine funding alone, the scan starts a little before its block. -/
theorem startOf_genuine (v : AmoyHtlcSwapVerifier) (reads : AmoyReads) (wire : Bytes) :
    v.startOf reads (v.hinted [.note .counterparty wire]) =
      (blockOf reads.receipt (v.keccak256 wire)).map (satSub · v.fromBlockMargin) := by
  have hstore : v.hinted [.note .counterparty wire] = { candidates := [v.keccak256 wire] } := rfl
  rw [startOf_eq, hstore]
  dsimp only
  cases hblock : blockOf reads.receipt (v.keccak256 wire) with
  | none => simp [hblock]
  | some b => simp [hblock]

theorem startOf_eq_genuine_iff (v : AmoyHtlcSwapVerifier) (reads : AmoyReads) (store : PolygonFundingStore)
    (genuine : Hash) :
    v.startOf reads store = (blockOf reads.receipt genuine).map (satSub · v.fromBlockMargin) ↔
      StartsAtGenuine v reads.receipt store genuine := by
  rw [startOf_eq]
  cases hanchor : store.anchorBlock with
  | some a =>
    rw [StartsAtGenuine.anchored_iff hanchor, eq_comm, Option.map_eq_some_iff]
    exact exists_congr fun b => and_congr_right fun _ => eq_comm
  | none =>
    dsimp only
    have hmem : ∀ a, a ∈ store.candidates.filterMap (blockOf reads.receipt) ↔
      ∃ hash ∈ store.candidates, blockOf reads.receipt hash = some a := fun a => List.mem_filterMap
    cases hblock : blockOf reads.receipt genuine with
    | none =>
      rw [StartsAtGenuine.unmined_iff hanchor hblock, Option.map_none, Option.map_eq_none_iff, List.argmin_eq_none,
        List.filterMap_eq_nil_iff]
    | some b =>
      rw [StartsAtGenuine.mined_iff hanchor hblock, Option.map_some, Option.map_eq_some_iff]
      generalize store.candidates.filterMap (blockOf reads.receipt) = mined at hmem
      constructor
      · rintro ⟨best, hbest, heq⟩
        obtain ⟨hash, hin, ha⟩ := (hmem best).mp (List.argmin_mem hbest)
        refine ⟨⟨hash, hin, best, ha, heq⟩, fun hash' hin' a ha' => ?_⟩
        have hle := List.le_of_mem_argmin (f := fun b : UInt64 => b.toNat) ((hmem a).mpr ⟨hash', hin', ha'⟩) hbest
        rw [← heq]
        exact satSub_mono _ hle
      · rintro ⟨⟨hash, hin, a, ha, heq⟩, hall⟩
        have hain := (hmem a).mpr ⟨hash, hin, ha⟩
        cases hbest : mined.argmin (·.toNat) with
        | none =>
          rw [List.argmin_eq_none.mp hbest] at hain
          cases hain
        | some best =>
          obtain ⟨hash', hin', ha'⟩ := (hmem best).mp (List.argmin_mem hbest)
          have hle := satSub_mono v.fromBlockMargin
            (List.le_of_mem_argmin (f := fun b : UInt64 => b.toNat) hain hbest)
          rw [heq] at hle
          exact ⟨best, rfl, UInt64.le_antisymm hle (hall hash' hin' best ha')⟩

/-- A verdict depends on the hints through the start of the scan alone. -/
theorem observe_congr (hstart : v.startOf reads store = v.startOf reads store') (secondary : Option AmoyReads)
    (nowS : UInt64) (expect : HtlcExpectation) :
    (v.observe reads secondary nowS store expect).1 = (v.observe reads secondary nowS store' expect).1 := by
  simp only [startOf] at hstart
  simp only [observe]
  split_ifs
  · rfl
  · generalize store.anchor reads = r at hstart
    generalize store'.anchor reads = r' at hstart
    obtain ⟨anchor, s⟩ := r
    obtain ⟨anchor', s'⟩ := r'
    cases anchor with
    | none =>
      cases anchor' with
      | none => rfl
      | some a' => cases hstart
    | some a =>
      cases anchor' with
      | none => cases hstart
      | some a' =>
        have hfrom : satSub a v.fromBlockMargin = satSub a' v.fromBlockMargin := Option.some.inj hstart
        have hscan : v.scan reads secondary a expect.hashlock = v.scan reads secondary a' expect.hashlock := by
          rw [scan, scan, hfrom]
        dsimp only
        rw [hscan]
        cases v.scan reads secondary a' expect.hashlock <;> rfl

end AmoyHtlcSwapVerifier

/-! ### The chain that tells two starts apart -/

namespace EscrowChain

/-- The chain of these receipts: nothing was mined above the head, and the genuine funding, once mined, is
    logged in its block. -/
structure Bears (chain : EscrowChain) (receiver : EvmAddress) (hashlock : Hash)
    (receipt : Hash → Option TxReceipt) (genuine : Hash) : Prop where
  mined : ∀ hash b, blockOf receipt hash = some b → b ≤ chain.head
  logged : ∀ b, blockOf receipt genuine = some b →
    ∃ l ∈ chain.logs, l.block = b ∧ l.receiver = receiver ∧ l.hashlock = hashlock ∧ l.Small

/-- Two live escrows under the hashlock: two units in block `early`, and one in block `late`. -/
def twoLogs (receiver : EvmAddress) (hashlock : Hash) (early late : UInt64) : List LoggedSwap :=
  [⟨ByteArr.fill hashLen 2, receiver, 2, hashlock, 0, early⟩,
    ⟨ByteArr.fill hashLen 1, receiver, 1, hashlock, 0, late⟩]

def two (receiver : EvmAddress) (hashlock : Hash) (early late : UInt64) : EscrowChain where
  logs := twoLogs receiver hashlock early late
  slots swapId := ⟨receiver, receiver, if swapId = ByteArr.fill hashLen 2 then 2 else 1, hashlock, 0, .live⟩
  head := u64Max
  finalized := none
  below l _ := le_u64Max l.block

theorem small_of_mem_twoLogs {receiver : EvmAddress} {hashlock : Hash} {early late : UInt64} {l : LoggedSwap}
    (h : l ∈ twoLogs receiver hashlock early late) : l.receiver = receiver ∧ l.hashlock = hashlock ∧ l.Small := by
  have hzero : (0 : U256).toNat < 2 ^ 64 := by decide
  rcases List.mem_cons.mp h with rfl | h
  · have htwo : (2 : U256).toNat < 2 ^ 64 := by decide
    exact ⟨rfl, rfl, htwo, hzero⟩
  · have hone : (1 : U256).toNat < 2 ^ 64 := by decide
    rw [List.mem_singleton.mp h]
    exact ⟨rfl, rfl, hone, hzero⟩

/-- A scan reports the two units exactly when it starts by their block. -/
theorem reported_two {receiver : EvmAddress} {hashlock : Hash} {early late : UInt64} (h : early ≤ late)
    (start : UInt64) :
    (∃ l, (two receiver hashlock early late).reported receiver start hashlock = some l ∧ l.amount64 = 2) ↔
      start ≤ early := by
  have hlive : ((two receiver hashlock early late).logsTo receiver start).filter
      ((two receiver hashlock early late).LiveUnder hashlock) =
        (two receiver hashlock early late).logsTo receiver start := by
    refine List.filter_eq_self.mpr fun l hl => decide_eq_true ?_
    obtain ⟨-, hhash, hsmall⟩ := small_of_mem_twoLogs (List.mem_filter.mp hl).1
    exact ⟨hhash, hsmall, rfl⟩
  rw [reported, hlive, logsTo]
  by_cases hearly : start ≤ early
  · have hlate := UInt64.le_trans hearly h
    have hnat : ¬ late.toNat < early.toNat := by
      rw [UInt64.le_iff_toNat_le] at h
      omega
    simp [two, twoLogs, hearly, hlate, List.argmin, List.argAux, hnat, LoggedSwap.amount64]
  · by_cases hlate : start ≤ late
    · simp [two, twoLogs, hearly, hlate, LoggedSwap.amount64]
    · simp [two, twoLogs, hearly, hlate]

theorem bears_two {receipt : Hash → Option TxReceipt} {genuine : Hash} {late : UInt64}
    (hlate : ∀ b, blockOf receipt genuine = some b → late = b) (receiver : EvmAddress) (hashlock : Hash)
    (early : UInt64) : (two receiver hashlock early late).Bears receiver hashlock receipt genuine where
  mined _ b _ := le_u64Max b
  logged b hb :=
    have hmem := List.mem_cons_of_mem _ (List.mem_singleton_self _)
    ⟨_, hmem, hlate b hb, small_of_mem_twoLogs hmem⟩

end EscrowChain

namespace AmoyHtlcSwapVerifier

variable {v : AmoyHtlcSwapVerifier} {store : PolygonFundingStore} {expect : HtlcExpectation}

/-- On that chain the two units are found exactly when the scan starts by their block. -/
theorem observe_two_iff (v : AmoyHtlcSwapVerifier) (store : PolygonFundingStore)
    (hleg : expect.leg = .counterparty) (receipt : Hash → Option TxReceipt) {early late : UInt64}
    (h : early ≤ late) :
    (∃ timeout k, (v.observe ((EscrowChain.two v.ownClaimAddress expect.hashlock early late).serveAmoy receipt)
        none 0 store expect).1 = .found 2 timeout k) ↔
      ∃ start, v.startOf ((EscrowChain.two v.ownClaimAddress expect.hashlock early late).serveAmoy receipt) store =
        some start ∧ start ≤ early := by
  generalize hchain : EscrowChain.two v.ownClaimAddress expect.hashlock early late = chain
  simp only [(chain.shownTo_serveAmoy v receipt).observe_found_iff, startOf, Option.map_eq_some_iff]
  subst hchain
  constructor
  · rintro ⟨_, _, -, anchor, low, l, hanchor, -, hl, -, hamount, -⟩
    exact ⟨_, ⟨anchor, hanchor, rfl⟩, (EscrowChain.reported_two h _).mp ⟨l, hl, hamount⟩⟩
  · rintro ⟨_, ⟨anchor, hanchor, rfl⟩, hle⟩
    obtain ⟨l, hl, hamount⟩ := (EscrowChain.reported_two h _).mpr hle
    exact ⟨_, _, hleg, anchor, _, l, hanchor, rfl, hl, by simp, hamount, rfl, rfl⟩

/-- Two starts are the same if they reach the same blocks, as far as the one that the second is taken from. -/
theorem start_eq_of_reach_iff {start block : Option UInt64} (margin : UInt64)
    (h : ∀ early, (∀ b, block = some b → early ≤ b) →
      ((∃ s, start = some s ∧ s ≤ early) ↔ ∃ s, block.map (satSub · margin) = some s ∧ s ≤ early)) :
    start = block.map (satSub · margin) := by
  cases block with
  | none =>
    cases start with
    | none => rfl
    | some s =>
      obtain ⟨_, hnone, -⟩ := (h s (by simp)).mp ⟨s, rfl, UInt64.le_refl s⟩
      cases hnone
  | some b =>
    have hle : satSub b margin ≤ b := by
      rw [UInt64.le_iff_toNat_le, toNat_satSub]
      omega
    obtain ⟨s, rfl, hfirst⟩ := (h (satSub b margin) (by simpa using hle)).mpr ⟨_, rfl, UInt64.le_refl _⟩
    have hs : s ≤ b := UInt64.le_trans hfirst hle
    obtain ⟨_, hmap, hsecond⟩ := (h s (by simpa using hs)).mp ⟨s, rfl, UInt64.le_refl s⟩
    cases hmap
    rw [UInt64.le_antisymm hfirst hsecond]
    rfl

/-- Equal verdicts on the chains that tell starts apart come of equal starts. -/
theorem startOf_eq_of_verdicts (hleg : expect.leg = .counterparty) {receipt : Hash → Option TxReceipt}
    {wire : Bytes}
    (heq : ∀ early late, (∀ b, blockOf receipt (v.keccak256 wire) = some b → late = b) →
      (v.observe ((EscrowChain.two v.ownClaimAddress expect.hashlock early late).serveAmoy receipt) none 0 store
        expect).1 =
      (v.observe ((EscrowChain.two v.ownClaimAddress expect.hashlock early late).serveAmoy receipt) none 0
        (v.hinted [.note .counterparty wire]) expect).1) {reads : AmoyReads} (hreads : reads.receipt = receipt) :
    v.startOf reads store = (blockOf receipt (v.keccak256 wire)).map (satSub · v.fromBlockMargin) := by
  subst hreads
  have hsame : ∀ (chain : EscrowChain) store,
      v.startOf (chain.serveAmoy reads.receipt) store = v.startOf reads store := by
    intro chain store
    rw [startOf_eq, startOf_eq]
    rfl
  refine start_eq_of_reach_iff v.fromBlockMargin fun early hearly => ?_
  have hlate : ∀ b, blockOf reads.receipt (v.keccak256 wire) = some b →
      (blockOf reads.receipt (v.keccak256 wire)).getD early = b := by
    intro b hb
    rw [hb, Option.getD_some]
  have hle : early ≤ (blockOf reads.receipt (v.keccak256 wire)).getD early := by
    cases hb : blockOf reads.receipt (v.keccak256 wire) with
    | none => exact UInt64.le_refl early
    | some b => exact hearly b hb
  have hfound := v.observe_two_iff store hleg reads.receipt hle
  rw [heq early _ hlate, observe_two_iff v _ hleg reads.receipt hle, hsame, hsame, startOf_genuine] at hfound
  exact hfound.symm

/-- EXACT: whatever was noted and observed before and after it, the verdict about the genuine funding is that of
    the genuine wire alone, on every honest chain with these receipts, exactly when the scan starts where it
    starts for the genuine wire. -/
theorem verdict_kept_iff (v : AmoyHtlcSwapVerifier) (receipt : Hash → Option TxReceipt) (expect : HtlcExpectation)
    (hleg : expect.leg = .counterparty) (before after : List HintOp) (wire : Bytes) :
    (∀ (chain : EscrowChain) reads secondary nowS,
        chain.Bears v.ownClaimAddress expect.hashlock receipt (v.keccak256 wire) → chain.ShownTo v reads →
        reads.receipt = receipt → (∀ sec, secondary = some sec → chain.ConfirmedBy sec) →
        (v.observe reads secondary nowS (v.hinted (before ++ .note .counterparty wire :: after)) expect).1 =
          (v.observe reads secondary nowS (v.hinted [.note .counterparty wire]) expect).1) ↔
      StartsAtGenuine v receipt (v.hinted (before ++ .note .counterparty wire :: after)) (v.keccak256 wire) := by
  generalize v.hinted (before ++ .note .counterparty wire :: after) = store
  constructor
  · intro heq
    let reads : AmoyReads := ⟨receipt, fun _ _ _ => none, none, none, fun _ => none⟩
    refine (startOf_eq_genuine_iff v reads store _).mp (startOf_eq_of_verdicts hleg (fun early late hlate => ?_) rfl)
    exact heq _ _ none 0 (EscrowChain.bears_two hlate v.ownClaimAddress expect.hashlock early)
      (EscrowChain.shownTo_serveAmoy _ v receipt) rfl fun _ h => by cases h
  · intro hstarts chain reads secondary nowS _ _ hreceipt _
    subst hreceipt
    refine observe_congr ?_ secondary nowS expect
    rw [startOf_genuine]
    exact (startOf_eq_genuine_iff v reads store _).mpr hstarts

end AmoyHtlcSwapVerifier

/-- EXACT: on every honest chain the verdict about the genuine funding is that of the genuine wire alone, exactly
    when, for the NIM leg, the first hint for its hashlock came while there was room and cannot be told from it,
    and for the USDC leg, the scan starts where it starts for the genuine wire. -/
theorem hints_exact (v : NimHtlcVerifier) (u : AmoyHtlcSwapVerifier) (nim usdc : HtlcExpectation)
    (wire tx : Bytes) (g : HtlcCreation) (receipt : Hash → Option TxReceipt) (hnim : GenuineFunding v nim wire g)
    (husdc : usdc.leg = .counterparty) (before after : List (SwapLegId × Bytes)) (earlier later : List HintOp) :
    ((∀ chain rpc secondary nowMs, NimChain.AnsweredBy chain v.crypto rpc →
        (∀ sec, secondary = some sec → NimChain.AnsweredBy chain v.crypto sec) →
        v.observe rpc secondary nowMs (v.hinted (before ++ (.nim, wire) :: after)) nim =
          v.observe rpc secondary nowMs (v.hinted [(.nim, wire)]) nim) ↔
      ∃ past first rest c, wiresFor .nim (before ++ (.nim, wire) :: after) = past ++ first :: rest ∧
        hintOf first = some c ∧ c.data.hashRoot = nim.hashlock ∧ (∀ w ∈ past, ¬ Hints nim.hashlock w) ∧
        (NimFundingStore.noted v.crypto past).len < maxStoreEntries ∧ SameFunding v nim c g) ∧
    ((∀ (chain : EscrowChain) reads secondary nowS,
        chain.Bears u.ownClaimAddress usdc.hashlock receipt (u.keccak256 tx) → chain.ShownTo u reads →
        reads.receipt = receipt → (∀ sec, secondary = some sec → chain.ConfirmedBy sec) →
        (u.observe reads secondary nowS (u.hinted (earlier ++ .note .counterparty tx :: later)) usdc).1 =
          (u.observe reads secondary nowS (u.hinted [.note .counterparty tx]) usdc).1) ↔
      StartsAtGenuine u receipt (u.hinted (earlier ++ .note .counterparty tx :: later)) (u.keccak256 tx)) := by
  constructor
  · exact NimHtlcVerifier.verdict_kept_iff hnim before after
  · exact u.verdict_kept_iff receipt usdc husdc earlier later tx

/-! ### Forged hints -/

namespace Sample

/-- A wire of the initiator that pays itself, under the sample hashlock. -/
def forgedNimWire : Bytes :=
  ({ nimFunding with data := { nimFunding.data with htlcRecipient := aliceAddress } } : HtlcCreation).serializeWire
    claimKeys.blake2b (signatureProofSingleSig pubkey nimFundingSignature)

def hintedVerifier : AmoyHtlcSwapVerifier := { amoyVerifier with keccak256 := claimKeys.keccak256 }

/-- An approval of the funder was mined in block 63, its escrow in block 100. -/
def hintReceipts (hash : Hash) : Option TxReceipt :=
  if hash = claimKeys.keccak256 escrowing.raw then some ⟨true, 100⟩
  else if hash = claimKeys.keccak256 approval.raw then some ⟨true, 63⟩
  else none

/-- The chain that has one micro-USDC in block 60, and its node. -/
def hintChain : EscrowChain := crowded 60 (by decide)

def hintReads : AmoyReads := hintChain.serveAmoy hintReceipts

/-- What comes after the genuine hint: its block is resolved, and then the approval is named. -/
def laterHints : List HintOp :=
  [.observe hintReads none 1000000 scanExpectation, .note .counterparty approval.raw]

theorem hintReads_receipt : hintReads.receipt = hintReceipts := by
  rw [hintReads, EscrowChain.serveAmoy]

theorem hintChain_shown : hintChain.ShownTo hintedVerifier hintReads := by
  rw [hintReads]
  exact EscrowChain.shownTo_serveAmoy hintChain hintedVerifier hintReceipts

theorem escrowing_block : blockOf hintReceipts (hintedVerifier.keccak256 escrowing.raw) = some 100 := by
  decide +kernel

theorem laterHints_anchor :
    (hintedVerifier.hinted ([] ++ .note .counterparty escrowing.raw :: laterHints)).anchorBlock = some 100 := by
  decide +kernel

theorem laterHints_starts : StartsAtGenuine hintedVerifier hintReceipts
    (hintedVerifier.hinted ([] ++ .note .counterparty escrowing.raw :: laterHints))
    (hintedVerifier.keccak256 escrowing.raw) :=
  (StartsAtGenuine.anchored_iff laterHints_anchor).mpr ⟨100, escrowing_block, rfl⟩

theorem genuineFunding : GenuineFunding nimVerifier nimExpectation nimFundingWire nimFunding where
  hint := by decide +kernel
  hashRoot := rfl
  recipient := rfl
  networkId := rfl
  leg := rfl

theorem hintChain_bears : hintChain.Bears hintedVerifier.ownClaimAddress scanExpectation.hashlock hintReceipts
    (hintedVerifier.keccak256 escrowing.raw) where
  mined hash b h := by
    have h63 : (63 : UInt64) ≤ 150 := by decide
    have h100 : (100 : UInt64) ≤ 150 := by decide
    simp only [blockOf, hintReceipts] at h
    split_ifs at h
    · cases h
      exact h100
    · cases h
      exact h63
    · cases h
  logged b h := by
    rw [escrowing_block] at h
    cases h
    exact ⟨loggedEscrow 100, List.mem_cons_self, rfl, rfl, rfl, by decide +kernel⟩

end Sample

/-- Forged hints that come after the genuine one was kept, and its block resolved, change nothing. -/
theorem sample_hints_exact :
    Sample.nimVerifier.observe Sample.nimReads none 1000000000
        (Sample.nimVerifier.hinted [(.nim, Sample.nimFundingWire), (.nim, Sample.forgedNimWire)])
        Sample.nimExpectation = .found 200000 10900 11 ∧
      (Sample.hintedVerifier.observe Sample.hintReads none 1000000
        (Sample.hintedVerifier.hinted (.note .counterparty Sample.escrowing.raw :: Sample.laterHints))
        Sample.scanExpectation).1 = .found 100000 5900 51 := by
  have hsame : SameFunding Sample.nimVerifier Sample.nimExpectation Sample.nimFunding Sample.nimFunding :=
    ⟨rfl, rfl, rfl, rfl, rfl, fun _ => rfl⟩
  obtain ⟨hnim, husdc⟩ := hints_exact _ Sample.hintedVerifier _ Sample.scanExpectation _ Sample.escrowing.raw _
    Sample.hintReceipts Sample.genuineFunding rfl [] [(.nim, Sample.forgedNimWire)] [] Sample.laterHints
  constructor
  · have hkept := hnim.mpr
      ⟨[], Sample.nimFundingWire, [Sample.forgedNimWire], Sample.nimFunding, rfl, Sample.genuineFunding.hint, rfl,
        fun w h => absurd h List.not_mem_nil, (by decide : (0 : ℕ) < 32), hsame⟩
      Sample.fundedChain Sample.nimReads none 1000000000
      (Sample.fundedChain_answered rfl fun n hn => (Option.some.inj hn).symm) fun _ h => by cases h
    refine hkept.trans ?_
    decide +kernel
  · have hkept := husdc.mpr Sample.laterHints_starts Sample.hintChain Sample.hintReads none 1000000
      Sample.hintChain_bears Sample.hintChain_shown Sample.hintReads_receipt fun _ h => by cases h
    refine hkept.trans ?_
    decide +kernel

/-- A wire that was forged first under the hashlock keeps the genuine NIM funding from being found, and an older
    transaction of anyone makes one micro-USDC the USDC funding. -/
theorem forged_hints_poison :
    (¬ ∀ (v : NimHtlcVerifier) (expect : HtlcExpectation) (wire : Bytes) (g : HtlcCreation),
      GenuineFunding v expect wire g → ∀ (before after : List (SwapLegId × Bytes)) chain rpc secondary nowMs,
        NimChain.AnsweredBy chain v.crypto rpc →
        (∀ sec, secondary = some sec → NimChain.AnsweredBy chain v.crypto sec) →
        v.observe rpc secondary nowMs (v.hinted (before ++ (.nim, wire) :: after)) expect =
          v.observe rpc secondary nowMs (v.hinted [(.nim, wire)]) expect) ∧
    ¬ ∀ (v : AmoyHtlcSwapVerifier) (receipt : Hash → Option TxReceipt) (expect : HtlcExpectation),
      expect.leg = .counterparty → ∀ (before after : List HintOp) (wire : Bytes) (chain : EscrowChain) reads
        secondary nowS,
        chain.Bears v.ownClaimAddress expect.hashlock receipt (v.keccak256 wire) → chain.ShownTo v reads →
        reads.receipt = receipt → (∀ sec, secondary = some sec → chain.ConfirmedBy sec) →
        (v.observe reads secondary nowS (v.hinted (before ++ .note .counterparty wire :: after)) expect).1 =
          (v.observe reads secondary nowS (v.hinted [.note .counterparty wire]) expect).1 := by
  constructor
  · intro h
    have heq := h _ _ _ _ Sample.genuineFunding [(.nim, Sample.forgedNimWire)] [] Sample.fundedChain Sample.nimReads
      none 1000000000 (Sample.fundedChain_answered rfl fun n hn => (Option.some.inj hn).symm) fun _ h => by cases h
    revert heq
    decide +kernel
  · intro h
    have heq := h Sample.hintedVerifier Sample.hintReceipts Sample.scanExpectation rfl
      [.note .counterparty Sample.approval.raw] [] Sample.escrowing.raw Sample.hintChain Sample.hintReads
      none 1000000 Sample.hintChain_bears Sample.hintChain_shown Sample.hintReads_receipt
      fun _ h => by cases h
    revert heq
    decide +kernel

end Nimmesh
