import Nimmesh.Lib.Select
import Nimmesh.Live.EvmForward
import Nimmesh.Live.PolygonVerifier

/-! @src contracts/src/NimmeshHtlc.sol polygon_verifier.rs amoy_swap_verifier.rs | name:The escrow chain |
    layer:abstract

    What an honest node shows of the escrow contract: its `NewSwap` logs, the slots, the head and the
    final height. Both scans of the USDC leg come to the same thing here: the earliest logged escrow that
    pays the recipient under the hashlock and whose slot is live. -/

namespace Nimmesh
open Rlp

/-- A creation as the contract logs it. -/
structure LoggedSwap where
  swapId : Hash
  receiver : EvmAddress
  amount : U256
  hashlock : Hash
  timelock : U256
  block : UInt64
  deriving DecidableEq

namespace LoggedSwap

def evmLog (l : LoggedSwap) : EvmLog where
  topic1 := l.swapId
  data := abiWord l.amount ++ l.hashlock.1 ++ abiWord l.timelock
  blockNumber := l.block

def amount64 (l : LoggedSwap) : UInt64 := .ofNat l.amount.toNat

def timelock64 (l : LoggedSwap) : UInt64 := .ofNat l.timelock.toNat

/-- The amount and the timelock fit 64 bits. -/
def Small (l : LoggedSwap) : Prop := l.amount.toNat < 2 ^ 64 ∧ l.timelock.toNat < 2 ^ 64

instance (l : LoggedSwap) : Decidable l.Small := inferInstanceAs (Decidable (_ ∧ _))

end LoggedSwap

/-- A slot state as the contract numbers it. -/
def EscrowState.code : EscrowState → UInt64
  | .none => 0
  | .live => 1
  | .claimed => 2
  | .refunded => 3

/-- The six words that `getSwap` returns. -/
def Escrow.returned (e : Escrow) : Bytes :=
  wordAddress e.sender ++ wordAddress e.receiver ++ abiWord e.amount ++ e.hashlock.1 ++ abiWord e.timelock ++
    wordU256 e.state.code

/-- One view of the escrow contract; no log lies above the head, and what is final is not above it. -/
structure EscrowChain where
  logs : List LoggedSwap
  slots : Hash → Escrow
  head : UInt64
  finalized : Option UInt64
  below : ∀ l ∈ logs, l.block ≤ head

namespace EscrowChain

/-- The logs that pay `receiver`, from a block on. -/
def logsTo (chain : EscrowChain) (receiver : EvmAddress) (fromBlock : UInt64) : List LoggedSwap :=
  chain.logs.filter fun l => l.receiver = receiver ∧ fromBlock ≤ l.block

/-- A log under the hashlock that a scan can read, whose slot is live. -/
def LiveUnder (chain : EscrowChain) (hashlock : Hash) (l : LoggedSwap) : Prop :=
  l.hashlock = hashlock ∧ l.Small ∧ (chain.slots l.swapId).state = .live

instance (chain : EscrowChain) (hashlock : Hash) (l : LoggedSwap) : Decidable (chain.LiveUnder hashlock l) :=
  inferInstanceAs (Decidable (_ ∧ _ ∧ _))

/-- The escrow that a scan reports: of those that pay `receiver` the earliest live one under the hashlock,
    and of one block the first. -/
def reported (chain : EscrowChain) (receiver : EvmAddress) (fromBlock : UInt64) (hashlock : Hash) :
    Option LoggedSwap :=
  ((chain.logsTo receiver fromBlock).filter (chain.LiveUnder hashlock)).argmin (·.block.toNat)

/-- The node answers every read from the chain. -/
structure ShownBy (chain : EscrowChain) (v : PolygonHtlcVerifier) (reads : PolygonReads) : Prop where
  logs : ∀ receiver fromBlock,
    reads.newSwapLogsTo v.htlc receiver fromBlock = some ((chain.logsTo receiver fromBlock).map (·.evmLog))
  slot : ∀ swapId,
    reads.call v.htlc (getSwapCalldata v.keccak256 swapId) = some (chain.slots swapId).returned
  head : reads.head = some chain.head

/-- An honest node, as a function. -/
def serve (chain : EscrowChain) : PolygonReads where
  call _ data := (ByteArr.ofBytes? hashLen (data.drop 4)).map fun swapId => (chain.slots swapId).returned
  newSwapLogsTo _ receiver fromBlock := some ((chain.logsTo receiver fromBlock).map (·.evmLog))
  head := some chain.head
  finalizedHead := chain.finalized

/-- The same node, asked by the swap verifier; its receipts are given apart. -/
def serveAmoy (chain : EscrowChain) (receipt : Hash → Option TxReceipt) : AmoyReads where
  receipt := receipt
  newSwapLogsTo _ receiver fromBlock := some ((chain.logsTo receiver fromBlock).map (·.evmLog))
  head := some chain.head
  finalizedHead := chain.finalized
  escrowState swapId := some (chain.slots swapId).state.code

theorem mem_of_reported {chain : EscrowChain} {receiver : EvmAddress} {fromBlock : UInt64} {hashlock : Hash}
    {l : LoggedSwap} (h : chain.reported receiver fromBlock hashlock = some l) :
    l ∈ chain.logs ∧ l.receiver = receiver ∧ fromBlock ≤ l.block ∧ chain.LiveUnder hashlock l := by
  have hmem := List.argmin_mem h
  rw [List.mem_filter, logsTo, List.mem_filter] at hmem
  simpa only [decide_eq_true_eq, and_assoc] using hmem

/-- The node answers every read of the swap verifier from the chain; receipts are given apart. -/
structure ShownTo (chain : EscrowChain) (v : AmoyHtlcSwapVerifier) (reads : AmoyReads) : Prop where
  logs : ∀ receiver fromBlock,
    reads.newSwapLogsTo v.htlc receiver fromBlock = some ((chain.logsTo receiver fromBlock).map (·.evmLog))
  slot : ∀ swapId, reads.escrowState swapId = some (chain.slots swapId).state.code
  head : reads.head = some chain.head

end EscrowChain

/-! ### Reading words -/

theorem wordU64?_wordU256 (v : UInt64) : wordU64? (wordU256 v) = some v := by
  have htake : (wordU256 v).take 24 = List.replicate 24 0 := List.take_left' (List.length_replicate ..)
  have hdrop : (wordU256 v).drop 24 = beBytes v := List.drop_left' (List.length_replicate ..)
  have hlen : ¬ ((wordU256 v).length ≠ 32 ∨ ((wordU256 v).take 24).any (· ≠ 0)) := by
    rw [htake]
    simp [length_wordU256]
  rw [wordU64?, wordLen, if_neg hlen, hdrop, u64OfBe_beBytes]

/-- A word is read if it fits 64 bits, and skipped otherwise. -/
theorem wordU64?_abiWord (v : U256) :
    wordU64? (abiWord v) = if v.toNat < 2 ^ 64 then some (.ofNat v.toNat) else none := by
  split_ifs with h
  · have hv : v = .ofNat 256 (UInt64.ofNat v.toNat).toNat := by
      apply BitVec.eq_of_toNat_eq
      rw [BitVec.toNat_ofNat, UInt64.toNat_ofNat', Nat.mod_eq_of_lt h, Nat.mod_eq_of_lt (by omega)]
    rw [hv, abiWord_ofNat, wordU64?_wordU256, ← hv]
  · rw [wordU64?, if_pos]
    refine .inr (by_contra fun hzero => h ?_)
    have hlen : ((abiWord v).drop 24).length = 8 := by rw [List.length_drop, length_abiWord]
    have htake : (abiWord v).take 24 = List.replicate 24 0 := by
      refine List.eq_replicate_iff.mpr ⟨?_, fun b hb => ?_⟩
      · rw [List.length_take, length_abiWord]
        rfl
      · simp only [List.any_eq_true, not_exists, not_and, decide_eq_true_eq, ne_eq, not_not] at hzero
        exact hzero b hb
    have hlt := ofBe_lt ((abiWord v).drop 24)
    rw [hlen] at hlt
    have hsplit : abiWord v = List.replicate 24 0 ++ (abiWord v).drop 24 := by
      rw [← htake, List.take_append_drop]
    rw [← ofBe_abiWord, hsplit, ofBe_zeros]
    exact hlt

theorem decodeNewSwapData_evmLog (l : LoggedSwap) :
    decodeNewSwapData l.evmLog.data = if l.Small then some (l.amount64, l.hashlock, l.timelock64) else none := by
  have ha := length_abiWord l.amount
  have ht := length_abiWord l.timelock
  have hh : l.hashlock.1.length = 32 := l.hashlock.2
  have hamount : slice l.evmLog.data 0 wordLen = abiWord l.amount := by
    rw [slice, List.drop_zero, LoggedSwap.evmLog, List.append_assoc, wordLen, List.take_left' ha]
  have hhash : slice l.evmLog.data wordLen wordLen = l.hashlock.1 := by
    rw [slice, LoggedSwap.evmLog, List.append_assoc, wordLen, List.drop_left' ha, List.take_left' hh]
  have htime : slice l.evmLog.data (2 * wordLen) wordLen = abiWord l.timelock := by
    rw [slice, LoggedSwap.evmLog, wordLen, List.drop_left' (by rw [List.length_append, ha, hh])]
    exact List.take_of_length_le ht.le
  have hlen : l.evmLog.data.length = 3 * wordLen := by
    simp only [LoggedSwap.evmLog, List.length_append, ha, hh, ht, wordLen]
  rw [decodeNewSwapData, if_neg (not_not.mpr hlen), hamount, hhash, htime, wordU64?_abiWord,
    wordU64?_abiWord, ByteArr.ofBytes?_val]
  by_cases h1 : l.amount.toNat < 2 ^ 64
  · by_cases h2 : l.timelock.toNat < 2 ^ 64
    · rw [if_pos h1, if_pos h2, if_pos ⟨h1, h2⟩]
      rfl
    · rw [if_neg h2, if_neg fun h : l.Small => h2 h.2]
      cases (if l.amount.toNat < 2 ^ 64 then some (UInt64.ofNat l.amount.toNat) else none) <;> rfl
  · rw [if_neg h1, if_neg fun h : l.Small => h1 h.1]
    rfl

theorem decodeGetSwapState_returned (e : Escrow) : decodeGetSwapState e.returned = some e.state.code := by
  have hlen : (wordAddress e.sender ++ wordAddress e.receiver ++ abiWord e.amount ++ e.hashlock.1 ++
      abiWord e.timelock).length = 5 * wordLen := by
    simp only [List.length_append, wordAddress, List.length_replicate, length_abiWord, e.sender.2, e.receiver.2,
      e.hashlock.2, hashLen, wordLen]
  have hall : ¬ e.returned.length < 6 * wordLen := by
    rw [Escrow.returned, List.length_append, hlen, length_wordU256, wordLen]
    omega
  have hlast : (wordU256 e.state.code).take wordLen = wordU256 e.state.code := List.take_of_length_le le_rfl
  rw [decodeGetSwapState, if_neg hall, slice, Escrow.returned, List.drop_left' hlen, hlast,
    wordU64?_wordU256]

theorem EscrowState.code_eq_live (s : EscrowState) : s.code = stateLive ↔ s = .live := by
  cases s <;> decide

/-! ### The deployed-contract scan -/

namespace EscrowChain

variable {chain : EscrowChain} {v : PolygonHtlcVerifier} {reads : PolygonReads}

theorem shownBy_serve (chain : EscrowChain) (v : PolygonHtlcVerifier) : chain.ShownBy v chain.serve where
  logs _ _ := rfl
  slot swapId := by
    have hsel : (functionSelector v.keccak256 "getSwap(bytes32)").length = 4 := by
      rw [functionSelector, List.length_take, (v.keccak256 _).2]
      rfl
    simp only [serve, getSwapCalldata]
    rw [List.drop_left' hsel, ByteArr.ofBytes?_val, Option.map_some]
  head := rfl

/-- What a scan keeps at a log: itself if it is live under the hashlock. -/
theorem guard_eq (chain : EscrowChain) (hashlock : Hash) (l : LoggedSwap) :
    Option.guard (fun l => decide (chain.LiveUnder hashlock l)) l =
      if chain.LiveUnder hashlock l then some l else none := by
  by_cases h : chain.LiveUnder hashlock l <;> simp [Option.guard, h]

/-- One log of an honest node, read. -/
theorem ShownBy.scanLog (hs : chain.ShownBy v reads) (hashlock : Hash) (other : Bool)
    (best : Option LoggedSwap) (l : LoggedSwap) :
    ∃ other', v.scanLog reads hashlock (other, best.map fun b => (b.block, b.amount64, b.timelock64)) l.evmLog =
      some (other', (Select.keep (Option.guard (chain.LiveUnder hashlock)) (·.block.toNat) best l).map
        fun b => (b.block, b.amount64, b.timelock64)) := by
  have hslot : reads.call v.htlc (getSwapCalldata v.keccak256 l.evmLog.topic1) =
    some (chain.slots l.swapId).returned := hs.slot l.swapId
  rw [PolygonHtlcVerifier.scanLog, decodeNewSwapData_evmLog,
    Select.map_keep _ (fun b : UInt64 × UInt64 × UInt64 => b.1) fun _ _ => UInt64.lt_iff_toNat_lt, Select.keep, guard_eq]
  by_cases hsmall : l.Small
  · by_cases hhash : l.hashlock = hashlock
    · by_cases hlive : (chain.slots l.swapId).state = .live
      · have hunder : chain.LiveUnder hashlock l := ⟨hhash, hsmall, hlive⟩
        have hcode : (chain.slots l.swapId).state.code = stateLive := (EscrowState.code_eq_live _).mpr hlive
        have hblock : l.evmLog.blockNumber = l.block := rfl
        refine ⟨other, ?_⟩
        simp only [if_pos hsmall, if_pos hunder, hhash, hslot, ne_eq, not_true_eq_false, if_false,
          Option.bind_eq_bind, Option.bind_some, decodeGetSwapState_returned, hcode, hblock, Option.map_some]
        split_ifs <;> rfl
      · have hunder : ¬ chain.LiveUnder hashlock l := fun h => hlive h.2.2
        have hcode : ¬ some (chain.slots l.swapId).state.code = some stateLive := fun h =>
          hlive ((EscrowState.code_eq_live _).mp (Option.some.inj h))
        refine ⟨other, ?_⟩
        simp only [if_pos hsmall, if_neg hunder, hhash, hslot, ne_eq, not_true_eq_false, if_false,
          Option.bind_eq_bind, Option.bind_some, decodeGetSwapState_returned, hcode, not_false_eq_true, if_true]
        rfl
    · have hunder : ¬ chain.LiveUnder hashlock l := fun h => hhash h.1
      exact ⟨true, by
        simp only [if_pos hsmall, if_neg hunder, ne_eq, hhash, not_false_eq_true, if_true, Option.map_none]⟩
  · have hunder : ¬ chain.LiveUnder hashlock l := fun h => hsmall h.2.1
    exact ⟨other, by simp only [if_neg hsmall, if_neg hunder, Option.map_none]⟩

theorem ShownBy.foldlM_scanLog (hs : chain.ShownBy v reads) (hashlock : Hash) (ls : List LoggedSwap) :
    ∀ (other : Bool) (best : Option LoggedSwap), ∃ other',
      (ls.map (·.evmLog)).foldlM (v.scanLog reads hashlock)
        (other, best.map fun b => (b.block, b.amount64, b.timelock64)) =
      some (other', (ls.foldl (Select.keep (Option.guard (chain.LiveUnder hashlock)) (·.block.toNat)) best).map
        fun b => (b.block, b.amount64, b.timelock64)) := by
  induction ls with
  | nil => exact fun other best => ⟨other, rfl⟩
  | cons l ls ih =>
    intro other best
    obtain ⟨next, hnext⟩ := hs.scanLog hashlock other best l
    rw [List.map_cons, List.foldlM_cons, hnext, List.foldl_cons]
    exact ih next _

/-- The scan of an honest node ends with the escrow that is reported. -/
theorem ShownBy.scan (hs : chain.ShownBy v reads) (receiver : EvmAddress) (fromBlock : UInt64)
    (hashlock : Hash) :
    ∃ other, ((chain.logsTo receiver fromBlock).map (·.evmLog)).foldlM (v.scanLog reads hashlock)
        (false, none) =
      some (other, (chain.reported receiver fromBlock hashlock).map
        fun b => (b.block, b.amount64, b.timelock64)) := by
  obtain ⟨other, h⟩ := hs.foldlM_scanLog hashlock (chain.logsTo receiver fromBlock) false none
  refine ⟨other, ?_⟩
  rw [reported, ← List.filterMap_eq_filter, ← Select.foldl_keep]
  exact h

/-- CORRECT: what is found on an honest node is the earliest live escrow that pays the recipient under
    the hashlock. -/
theorem ShownBy.observe_found_iff (hs : chain.ShownBy v reads) (secondary : Option PolygonReads)
    (expect : HtlcExpectation) (amount timeout : UInt64) (confirmations : UInt32) :
    v.observe reads secondary expect = .found amount timeout confirmations ↔
      expect.leg = .counterparty ∧ ∃ recipient low l, expect.recipient = recipient.1 ∧
        PolygonReads.crossHead secondary chain.head = some low ∧
        chain.reported recipient v.fromBlock expect.hashlock = some l ∧ l.amount64 = amount ∧
        l.timelock64 = timeout ∧
        depthBelow (reads.conservativeFinalized secondary low) low l.block = confirmations := by
  rw [PolygonHtlcVerifier.observe]
  by_cases hleg : expect.leg = .counterparty
  · rw [if_neg (not_not.mpr hleg), PolygonHtlcVerifier.observeUsdc]
    cases hrec : ByteArr.ofBytes? 20 expect.recipient with
    | none =>
      have hno : ∀ recipient : EvmAddress, expect.recipient ≠ recipient.1 := by
        intro recipient he
        rw [he, ByteArr.ofBytes?_val] at hrec
        cases hrec
      simp [hno]
    | some recipient =>
      have hrec' := ByteArr.ofBytes?_eq_some.mp hrec
      simp only [hs.logs, hs.head]
      obtain ⟨other, hscan⟩ := hs.scan recipient v.fromBlock expect.hashlock
      constructor
      · intro h
        refine ⟨hleg, recipient, ?_⟩
        cases hlow : PolygonReads.crossHead secondary chain.head with
        | none => simp only [hlow] at h; cases h
        | some low =>
          simp only [hlow, hscan] at h
          cases hl : chain.reported recipient v.fromBlock expect.hashlock with
          | none => cases other <;> simp only [hl, Option.map_none] at h <;> cases h
          | some l =>
            simp only [hl, Option.map_some] at h
            cases h
            exact ⟨low, l, hrec', rfl, rfl, rfl, rfl, rfl⟩
      · rintro ⟨-, recipient', low, l, he, hlow, hl, rfl, rfl, rfl⟩
        obtain rfl : recipient' = recipient := Subtype.ext (he.symm.trans hrec')
        simp only [hlow, hscan, hl, Option.map_some]
  · simp [hleg]

end EscrowChain

/-! ### The anchored scan -/

/-- A log as the swap verifier records it. -/
def LoggedSwap.found (l : LoggedSwap) : FoundEscrow := ⟨l.swapId, l.amount64, l.timelock64⟩

namespace EscrowChain

variable {chain : EscrowChain} {v : AmoyHtlcSwapVerifier} {reads : AmoyReads}

theorem shownTo_serveAmoy (chain : EscrowChain) (v : AmoyHtlcSwapVerifier)
    (receipt : Hash → Option TxReceipt) : chain.ShownTo v (chain.serveAmoy receipt) where
  logs _ _ := rfl
  slot _ := rfl
  head := rfl

theorem ShownTo.liveUnder (hs : chain.ShownTo v reads) (hashlock : Hash) (l : LoggedSwap) :
    liveUnder reads hashlock l.evmLog = if chain.LiveUnder hashlock l then some l.found else none := by
  have hslot : reads.escrowState l.evmLog.topic1 = some (chain.slots l.swapId).state.code := hs.slot l.swapId
  have hcode : (some (chain.slots l.swapId).state.code = some stateLive) ↔
    (chain.slots l.swapId).state = .live := by rw [Option.some.injEq, EscrowState.code_eq_live]
  simp only [Nimmesh.liveUnder, decodeNewSwapData_evmLog, hslot, hcode, LiveUnder]
  by_cases hsmall : l.Small
  · simp only [hsmall, true_and]
    rfl
  · simp only [hsmall, false_and, and_false, if_false]

theorem ShownTo.foldl_scanLog (hs : chain.ShownTo v reads) (hashlock : Hash) (ls : List LoggedSwap) :
    ∀ (other : Bool) (best : Option LoggedSwap),
      ((ls.map (·.evmLog)).foldl (Nimmesh.scanLog reads hashlock)
        (other, best.map fun b => (b.block, b.found))).2 =
      (ls.foldl (Select.keep (Option.guard (chain.LiveUnder hashlock)) (·.block.toNat)) best).map
        fun b => (b.block, b.found) := by
  induction ls with
  | nil => exact fun _ _ => rfl
  | cons l ls ih =>
    intro other best
    have hstep : (Nimmesh.scanLog reads hashlock (other, best.map fun b => (b.block, b.found)) l.evmLog).2 =
        (Select.keep (Option.guard (chain.LiveUnder hashlock)) (·.block.toNat) best l).map
          fun b => (b.block, b.found) := by
      rw [scanLog_best, hs.liveUnder, Select.map_keep _ (fun b : UInt64 × FoundEscrow => b.1)
        fun _ _ => UInt64.lt_iff_toNat_lt, Select.keep, guard_eq]
      by_cases hlive : chain.LiveUnder hashlock l
      · simp only [if_pos hlive]
        rfl
      · simp only [if_neg hlive]
        rfl
    rw [List.map_cons, List.foldl_cons, List.foldl_cons, ← ih, ← hstep]

/-- The scan of an honest node finds the escrow that is reported. -/
theorem ShownTo.earliest_iff (hs : chain.ShownTo v reads) (receiver : EvmAddress) (fromBlock : UInt64)
    (hashlock : Hash) (block : UInt64) (escrow : FoundEscrow) :
    Earliest reads hashlock ((chain.logsTo receiver fromBlock).map (·.evmLog)) block escrow ↔
      ∃ l, chain.reported receiver fromBlock hashlock = some l ∧ l.block = block ∧ l.found = escrow := by
  rw [← foldl_scanLog_iff]
  have hfold := hs.foldl_scanLog hashlock (chain.logsTo receiver fromBlock) false none
  rw [Option.map_none, Select.foldl_keep, List.filterMap_eq_filter] at hfold
  rw [hfold, reported, Option.map_eq_some_iff]
  simp only [Prod.mk.injEq]

/-- CORRECT: what is found on an honest node is the earliest live escrow from the start of the scan on. -/
theorem ShownTo.observe_found_iff (hs : chain.ShownTo v reads) (secondary : Option AmoyReads) (nowS : UInt64)
    (store : PolygonFundingStore) (expect : HtlcExpectation) (amount timeout : UInt64)
    (confirmations : UInt32) :
    (v.observe reads secondary nowS store expect).1 = .found amount timeout confirmations ↔
      expect.leg = .counterparty ∧ ∃ anchor low l, (store.anchor reads).1 = some anchor ∧
        crossHead secondary chain.head = some low ∧
        chain.reported v.ownClaimAddress (Word.satSub anchor v.fromBlockMargin) expect.hashlock = some l ∧
        (∀ sec, secondary = some sec → sec.escrowState l.swapId = some stateLive) ∧ l.amount64 = amount ∧
        termEquivalentOfTimelockS l.timelock64 nowS expect.termAnchor v.slackS = timeout ∧
        depthBelow (conservativeFinalized reads secondary low) low l.block = confirmations := by
  rw [v.observe_found_iff]
  refine and_congr_right fun _ => ?_
  simp only [v.scan_eq_picked_iff, hs.logs, hs.head, Option.some.injEq]
  constructor
  · rintro ⟨anchor, low, block, escrow, hanchor, ⟨_, _, rfl, rfl, hlow, hearly, hsec⟩, rfl, rfl, rfl⟩
    obtain ⟨l, hl, rfl, rfl⟩ := (hs.earliest_iff _ _ _ _ _).mp hearly
    exact ⟨anchor, low, l, hanchor, hlow, hl, hsec, rfl, rfl, rfl⟩
  · rintro ⟨anchor, low, l, hanchor, hlow, hl, hsec, rfl, rfl, rfl⟩
    exact ⟨anchor, low, l.block, l.found, hanchor,
      ⟨_, _, rfl, rfl, hlow, (hs.earliest_iff _ _ _ _ _).mpr ⟨l, hl, rfl, rfl⟩, hsec⟩, rfl, rfl, rfl⟩

end EscrowChain

/-! ### The sample escrow -/

namespace Sample

/-- The sample escrow as it is logged. -/
def loggedEscrow (block : UInt64) : LoggedSwap := ⟨escrowSlot, claimAddress, 100000, hashlock, 1005000, block⟩

/-- The slots of these logs, all of them live. -/
def liveSlots (logs : List LoggedSwap) (swapId : Hash) : Escrow :=
  (logs.find? (·.swapId = swapId)).elim .unwritten fun l =>
    ⟨funderAddress, l.receiver, l.amount, l.hashlock, l.timelock, .live⟩

/-- The sample escrow, alone in its block. -/
def escrowIn (block head : UInt64) (h : block ≤ head) : EscrowChain where
  logs := [loggedEscrow block]
  slots := liveSlots [loggedEscrow block]
  head := head
  finalized := none
  below l hl := by
    rw [List.mem_singleton.mp hl]
    exact h

/-- What the initiator expects of the sample escrow. -/
def scanExpectation : HtlcExpectation := ⟨.counterparty, hashlock, 100000, 5000, claimAddress.1, 0⟩

end Sample

end Nimmesh
