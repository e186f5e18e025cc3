import Mathlib.Data.List.Induction
import Nimmesh.Lib.Select
import Nimmesh.Live.Signer

/-! @src amoy_swap_verifier.rs polygon_verifier.rs swap_funding_verify.rs | name:The USDC funding verifier |
    layer:model

    The initiator's view of the responder's escrow. Funding proofs name candidate transactions, the
    earliest one mined anchors a scan of the escrow contract's logs, and the first live escrow under the
    expected hashlock is recorded for the claim, whatever the gate then says of it. -/

namespace Nimmesh
open Word

/-- A `NewSwap` log. -/
structure EvmLog where
  topic1 : Hash
  data : Bytes
  blockNumber : UInt64
  deriving DecidableEq

/-- The reads of one endpoint during an observation; `none` is an error, or a receipt that is not there. -/
structure AmoyReads where
  receipt : Hash → Option TxReceipt
  newSwapLogsTo : EvmAddress → EvmAddress → UInt64 → Option (List EvmLog)
  head : Option UInt64
  finalizedHead : Option UInt64
  escrowState : Hash → Option UInt64

/-- An escrow as the verifier records it. -/
structure FoundEscrow where
  swapId : Hash
  amount : UInt64
  timelockS : UInt64
  deriving DecidableEq

def maxCandidates : ℕ := 32

def wordLen : ℕ := 32

/-- The secondary head may differ by this much. -/
def headCrossToleranceBlocks : ℕ := 12

def finalizedConfirmations : UInt32 := 4294967295

/-- What the verifier and the signer of the initiator share. -/
structure PolygonFundingStore where
  candidates : List Hash := []
  anchorBlock : Option UInt64 := none
  found : Table Hash FoundEscrow := ∅

namespace PolygonFundingStore

/-- Keep the hash of a claimed funding transaction, while there is room. -/
def noteCandidate (keccak256 : Bytes → Hash) (store : PolygonFundingStore) (wire : Bytes) :
    PolygonFundingStore :=
  let hash := keccak256 wire
  if hash ∈ store.candidates ∨ maxCandidates ≤ store.candidates.length then store
  else { store with candidates := store.candidates ++ [hash] }

def recordFound (store : PolygonFundingStore) (hashlock : Hash) (escrow : FoundEscrow) :
    PolygonFundingStore :=
  { store with found := store.found.insert hashlock escrow }

/-- The earliest block in which a candidate was mined with success. -/
def earliestCandidate (chain : AmoyReads) (candidates : List Hash) : Option UInt64 :=
  candidates.foldl (fun best hash =>
    match chain.receipt hash with
    | some receipt =>
      if receipt.success then some (best.elim receipt.blockNumber (min · receipt.blockNumber)) else best
    | none => best) none

/-- The anchor of the scan, resolved once. -/
def anchor (chain : AmoyReads) (store : PolygonFundingStore) : Option UInt64 × PolygonFundingStore :=
  match store.anchorBlock with
  | some a => (some a, store)
  | none =>
    match earliestCandidate chain store.candidates with
    | some block => (some block, { store with anchorBlock := some block })
    | none => (none, store)

/-- The block in which a transaction was mined with success. -/
def minedAt (chain : AmoyReads) (hash : Hash) : Option UInt64 :=
  (chain.receipt hash).bind fun receipt => if receipt.success then some receipt.blockNumber else none

/-- What is found is the lowest block of a mined candidate. -/
theorem earliestCandidate_eq (chain : AmoyReads) (candidates : List Hash) :
    earliestCandidate chain candidates = (candidates.filterMap (minedAt chain)).argmin (·.toNat) := by
  rw [← Select.foldl_keep, earliestCandidate]
  congr 1
  funext best hash
  rw [Select.keep, minedAt]
  cases chain.receipt hash with
  | none => rfl
  | some receipt =>
    by_cases hs : receipt.success
    · cases best with
      | none => simp [hs]
      | some b =>
        by_cases hlt : receipt.blockNumber.toNat < b.toNat
        · simp [hs, min_eq, hlt]
        · simp [hs, min_eq, hlt]
    · simp [hs]

theorem anchor_found (chain : AmoyReads) (store : PolygonFundingStore) :
    (store.anchor chain).2.found = store.found := by
  simp only [anchor]
  split
  · rfl
  · split <;> rfl

theorem noteCandidate_found (keccak256 : Bytes → Hash) (store : PolygonFundingStore) (wire : Bytes) :
    (store.noteCandidate keccak256 wire).found = store.found := by
  simp only [noteCandidate]
  split_ifs <;> rfl

end PolygonFundingStore

/-! ### The scan -/

/-- The low 8 bytes of a word whose other bytes are zero. -/
def wordU64? (word : Bytes) : Option UInt64 :=
  if word.length ≠ wordLen ∨ (word.take (wordLen - 8)).any (· ≠ 0) then none
  else some (u64OfBe (word.drop (wordLen - 8)))

/-- Amount, hashlock and timelock of a `NewSwap` log. -/
def decodeNewSwapData (data : Bytes) : Option (UInt64 × Hash × UInt64) :=
  if data.length ≠ 3 * wordLen then none
  else do
    let amount ← wordU64? (slice data 0 wordLen)
    let hashlock ← ByteArr.ofBytes? hashLen (slice data wordLen wordLen)
    let timelock ← wordU64? (slice data (2 * wordLen) wordLen)
    return (amount, hashlock, timelock)

/-- One log: it pays us under another hashlock, or it is the best live escrow so far. -/
def scanLog (chain : AmoyReads) (hashlock : Hash) (acc : Bool × Option (UInt64 × FoundEscrow))
    (log : EvmLog) : Bool × Option (UInt64 × FoundEscrow) :=
  match decodeNewSwapData log.data with
  | none => acc
  | some (amount, h, timelockS) =>
    if h ≠ hashlock then (true, acc.2)
    else if chain.escrowState log.topic1 ≠ some stateLive then acc
    else if acc.2.all fun best => log.blockNumber < best.1 then
      (acc.1, some (log.blockNumber, ⟨log.topic1, amount, timelockS⟩))
    else acc

/-- The escrow of a log, if it is one under the hashlock that reads live. -/
def liveUnder (chain : AmoyReads) (hashlock : Hash) (log : EvmLog) : Option FoundEscrow :=
  match decodeNewSwapData log.data with
  | none => none
  | some (amount, h, timelockS) =>
    if h = hashlock ∧ chain.escrowState log.topic1 = some stateLive then some ⟨log.topic1, amount, timelockS⟩
    else none

/-- The escrow of the earliest log that is live under the hashlock; of one block, the first. -/
def Earliest (chain : AmoyReads) (hashlock : Hash) (logs : List EvmLog) (block : UInt64)
    (escrow : FoundEscrow) : Prop :=
  ∃ (i : ℕ) (log : EvmLog), logs[i]? = some log ∧ liveUnder chain hashlock log = some escrow ∧
    log.blockNumber = block ∧
    ∀ (j : ℕ) (l : EvmLog), logs[j]? = some l → liveUnder chain hashlock l ≠ none →
      block < l.blockNumber ∨ block = l.blockNumber ∧ i ≤ j

theorem scanLog_best (chain : AmoyReads) (hashlock : Hash) (acc : Bool × Option (UInt64 × FoundEscrow))
    (log : EvmLog) :
    (scanLog chain hashlock acc log).2 = match liveUnder chain hashlock log with
      | none => acc.2
      | some escrow =>
        if acc.2.all fun best => log.blockNumber < best.1 then some (log.blockNumber, escrow) else acc.2 := by
  simp only [scanLog, liveUnder]
  cases decodeNewSwapData log.data with
  | none => rfl
  | some d =>
    obtain ⟨amount, h, timelockS⟩ := d
    by_cases hh : h = hashlock
    · by_cases hl : chain.escrowState log.topic1 = some stateLive
      · simp only [hh, hl, ne_eq, not_true_eq_false, if_false, and_self, if_true]
        split_ifs <;> rfl
      · simp [hh, hl]
    · simp [hh]

/-- The earliest escrow stays the earliest past a log that is not live or not earlier. -/
theorem Earliest.later {chain : AmoyReads} {hashlock : Hash} {logs : List EvmLog} {block : UInt64}
    {escrow : FoundEscrow} (h : Earliest chain hashlock logs block escrow) {log : EvmLog}
    (hlate : liveUnder chain hashlock log ≠ none → block ≤ log.blockNumber) :
    Earliest chain hashlock (logs ++ [log]) block escrow := by
  obtain ⟨i, first, hi, hlive, hblock, hmin⟩ := h
  have hlt : i < logs.length := (List.getElem?_eq_some_iff.mp hi).1
  refine ⟨i, first, by rw [List.getElem?_append_left hlt, hi], hlive, hblock, fun j l hj hl => ?_⟩
  by_cases hjlt : j < logs.length
  · rw [List.getElem?_append_left hjlt] at hj
    exact hmin j l hj hl
  · obtain rfl : l = log := by
      rw [List.getElem?_append_right (by omega)] at hj
      exact List.mem_singleton.mp (List.mem_of_getElem? hj)
    rcases UInt64.le_iff_lt_or_eq.mp (hlate hl) with hb | hb
    · exact .inl hb
    · exact .inr ⟨hb, by omega⟩

/-- A live log is the earliest if it comes before all that was live. -/
theorem earliest_snoc {chain : AmoyReads} {hashlock : Hash} {logs : List EvmLog} {log : EvmLog}
    {escrow : FoundEscrow} (hlive : liveUnder chain hashlock log = some escrow)
    (hall : ∀ l ∈ logs, liveUnder chain hashlock l ≠ none → log.blockNumber < l.blockNumber) :
    Earliest chain hashlock (logs ++ [log]) log.blockNumber escrow := by
  refine ⟨logs.length, log, by simp, hlive, rfl, fun j l hj hl => ?_⟩
  by_cases hjlt : j < logs.length
  · rw [List.getElem?_append_left hjlt] at hj
    exact .inl (hall l (List.mem_of_getElem? hj) hl)
  · obtain rfl : l = log := by
      rw [List.getElem?_append_right (by omega)] at hj
      exact List.mem_singleton.mp (List.mem_of_getElem? hj)
    exact .inr ⟨rfl, by omega⟩

theorem Earliest.le {chain : AmoyReads} {hashlock : Hash} {logs : List EvmLog} {block : UInt64}
    {escrow : FoundEscrow} (h : Earliest chain hashlock logs block escrow) {l : EvmLog} (hl : l ∈ logs)
    (hlive : liveUnder chain hashlock l ≠ none) : block ≤ l.blockNumber := by
  obtain ⟨j, hj⟩ := List.mem_iff_getElem?.mp hl
  obtain ⟨i, first, -, -, -, hmin⟩ := h
  rcases hmin j l hj hlive with hb | ⟨hb, -⟩
  · exact UInt64.le_of_lt hb
  · exact UInt64.le_of_eq hb

/-- There is one earliest escrow at most. -/
theorem Earliest.unique {chain : AmoyReads} {hashlock : Hash} {logs : List EvmLog} {block block' : UInt64}
    {escrow escrow' : FoundEscrow} (h : Earliest chain hashlock logs block escrow)
    (h' : Earliest chain hashlock logs block' escrow') : block = block' ∧ escrow = escrow' := by
  obtain ⟨i, first, hi, hlive, rfl, hmin⟩ := h
  obtain ⟨j, second, hj, hlive', rfl, hmin'⟩ := h'
  have hij : i = j := by
    have h1 := hmin j second hj (by simp [hlive'])
    have h2 := hmin' i first hi (by simp [hlive])
    simp only [UInt64.lt_iff_toNat_lt, ← UInt64.toNat_inj] at h1 h2
    omega
  subst hij
  rw [hi] at hj
  cases hj
  rw [hlive] at hlive'
  cases hlive'
  exact ⟨rfl, rfl⟩

/-- What a scan over a list of logs has found so far. -/
theorem foldl_scanLog (chain : AmoyReads) (hashlock : Hash) (logs : List EvmLog) :
    match (logs.foldl (scanLog chain hashlock) (false, none)).2 with
    | none => ∀ l ∈ logs, liveUnder chain hashlock l = none
    | some (block, escrow) => Earliest chain hashlock logs block escrow := by
  induction logs using List.reverseRecOn with
  | nil => simp
  | append_singleton logs log ih =>
    rw [List.foldl_append, List.foldl_cons, List.foldl_nil, scanLog_best]
    generalize (logs.foldl (scanLog chain hashlock) (false, none)).2 = best at ih
    cases hlive : liveUnder chain hashlock log with
    | none =>
      cases best with
      | none => simpa [or_imp, forall_and, hlive] using ih
      | some b => exact ih.later (by simp [hlive])
    | some escrow =>
      cases best with
      | none => exact earliest_snoc hlive fun l hl hne => absurd (ih l hl) hne
      | some b =>
        by_cases hb : log.blockNumber < b.1
        · simp only [Option.all_some, hb, decide_true, if_true]
          exact earliest_snoc hlive fun l hl hne => UInt64.lt_of_lt_of_le hb (ih.le hl hne)
        · simp only [Option.all_some, hb, decide_false, Bool.false_eq_true, if_false]
          exact ih.later fun _ => UInt64.not_lt.mp hb

/-- The scan finds the earliest live escrow. -/
theorem foldl_scanLog_iff (chain : AmoyReads) (hashlock : Hash) (logs : List EvmLog) (block : UInt64)
    (escrow : FoundEscrow) :
    (logs.foldl (scanLog chain hashlock) (false, none)).2 = some (block, escrow) ↔
      Earliest chain hashlock logs block escrow := by
  have hfold := foldl_scanLog chain hashlock logs
  constructor
  · intro h
    rw [h] at hfold
    exact hfold
  · intro h
    generalize (logs.foldl (scanLog chain hashlock) (false, none)).2 = best at hfold
    cases best with
    | none =>
      obtain ⟨i, log, hi, hlive, -⟩ := h
      rw [hfold log (List.mem_of_getElem? hi)] at hlive
      cases hlive
    | some b =>
      obtain ⟨hb, he⟩ := h.unique hfold
      rw [hb, he]

/-- The secondary head agrees within the tolerance, and the lower head counts. -/
def crossHead (secondary : Option AmoyReads) (head : UInt64) : Option UInt64 :=
  match secondary with
  | none => some head
  | some sec =>
    sec.head.bind fun other =>
      if (max head other).toNat - (min head other).toNat ≤ headCrossToleranceBlocks then
        some (min head other)
      else none

/-- A secondary at the same height leaves the head as it is. -/
theorem crossHead_agree {secondary : Option AmoyReads} {head : UInt64}
    (h : ∀ sec, secondary = some sec → sec.head = some head) : crossHead secondary head = some head := by
  cases secondary with
  | none => rfl
  | some sec =>
    have hmin : min head head = head := ite_self _
    have hmax : max head head = head := ite_self _
    simp [crossHead, h sec rfl, hmin, hmax]

/-- The height that every endpoint calls final. -/
def conservativeFinalized (chain : AmoyReads) (secondary : Option AmoyReads) (head : UInt64) :
    Option UInt64 := do
  let fp ← chain.finalizedHead
  match secondary with
  | none => return min fp head
  | some sec => return min (min fp (← sec.finalizedHead)) head

/-- An on-chain timelock back in term units, plus the slack. -/
def termEquivalentOfTimelockS (timelockS nowS termAnchor slackS : UInt64) : UInt64 :=
  satAdd (satAdd (satSub timelockS nowS) slackS) termAnchor

/-- What a scan came to. -/
inductive ScanOutcome where
  | nothing
  | otherHashlock
  | picked (head block : UInt64) (escrow : FoundEscrow)
  deriving DecidableEq

structure AmoyHtlcSwapVerifier where
  keccak256 : Bytes → Hash
  htlc : EvmAddress
  ownClaimAddress : EvmAddress
  slackS : UInt64 := 900
  fromBlockMargin : UInt64 := 5

namespace AmoyHtlcSwapVerifier

variable (v : AmoyHtlcSwapVerifier)

/-- The scan from an anchor: the earliest live escrow under the hashlock, confirmed by the secondary. -/
def scan (chain : AmoyReads) (secondary : Option AmoyReads) (anchor : UInt64) (hashlock : Hash) :
    ScanOutcome :=
  match chain.newSwapLogsTo v.htlc v.ownClaimAddress (satSub anchor v.fromBlockMargin), chain.head with
  | some logs, some head =>
    match crossHead secondary head with
    | none => .nothing
    | some head =>
      match logs.foldl (scanLog chain hashlock) (false, none) with
      | (_, some (block, escrow)) =>
        if secondary.any fun sec => sec.escrowState escrow.swapId ≠ some stateLive then .nothing
        else .picked head block escrow
      | (true, none) => .otherHashlock
      | (false, none) => .nothing
  | _, _ => .nothing

/-- The depth reported for an escrow in `block`; one that is final is maximally deep. -/
def depth (chain : AmoyReads) (secondary : Option AmoyReads) (head block : UInt64) : UInt32 :=
  if (conservativeFinalized chain secondary head).any (block ≤ ·) then finalizedConfirmations
  else
    let n := (satAdd (satSub head block) 1).toNat
    if n < 2 ^ 32 then n.toUInt32 else 4294967295

/-- `observe`: the observation, and the store with the escrow that was picked. -/
def observe (chain : AmoyReads) (secondary : Option AmoyReads) (nowS : UInt64)
    (store : PolygonFundingStore) (expect : HtlcExpectation) : FundingObservation × PolygonFundingStore :=
  if expect.leg ≠ .counterparty then (.absent, store)
  else match store.anchor chain with
    | (none, store) => (.absent, store)
    | (some anchor, store) =>
      match v.scan chain secondary anchor expect.hashlock with
      | .nothing => (.absent, store)
      | .otherHashlock => (.mismatch .hashlock, store)
      | .picked head block escrow =>
        (.found escrow.amount (termEquivalentOfTimelockS escrow.timelockS nowS expect.termAnchor v.slackS)
          (depth chain secondary head block),
         store.recordFound expect.hashlock escrow)

/-- The escrow that an observation picks, if it picks one. -/
def pick (chain : AmoyReads) (secondary : Option AmoyReads) (store : PolygonFundingStore)
    (expect : HtlcExpectation) : Option FoundEscrow :=
  if expect.leg ≠ .counterparty then none
  else (store.anchor chain).1.bind fun anchor =>
    match v.scan chain secondary anchor expect.hashlock with
    | .picked _ _ escrow => some escrow
    | _ => none

/-- The answers offer an escrow: the earliest that is live under the hashlock, by heads that agree and
    with the secondary's word for it. -/
def Offers (chain : AmoyReads) (secondary : Option AmoyReads) (anchor : UInt64) (hashlock : Hash)
    (escrow : FoundEscrow) : Prop :=
  ∃ logs head low block,
    chain.newSwapLogsTo v.htlc v.ownClaimAddress (satSub anchor v.fromBlockMargin) = some logs ∧
    chain.head = some head ∧ crossHead secondary head = some low ∧
    Earliest chain hashlock logs block escrow ∧
    ∀ sec, secondary = some sec → sec.escrowState escrow.swapId = some stateLive

/-- What stands behind an escrow that is picked. -/
theorem scan_eq_picked_iff (chain : AmoyReads) (secondary : Option AmoyReads) (anchor : UInt64)
    (hashlock : Hash) (low block : UInt64) (escrow : FoundEscrow) :
    v.scan chain secondary anchor hashlock = .picked low block escrow ↔
      ∃ logs head, chain.newSwapLogsTo v.htlc v.ownClaimAddress (satSub anchor v.fromBlockMargin) = some logs ∧
        chain.head = some head ∧ crossHead secondary head = some low ∧
        Earliest chain hashlock logs block escrow ∧
        ∀ sec, secondary = some sec → sec.escrowState escrow.swapId = some stateLive := by
  simp only [scan]
  cases hlogs : chain.newSwapLogsTo v.htlc v.ownClaimAddress (satSub anchor v.fromBlockMargin) with
  | none => simp
  | some logs =>
    cases hhead : chain.head with
    | none => simp
    | some head =>
      cases hlow : crossHead secondary head with
      | none => simp [hlow]
      | some low' =>
        have hfold := foldl_scanLog_iff chain hashlock logs
        simp only [hlow]
        generalize logs.foldl (scanLog chain hashlock) (false, none) = r at hfold
        obtain ⟨other, best⟩ := r
        cases best with
        | none =>
          have hnone : ¬ Earliest chain hashlock logs block escrow := by
            intro h
            cases (hfold block escrow).mpr h
          cases other <;> simp [hnone]
        | some b =>
          obtain ⟨block', found⟩ := b
          have hbest : Earliest chain hashlock logs block' found := (hfold block' found).mp rfl
          dsimp only
          constructor
          · intro h
            split_ifs at h with hsec
            cases h
            refine ⟨logs, head, rfl, rfl, hlow, hbest, fun sec hs => ?_⟩
            subst hs
            simpa using hsec
          · rintro ⟨logs', head', he, he', hlow', hearly, hsec⟩
            cases he
            cases he'
            rw [hlow] at hlow'
            cases hlow'
            obtain ⟨rfl, rfl⟩ := hbest.unique hearly
            rw [if_neg]
            cases secondary with
            | none => simp
            | some sec => simp [hsec sec rfl]

theorem scan_picked_iff (chain : AmoyReads) (secondary : Option AmoyReads) (anchor : UInt64)
    (hashlock : Hash) (escrow : FoundEscrow) :
    (∃ head block, v.scan chain secondary anchor hashlock = .picked head block escrow) ↔
      v.Offers chain secondary anchor hashlock escrow := by
  simp only [scan_eq_picked_iff, Offers]
  constructor
  · rintro ⟨low, block, logs, head, h⟩
    exact ⟨logs, head, low, block, h⟩
  · rintro ⟨logs, head, low, block, h⟩
    exact ⟨low, block, logs, head, h⟩

/-- An observation picks what its answers offer under the expected hashlock. -/
theorem pick_iff (chain : AmoyReads) (secondary : Option AmoyReads) (store : PolygonFundingStore)
    (expect : HtlcExpectation) (escrow : FoundEscrow) :
    v.pick chain secondary store expect = some escrow ↔
      expect.leg = .counterparty ∧ ∃ anchor, (store.anchor chain).1 = some anchor ∧
        v.Offers chain secondary anchor expect.hashlock escrow := by
  simp only [pick, ← scan_picked_iff]
  split_ifs with hleg
  · simp [hleg]
  · rw [not_not] at hleg
    simp only [hleg, true_and, Option.bind_eq_some_iff]
    refine exists_congr fun anchor => and_congr_right fun _ => ?_
    cases v.scan chain secondary anchor expect.hashlock <;> simp

/-- An observation records what it picks, before anyone judges it, and nothing else. -/
theorem observe_found (chain : AmoyReads) (secondary : Option AmoyReads) (nowS : UInt64)
    (store : PolygonFundingStore) (expect : HtlcExpectation) :
    (v.observe chain secondary nowS store expect).2.found =
      (v.pick chain secondary store expect).elim store.found (store.found.insert expect.hashlock) := by
  have hanchor := store.anchor_found chain
  simp only [observe, pick]
  split_ifs
  · rfl
  · generalize store.anchor chain = r at hanchor ⊢
    obtain ⟨_ | anchor, store'⟩ := r
    · exact hanchor
    · dsimp only at hanchor ⊢
      rw [Option.bind_some]
      cases v.scan chain secondary anchor expect.hashlock with
      | nothing => exact hanchor
      | otherHashlock => exact hanchor
      | picked head block escrow =>
        dsimp only [PolygonFundingStore.recordFound, Option.elim]
        rw [hanchor]

/-- What is reported as found is an escrow that the scan from the anchor picks. -/
theorem observe_found_iff (chain : AmoyReads) (secondary : Option AmoyReads) (nowS : UInt64)
    (store : PolygonFundingStore) (expect : HtlcExpectation) (amount timeout : UInt64) (confirmations : UInt32) :
    (v.observe chain secondary nowS store expect).1 = .found amount timeout confirmations ↔
      expect.leg = .counterparty ∧ ∃ anchor low block escrow, (store.anchor chain).1 = some anchor ∧
        v.scan chain secondary anchor expect.hashlock = .picked low block escrow ∧ escrow.amount = amount ∧
        termEquivalentOfTimelockS escrow.timelockS nowS expect.termAnchor v.slackS = timeout ∧
        depth chain secondary low block = confirmations := by
  rw [observe]
  by_cases hleg : expect.leg = .counterparty
  · rw [if_neg (not_not.mpr hleg)]
    generalize store.anchor chain = r
    obtain ⟨_ | anchor, store'⟩ := r
    · simp
    · dsimp only
      cases hscan : v.scan chain secondary anchor expect.hashlock with
      | nothing => simp [hscan]
      | otherHashlock => simp [hscan]
      | picked low block escrow => simp [hscan, hleg]
  · simp [hleg]

theorem pick_of_scan {chain : AmoyReads} {secondary : Option AmoyReads} {store : PolygonFundingStore}
    {expect : HtlcExpectation} {anchor low block : UInt64} {escrow : FoundEscrow}
    (hleg : expect.leg = .counterparty) (hanchor : (store.anchor chain).1 = some anchor)
    (hscan : v.scan chain secondary anchor expect.hashlock = .picked low block escrow) :
    v.pick chain secondary store expect = some escrow := by
  simp only [pick, hleg, ne_eq, not_true_eq_false, if_false, hanchor, Option.bind_some, hscan]

/-- What is picked is what the store then has under the hashlock. -/
theorem recorded_of_pick {chain : AmoyReads} {secondary : Option AmoyReads} {store : PolygonFundingStore}
    {expect : HtlcExpectation} {escrow : FoundEscrow}
    (hpick : v.pick chain secondary store expect = some escrow) (nowS : UInt64) :
    (v.observe chain secondary nowS store expect).2.found.lookup expect.hashlock = some escrow := by
  rw [observe_found, hpick, Option.elim, Table.lookup_insert_iff, if_pos rfl]

/-- What is reported as found is what was picked. -/
theorem observe_some {chain : AmoyReads} {secondary : Option AmoyReads} {nowS : UInt64}
    {store : PolygonFundingStore} {expect : HtlcExpectation} {amount timeout : UInt64} {confirmations : UInt32}
    (h : (v.observe chain secondary nowS store expect).1 = .found amount timeout confirmations) :
    ∃ escrow, v.pick chain secondary store expect = some escrow ∧ escrow.amount = amount ∧
      timeout = termEquivalentOfTimelockS escrow.timelockS nowS expect.termAnchor v.slackS := by
  obtain ⟨hleg, anchor, low, block, escrow, hanchor, hscan, hamount, htimeout, -⟩ :=
    (v.observe_found_iff _ _ _ _ _ _ _ _).mp h
  exact ⟨escrow, v.pick_of_scan hleg hanchor hscan, hamount, htimeout.symm⟩

end AmoyHtlcSwapVerifier

end Nimmesh
