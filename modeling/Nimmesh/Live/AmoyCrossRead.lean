import Nimmesh.Live.EscrowChain

/-! @src amoy_swap_verifier.rs | name:One lying Amoy endpoint | layer:properties

    The secondary is honest and the primary is not. The slot it records reads live on the chain, and the
    head and the final height are no higher than the chain's. But the receiver, the hashlock, the amount,
    the timelock and the block are what the primary's log says, and nobody asks the secondary for them: it
    all rests on the one log that the primary shows first. -/

namespace Nimmesh
open Word

namespace EscrowChain

/-- The endpoint answers these reads from the chain; any of them may fail. -/
structure ConfirmedBy (chain : EscrowChain) (sec : AmoyReads) : Prop where
  slot : ∀ swapId s, sec.escrowState swapId = some s → s = (chain.slots swapId).state.code
  head : ∀ n, sec.head = some n → n = chain.head
  finalized : ∀ f, sec.finalizedHead = some f → chain.finalized = some f

/-- The log of the slot's creation; the contract logs a slot once. -/
def creation (chain : EscrowChain) (swapId : Hash) : Option LoggedSwap :=
  chain.logs.find? (·.swapId = swapId)

/-- The slot is live and has the receiver, the hashlock, and at least the amount and the timelock that the
    verifier records; and it was created at this depth, or at or below the final height. -/
def Stands (chain : EscrowChain) (receiver : EvmAddress) (hashlock : Hash) (escrow : FoundEscrow)
    (k : UInt32) : Prop :=
  let slot := chain.slots escrow.swapId
  slot.state = .live ∧ slot.receiver = receiver ∧ slot.hashlock = hashlock ∧
    escrow.amount.toNat ≤ slot.amount.toNat ∧ escrow.timelockS.toNat ≤ slot.timelock.toNat ∧
    ∃ l, chain.creation escrow.swapId = some l ∧
      (l.block.toNat + k.toNat ≤ chain.head.toNat + 1 ∨
        k = finalizedConfirmations ∧ ∃ f, chain.finalized = some f ∧ l.block ≤ f)

end EscrowChain

/-- The log that a node shows first under a hashlock: of those that it serves and whose slot it calls live, the
    one of the lowest block, and of one block the first. -/
structure ShownFirst (reads : AmoyReads) (hashlock : Hash) (logs : List EvmLog) (log : EvmLog)
    (amount timelockS : UInt64) : Prop where
  decoded : decodeNewSwapData log.data = some (amount, hashlock, timelockS)
  live : reads.escrowState log.topic1 = some stateLive
  first : ∃ i, logs[i]? = some log ∧ ∀ (j : ℕ) (l : EvmLog) (a t : UInt64), logs[j]? = some l →
    decodeNewSwapData l.data = some (a, hashlock, t) → reads.escrowState l.topic1 = some stateLive →
    log.blockNumber < l.blockNumber ∨ log.blockNumber = l.blockNumber ∧ i ≤ j

theorem liveUnder_eq_some_iff {reads : AmoyReads} {hashlock : Hash} {log : EvmLog} {escrow : FoundEscrow} :
    liveUnder reads hashlock log = some escrow ↔ decodeNewSwapData log.data =
        some (escrow.amount, hashlock, escrow.timelockS) ∧
      reads.escrowState log.topic1 = some stateLive ∧ escrow.swapId = log.topic1 := by
  obtain ⟨swapId, amount, timelockS⟩ := escrow
  rw [liveUnder]
  cases decodeNewSwapData log.data with
  | none => simp
  | some d =>
    obtain ⟨a, h, t⟩ := d
    by_cases hh : h = hashlock
    · by_cases hl : reads.escrowState log.topic1 = some stateLive
      · simp only [hh, hl, and_self, if_true, true_and, Option.some.injEq, FoundEscrow.mk.injEq, Prod.mk.injEq]
        tauto
      · simp [hl]
    · simp [hh]

/-- What a scan keeps is the log that is shown first. -/
theorem earliest_iff_shownFirst {reads : AmoyReads} {hashlock : Hash} {logs : List EvmLog} {block : UInt64}
    {escrow : FoundEscrow} :
    Earliest reads hashlock logs block escrow ↔ ∃ log,
      ShownFirst reads hashlock logs log escrow.amount escrow.timelockS ∧ log.topic1 = escrow.swapId ∧
        log.blockNumber = block := by
  have hlive : ∀ l, liveUnder reads hashlock l ≠ none ↔ ∃ a t, decodeNewSwapData l.data = some (a, hashlock, t) ∧
      reads.escrowState l.topic1 = some stateLive := by
    intro l
    rw [Option.ne_none_iff_exists']
    constructor
    · rintro ⟨found, hfound⟩
      obtain ⟨hdecoded, hl, -⟩ := liveUnder_eq_some_iff.mp hfound
      exact ⟨_, _, hdecoded, hl⟩
    · rintro ⟨a, t, hdecoded, hl⟩
      exact ⟨⟨l.topic1, a, t⟩, liveUnder_eq_some_iff.mpr ⟨hdecoded, hl, rfl⟩⟩
  constructor
  · rintro ⟨i, log, hi, hunder, rfl, hmin⟩
    obtain ⟨hdecoded, hl, hid⟩ := liveUnder_eq_some_iff.mp hunder
    exact ⟨log, ⟨hdecoded, hl, i, hi, fun j l a t hj hd hs => hmin j l hj ((hlive l).mpr ⟨a, t, hd, hs⟩)⟩, hid.symm,
      rfl⟩
  · rintro ⟨log, ⟨hdecoded, hl, i, hi, hmin⟩, hid, rfl⟩
    refine ⟨i, log, hi, liveUnder_eq_some_iff.mpr ⟨hdecoded, hl, hid.symm⟩, rfl, fun j l hj hne => ?_⟩
    obtain ⟨a, t, hd, hs⟩ := (hlive l).mp hne
    exact hmin j l a t hj hd hs

namespace EscrowChain

/-- How far below the heads the answers put a block: as far as can be said if both ends call it final, and else by
    the lower head. -/
def claimedBelow (chain : EscrowChain) (primary sec : AmoyReads) (head block : UInt64) : ℕ :=
  if primary.finalizedHead.any (block ≤ ·) ∧ sec.finalizedHead.any (block ≤ ·) ∧ block ≤ head ∧ block ≤ chain.head then
    2 ^ 32 - 2
  else min (min head.toNat chain.head.toNat - block.toNat) (2 ^ 32 - 2)

/-- A creation as far below the chain's head as that, or a final one where nothing further can be said. -/
def InTime (chain : EscrowChain) (primary sec : AmoyReads) (head block created : UInt64) : Prop :=
  created.toNat + chain.claimedBelow primary sec head block ≤ chain.head.toNat ∨
    chain.claimedBelow primary sec head block = 2 ^ 32 - 2 ∧ ∃ f, chain.finalized = some f ∧ created ≤ f

/-- The chain bears a log out: the slot that it names was created for the receiver under the hashlock, with no less
    than the log says, and in time for the block that the log is shown in. -/
structure BearsOut (chain : EscrowChain) (primary sec : AmoyReads) (receiver : EvmAddress) (hashlock : Hash)
    (log : EvmLog) (amount timelockS : UInt64) : Prop where
  receiver : (chain.slots log.topic1).receiver = receiver
  hashlock : (chain.slots log.topic1).hashlock = hashlock
  amount : amount.toNat ≤ (chain.slots log.topic1).amount.toNat
  timelock : timelockS.toNat ≤ (chain.slots log.topic1).timelock.toNat
  created : ∃ l, chain.creation log.topic1 = some l ∧
    ∀ head, primary.head = some head → chain.InTime primary sec head log.blockNumber l.block

variable {chain : EscrowChain} {primary sec : AmoyReads} {head low block : UInt64}

/-- The lower head, with a secondary that follows the chain. -/
theorem low_eq (hsec : chain.ConfirmedBy sec) (hlow : crossHead (some sec) head = some low) :
    low = min head chain.head := by
  obtain ⟨n, hn, hlow⟩ := Option.bind_eq_some_iff.mp hlow
  split_ifs at hlow
  rw [← hsec.head n hn]
  exact (Option.some.inj hlow).symm

theorem final_iff : (conservativeFinalized primary (some sec) (min head chain.head)).any (block ≤ ·) = true ↔
    primary.finalizedHead.any (block ≤ ·) ∧ sec.finalizedHead.any (block ≤ ·) ∧ block ≤ head ∧ block ≤ chain.head := by
  rw [conservativeFinalized]
  cases primary.finalizedHead with
  | none => simp
  | some fp =>
    cases hfs : sec.finalizedHead with
    | none => simp [hfs]
    | some fs =>
      have hmin : block ≤ min (min fp fs) (min head chain.head) ↔
          block ≤ fp ∧ block ≤ fs ∧ block ≤ head ∧ block ≤ chain.head := by
        simp only [UInt64.le_iff_toNat_le, toNat_min, le_min_iff, and_assoc]
      simpa [hfs] using hmin

/-- The depth that is reported is one more than what is claimed. -/
theorem toNat_depth (hsec : chain.ConfirmedBy sec) (hlow : crossHead (some sec) head = some low) :
    (depthBelow (conservativeFinalized primary (some sec) low) low block).toNat =
      chain.claimedBelow primary sec head block + 1 := by
  rw [low_eq hsec hlow, claimedBelow]
  split_ifs with hfinal
  · rw [depthBelow_of_final (final_iff.mpr hfinal)]
    rfl
  · rw [toNat_depthBelow (Bool.eq_false_iff.mpr fun h => hfinal (final_iff.mp h)), toNat_min]
    omega

/-- A creation has the depth that is reported exactly when it is in time. -/
theorem inTime_iff (hsec : chain.ConfirmedBy sec) (hlow : crossHead (some sec) head = some low) (created : UInt64) :
    (created.toNat + (depthBelow (conservativeFinalized primary (some sec) low) low block).toNat ≤
          chain.head.toNat + 1 ∨
        depthBelow (conservativeFinalized primary (some sec) low) low block = finalizedConfirmations ∧
          ∃ f, chain.finalized = some f ∧ created ≤ f) ↔
      chain.InTime primary sec head block created := by
  have hdepth : (depthBelow (conservativeFinalized primary (some sec) low) low block).toNat =
      chain.claimedBelow primary sec head block + 1 := toNat_depth hsec hlow
  have hmax : finalizedConfirmations.toNat = 2 ^ 32 - 1 := rfl
  rw [InTime, ← UInt32.toNat_inj, hdepth, hmax]
  refine or_congr (by omega) (and_congr_left fun _ => by omega)

/-- Neither head makes a slot deeper: one that was created by the shown block is in time. -/
theorem inTime_of_le (hsec : chain.ConfirmedBy sec) {swapId : Hash} {l : LoggedSwap}
    (hl : chain.creation swapId = some l) (hle : l.block ≤ block) : chain.InTime primary sec head block l.block := by
  have hbelow := UInt64.le_iff_toNat_le.mp (chain.below l (List.mem_of_find?_eq_some hl))
  rw [UInt64.le_iff_toNat_le] at hle
  rw [InTime, claimedBelow]
  split_ifs with hfinal
  · obtain ⟨fs, hfs, hblock⟩ := (Option.any_eq_true _ _).mp hfinal.2.1
    rw [decide_eq_true_eq, UInt64.le_iff_toNat_le] at hblock
    exact .inr ⟨rfl, fs, hsec.finalized fs hfs, UInt64.le_iff_toNat_le.mpr (hle.trans hblock)⟩
  · exact .inl (by omega)

end EscrowChain

namespace AmoyHtlcSwapVerifier

/-- Whatever log of ours the primary shows first, the chain bears it out. -/
def ShowsTruly (v : AmoyHtlcSwapVerifier) (chain : EscrowChain) (primary sec : AmoyReads)
    (store : PolygonFundingStore) (hashlock : Hash) : Prop :=
  ∀ anchor logs log amount timelockS, (store.anchor primary).1 = some anchor →
    primary.newSwapLogsTo v.htlc v.ownClaimAddress (satSub anchor v.fromBlockMargin) = some logs →
    ShownFirst primary hashlock logs log amount timelockS →
    chain.BearsOut primary sec v.ownClaimAddress hashlock log amount timelockS

/-- EXACT: with an honest secondary, what is found is a live slot as reported exactly when the chain bears out the
    log that the primary shows first; and it is the block of that log alone that can make a slot too deep. -/
theorem amoy_cross_read_exact (v : AmoyHtlcSwapVerifier) (chain : EscrowChain) (primary sec : AmoyReads)
    (hsec : chain.ConfirmedBy sec) (nowS : UInt64) (store : PolygonFundingStore) (expect : HtlcExpectation)
    (amount timeout : UInt64) (k : UInt32)
    (h : (v.observe primary (some sec) nowS store expect).1 = .found amount timeout k) :
    ((∃ escrow, (v.observe primary (some sec) nowS store expect).2.found.lookup expect.hashlock = some escrow ∧
        escrow.amount = amount ∧
        timeout = termEquivalentOfTimelockS escrow.timelockS nowS expect.termAnchor v.slackS ∧
        chain.Stands v.ownClaimAddress expect.hashlock escrow k) ↔
      v.ShowsTruly chain primary sec store expect.hashlock) ∧
    (∀ head block swapId l, chain.creation swapId = some l → l.block ≤ block →
      chain.InTime primary sec head block l.block) := by
  obtain ⟨hleg, anchor, low, block, escrow, hanchor, hscan, hamount, htimeout, hdepth⟩ :=
    (v.observe_found_iff _ _ _ _ _ _ _ _).mp h
  obtain ⟨logs, head, hlogs, hhead, hlow, hearly, hlive⟩ := (v.scan_eq_picked_iff _ _ _ _ _ _ _).mp hscan
  have hrecorded := v.recorded_of_pick (v.pick_of_scan hleg hanchor hscan) nowS
  have hstate : (chain.slots escrow.swapId).state = .live :=
    (EscrowState.code_eq_live _).mp (hsec.slot _ _ (hlive sec rfl)).symm
  have hk : k = depthBelow (conservativeFinalized primary (some sec) low) low block := hdepth.symm
  refine ⟨⟨?_, fun htruly => ?_⟩, fun head block swapId l hl hle => EscrowChain.inTime_of_le hsec hl hle⟩
  · rintro ⟨escrow', hrecorded', -, -, hstands⟩ anchor' logs' log a t hanchor' hlogs' hshown
    obtain rfl : escrow = escrow' := Option.some.inj (hrecorded.symm.trans hrecorded')
    obtain rfl : anchor = anchor' := Option.some.inj (hanchor.symm.trans hanchor')
    obtain rfl : logs = logs' := Option.some.inj (hlogs.symm.trans hlogs')
    have hearly' : Earliest primary expect.hashlock logs log.blockNumber ⟨log.topic1, a, t⟩ :=
      earliest_iff_shownFirst.mpr ⟨log, hshown, rfl, rfl⟩
    obtain ⟨hblock, hescrow⟩ := hearly.unique hearly'
    subst hblock hescrow hk
    obtain ⟨-, hreceiver, hhash, hleast, htime, l, hl, hcreated⟩ := hstands
    refine ⟨hreceiver, hhash, hleast, htime, l, hl, fun head' hhead' => ?_⟩
    obtain rfl : head = head' := Option.some.inj (hhead.symm.trans hhead')
    exact (EscrowChain.inTime_iff hsec hlow l.block).mp hcreated
  · obtain ⟨log, hshown, hid, hblock⟩ := earliest_iff_shownFirst.mp hearly
    subst hblock hk
    obtain ⟨hreceiver, hhash, hleast, htime, l, hl, hcreated⟩ := htruly anchor logs log _ _ hanchor hlogs hshown
    rw [hid] at hreceiver hhash hleast htime hl
    exact ⟨escrow, hrecorded, hamount, htimeout.symm, hstate, hreceiver, hhash, hleast, htime, l, hl,
      (EscrowChain.inTime_iff hsec hlow l.block).mpr (hcreated head hhead)⟩

end AmoyHtlcSwapVerifier

/-! ### A live slot, misquoted -/

namespace Sample

def amoyVerifier : AmoyHtlcSwapVerifier where
  keccak256 := keccak256
  htlc := escrowAddress
  ownClaimAddress := claimAddress

/-- A node that shows this log of the escrow slot and answers the rest from the chain. -/
def misquoting (chain : EscrowChain) (amount : U256) (block : UInt64) : AmoyReads :=
  { chain.serveAmoy fun _ => some ⟨true, 100⟩ with
    newSwapLogsTo := fun _ _ _ => some [{ loggedEscrow block with amount }.evmLog] }

theorem confirmedBy_serveAmoy (chain : EscrowChain) (receipt : Hash → Option TxReceipt) :
    chain.ConfirmedBy (chain.serveAmoy receipt) where
  slot _ _ h := (Option.some.inj h).symm
  head _ h := (Option.some.inj h).symm
  finalized _ h := h

/-- The sample escrow, fifty blocks deep, as an honest node shows it and as one that quotes it shows it. -/
def deepChain : EscrowChain := escrowIn 100 150 (by decide)

def deepShown : AmoyReads := misquoting deepChain 100000 100

def deepConfirmed : AmoyReads := deepChain.serveAmoy fun _ => none

/-- A store with one candidate that was mined. -/
def anchored : PolygonFundingStore := { candidates := [word32 7] }

end Sample

namespace AmoyHtlcSwapVerifier

/-- The sample escrow is recorded at depth 51, and it stands. -/
theorem sample_amoy_cross_read_exact : ∃ escrow,
    (Sample.amoyVerifier.observe Sample.deepShown (some Sample.deepConfirmed) 1000000 Sample.anchored
      Sample.scanExpectation).2.found.lookup Sample.scanExpectation.hashlock = some escrow ∧ escrow.amount = 100000 ∧
      5900 = termEquivalentOfTimelockS escrow.timelockS 1000000 Sample.scanExpectation.termAnchor
        Sample.amoyVerifier.slackS ∧
      Sample.deepChain.Stands Sample.amoyVerifier.ownClaimAddress Sample.scanExpectation.hashlock escrow 51 := by
  have hrun : (Sample.amoyVerifier.observe Sample.deepShown (some Sample.deepConfirmed) 1000000 Sample.anchored
        Sample.scanExpectation).1 = .found 100000 5900 51 ∧
      Sample.deepChain.creation Sample.escrowSlot = some (Sample.loggedEscrow 100) ∧
      decodeNewSwapData (Sample.loggedEscrow 100).evmLog.data = some (100000, Sample.hashlock, 1005000) ∧
      (Sample.deepChain.slots Sample.escrowSlot).receiver = Sample.claimAddress ∧
      (Sample.deepChain.slots Sample.escrowSlot).hashlock = Sample.hashlock ∧
      (Sample.deepChain.slots Sample.escrowSlot).amount = 100000 ∧
      (Sample.deepChain.slots Sample.escrowSlot).timelock = 1005000 := by decide +kernel
  obtain ⟨hfound, hlog, hdecode, hreceiver, hhash, hamount, htime⟩ := hrun
  have hexact := amoy_cross_read_exact Sample.amoyVerifier Sample.deepChain Sample.deepShown Sample.deepConfirmed
    (Sample.confirmedBy_serveAmoy Sample.deepChain _) 1000000 Sample.anchored Sample.scanExpectation 100000 5900 51
    hfound
  refine hexact.1.mpr ?_
  intro anchor logs log a t _ hlogs hshown
  obtain rfl : logs = [(Sample.loggedEscrow 100).evmLog] := (Option.some.inj hlogs).symm
  obtain ⟨i, hi, -⟩ := hshown.first
  obtain rfl : log = (Sample.loggedEscrow 100).evmLog := List.mem_singleton.mp (List.mem_of_getElem? hi)
  have hsame := Option.some.inj (hdecode.symm.trans hshown.decoded)
  obtain rfl : 100000 = a := congrArg Prod.fst hsame
  obtain rfl : 1005000 = t := congrArg (·.2.2) hsame
  have hid : (Sample.loggedEscrow 100).evmLog.topic1 = Sample.escrowSlot := rfl
  refine ⟨?_, ?_, ?_, ?_, Sample.loggedEscrow 100, ?_,
    fun head _ => hexact.2 head _ Sample.escrowSlot _ hlog (UInt64.le_refl _)⟩
  · rw [hid, hreceiver]
    rfl
  · rw [hid, hhash]
    rfl
  · rw [hid, hamount]
    decide
  · rw [hid, htime]
    decide
  · rw [hid, hlog]

/-- The primary quotes a live slot of 0.1 USDC, made two blocks ago, as ten USDC of fifty blocks ago. -/
theorem misquoted_slot_is_found :
    ¬ ∀ (v : AmoyHtlcSwapVerifier) (chain : EscrowChain) (primary sec : AmoyReads), chain.ConfirmedBy sec →
      ∀ nowS store expect amount timeout k,
      (v.observe primary (some sec) nowS store expect).1 = .found amount timeout k →
      ∃ escrow, (v.observe primary (some sec) nowS store expect).2.found.lookup expect.hashlock = some escrow ∧
        escrow.amount = amount ∧ chain.Stands v.ownClaimAddress expect.hashlock escrow k := by
  intro h
  let chain := Sample.escrowIn 149 150 (by decide)
  let primary := Sample.misquoting chain 10000000 100
  have hrun : (Sample.amoyVerifier.observe primary (some (chain.serveAmoy fun _ => none)) 1000000
        Sample.anchored Sample.scanExpectation).1 = .found 10000000 5900 51 ∧
      (Sample.amoyVerifier.observe primary (some (chain.serveAmoy fun _ => none)) 1000000
        Sample.anchored Sample.scanExpectation).2.found.lookup Sample.hashlock =
          some ⟨Sample.escrowSlot, 10000000, 1005000⟩ := by decide +kernel
  obtain ⟨escrow, hrec, -, hstands⟩ := h Sample.amoyVerifier chain primary _
    (Sample.confirmedBy_serveAmoy chain fun _ => none) _ _ _ _ _ _ hrun.1
  obtain rfl : escrow = ⟨Sample.escrowSlot, 10000000, 1005000⟩ := Option.some.inj (hrec.symm.trans hrun.2)
  obtain ⟨-, -, -, hamount, -⟩ := hstands
  revert hamount
  decide +kernel

end AmoyHtlcSwapVerifier

end Nimmesh
