import Nimmesh.Live.AmoyVerifier

/-! @src polygon_verifier.rs | name:The deployed-contract scan | layer:model

    The older view of the USDC leg: every `NewSwap` log that pays our recipient, from a block on, and the
    slot of each one under our hashlock. A read that fails ends the observation; a slot that does not read
    as live is skipped; of the rest the earliest is reported, with the raw timelock. -/

namespace Nimmesh
open Word

/-- The reads of one endpoint during an observation; `none` is an error. -/
structure PolygonReads where
  call : EvmAddress → Bytes → Option Bytes
  newSwapLogsTo : EvmAddress → EvmAddress → UInt64 → Option (List EvmLog)
  head : Option UInt64
  finalizedHead : Option UInt64

def getSwapCalldata (keccak256 : Bytes → Hash) (swapId : Hash) : Bytes :=
  functionSelector keccak256 "getSwap(bytes32)" ++ swapId.1

/-- The last of the six words that `getSwap` returns. -/
def decodeGetSwapState (b : Bytes) : Option UInt64 :=
  if b.length < 6 * wordLen then none else wordU64? (slice b (5 * wordLen) wordLen)

/-- The depth of an escrow in `block`; one that is final is maximally deep. -/
def depthBelow (finalized : Option UInt64) (head block : UInt64) : UInt32 :=
  if finalized.any (block ≤ ·) then finalizedConfirmations
  else
    let n := (satAdd (satSub head block) 1).toNat
    if n < 2 ^ 32 then n.toUInt32 else 4294967295

namespace PolygonReads

/-- The secondary head agrees within the tolerance, and the lower head counts. -/
def crossHead (secondary : Option PolygonReads) (head : UInt64) : Option UInt64 :=
  match secondary with
  | none => some head
  | some sec =>
    sec.head.bind fun other =>
      if (max head other).toNat - (min head other).toNat ≤ headCrossToleranceBlocks then
        some (min head other)
      else none

/-- The height that every endpoint calls final. -/
def conservativeFinalized (reads : PolygonReads) (secondary : Option PolygonReads) (head : UInt64) :
    Option UInt64 := do
  let fp ← reads.finalizedHead
  match secondary with
  | none => return min fp head
  | some sec => return min (min fp (← sec.finalizedHead)) head

end PolygonReads

structure PolygonHtlcVerifier where
  keccak256 : Bytes → Hash
  htlc : EvmAddress
  fromBlock : UInt64

namespace PolygonHtlcVerifier

variable (v : PolygonHtlcVerifier)

/-- One log: it pays us under another hashlock, or it is the best live escrow so far; `none` ends the
    observation. -/
def scanLog (reads : PolygonReads) (hashlock : Hash) (acc : Bool × Option (UInt64 × UInt64 × UInt64))
    (log : EvmLog) : Option (Bool × Option (UInt64 × UInt64 × UInt64)) :=
  match decodeNewSwapData log.data with
  | none => some acc
  | some (amount, h, timelock) =>
    if h ≠ hashlock then some (true, acc.2)
    else do
      let bytes ← reads.call v.htlc (getSwapCalldata v.keccak256 log.topic1)
      if decodeGetSwapState bytes ≠ some stateLive then return acc
      else if acc.2.all fun best => log.blockNumber < best.1 then
        return (acc.1, some (log.blockNumber, amount, timelock))
      else return acc

def observeUsdc (reads : PolygonReads) (secondary : Option PolygonReads) (expect : HtlcExpectation) :
    FundingObservation :=
  match ByteArr.ofBytes? 20 expect.recipient with
  | none => .absent
  | some recipient =>
    match reads.newSwapLogsTo v.htlc recipient v.fromBlock, reads.head with
    | some logs, some head =>
      match PolygonReads.crossHead secondary head with
      | none => .absent
      | some head =>
        match logs.foldlM (v.scanLog reads expect.hashlock) (false, none) with
        | none => .absent
        | some (_, some (block, amount, timeout)) =>
          .found amount timeout (depthBelow (reads.conservativeFinalized secondary head) head block)
        | some (true, none) => .mismatch .hashlock
        | some (false, none) => .absent
    | _, _ => .absent

/-- `observe`: only the counterparty leg. -/
def observe (reads : PolygonReads) (secondary : Option PolygonReads) (expect : HtlcExpectation) :
    FundingObservation :=
  if expect.leg ≠ .counterparty then .absent else v.observeUsdc reads secondary expect

end PolygonHtlcVerifier

/-! ### The depth -/

/-- Counted below a head: blocks from the escrow's on, as far as 32 bits go. -/
theorem toNat_depthBelow {finalized : Option UInt64} {head block : UInt64}
    (h : finalized.any (block ≤ ·) = false) :
    (depthBelow finalized head block).toNat = min (head.toNat - block.toNat + 1) (2 ^ 32 - 1) := by
  have hhead := head.toNat_lt
  have hone : (1 : UInt64).toNat = 1 := rfl
  rw [depthBelow, h, if_neg Bool.false_ne_true, toNat_satAdd, toNat_satSub, hone]
  dsimp only
  split_ifs with hlt
  · rw [Nat.toUInt32_eq, UInt32.toNat_ofNat', Nat.mod_eq_of_lt hlt]
    omega
  · have hval : (4294967295 : UInt32).toNat = 2 ^ 32 - 1 := rfl
    rw [hval]
    omega

/-- A secondary at the same height leaves the head as it is. -/
theorem PolygonReads.crossHead_agree {secondary : Option PolygonReads} {head : UInt64}
    (h : ∀ sec, secondary = some sec → sec.head = some head) : crossHead secondary head = some head := by
  cases secondary with
  | none => rfl
  | some sec =>
    have hmin : min head head = head := ite_self _
    have hmax : max head head = head := ite_self _
    simp [crossHead, h sec rfl, hmin, hmax]

theorem PolygonReads.crossHead_le {secondary : Option PolygonReads} {head low : UInt64}
    (h : crossHead secondary head = some low) : low ≤ head := by
  cases secondary with
  | none =>
    cases h
    exact UInt64.le_refl _
  | some sec =>
    obtain ⟨other, -, h⟩ := Option.bind_eq_some_iff.mp h
    split_ifs at h
    cases h
    rw [UInt64.le_iff_toNat_le, toNat_min]
    exact Nat.min_le_left _ _

theorem depthBelow_of_final {finalized : Option UInt64} {head block : UInt64}
    (h : finalized.any (block ≤ ·) = true) : depthBelow finalized head block = finalizedConfirmations := by
  rw [depthBelow, if_pos h]

end Nimmesh
