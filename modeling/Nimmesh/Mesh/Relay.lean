import Nimmesh.Mesh.Wire
import Nimmesh.Lib.Table
import Nimmesh.Lib.Word
import Mathlib.Data.List.MinMax
import Mathlib.Data.Rat.Floor

/-! @src relay.rs citizen.rs ratelimit.rs | name:The relay decision | layer:model

    What a node carries for others: the hop cap, the fanout of a dense mesh, the posture that the battery
    imposes, and the budget of frames per peer. The doubles of the source are the rationals they stand
    for, rounded after each operation to 53 bits; all of them are non-negative and of normal size. -/

namespace Nimmesh
open Word

/-- The name the radio gives a connected peer. -/
abbrev Link := String

/-- The hop cap: cap the budget, then take one hop, and drop at the floor. -/
def relayedTtl (ttl : UInt8) : Option UInt8 :=
  let capped := if ttl < defaultTtl then ttl else defaultTtl
  if capped ≤ 1 then none else some (capped - 1)

/-- CORRECT: what is relayed has a smaller budget than what came in, and at most six hops. -/
theorem relayedTtl_lt {ttl t : UInt8} (h : relayedTtl ttl = some t) : t < ttl ∧ t ≤ 6 := by
  unfold relayedTtl defaultTtl at h
  simp only [UInt8.lt_iff_toNat_lt, UInt8.le_iff_toNat_le] at h ⊢
  split_ifs at h with h1 h2 h2
  all_goals cases h
  all_goals
    simp only [UInt8.reduceToNat] at h1 h2 ⊢
    have hlt := ttl.toNat_lt
    try rw [UInt8.toNat_sub_of_le _ _ (UInt8.le_iff_toNat_le.mpr (by simp only [UInt8.reduceToNat]; omega))]
    simp only [UInt8.reduceToNat]
    omega

theorem relayedTtl_zero : relayedTtl 0 = none := by decide

/-! ### Doubles -/

/-- The exponent of a positive rational: `2 ^ e ≤ q < 2 ^ (e + 1)`. -/
def binaryExponent (q : ℚ) : ℤ :=
  let e : ℤ := q.num.natAbs.log2 - q.den.log2
  if (2 : ℚ) ^ e ≤ q then e else e - 1

/-- The nearest double, ties to even. -/
def roundF64 (q : ℚ) : ℚ :=
  if q ≤ 0 then 0
  else
    let ulp : ℚ := 2 ^ (binaryExponent q - 52)
    let m := (q / ulp).floor
    let rest := q / ulp - m
    let up := 1 / 2 < rest ∨ rest = 1 / 2 ∧ m % 2 = 1
    (if up then m + 1 else m) * ulp

example : roundF64 (64 / 1000) = 0x10624DD2F1A9FC / 2 ^ 56 := by decide +kernel

/-! ### Relay policy -/

def highDegreeThreshold : ℕ := 6

def relayProbability : ℚ := 1 / 2

/-- A trial that succeeds with probability `p`; the draw is used only when there is something to decide. -/
def bernoulli (draw : UInt64) (p : ℚ) : Bool :=
  if p ≤ 0 then false
  else if 1 ≤ p then true
  else decide (roundF64 (roundF64 draw.toNat / roundF64 u64Max.toNat) < p)

/-- Whether the trial uses a draw. -/
def usesDraw (p : ℚ) : Bool := decide (0 < p) && decide (p < 1)

/-- The probability of a rebroadcast at a peer degree, scaled by the posture. -/
def relayChance (degree : ℕ) (factor : ℚ) : ℚ :=
  max 0 (min 1 ((if degree < highDegreeThreshold then 1 else relayProbability) * factor))

/-! ### Battery posture -/

def batteryFullPct : UInt8 := 50
def batteryLowPct : UInt8 := 20
def batteryCriticalPct : UInt8 := 10

inductive RelayPosture where | full | reduced | frugal | off
  deriving DecidableEq, Repr

def RelayPosture.relaysType (r : RelayPosture) (msgType : MessageType) : Bool :=
  match r with
  | .full | .reduced => true
  | .frugal => decide (msgType = .nimiqTx ∨ msgType = .nimiqTxReceipt)
  | .off => false

def RelayPosture.probabilityFactor : RelayPosture → ℚ
  | .full | .frugal => 1
  | .reduced => 1 / 2
  | .off => 0

structure BatteryState where
  levelPct : UInt8 := 100
  charging : Bool := true
  deriving DecidableEq, Repr

def relayPosture (b : BatteryState) : RelayPosture :=
  if b.charging || decide (batteryFullPct ≤ b.levelPct) then .full
  else if batteryLowPct ≤ b.levelPct then .reduced
  else if batteryCriticalPct ≤ b.levelPct then .frugal
  else .off

/-! ### Rate limiter -/

def peerBucketCapacity : ℚ := 256

def refillPerMs : ℚ := roundF64 (64 / 1000)

def maxTrackedPeers : ℕ := 128

structure Bucket where
  tokens : ℚ
  lastMs : UInt64

/-- One token bucket per peer. -/
abbrev PeerRateLimiter := Table Link Bucket

/-- The order in which a hash map of buckets is walked. -/
abbrev BucketOrder :=
  { order : List (Σ _ : Link, Bucket) → List (Σ _ : Link, Bucket) // ∀ l, (order l).Perm l }

namespace PeerRateLimiter

/-- Make room for a new peer: drop the one not seen for longest, the first on the walk if there are several. -/
def evictIfFull (walk : BucketOrder) (l : PeerRateLimiter) (peer : Link) : PeerRateLimiter :=
  if l.len < maxTrackedPeers ∨ (l.lookup peer).isSome then l
  else match (walk.1 l.entries).argmin fun e => e.2.lastMs.toNat with
    | some oldest => l.erase oldest.1
    | none => l

/-- Take one token for a frame of this peer; `false` if there is none. -/
def allow (walk : BucketOrder) (l : PeerRateLimiter) (peer : Link) (nowMs : UInt64) : Bool × PeerRateLimiter :=
  let l := evictIfFull walk l peer
  let bucket := (l.lookup peer).getD ⟨peerBucketCapacity, nowMs⟩
  let elapsed := roundF64 (satSub nowMs bucket.lastMs).toNat
  let tokens := min (roundF64 (bucket.tokens + roundF64 (elapsed * refillPerMs))) peerBucketCapacity
  if 1 ≤ tokens then (true, l.insert peer ⟨roundF64 (tokens - 1), nowMs⟩)
  else (false, l.insert peer ⟨tokens, nowMs⟩)

end PeerRateLimiter

end Nimmesh
