import Nimmesh.Lib.Rounding
import Nimmesh.Lib.Tally
import Nimmesh.Mesh.Bounds

/-! @src ratelimit.rs engine.rs node.rs | name:The frame budget of a peer | layer:properties

    The token bucket of a peer, with the rounding of its doubles. Taking a token is exact; a refill over `d`
    milliseconds is off by less than `d` parts in `10 ^ 12` of a token, since a look at the bucket at which no time has
    passed rounds nothing. So a bucket stays between the levels of two exact ones, a little faster and a little slower. -/

namespace Nimmesh
open Word Rounding

/-! ### Doubles -/

theorem binaryExponent_eq {q : ℚ} (hq : 0 < q) : binaryExponent q = Int.log 2 q := by
  have hnum : q.num.natAbs ≠ 0 := Int.natAbs_ne_zero.mpr (Rat.num_ne_zero.mpr hq.ne')
  have hden : (0 : ℚ) < q.den := by exact_mod_cast q.den_pos
  have hval : (q.num.natAbs : ℚ) = q * q.den := by
    rw [Nat.cast_natAbs, abs_of_pos (Rat.num_pos.mpr hq)]
    exact (Rat.mul_den_eq_num q).symm
  have hnumLo : (2 : ℚ) ^ q.num.natAbs.log2 ≤ q * q.den := hval ▸ by exact_mod_cast Nat.log2_self_le hnum
  have hnumHi : q * q.den < (2 : ℚ) ^ (q.num.natAbs.log2 + 1) := hval ▸ by exact_mod_cast Nat.lt_log2_self
  have hdenLo : (2 : ℚ) ^ q.den.log2 ≤ q.den := by exact_mod_cast Nat.log2_self_le q.den_nz
  have hdenHi : (q.den : ℚ) < (2 : ℚ) ^ (q.den.log2 + 1) := by exact_mod_cast Nat.lt_log2_self
  unfold binaryExponent
  generalize q.num.natAbs.log2 = a at hnumLo hnumHi ⊢
  generalize q.den.log2 = b at hdenLo hdenHi ⊢
  have hhi : q < 2 ^ ((a : ℤ) - b + 1) := by
    rw [show (a : ℤ) - b + 1 = (a + 1 : ℕ) - (b : ℕ) by push_cast; ring, zpow_sub₀ two_ne_zero, zpow_natCast,
      zpow_natCast, lt_div_iff₀ (by positivity)]
    exact (mul_le_mul_of_nonneg_left hdenLo hq.le).trans_lt hnumHi
  have hlo : 2 ^ ((a : ℤ) - b - 1) ≤ q := by
    rw [show (a : ℤ) - b - 1 = (a : ℕ) - (b + 1 : ℕ) by push_cast; ring, zpow_sub₀ two_ne_zero, zpow_natCast,
      zpow_natCast, div_le_iff₀ (by positivity)]
    exact hnumLo.trans (mul_le_mul_of_nonneg_left hdenHi.le hq.le)
  dsimp only
  split_ifs with h
  · exact (log_eq h hhi).symm
  · refine (log_eq hlo ?_).symm
    rw [sub_add_cancel]
    exact not_le.mp h

theorem roundF64_eq (q : ℚ) : roundF64 q = Rounding.round 53 q := by
  rcases le_or_gt q 0 with hle | hpos
  · rw [roundF64, Rounding.round, if_pos hle, if_pos hle]
  · have hexp : Int.log 2 q + 1 - (53 : ℕ) = Int.log 2 q - 52 := by
      push_cast
      ring
    rw [roundF64, round_of_pos hpos, if_neg hpos.not_ge, binaryExponent_eq hpos, hexp]
    rfl

/-! ### A bucket between two exact ones -/

/-- The refill rate that is meant, in tokens for each millisecond. -/
def meantRefill : ℚ := 64 / 1000

/-- A bound for what rounding adds to a millisecond's refill or takes from it. -/
def refillSlack : ℚ := 1 / 10 ^ 12

/-- The tokens that a bucket of this many tokens has `d` milliseconds later. -/
def refilled (tokens : ℚ) (d : ℕ) : ℚ :=
  min (roundF64 (tokens + roundF64 (roundF64 d * refillPerMs))) peerBucketCapacity

theorem fastRefill_nonneg : 0 ≤ meantRefill + refillSlack := by norm_num [meantRefill, refillSlack]

theorem slowRefill_nonneg : 0 ≤ meantRefill - refillSlack := by norm_num [meantRefill, refillSlack]

theorem bits_capacity : Bits 53 peerBucketCapacity := ⟨256, 0, by norm_num, by norm_num [peerBucketCapacity]⟩

theorem refilled_zero {tokens : ℚ} (h : Bits 53 tokens) (hcap : tokens ≤ peerBucketCapacity) :
    refilled tokens 0 = tokens := by
  have hzero : roundF64 0 = 0 := by rw [roundF64_eq, round_zero]
  rw [refilled, Nat.cast_zero, hzero, zero_mul, hzero, add_zero, roundF64_eq, round_of_bits h, min_eq_left hcap]

theorem refillPerMs_near :
    meantRefill * (1 - 1 / 2 ^ 53) ≤ refillPerMs ∧ refillPerMs ≤ meantRefill * (1 + 1 / 2 ^ 53) := by
  rw [refillPerMs, roundF64_eq]
  exact ⟨le_round (by norm_num [meantRefill]), round_le (by norm_num [meantRefill])⟩

/-- The roundings of a refill stay together within the slack. -/
theorem refill_near {tokens : ℚ} (h : 0 ≤ tokens) (hcap : tokens ≤ peerBucketCapacity) {d : ℕ} (hd : 0 < d) :
    tokens + (meantRefill - refillSlack) * d ≤ roundF64 (tokens + roundF64 (roundF64 d * refillPerMs)) ∧
      roundF64 (tokens + roundF64 (roundF64 d * refillPerMs)) ≤ tokens + (meantRefill + refillSlack) * d := by
  obtain ⟨hrateLo, hrateHi⟩ := refillPerMs_near
  have hrate : 0 ≤ refillPerMs := le_trans (by norm_num [meantRefill]) hrateLo
  have hd1 : (1 : ℚ) ≤ d := by exact_mod_cast hd
  have hd0 : (0 : ℚ) ≤ d := by positivity
  simp only [roundF64_eq]
  -- the elapsed time
  obtain ⟨x, hx⟩ : ∃ x, Rounding.round 53 (d : ℚ) = x := ⟨_, rfl⟩
  have hxLo : d * (1 - 1 / 2 ^ 53) ≤ x := hx ▸ le_round hd0
  have hxHi : x ≤ d * (1 + 1 / 2 ^ 53) := hx ▸ round_le hd0
  have hx0 : 0 ≤ x := hx ▸ round_nonneg (by norm_num) _
  -- what it brings
  have hprodLo : d * (1 - 1 / 2 ^ 53) * (meantRefill * (1 - 1 / 2 ^ 53)) ≤ x * refillPerMs :=
    mul_le_mul hxLo hrateLo (by norm_num [meantRefill]) hx0
  have hprodHi : x * refillPerMs ≤ d * (1 + 1 / 2 ^ 53) * (meantRefill * (1 + 1 / 2 ^ 53)) :=
    mul_le_mul hxHi hrateHi hrate (by positivity)
  have hprod0 : 0 ≤ x * refillPerMs := mul_nonneg hx0 hrate
  obtain ⟨y, hy⟩ : ∃ y, Rounding.round 53 (x * refillPerMs) = y := ⟨_, rfl⟩
  have hyLo : x * refillPerMs * (1 - 1 / 2 ^ 53) ≤ y := hy ▸ le_round hprod0
  have hyHi : y ≤ x * refillPerMs * (1 + 1 / 2 ^ 53) := hy ▸ round_le hprod0
  have hy0 : 0 ≤ y := hy ▸ round_nonneg (by norm_num) _
  -- and the sum
  have hzLo : (tokens + y) * (1 - 1 / 2 ^ 53) ≤ Rounding.round 53 (tokens + y) := le_round (add_nonneg h hy0)
  have hzHi : Rounding.round 53 (tokens + y) ≤ (tokens + y) * (1 + 1 / 2 ^ 53) := round_le (add_nonneg h hy0)
  rw [hx, hy]
  norm_num [meantRefill, refillSlack, peerBucketCapacity] at hcap hprodLo hprodHi hyLo hyHi hzLo hzHi ⊢
  constructor
  · linarith
  · linarith

theorem bits_refilled (tokens : ℚ) (d : ℕ) : Bits 53 (refilled tokens d) := by
  refine .min ?_ bits_capacity
  rw [roundF64_eq]
  exact bits_round (by norm_num) _

theorem refilled_bounds {tokens : ℚ} (h : Bits 53 tokens) (hcap : tokens ≤ peerBucketCapacity) (d : ℕ) :
    min (tokens + (meantRefill - refillSlack) * d) peerBucketCapacity ≤ refilled tokens d ∧
      refilled tokens d ≤ min (tokens + (meantRefill + refillSlack) * d) peerBucketCapacity := by
  rcases Nat.eq_zero_or_pos d with rfl | hd
  · rw [refilled_zero h hcap]
    simp [hcap]
  · obtain ⟨hlo, hhi⟩ := refill_near h.nonneg hcap hd
    exact ⟨min_le_min_right _ hlo, min_le_min_right _ hhi⟩

namespace PeerRateLimiter

/-- The tokens are doubles that fit their bucket, and no bucket was looked at after this time. -/
structure Sound (l : PeerRateLimiter) (nowMs : UInt64) : Prop where
  bits : ∀ peer b, l.lookup peer = some b → Bits 53 b.tokens
  fits : ∀ peer b, l.lookup peer = some b → b.tokens ≤ peerBucketCapacity
  past : ∀ peer b, l.lookup peer = some b → b.lastMs.toNat ≤ nowMs.toNat

/-- The tokens that a peer would have at an exact refill rate; a peer without a bucket has a full one. -/
def level (rate : ℚ) (l : PeerRateLimiter) (peer : Link) (nowMs : UInt64) : ℚ :=
  match l.lookup peer with
  | none => peerBucketCapacity
  | some b => min (b.tokens + rate * (nowMs.toNat - b.lastMs.toNat : ℕ)) peerBucketCapacity

theorem level_of_none {l : PeerRateLimiter} {peer : Link} (h : l.lookup peer = none) (rate : ℚ) (nowMs : UInt64) :
    level rate l peer nowMs = peerBucketCapacity := by
  rw [level, h]

theorem level_of_some {l : PeerRateLimiter} {peer : Link} {b : Bucket} (h : l.lookup peer = some b) (rate : ℚ)
    (nowMs : UInt64) :
    level rate l peer nowMs = min (b.tokens + rate * (nowMs.toNat - b.lastMs.toNat : ℕ)) peerBucketCapacity := by
  rw [level, h]

theorem level_le (rate : ℚ) (l : PeerRateLimiter) (peer : Link) (nowMs : UInt64) :
    level rate l peer nowMs ≤ peerBucketCapacity := by
  unfold level
  split
  · exact le_rfl
  · exact min_le_right _ _

theorem level_nonneg {l : PeerRateLimiter} {nowMs : UInt64} (h : l.Sound nowMs) {rate : ℚ} (hrate : 0 ≤ rate)
    (peer : Link) : 0 ≤ level rate l peer nowMs := by
  cases hl : l.lookup peer with
  | none =>
    rw [level_of_none hl]
    norm_num [peerBucketCapacity]
  | some b =>
    have htokens := (h.bits peer b hl).nonneg
    rw [level_of_some hl]
    exact le_min (by positivity) (by norm_num [peerBucketCapacity])

theorem lookup_evictIfFull_le (walk : BucketOrder) (l : PeerRateLimiter) (peer other : Link) :
    (evictIfFull walk l peer).lookup other = l.lookup other ∨ (evictIfFull walk l peer).lookup other = none := by
  unfold evictIfFull
  split_ifs
  · exact .inl rfl
  · split
    · rw [Table.lookup_erase_iff]
      split_ifs
      · exact .inr rfl
      · exact .inl rfl
    · exact .inl rfl

/-- The bucket that a peer's frame is charged to. -/
theorem lookup_evictIfFull_self (walk : BucketOrder) (l : PeerRateLimiter) (peer : Link) :
    (evictIfFull walk l peer).lookup peer = l.lookup peer := by
  by_cases hmem : peer ∈ l
  · rw [evictIfFull_of_mem hmem]
  · have hnone := AList.lookup_eq_none.mpr hmem
    rcases lookup_evictIfFull_le walk l peer peer with h | h
    · exact h
    · rw [h, hnone]

/-- STEP: the look at a frame refills the bucket, within the two exact rates, and takes a token if there is one. -/
theorem allow_spec (walk : BucketOrder) {l : PeerRateLimiter} {nowMs : UInt64} (h : l.Sound nowMs) (peer : Link) :
    ∃ tokens, Bits 53 tokens ∧ tokens ≤ peerBucketCapacity ∧
      (allow walk l peer nowMs).2 = (evictIfFull walk l peer).insert peer ⟨tokens, nowMs⟩ ∧
      level (meantRefill - refillSlack) l peer nowMs ≤ tokens + (if (allow walk l peer nowMs).1 then 1 else 0) ∧
      tokens + (if (allow walk l peer nowMs).1 then 1 else 0) ≤ level (meantRefill + refillSlack) l peer nowMs ∧
      ((allow walk l peer nowMs).1 = false → tokens < 1) := by
  obtain ⟨b, hb, hbits, hfits, hlevel⟩ : ∃ b, (l.lookup peer).getD ⟨peerBucketCapacity, nowMs⟩ = b ∧
      Bits 53 b.tokens ∧ b.tokens ≤ peerBucketCapacity ∧ ∀ rate, level rate l peer nowMs =
        min (b.tokens + rate * (nowMs.toNat - b.lastMs.toNat : ℕ)) peerBucketCapacity := by
    cases hl : l.lookup peer with
    | none => exact ⟨_, rfl, bits_capacity, le_rfl, fun rate => by simp [level_of_none hl]⟩
    | some b => exact ⟨b, rfl, h.bits peer b hl, h.fits peer b hl, fun rate => level_of_some hl rate nowMs⟩
  obtain ⟨hlo, hhi⟩ := refilled_bounds hbits hfits (nowMs.toNat - b.lastMs.toNat)
  have hgot := bits_refilled b.tokens (nowMs.toNat - b.lastMs.toNat)
  have hcap : refilled b.tokens (nowMs.toNat - b.lastMs.toNat) ≤ peerBucketCapacity := min_le_right _ _
  have hallow : allow walk l peer nowMs = if 1 ≤ refilled b.tokens (nowMs.toNat - b.lastMs.toNat)
      then (true, (evictIfFull walk l peer).insert peer
        ⟨roundF64 (refilled b.tokens (nowMs.toNat - b.lastMs.toNat) - 1), nowMs⟩)
      else (false, (evictIfFull walk l peer).insert peer ⟨refilled b.tokens (nowMs.toNat - b.lastMs.toNat), nowMs⟩) := by
    rw [allow]
    simp only [lookup_evictIfFull_self, hb, toNat_satSub]
    rfl
  rw [hlevel, hlevel, hallow]
  generalize refilled b.tokens (nowMs.toNat - b.lastMs.toNat) = got at hlo hhi hgot hcap ⊢
  by_cases hone : 1 ≤ got
  · -- a token is taken, and exactly one
    have hbig : got ≤ 2 ^ 53 := hcap.trans (by norm_num [peerBucketCapacity])
    have htaken : roundF64 (got - 1) = got - 1 := by rw [roundF64_eq, round_of_bits (hgot.sub_one hone hbig)]
    simp only [if_pos hone, htaken, if_true]
    exact ⟨got - 1, hgot.sub_one hone hbig, by linarith, rfl, by simpa using hlo, by simpa using hhi, by simp⟩
  · simp only [if_neg hone]
    exact ⟨got, hgot, hcap, rfl, by simpa using hlo, by simpa using hhi, fun _ => not_le.mp hone⟩

theorem Sound.allow {l : PeerRateLimiter} {nowMs : UInt64} (h : l.Sound nowMs) (walk : BucketOrder) (peer : Link) :
    (allow walk l peer nowMs).2.Sound nowMs := by
  obtain ⟨tokens, hbits, hfits, hl, -⟩ := allow_spec walk h peer
  have hcases : ∀ other b, (PeerRateLimiter.allow walk l peer nowMs).2.lookup other = some b →
      b = ⟨tokens, nowMs⟩ ∨ l.lookup other = some b := by
    intro other b hb
    rw [hl, Table.lookup_insert_iff] at hb
    split_ifs at hb
    · exact .inl (Option.some.inj hb).symm
    · rcases lookup_evictIfFull_le walk l peer other with hsame | hnone
      · exact .inr (hsame ▸ hb)
      · rw [hnone] at hb
        cases hb
  refine ⟨fun other b hb => ?_, fun other b hb => ?_, fun other b hb => ?_⟩
  · rcases hcases other b hb with rfl | hb
    · exact hbits
    · exact h.bits other b hb
  · rcases hcases other b hb with rfl | hb
    · exact hfits
    · exact h.fits other b hb
  · rcases hcases other b hb with rfl | hb
    · exact le_rfl
    · exact h.past other b hb

/-- As time passes, the level of a bucket rises at its rate, up to the capacity. -/
theorem level_later {l : PeerRateLimiter} {t t' : UInt64} (h : l.Sound t) (htime : t.toNat ≤ t'.toNat) {rate : ℚ}
    (hrate : 0 ≤ rate) (peer : Link) :
    level rate l peer t' = min (level rate l peer t + rate * (t'.toNat - t.toNat)) peerBucketCapacity := by
  have hrise : 0 ≤ rate * ((t'.toNat : ℚ) - t.toNat) := by
    have : (t.toNat : ℚ) ≤ t'.toNat := by exact_mod_cast htime
    exact mul_nonneg hrate (sub_nonneg.mpr this)
  cases hl : l.lookup peer with
  | none =>
    rw [level_of_none hl, level_of_none hl]
    exact (min_eq_right (by linarith)).symm
  | some b =>
    have hpast := h.past peer b hl
    have helapsed : ((t'.toNat - b.lastMs.toNat : ℕ) : ℚ) = (t.toNat - b.lastMs.toNat : ℕ) + (t'.toNat - t.toNat) := by
      rw [Nat.cast_sub (hpast.trans htime), Nat.cast_sub hpast]
      ring
    rw [level_of_some hl, level_of_some hl, helapsed, mul_add, ← add_assoc, min_add, min_assoc,
      min_eq_right (show peerBucketCapacity ≤ peerBucketCapacity + _ by linarith)]

/-- A look at one peer's frame leaves the level of another alone, unless it drops the bucket. -/
theorem level_allow_of_ne (walk : BucketOrder) {l : PeerRateLimiter} {nowMs : UInt64} (h : l.Sound nowMs)
    {peer other : Link} (hne : other ≠ peer) (rate : ℚ) :
    level rate (allow walk l peer nowMs).2 other nowMs = level rate l other nowMs ∨
      other ∈ l ∧ other ∉ (allow walk l peer nowMs).2 := by
  obtain ⟨tokens, -, -, hl, -⟩ := allow_spec walk h peer
  have hlookup : (allow walk l peer nowMs).2.lookup other = (evictIfFull walk l peer).lookup other := by
    rw [hl, Table.lookup_insert_iff, if_neg hne]
  rcases lookup_evictIfFull_le walk l peer other with hsame | hnone
  · exact .inl (by rw [level, level, hlookup, hsame])
  · by_cases hmem : other ∈ l
    · exact .inr ⟨hmem, AList.lookup_eq_none.mp (hlookup.trans hnone)⟩
    · exact .inl (by rw [level_of_none (hlookup.trans hnone), level_of_none (AList.lookup_eq_none.mpr hmem)])

/-- The level of the peer itself after the look. -/
theorem level_allow_self {walk : BucketOrder} {l : PeerRateLimiter} {nowMs : UInt64} {peer : Link} {tokens : ℚ}
    (hl : (allow walk l peer nowMs).2 = (evictIfFull walk l peer).insert peer ⟨tokens, nowMs⟩)
    (hfits : tokens ≤ peerBucketCapacity) (rate : ℚ) : level rate (allow walk l peer nowMs).2 peer nowMs = tokens := by
  have hlookup : (allow walk l peer nowMs).2.lookup peer = some ⟨tokens, nowMs⟩ := by
    rw [hl, AList.lookup_insert]
  rw [level_of_some hlookup, Nat.sub_self, Nat.cast_zero, mul_zero, add_zero, min_eq_left hfits]

end PeerRateLimiter

/-! ### Runs of a node -/

/-- The readings of the worker's clock never go back. -/
def NodeEnv.Steady (env : NodeEnv) : Prop := ∀ i j, i ≤ j → (env.clock i).toNat ≤ (env.clock j).toNat

/-- A frame of this peer. -/
def Job.isFrom (peer : Link) (job : Job) : Bool := decide (job.peer = some peer)

namespace MeshNode

variable {env : NodeEnv}

/-- A frame of this peer that the rate limiter lets in. -/
def passes (env : NodeEnv) (peer : Link) (n : MeshNode) (job : Job) : Bool :=
  job.isFrom peer && (n.admitPeer env job.peer).1

/-- The rate limiter drops the bucket of this peer to make room. -/
def forgets (env : NodeEnv) (peer : Link) (n : MeshNode) (job : Job) : Bool :=
  (n.limiter.lookup peer).isSome && !((n.limiterAfter env job).lookup peer).isSome

theorem limiter_step (env : NodeEnv) (n : MeshNode) (job : Job) : (n.step env job).limiter = n.limiterAfter env job :=
  (modest_step env n job).limiter

theorem now_le_step (h : env.Steady) (n : MeshNode) (job : Job) :
    (n.now env).toNat ≤ ((n.step env job).now env).toNat := h _ _ (modest_step env n job).asked

theorem sound_limiterAfter {n : MeshNode} (h : n.limiter.Sound (n.now env)) (job : Job) :
    (n.limiterAfter env job).Sound (n.now env) := by
  unfold limiterAfter
  split
  · exact h.allow _ _
  · exact h

/-- STEP: the rate limiter stays sound. -/
theorem sound_step (hclock : env.Steady) (n : MeshNode) (job : Job) (h : n.limiter.Sound (n.now env)) :
    (n.step env job).limiter.Sound ((n.step env job).now env) := by
  have hafter := sound_limiterAfter h job
  rw [limiter_step]
  exact ⟨hafter.bits, hafter.fits, fun peer b hb => (hafter.past peer b hb).trans (now_le_step hclock n job)⟩

theorem sound_new (senderId : PeerId) (network : UInt8) (verifyBeforeRelay : Bool) (seed : UInt64)
    (swap : Option Worker) (nowMs : UInt64) :
    (new senderId network verifyBeforeRelay seed swap).limiter.Sound nowMs := by
  constructor <;> intro peer b hb <;> cases hb

theorem sound_exec (hclock : env.Steady) {n : MeshNode} (h : n.limiter.Sound (n.now env)) (jobs : List Job) :
    (n.exec env jobs).limiter.Sound ((n.exec env jobs).now env) :=
  Run.exec_preserves (step env) (I := fun n => n.limiter.Sound (n.now env)) (fun n job => sound_step hclock n job)
    jobs n h

/-- What a job does to the level of a peer: at the fast rate a frame that is let in is paid for, at the slow rate any
    frame costs at most one token, and a bucket that is dropped is full again. -/
theorem level_limiterAfter {n : MeshNode} (h : n.limiter.Sound (n.now env)) (peer : Link) (job : Job) :
    (n.limiterAfter env job).level (meantRefill + refillSlack) peer (n.now env) +
        (if n.passes env peer job then 1 else 0) ≤
      n.limiter.level (meantRefill + refillSlack) peer (n.now env) +
        (if n.forgets env peer job then peerBucketCapacity else 0) ∧
    (n.limiter.level (meantRefill - refillSlack) peer (n.now env) - (if job.isFrom peer then 1 else 0) ≤
        (n.limiterAfter env job).level (meantRefill - refillSlack) peer (n.now env) ∨
      (n.limiterAfter env job).level (meantRefill - refillSlack) peer (n.now env) = peerBucketCapacity) := by
  have hnone : (0 : ℚ) ≤ if n.forgets env peer job then peerBucketCapacity else 0 := by
    split_ifs
    · norm_num [peerBucketCapacity]
    · exact le_rfl
  by_cases hself : job.peer = some peer
  · obtain ⟨tokens, -, hfits, hl, hlo, hhi, -⟩ := PeerRateLimiter.allow_spec (env.bucketOrder n.io.asked) h peer
    have hafter : n.limiterAfter env job = (n.limiter.allow (env.bucketOrder n.io.asked) peer (n.now env)).2 := by
      rw [limiterAfter, hself]
    have hpass : n.passes env peer job = (n.limiter.allow (env.bucketOrder n.io.asked) peer (n.now env)).1 := by
      rw [passes, Job.isFrom, hself]
      simp [admitPeer]
    rw [hafter, PeerRateLimiter.level_allow_self hl hfits, PeerRateLimiter.level_allow_self hl hfits, hpass, Job.isFrom,
      hself, decide_eq_true rfl]
    refine ⟨by linarith, .inl ?_⟩
    have hspent :
        (if (n.limiter.allow (env.bucketOrder n.io.asked) peer (n.now env)).1 = true then (1 : ℚ) else 0) ≤ 1 := by
      split_ifs
      · exact le_rfl
      · exact zero_le_one
    simp only [if_true]
    linarith
  · have hfrom : job.isFrom peer = false := decide_eq_false hself
    have hpass : n.passes env peer job = false := by rw [passes, hfrom, Bool.false_and]
    have hlevel : ∀ rate, (n.limiterAfter env job).level rate peer (n.now env) = n.limiter.level rate peer (n.now env) ∨
        peer ∈ n.limiter ∧ peer ∉ n.limiterAfter env job := by
      intro rate
      unfold limiterAfter
      split
      · next other hother =>
        have hne : peer ≠ other := fun heq => hself (heq ▸ hother)
        exact PeerRateLimiter.level_allow_of_ne _ h hne rate
      · exact .inl rfl
    simp only [hpass, hfrom, Bool.false_eq_true, if_false, add_zero, sub_zero]
    constructor
    · rcases hlevel (meantRefill + refillSlack) with hsame | ⟨hin, hout⟩
      · linarith
      · have hforgets : n.forgets env peer job = true := by
          rw [forgets, AList.lookup_eq_none.mpr hout, AList.lookup_isSome.mpr hin]
          rfl
        have hzero := PeerRateLimiter.level_nonneg h fastRefill_nonneg peer
        rw [PeerRateLimiter.level_of_none (AList.lookup_eq_none.mpr hout), hforgets, if_pos rfl]
        linarith
    · rcases hlevel (meantRefill - refillSlack) with hsame | ⟨-, hout⟩
      · exact .inl hsame.ge
      · exact .inr (PeerRateLimiter.level_of_none (AList.lookup_eq_none.mpr hout) _ _)

/-- The level of a peer less all that has been refilled since the clock started. -/
def unrefilled (env : NodeEnv) (rate : ℚ) (peer : Link) (n : MeshNode) : ℚ :=
  n.limiter.level rate peer (n.now env) - rate * (n.now env).toNat

/-- The same of a full bucket. -/
def unrefilledFull (env : NodeEnv) (rate : ℚ) (n : MeshNode) : ℚ := peerBucketCapacity - rate * (n.now env).toNat

/-- STEP: at the fast rate, a frame that is let in is paid by time or by the dropping of the bucket. -/
theorem passes_paid (hclock : env.Steady) (peer : Link) (n : MeshNode) (job : Job)
    (h : n.limiter.Sound (n.now env)) :
    (if n.passes env peer job then 1 else 0) + (n.step env job).unrefilled env (meantRefill + refillSlack) peer ≤
      n.unrefilled env (meantRefill + refillSlack) peer +
        if n.forgets env peer job then peerBucketCapacity else 0 := by
  have hlater := PeerRateLimiter.level_later (sound_limiterAfter h job) (now_le_step hclock n job) fastRefill_nonneg
    peer
  have hmin := min_le_left ((n.limiterAfter env job).level (meantRefill + refillSlack) peer (n.now env) +
    (meantRefill + refillSlack) * (((n.step env job).now env).toNat - (n.now env).toNat)) peerBucketCapacity
  have hpaid := (level_limiterAfter h peer job).1
  rw [unrefilled, unrefilled, limiter_step, hlater]
  linarith

/-- STEP: at the slow rate, the level falls by at most one token for a frame, or the bucket is full. -/
theorem frame_costs_one (hclock : env.Steady) (peer : Link) (n : MeshNode) (job : Job)
    (h : n.limiter.Sound (n.now env)) :
    min (n.unrefilled env (meantRefill - refillSlack) peer - if job.isFrom peer then 1 else 0)
        ((n.step env job).unrefilledFull env (meantRefill - refillSlack)) ≤
      (n.step env job).unrefilled env (meantRefill - refillSlack) peer := by
  have htime := now_le_step hclock n job
  have htime' : ((n.now env).toNat : ℚ) ≤ ((n.step env job).now env).toNat := by exact_mod_cast htime
  have hlater := PeerRateLimiter.level_later (sound_limiterAfter h job) htime slowRefill_nonneg peer
  have hrise : 0 ≤ (meantRefill - refillSlack) * (((n.step env job).now env).toNat - (n.now env).toNat) :=
    mul_nonneg slowRefill_nonneg (sub_nonneg.mpr htime')
  rw [unrefilled, unrefilled, unrefilledFull, limiter_step, hlater]
  rcases min_choice ((n.limiterAfter env job).level (meantRefill - refillSlack) peer (n.now env) +
    (meantRefill - refillSlack) * (((n.step env job).now env).toNat - (n.now env).toNat))
    peerBucketCapacity with hm | hm
  · rw [hm]
    rcases (level_limiterAfter h peer job).2 with hcost | hfull
    · exact (min_le_left _ _).trans (by linarith)
    · exact (min_le_right _ _).trans (by linarith)
  · rw [hm]
    exact min_le_right _ _

/-- A limiter that has heard few peers drops none of them. -/
theorem forgets_of_few (env : NodeEnv) {n : MeshNode} {names : Finset Link} (hfew : names.card ≤ maxTrackedPeers)
    (hkeys : ∀ q ∈ n.limiter, q ∈ names) {job : Job} (hjob : ∀ q, job.peer = some q → q ∈ names) (peer : Link) :
    n.forgets env peer job = false ∧ ∀ q ∈ n.limiterAfter env job, q ∈ names := by
  have hevict : ∀ walk q, job.peer = some q → n.limiter.evictIfFull walk q = n.limiter := by
    intro walk q hq
    by_cases hmem : q ∈ n.limiter
    · exact PeerRateLimiter.evictIfFull_of_mem hmem
    · refine if_pos (.inl ?_)
      have hnodup : (q :: n.limiter.keys).Nodup := List.nodup_cons.mpr ⟨hmem, n.limiter.keys_nodup⟩
      have hsub : (q :: n.limiter.keys).toFinset ⊆ names := by
        intro other hother
        rcases List.mem_cons.mp (List.mem_toFinset.mp hother) with rfl | hother
        · exact hjob other hq
        · exact hkeys other hother
      have hcard := (Finset.card_le_card hsub).trans hfew
      rw [List.toFinset_card_of_nodup hnodup, List.length_cons] at hcard
      rw [Table.len, ← List.length_map (f := Sigma.fst)]
      exact hcard
  have hafter : ∀ q, job.peer = some q → ∃ b, n.limiterAfter env job = n.limiter.insert q b := by
    intro q hq
    rw [limiterAfter, hq]
    simp only [PeerRateLimiter.allow, hevict _ q hq]
    split_ifs
    · exact ⟨_, rfl⟩
    · exact ⟨_, rfl⟩
  cases hpeer : job.peer with
  | none =>
    have hsame : n.limiterAfter env job = n.limiter := by rw [limiterAfter, hpeer]
    rw [forgets, hsame]
    exact ⟨Bool.and_not_self _, hkeys⟩
  | some q =>
    obtain ⟨b, hb⟩ := hafter q hpeer
    constructor
    · rw [forgets, hb, Table.lookup_insert_iff]
      split_ifs
      · exact Bool.and_false _
      · exact Bool.and_not_self _
    · intro other hother
      rw [hb] at hother
      rcases (AList.mem_insert _).mp hother with rfl | hother
      · exact hjob other hpeer
      · exact hkeys other hother

theorem tally_forgets_of_few {names : Finset Link} (hfew : names.card ≤ maxTrackedPeers) (peer : Link)
    (jobs : List Job) {n : MeshNode} (hkeys : ∀ q ∈ n.limiter, q ∈ names)
    (hjobs : ∀ job ∈ jobs, ∀ q, job.peer = some q → q ∈ names) :
    Run.tally (step env) (forgets env peer) n jobs = 0 := by
  induction jobs generalizing n with
  | nil => rfl
  | cons job jobs ih =>
    obtain ⟨hforgets, hafter⟩ := forgets_of_few env hfew hkeys (hjobs job List.mem_cons_self) peer
    have hrest := ih (n := n.step env job) (by rwa [limiter_step])
      fun other hother => hjobs other (List.mem_cons_of_mem job hother)
    rw [Run.tally_cons, hforgets, hrest]
    rfl

theorem keys_of_few {names : Finset Link} (hfew : names.card ≤ maxTrackedPeers) (jobs : List Job) {n : MeshNode}
    (hkeys : ∀ q ∈ n.limiter, q ∈ names) (hjobs : ∀ job ∈ jobs, ∀ q, job.peer = some q → q ∈ names) :
    ∀ q ∈ (n.exec env jobs).limiter, q ∈ names := by
  induction jobs generalizing n with
  | nil => exact hkeys
  | cons job jobs ih =>
    have hafter := (forgets_of_few env hfew hkeys (hjobs job List.mem_cons_self) "").2
    exact ih (by rwa [limiter_step]) fun other hother => hjobs other (List.mem_cons_of_mem job hother)

/-- RUN: however the frames of a peer come in, from any reachable state on, those that are let in over a stretch of
    time are at most a full bucket, another for each time that the peer's bucket was dropped to make room, and what
    the rate allows over that time. No bucket is dropped as long as no more peers are heard than are kept track of. -/
theorem peer_rate_bounded (hclock : env.Steady) (senderId : PeerId) (network : UInt8) (verifyBeforeRelay : Bool)
    (seed : UInt64) (swap : Option Worker) (setup jobs : List Job) (peer : Link) :
    (Run.tally (step env) (passes env peer) ((new senderId network verifyBeforeRelay seed swap).exec env setup) jobs : ℚ) ≤
        peerBucketCapacity * (1 + Run.tally (step env) (forgets env peer)
          ((new senderId network verifyBeforeRelay seed swap).exec env setup) jobs) +
        (meantRefill + refillSlack) *
          ((((new senderId network verifyBeforeRelay seed swap).exec env (setup ++ jobs)).now env).toNat -
            (((new senderId network verifyBeforeRelay seed swap).exec env setup).now env).toNat) ∧
      ∀ names : Finset Link, names.card ≤ maxTrackedPeers →
        (∀ job ∈ setup ++ jobs, ∀ q, job.peer = some q → q ∈ names) →
        Run.tally (step env) (forgets env peer)
          ((new senderId network verifyBeforeRelay seed swap).exec env setup) jobs = 0 := by
  have hsound := sound_exec hclock (sound_new senderId network verifyBeforeRelay seed swap _) setup
  have hend : (new senderId network verifyBeforeRelay seed swap).exec env (setup ++ jobs) =
      ((new senderId network verifyBeforeRelay seed swap).exec env setup).exec env jobs := Run.exec_append _ _ _ _
  have hkeys : ∀ names : Finset Link, ∀ q ∈ (new senderId network verifyBeforeRelay seed swap).limiter, q ∈ names :=
    fun _ q hq => absurd hq (AList.notMem_empty q)
  rw [hend]
  generalize hn : (new senderId network verifyBeforeRelay seed swap).exec env setup = n at hsound ⊢
  constructor
  · have hpaid := Run.tally_le_of_potential (step env) (sound_step hclock) (passes_paid hclock peer) jobs hsound
    have hstart := PeerRateLimiter.level_le (meantRefill + refillSlack) n.limiter peer (n.now env)
    have hrest := PeerRateLimiter.level_nonneg (sound_exec hclock hsound jobs) fastRefill_nonneg peer
    have hexec : Run.exec (step env) n jobs = n.exec env jobs := rfl
    rw [hexec, unrefilled, unrefilled] at hpaid
    linarith
  · intro names hfew hjobs
    refine tally_forgets_of_few hfew peer jobs ?_ fun job hjob => hjobs job (List.mem_append_right _ hjob)
    rw [← hn]
    exact keys_of_few hfew setup (hkeys names) fun job hjob => hjobs job (List.mem_append_left _ hjob)

/-- In every stretch of the run up to one of its frames, the peer sends at most a bucket of frames and what the rate
    allows over the time of the stretch. -/
def KeepsPace (env : NodeEnv) (n : MeshNode) (peer : Link) (jobs : List Job) : Prop :=
  ∀ before stretch job after, jobs = before ++ stretch ++ job :: after → job.isFrom peer = true →
    (stretch.countP (Job.isFrom peer) + 1 : ℚ) ≤ peerBucketCapacity + (meantRefill - refillSlack) *
      (((n.exec env (before ++ stretch)).now env).toNat - ((n.exec env before).now env).toNat)

/-- RUN: a peer that keeps the pace never notices the rate limiter, whatever all others send. -/
theorem steady_peer_passes (hclock : env.Steady) (senderId : PeerId) (network : UInt8) (verifyBeforeRelay : Bool)
    (seed : UInt64) (swap : Option Worker) (jobs : List Job) (peer : Link)
    (hpace : KeepsPace env (new senderId network verifyBeforeRelay seed swap) peer jobs) :
    ∀ before job after, jobs = before ++ job :: after → job.isFrom peer = true →
      ((new senderId network verifyBeforeRelay seed swap).exec env before).passes env peer job = true := by
  intro before job after hjobs hfrom
  generalize hn : new senderId network verifyBeforeRelay seed swap = n at hpace ⊢
  have hnew : n.limiter.Sound (n.now env) := hn ▸ sound_new senderId network verifyBeforeRelay seed swap _
  have hfull : n.unrefilledFull env (meantRefill - refillSlack) ≤
      n.unrefilled env (meantRefill - refillSlack) peer := by
    rw [← hn]
    exact le_rfl
  obtain ⟨start, stretch, rfl, hstretch⟩ := Run.exists_stretch (step env) (sound_step hclock)
    (frame_costs_one hclock peer) hnew hfull before
  have hroom := hpace start stretch job after hjobs hfrom
  have hsound := sound_exec hclock hnew (start ++ stretch)
  have hexec : ∀ l, Run.exec (step env) n l = n.exec env l := fun _ => rfl
  rw [hexec, hexec, Run.tally_of_input, unrefilled, unrefilledFull] at hstretch
  obtain ⟨tokens, -, -, -, hlo, -, hempty⟩ := PeerRateLimiter.allow_spec
    (env.bucketOrder (n.exec env (start ++ stretch)).io.asked) hsound peer
  have hpass : (n.exec env (start ++ stretch)).passes env peer job =
      ((n.exec env (start ++ stretch)).limiter.allow (env.bucketOrder (n.exec env (start ++ stretch)).io.asked) peer
        ((n.exec env (start ++ stretch)).now env)).1 := by
    rw [passes, hfrom, of_decide_eq_true hfrom]
    rfl
  rw [hpass]
  by_contra hdropped
  rw [Bool.not_eq_true] at hdropped
  have hlt := hempty hdropped
  rw [hdropped, if_neg Bool.false_ne_true] at hlo
  linarith

end MeshNode

namespace Sample

/-- A frame of one peer that is no packet. -/
def frameOfA : Job := .inbound (some "a") []

/-- A clock that each reading finds 8 ms later, for as long as the samples run. -/
def pacedEnv : NodeEnv := meshEnv (fun i => (8 * min i 1000).toUInt64) none

theorem paced_clock (i : ℕ) : (pacedEnv.clock i).toNat = 8 * min i 1000 := by
  change ((8 * min i 1000).toUInt64).toNat = 8 * min i 1000
  rw [Nat.toUInt64_eq, UInt64.toNat_ofNat']
  exact Nat.mod_eq_of_lt (by omega)

theorem paced_steady : pacedEnv.Steady := by
  intro i j hij
  rw [paced_clock, paced_clock]
  omega

/-- A node without swaps reads its clock twice over such a frame. -/
theorem step_frameOfA {n : MeshNode} (hswap : n.swap = none) :
    (n.step pacedEnv frameOfA).swap = none ∧ (n.step pacedEnv frameOfA).io.asked = n.io.asked + 2 := by
  obtain ⟨err, hframe⟩ : ∃ err, decode [] = .error err := ⟨_, rfl⟩
  simp only [frameOfA, MeshNode.step, MeshNode.processInbound, MeshNode.admitPeer, hframe]
  split_ifs
  · simp only [MeshNode.swapFastTick, MeshNode.count, MeshNode.ask, hswap, true_and]
    rfl
  · simp only [MeshNode.swapFastTick, MeshNode.ask, hswap, true_and]
    rfl

theorem exec_framesOfA {n : MeshNode} (hswap : n.swap = none) {jobs : List Job} (h : ∀ job ∈ jobs, job = frameOfA) :
    (n.exec pacedEnv jobs).io.asked = n.io.asked + 2 * jobs.length := by
  induction jobs generalizing n with
  | nil => rfl
  | cons job jobs ih =>
    obtain ⟨hnext, hasked⟩ := step_frameOfA hswap
    have hrest := ih hnext fun job' hjob' => h job' (List.mem_cons_of_mem job hjob')
    rw [hasked] at hrest
    rw [h job List.mem_cons_self, List.length_cons]
    exact hrest.trans (by ring)

/-- More frames than a bucket has tokens. -/
def manyFrames : List Job := List.replicate 300 frameOfA

theorem manyFrames_keepPace : MeshNode.KeepsPace pacedEnv meshNode "a" manyFrames := by
  intro before stretch job after h _
  have hlen : before.length + stretch.length + (after.length + 1) = 300 := by
    have hlen := congrArg List.length h
    rw [manyFrames, List.length_replicate, List.length_append, List.length_append, List.length_cons] at hlen
    exact hlen.symm
  have hall : ∀ job' ∈ before ++ stretch, job' = frameOfA := by
    intro job' hjob'
    have hmem : job' ∈ manyFrames := h ▸ List.mem_append_left _ hjob'
    exact List.eq_of_mem_replicate hmem
  have hnow : ∀ jobs : List Job, (∀ job' ∈ jobs, job' = frameOfA) → jobs.length ≤ 300 →
      ((meshNode.exec pacedEnv jobs).now pacedEnv).toNat = 16 * jobs.length := by
    intro jobs hjobs hfew
    rw [MeshNode.now, exec_framesOfA rfl hjobs, paced_clock]
    change 8 * min (0 + 2 * jobs.length) 1000 = 16 * jobs.length
    omega
  have hstart := hnow before (fun job' hjob' => hall job' (List.mem_append_left _ hjob')) (by omega)
  have hend := hnow (before ++ stretch) hall (by rw [List.length_append]; omega)
  have hcount : (stretch.countP (Job.isFrom "a") : ℚ) ≤ stretch.length := by exact_mod_cast List.countP_le_length
  -- 16 ms bring more than a token
  have hstretch : (0 : ℚ) ≤ stretch.length := Nat.cast_nonneg _
  rw [hstart, hend, List.length_append]
  push_cast
  norm_num [peerBucketCapacity, meantRefill, refillSlack]
  linarith

/-- A node whose clock stands still. -/
def stillEnv : NodeEnv := meshEnv (fun _ => 1000) none

theorem still_steady : stillEnv.Steady := fun _ _ _ => le_rfl

def twoFrames : List Job := [frameOfA, frameOfA]

end Sample

open Sample in
/-- The 300th frame of the sample passes, though a bucket holds 256 tokens. -/
theorem sample_steady_peer_passes :
    (meshNode.exec pacedEnv (List.replicate 299 frameOfA)).passes pacedEnv "a" frameOfA = true :=
  MeshNode.steady_peer_passes paced_steady (ByteArr.fill peerIdLen 1) defaultNetworkId false 77 none manyFrames "a"
    manyFrames_keepPace (List.replicate 299 frameOfA) frameOfA [] List.replicate_succ' rfl

open Sample in
/-- The bound at the sample's two frames. -/
theorem sample_peer_rate_bounded :
    (Run.tally (MeshNode.step stillEnv) (MeshNode.passes stillEnv "a") meshNode twoFrames : ℚ) ≤
        peerBucketCapacity * (1 + Run.tally (MeshNode.step stillEnv) (MeshNode.forgets stillEnv "a") meshNode twoFrames) +
        (meantRefill + refillSlack) *
          (((meshNode.exec stillEnv twoFrames).now stillEnv).toNat - (meshNode.now stillEnv).toNat) ∧
      ∀ names : Finset Link, names.card ≤ maxTrackedPeers → (∀ job ∈ twoFrames, ∀ q, job.peer = some q → q ∈ names) →
        Run.tally (MeshNode.step stillEnv) (MeshNode.forgets stillEnv "a") meshNode twoFrames = 0 :=
  MeshNode.peer_rate_bounded still_steady (ByteArr.fill peerIdLen 1) defaultNetworkId false 77 none [] twoFrames "a"

end Nimmesh
