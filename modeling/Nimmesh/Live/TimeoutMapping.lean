import Nimmesh.Live.AmoyVerifier
import Nimmesh.Live.NimVerifier
import Nimmesh.Live.Signer

/-! @src nim_verifier.rs amoy_swap_verifier.rs swap_funding_verify.rs | name:Cross-chain timeout mapping |
    layer:results

    A term counts seconds from an anchor; a chain stores an absolute time. The funder maps the term
    onto its clock, the verifier maps the time it finds back, and the timeout check of `requireFunded`
    compares terms. Both maps saturate, and a timeout that has passed saturates to zero seconds left:
    once the slack covers the remaining term, the check no longer sees that the lock has expired. -/

namespace Nimmesh
open Word

theorem toNat_satMul_of_lt {a b : UInt64} (h : a.toNat * b.toNat < 2 ^ 64) :
    (satMul a b).toNat = a.toNat * b.toNat := by
  rw [satMul, if_pos h, UInt64.toNat_mul, Nat.mod_eq_of_lt h]

/-- A chain's unit of time, the funder's map of a term onto its clock and the verifier's map back. -/
structure TimeoutMapping where
  unit : ℕ
  unit_pos : 0 < unit
  onChain : (term termAnchor now : UInt64) → UInt64
  toTerm : (timeout now termAnchor slackS : UInt64) → UInt64
  toNat_onChain : ∀ term anchor now : UInt64,
    now.toNat + (term.toNat - anchor.toNat) * unit < 2 ^ 64 →
    (onChain term anchor now).toNat = now.toNat + (term.toNat - anchor.toNat) * unit
  toNat_toTerm : ∀ timeout now anchor slack : UInt64, (toTerm timeout now anchor slack).toNat =
    min (2 ^ 64 - 1) ((timeout.toNat - now.toNat) / unit + slack.toNat + anchor.toNat)

/-- The NIM leg: milliseconds on the chain. -/
def nimMapping : TimeoutMapping where
  unit := 1000
  unit_pos := by decide
  onChain := nimHtlcTimeoutMs
  toTerm := termEquivalentOfTimeoutMs
  toNat_onChain := by
    intro term anchor now h
    have hmul : (satSub term anchor).toNat * (1000 : UInt64).toNat =
        (term.toNat - anchor.toNat) * 1000 := by
      rw [toNat_satSub]
      rfl
    have hprod := toNat_satMul_of_lt (a := satSub term anchor) (b := 1000) (by omega)
    rw [nimHtlcTimeoutMs, toNat_satAdd, hprod]
    omega
  toNat_toTerm := by
    intro timeout now anchor slack
    have hdiv : (satSub timeout now / 1000).toNat = (timeout.toNat - now.toNat) / 1000 := by
      rw [UInt64.toNat_div, toNat_satSub]
      rfl
    rw [termEquivalentOfTimeoutMs, toNat_satAdd, toNat_satAdd, hdiv]
    omega

/-- The USDC leg: seconds on the chain. -/
def usdcMapping : TimeoutMapping where
  unit := 1
  unit_pos := by decide
  onChain := usdcTimelockS
  toTerm := termEquivalentOfTimelockS
  toNat_onChain := by
    intro term anchor now h
    rw [usdcTimelockS, toNat_satAdd, toNat_satSub]
    omega
  toNat_toTerm := by
    intro timeout now anchor slack
    rw [termEquivalentOfTimelockS, toNat_satAdd, toNat_satAdd, toNat_satSub]
    omega

/-- The timeout check of `requireFunded` lets `timeout` pass for the term `minTimeout`. -/
def TimeoutAccepted (timeout minTimeout : UInt64) : Prop :=
  ∀ (expect : HtlcExpectation) (amount : UInt64) (confirmations need : UInt32) (got want : UInt64),
    expect.minTimeout = minTimeout →
    requireFunded (.found amount timeout confirmations) expect need ≠ .error (.timeoutTooShort got want)

theorem timeoutAccepted_iff (timeout minTimeout : UInt64) :
    TimeoutAccepted timeout minTimeout ↔ minTimeout.toNat ≤ timeout.toNat := by
  rw [← UInt64.le_iff_toNat_le]
  constructor
  · intro h
    by_contra hlt
    rw [UInt64.not_le] at hlt
    refine h ⟨.nim, ByteArr.fill hashLen 0, 0, minTimeout, [], 0⟩ 0 0 0 timeout minTimeout rfl ?_
    simp [requireFunded, hlt]
  · rintro h expect amount confirmations need got want rfl hr
    simp only [requireFunded, if_neg (UInt64.not_lt.mpr h)] at hr
    split_ifs at hr <;> cases hr

namespace TimeoutMapping

variable (m : TimeoutMapping) (term anchor slack : UInt64)

/-- A term mapped at `now1` passes the check at every `now2` within the slack. -/
def Complete : Prop := ∀ now1 now2 : UInt64, now1 ≤ now2 →
  now2.toNat - now1.toNat ≤ slack.toNat * m.unit →
  now1.toNat + (term.toNat - anchor.toNat) * m.unit < 2 ^ 64 →
  TimeoutAccepted (m.toTerm (m.onChain term anchor now1) now2 anchor slack) term

/-- A timeout that passes the check at `now` has not passed, and is at least the term less anchor and
    slack ahead of `now`, up to `rounding` units. -/
def Sound (rounding : ℕ) (timeout now : UInt64) : Prop :=
  TimeoutAccepted (m.toTerm timeout now anchor slack) term → now ≤ timeout ∧
    (now.toNat : ℤ) + ((term.toNat : ℤ) - anchor.toNat - slack.toNat) * m.unit ≤
      timeout.toNat + rounding

theorem complete : m.Complete term anchor slack := by
  intro now1 now2 hle hdelay hfits
  rw [UInt64.le_iff_toNat_le] at hle
  rw [timeoutAccepted_iff, m.toNat_toTerm, m.toNat_onChain _ _ _ hfits]
  have hterm := term.toNat_lt
  -- what is left of the lock, in whole seconds, is short of the mapped term by the slack at most
  have hleft : term.toNat - anchor.toNat - slack.toNat ≤
      (now1.toNat + (term.toNat - anchor.toNat) * m.unit - now2.toNat) / m.unit := by
    rw [Nat.le_div_iff_mul_le m.unit_pos, Nat.sub_mul (term.toNat - anchor.toNat)]
    omega
  omega

/-- What `secs` whole seconds of lock left at `now` are worth as a floor under the timeout. -/
theorem floor_le {timeout now secs : ℕ} (hle : now ≤ timeout)
    (hsecs : term.toNat - anchor.toNat - slack.toNat ≤ secs) (hmul : secs * m.unit ≤ timeout - now) :
    (now : ℤ) + ((term.toNat : ℤ) - anchor.toNat - slack.toNat) * m.unit ≤ timeout := by
  have hterm : (term.toNat : ℤ) - anchor.toNat - slack.toNat ≤ secs := by omega
  have hprod := Int.mul_le_mul_of_nonneg_right hterm (Int.natCast_nonneg m.unit)
  rw [← Int.natCast_mul] at hprod
  omega

/-- EXACT: the check keeps its promise when the slack leaves part of the term, or the timeout has not
    passed; with the slack covering the term it lets every expired timeout through. -/
theorem sound_iff (rounding : ℕ) (timeout now : UInt64) :
    m.Sound term anchor slack rounding timeout now ↔
      anchor.toNat + slack.toNat < term.toNat ∨ now ≤ timeout := by
  unfold Sound
  rw [timeoutAccepted_iff, m.toNat_toTerm, UInt64.le_iff_toNat_le]
  have hterm := term.toNat_lt
  have hmul := Nat.div_mul_le_self (timeout.toNat - now.toNat) m.unit
  generalize hq : (timeout.toNat - now.toNat) / m.unit = secs at hmul ⊢
  constructor
  · intro h
    by_contra hn
    rw [not_or, not_lt] at hn
    exact hn.2 (h (by omega)).1
  · intro hcond hpass
    have hsecs : term.toNat - anchor.toNat - slack.toNat ≤ secs := by omega
    have hahead : now.toNat ≤ timeout.toNat := by
      rcases hcond with hlong | hahead
      · have hpos : 0 < secs * m.unit := Nat.mul_pos (by omega) m.unit_pos
        omega
      · exact hahead
    have hfloor := m.floor_le term anchor slack hahead hsecs hmul
    exact ⟨hahead, by omega⟩

end TimeoutMapping

/-- EXACT: on both legs a term that is funded in time passes the check, and the check is a floor under
    the timeout exactly when the slack leaves part of the term or the timeout has not passed. -/
theorem timeout_mapping_exact (term anchor slack : UInt64) :
    (nimMapping.Complete term anchor slack ∧ ∀ rounding timeout now,
      nimMapping.Sound term anchor slack rounding timeout now ↔
        anchor.toNat + slack.toNat < term.toNat ∨ now ≤ timeout) ∧
    (usdcMapping.Complete term anchor slack ∧ ∀ rounding timeout now,
      usdcMapping.Sound term anchor slack rounding timeout now ↔
        anchor.toNat + slack.toNat < term.toNat ∨ now ≤ timeout) :=
  ⟨⟨nimMapping.complete term anchor slack, nimMapping.sound_iff term anchor slack⟩,
    usdcMapping.complete term anchor slack, usdcMapping.sound_iff term anchor slack⟩

/-- Ten minutes of term left, fifteen of slack: a lock that expired an hour ago is accepted on either
    leg. -/
theorem expired_timeout_accepted :
    ¬ nimMapping.Sound 1600 1000 900 1000 1700000000000 1700003600000 ∧
    ¬ usdcMapping.Sound 1600 1000 900 1000 1700000000 1700003600 := by
  constructor
  · intro h
    exact absurd (h ((timeoutAccepted_iff _ _).mpr (by decide))).1 (by decide)
  · intro h
    exact absurd (h ((timeoutAccepted_iff _ _).mpr (by decide))).1 (by decide)

end Nimmesh
