import Mathlib.Algebra.Order.Field.Basic
import Mathlib.Data.Rat.Cast.Order
import Nimmesh.Lib.Run
import Nimmesh.Swap.Refine

/-! @src swap_session.rs swap_coordinator.rs swap_rate.rs | name:Responder admission | layer:results

    A `Propose` is an unauthenticated byte string off the mesh. What it must pass before it may occupy
    a slot is collected in `Admission`; a delivery adds the responder of the admitted proposal and
    nothing else, and a refused one leaves the coordinators as they were. -/

namespace Nimmesh

/-- The rate floor as a comparison of rationals; a quotient by zero is no rate, and only a floor of
    zero admits it. -/
def RatePolicy.Meets (r : RatePolicy) (giveAmount takeAmount : UInt64) : Prop :=
  if takeAmount = 0 ∨ r.minNimPerBtcDen = 0 then r.minNimPerBtcNum = 0
  else (r.minNimPerBtcNum.toNat : ℚ) / r.minNimPerBtcDen.toNat ≤ giveAmount.toNat / takeAmount.toNat

theorem UInt64.toNat_pos_of_ne {x : UInt64} (h : x ≠ 0) : 0 < x.toNat := by
  rw [Nat.pos_iff_ne_zero]
  intro h0
  exact h (UInt64.toNat_inj.mp (by simpa using h0))

/-- CORRECT: the cross multiplication compares the two rates exactly. -/
theorem RatePolicy.accepts_iff (r : RatePolicy) (giveAmount takeAmount : UInt64) :
    r.accepts giveAmount takeAmount = true ↔ r.Meets giveAmount takeAmount := by
  unfold RatePolicy.accepts RatePolicy.Meets
  by_cases ht : takeAmount = 0
  · simp [ht]
  · have htake : 0 < takeAmount.toNat := UInt64.toNat_pos_of_ne ht
    rw [if_neg ht]
    by_cases hd : r.minNimPerBtcDen = 0
    · have hnum : r.minNimPerBtcNum.toNat = 0 ↔ r.minNimPerBtcNum = 0 := by
        rw [← UInt64.toNat_inj]
        simp
      rw [if_pos (.inr hd), hd, decide_eq_true_iff, UInt64.toNat_zero, Nat.mul_zero, Nat.le_zero,
        Nat.mul_eq_zero, ← hnum]
      omega
    · have hden : 0 < r.minNimPerBtcDen.toNat := UInt64.toNat_pos_of_ne hd
      rw [if_neg (by simp [ht, hd]), decide_eq_true_iff,
        div_le_div_iff₀ (by exact_mod_cast hden) (by exact_mod_cast htake)]
      rw [Nat.mul_comm takeAmount.toNat]
      exact_mod_cast Iff.rfl

/-- The ceiling a cap puts on the counter leg; a swap of NIM for NIM has none. -/
def SwapCaps.counterCeiling (c : SwapCaps) : Asset → Option UInt64
  | .nim => none
  | .usdc => some c.maxUsdcMicro
  | .btc => some c.maxBtcSat

theorem SwapCaps.admits_iff (c : SwapCaps) (nimLuna counterAmount : UInt64) (counter : Asset) :
    c.admits nimLuna counterAmount counter = true ↔
      nimLuna ≤ c.maxNimLuna ∧ ∀ m ∈ c.counterCeiling counter, counterAmount ≤ m := by
  unfold SwapCaps.admits
  by_cases h : c.maxNimLuna < nimLuna
  · simp [h, UInt64.not_le.mpr h]
  · rw [if_neg h]
    cases counter <;> simp [counterCeiling, UInt64.not_lt.mp h]

namespace Session

/-- Both amounts are within the cap of the session, where it has one. -/
theorem withinCaps_iff (s : Session) (giveAmount takeAmount : UInt64) :
    s.withinCaps giveAmount takeAmount = true ↔ ∀ caps ∈ s.caps, giveAmount ≤ caps.maxNimLuna ∧
      ∀ m ∈ caps.counterCeiling s.counterpartyChain, takeAmount ≤ m := by
  unfold withinCaps
  cases hc : s.caps with
  | none => simp
  | some caps => simp [SwapCaps.admits_iff]

end Session

/-- The proposal carries a key that hashes to its NIM address and a signature of that key over the
    signing bytes. -/
def SignedBy (cr : Crypto) (e : SwapEnvelope) (p : SwapProposal) : Prop :=
  ∃ key sig, e.nimPubkey = some key ∧ e.proposeSig = some sig ∧ cr.addressOf key = p.nimAddress ∧
    cr.verifyStrict key p.signingBytes sig = true

theorem verifyEnvelope_iff (cr : Crypto) {e : SwapEnvelope} {p : SwapProposal}
    (hp : SwapProposal.fromEnvelope e = some p) :
    SwapProposal.verifyEnvelope cr e = true ↔ SignedBy cr e p := by
  unfold SwapProposal.verifyEnvelope SignedBy
  rw [hp]
  cases hk : e.nimPubkey with
  | none => simp
  | some key =>
    cases hs : e.proposeSig with
    | none => simp
    | some sig =>
      by_cases ha : cr.addressOf key = p.nimAddress <;> simp [SwapProposal.verifySignature, ha]

/-- Every gate that `payload`, delivered as a `Propose` in `s` at `head`, passes with proposal `p`. -/
structure Admission (env : Env) (s : Session) (payload : Bytes) (head : UInt64) (p : SwapProposal) :
    Prop where
  authentic : ∃ e, decodeSwap .propose payload = .ok e ∧ SwapProposal.fromEnvelope e = some p ∧
    SignedBy env.toCrypto e p
  fresh : p.swapId ∉ s.coordinators
  slot : s.len < s.identity.maxConcurrentSwaps
  rate : s.identity.ratePolicy.Meets p.giveAmount p.takeAmount
  caps : ∀ caps ∈ s.caps, p.giveAmount ≤ caps.maxNimLuna ∧
    ∀ m ∈ caps.counterCeiling s.counterpartyChain, p.takeAmount ≤ m
  ladder : (assessLadder p.terms head s.ladder).isSafe = true

/-- A coordinator is the responder of a proposal, accepted at `head`. -/
structure RespondsTo (s : Session) (p : SwapProposal) (head : UInt64) (c : SwapCoordinator) : Prop where
  role : c.role = .responder
  phase : c.phase = .accepted
  machineTerms : c.swap.terms = p.terms
  swapId : c.ctx.swapId = p.swapId
  terms : c.ctx.terms = p.terms
  hashlock : c.ctx.hashlock = p.hashlock
  giveAmount : c.ctx.giveAmount = p.giveAmount
  takeAmount : c.ctx.takeAmount = p.takeAmount
  networkId : c.ctx.networkId = p.networkId
  anchor : c.ctx.termAnchor = head
  peerKey : c.peerBtcPubkey = some p.btcPubkey
  identity : c.ctx.nimAddress = s.identity.nimAddress ∧ c.ctx.btcAddress = s.identity.btcAddress ∧
    c.ctx.btcPubkey = s.identity.btcPubkey
  nothingYet : c.secret = none ∧ c.claimTx = none

namespace Session

/-- Deliver a `Propose` and keep the state it leaves. -/
def deliverPropose (env : Env) (s : Session) (m : Bytes × UInt64) : Session :=
  (s.onMessage env .propose m.1 m.2).2

theorem admits_iff {env : Env} {s : Session} {payload : Bytes} {head : UInt64} {e : SwapEnvelope}
    {p : SwapProposal} (he : decodeSwap .propose payload = .ok e)
    (hp : SwapProposal.fromEnvelope e = some p) :
    (e.swapId ∉ s.coordinators ∧ Admits env s e head) ↔ Admission env s payload head p := by
  have hid := SwapProposal.fromEnvelope_swapId hp
  constructor
  · rintro ⟨hmem, hslot, p', hp', hrate, hcaps, hsig, hladder⟩
    cases hp.symm.trans hp'
    exact { authentic := ⟨e, he, hp, (verifyEnvelope_iff _ hp).mp hsig⟩, fresh := hid ▸ hmem,
            slot := hslot, rate := (RatePolicy.accepts_iff ..).mp hrate,
            caps := (withinCaps_iff ..).mp hcaps, ladder := hladder }
  · intro h
    obtain ⟨e', he', hp', hsig⟩ := h.authentic
    cases he.symm.trans he'
    exact ⟨hid ▸ h.fresh, h.slot, p, hp, (RatePolicy.accepts_iff ..).mpr h.rate,
      (withinCaps_iff ..).mpr h.caps, (verifyEnvelope_iff _ hp).mpr hsig, h.ladder⟩

/-- STEP: an admitted delivery adds the responder of its proposal under a new key; every other one
    leaves the coordinators alone. Neither touches the identity. -/
theorem deliverPropose_cases (env : Env) (s : Session) (payload : Bytes) (head : UInt64) :
    (deliverPropose env s (payload, head)).identity = s.identity ∧
    ((∃ p, Admission env s payload head p ∧ RespondsTo s p head (s.admitted p head) ∧
        (deliverPropose env s (payload, head)).coordinators =
          s.coordinators.insert p.swapId (s.admitted p head)) ∨
      ((∀ p, ¬ Admission env s payload head p) ∧
        (deliverPropose env s (payload, head)).coordinators = s.coordinators)) := by
  unfold deliverPropose onMessage
  cases he : decodeSwap .propose payload with
  | error err =>
    refine ⟨rfl, .inr ⟨fun p h => ?_, rfl⟩⟩
    obtain ⟨e, he', -⟩ := h.authentic
    rw [he] at he'
    cases he'
  | ok e =>
    dsimp only
    rcases onPropose_exact env s e head with ⟨p, hmem, had, hp, hs⟩ | ⟨hn, hs⟩
    · have hid := SwapProposal.fromEnvelope_swapId hp
      rw [hs]
      refine ⟨rfl, .inl ⟨p, (admits_iff he hp).mp ⟨hmem, had⟩, ?_, by rw [hid]; rfl⟩⟩
      exact { role := rfl, phase := rfl, machineTerms := rfl, swapId := rfl, terms := rfl,
              hashlock := rfl, giveAmount := rfl, takeAmount := rfl, networkId := rfl, anchor := rfl,
              peerKey := rfl, identity := ⟨rfl, rfl, rfl⟩, nothingYet := ⟨rfl, rfl⟩ }
    · rw [hs]
      refine ⟨rfl, .inr ⟨fun p h => ?_, rfl⟩⟩
      obtain ⟨e', he', hp, -⟩ := h.authentic
      cases he.symm.trans he'
      have had := (admits_iff he hp).mpr h
      rcases hn with hmem | hno
      · exact had.1 hmem
      · exact hno had.2

theorem deliverPropose_len (env : Env) (s : Session) (m : Bytes × UInt64) :
    (deliverPropose env s m).len ≤ max s.len s.identity.maxConcurrentSwaps := by
  obtain ⟨payload, head⟩ := m
  rcases (deliverPropose_cases env s payload head).2 with ⟨p, had, -, hc⟩ | ⟨-, hc⟩
  · have hslot := had.slot
    unfold len at *
    rw [hc, Table.len_insert_of_notMem had.fresh]
    omega
  · unfold len
    rw [hc]
    omega

/-- RUN: Proposes alone never push the number of coordinators above the cap. -/
theorem deliverPropose_run_len (env : Env) (s : Session) (ms : List (Bytes × UInt64)) :
    (Run.exec (deliverPropose env) s ms).len ≤ max s.len s.identity.maxConcurrentSwaps := by
  refine (Run.exec_preserves (deliverPropose env)
    (I := fun t => t.identity = s.identity ∧ t.len ≤ max s.len s.identity.maxConcurrentSwaps)
    ?_ ms s ⟨rfl, by omega⟩).2
  rintro t ⟨payload, head⟩ ⟨hid, hlen⟩
  have hstep := deliverPropose_len env t (payload, head)
  rw [hid] at hstep
  exact ⟨((deliverPropose_cases env t payload head).1).trans hid, by omega⟩

/-- CORRECT: a delivered `Propose` adds a coordinator exactly when it passes every gate; what it adds
    is the accepted responder of its proposal, every refused one leaves the coordinators unchanged,
    and a run of Proposes stays under the concurrency cap. -/
theorem onMessage_propose_admission (env : Env) (s : Session) :
    (∀ payload head, (∃ p c, Admission env s payload head p ∧ RespondsTo s p head c ∧
        (s.onMessage env .propose payload head).2.coordinators = s.coordinators.insert p.swapId c) ∨
      ((∀ p, ¬ Admission env s payload head p) ∧
        (s.onMessage env .propose payload head).2.coordinators = s.coordinators)) ∧
    ∀ ms, (Run.exec (deliverPropose env) s ms).len ≤ max s.len s.identity.maxConcurrentSwaps := by
  refine ⟨fun payload head => ?_, fun ms => deliverPropose_run_len env s ms⟩
  rcases (deliverPropose_cases env s payload head).2 with ⟨p, had, hresp, hc⟩ | h
  · exact .inl ⟨p, s.admitted p head, had, hresp, hc⟩
  · exact .inr h

end Session

end Nimmesh
