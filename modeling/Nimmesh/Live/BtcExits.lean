import Nimmesh.Live.BtcHtlc

/-! @src btc.rs swap_btc_leg.rs | name:The two exits of the BTC leg | layer:properties

    The claim and the refund of a funding share the fee and the dust limit, but the refund also needs the lock
    time of the script in a field of half its width. -/

namespace Nimmesh

open Btc Checked

/-- Signing succeeds, whatever the transaction. -/
structure BtcEnclaveKey.Signs (lib : Library) (key : BtcEnclaveKey) : Prop where
  sighash : ∀ tx script value, lib.p2wshSignatureHash tx script value ≠ none
  signature : ∀ sighash : Hash, lib.normalizeDer (key.signSighash sighash.1) ≠ none

namespace BtcHtlcParams

variable {lib : Library} {p : BtcHtlcParams} {key : BtcEnclaveKey} {script : Bytes}

/-- The transaction that spends a funding, up to the signature. -/
def spendTx (script : Bytes) (funded : FundedHtlc) (destSpk : Bytes) (payoutSat : UInt64) (locktime sequence : UInt32)
    (branch : List Bytes) (sig : Bytes) : Transaction where
  version := 2
  lockTime := locktime
  input := [{
    previousOutput := ⟨funded.txid, funded.vout⟩
    scriptSig := []
    sequence := sequence
    witness := [sig] ++ branch ++ [script] }]
  output := [⟨payoutSat, destSpk⟩]

/-- There is a script unless the lock time is the least number. -/
theorem exists_redeemScript_iff {ε : Type} :
    (∃ script, (p.redeemScript : Result ε Bytes) = .ok script) ↔ p.cltvLocktime ≠ Int64.minValue := by
  constructor
  · rintro ⟨script, h⟩
    exact (redeemScript_eq_ok_iff.mp h).1
  · intro h
    exact ⟨_, redeemScript_eq_ok_iff.mpr ⟨h, rfl⟩⟩

/-- The script, read back from its bytes, checks the lock time that it was built with. -/
theorem lockTimeOperand_redeemScript {ε : Type} (h : (p.redeemScript : Result ε Bytes) = .ok script) :
    (Script.parse script).bind Script.lockTimeOperand = some p.cltvLocktime.toInt := by
  have hlow := p.cltvLocktime.le_toInt
  have hhigh := p.cltvLocktime.toInt_lt
  have hoperand : Script.lockTimeOperand p.redeemOps =
      (Script.pushInt p.cltvLocktime.toInt).pushed.map Script.num := rfl
  rw [(redeemScript_eq_ok_iff.mp h).2, Script.parse_bytes, Option.bind_some, hoperand, Script.pushed_pushInt,
    Option.map_some, Script.num_scriptInt (by omega)]

theorem signSpend_of_signs (h : key.Signs lib) (hscript : (p.redeemScript : Result BtcError Bytes) = .ok script)
    (funded : FundedHtlc) (destSpk : Bytes) (payoutSat : UInt64) (locktime sequence : UInt32) (branch : List Bytes) :
    ∃ sig, p.signSpend lib funded destSpk payoutSat locktime sequence branch key =
      .ok (lib.serialize (spendTx script funded destSpk payoutSat locktime sequence branch sig)) := by
  rw [signSpend, hscript, ok_bind]
  simp only
  cases hsighash : lib.p2wshSignatureHash _ script funded.valueSat with
  | none => exact absurd hsighash (h.sighash _ _ _)
  | some sighash =>
    cases hsig : lib.normalizeDer (key.signSighash sighash.1) with
    | none => exact absurd hsig (h.signature sighash)
    | some sig => exact ⟨sig ++ [sighashAll], by simp only [hsig]; rfl⟩

/-- Without a script nothing is signed. -/
theorem exists_script_of_signSpend {funded : FundedHtlc} {destSpk : Bytes} {payoutSat : UInt64}
    {locktime sequence : UInt32} {branch : List Bytes} {tx : Bytes}
    (h : p.signSpend lib funded destSpk payoutSat locktime sequence branch key = .ok tx) :
    ∃ script, (p.redeemScript : Result BtcError Bytes) = .ok script := by
  obtain ⟨script, hscript, -⟩ := bind_eq_ok_iff.mp h
  exact ⟨script, hscript⟩

end BtcHtlcParams

namespace BtcSwapLeg

variable {lib : Library} {leg : BtcSwapLeg} {funded : FundedHtlc} {payout : UInt64} {script : Bytes}

/-- What is paid out is the value without the fee. -/
theorem payout_ok (h : leg.payout funded = .ok payout) :
    payout.toNat + leg.feeSat.toNat = funded.valueSat.toNat ∧ dustLimitSat ≤ payout := by
  rw [BtcSwapLeg.payout] at h
  simp only at h
  split_ifs at h with hfee hdust
  cases h
  rw [UInt64.not_lt] at hfee hdust
  rw [UInt64.toNat_sub_of_le _ _ hfee]
  exact ⟨Nat.sub_add_cancel (UInt64.le_iff_toNat_le.mp hfee), hdust⟩

/-- An address is handed out for every script. -/
theorem exists_htlcAddress_iff {ε : Type} :
    (∃ address, (leg.htlcAddress lib : Result ε String) = .ok address) ↔ leg.htlc.cltvLocktime ≠ Int64.minValue := by
  rw [← BtcHtlcParams.exists_redeemScript_iff (ε := ε)]
  constructor
  · rintro ⟨address, h⟩
    obtain ⟨script, hscript, -⟩ := bind_eq_ok_iff.mp h
    exact ⟨script, hscript⟩
  · rintro ⟨script, hscript⟩
    exact ⟨_, bind_eq_ok_iff.mpr ⟨script, hscript, rfl⟩⟩

/-- A claim is built for every script. -/
theorem exists_buildClaim_iff (h : leg.key.Signs lib) (hpayout : leg.payout funded = .ok payout) (preimage : Hash) :
    (∃ claim, leg.buildClaim lib funded preimage = .ok claim) ↔ leg.htlc.cltvLocktime ≠ Int64.minValue := by
  rw [← BtcHtlcParams.exists_redeemScript_iff (ε := BtcError), buildClaim, hpayout]
  constructor
  · rintro ⟨claim, hclaim⟩
    exact BtcHtlcParams.exists_script_of_signSpend hclaim
  · rintro ⟨script, hscript⟩
    obtain ⟨sig, hclaim⟩ := BtcHtlcParams.signSpend_of_signs h hscript funded leg.payoutSpk payout 0 0xffffffff
      [preimage.1, [0x01]]
    exact ⟨_, hclaim⟩

/-- The refund, with the lock time of the script. -/
theorem buildRefund_of_payout (h : leg.key.Signs lib) (hpayout : leg.payout funded = .ok payout)
    (hscript : (leg.htlc.redeemScript : Result BtcError Bytes) = .ok script)
    (hlock : 0 ≤ leg.htlc.cltvLocktime.toInt ∧ leg.htlc.cltvLocktime.toInt < 2 ^ 32) :
    ∃ sig, leg.buildRefund lib funded = .ok (lib.serialize (BtcHtlcParams.spendTx script funded leg.payoutSpk payout
      (UInt32.ofNat leg.htlc.cltvLocktime.toInt.toNat) 0xfffffffe [[]] sig)) := by
  obtain ⟨sig, hsig⟩ := BtcHtlcParams.signSpend_of_signs h hscript funded leg.payoutSpk payout
    (UInt32.ofNat leg.htlc.cltvLocktime.toInt.toNat) 0xfffffffe [[]]
  refine ⟨sig, ?_⟩
  rw [buildRefund, hpayout]
  refine (if_neg ?_).trans hsig
  rintro (hneg | hwide)
  · omega
  · omega

theorem buildRefund_bad_locktime (hpayout : leg.payout funded = .ok payout)
    (hlock : ¬ (0 ≤ leg.htlc.cltvLocktime.toInt ∧ leg.htlc.cltvLocktime.toInt < 2 ^ 32)) :
    leg.buildRefund lib funded = fail .badLocktime := by
  rw [buildRefund, hpayout]
  exact if_pos (by omega)

/-- The refund of a funding: it carries the script, and its lock time is the number that the script checks; it is
    non-final, and pays out what a claim would. -/
structure RefundsAt (leg : BtcSwapLeg) (funded : FundedHtlc) (payout : UInt64) (tx : Transaction) : Prop where
  input : ∃ input sig script, tx.input = [input] ∧ input.previousOutput = ⟨funded.txid, funded.vout⟩ ∧
    input.sequence ≠ 0xffffffff ∧ input.witness = [sig, [], script] ∧
    (leg.htlc.redeemScript : Result BtcError Bytes) = .ok script ∧
    (Script.parse script).bind Script.lockTimeOperand = some (tx.lockTime.toNat : ℤ)
  output : tx.output = [⟨payout, leg.payoutSpk⟩]

/-- A lock time that fits the field of a transaction is refunded at. -/
theorem exists_refund (h : leg.key.Signs lib) (hpayout : leg.payout funded = .ok payout)
    (hlock : 0 ≤ leg.htlc.cltvLocktime.toInt ∧ leg.htlc.cltvLocktime.toInt < 2 ^ 32) :
    ∃ tx, leg.buildRefund lib funded = .ok (lib.serialize tx) ∧ leg.RefundsAt funded payout tx := by
  have hne : leg.htlc.cltvLocktime ≠ Int64.minValue := by
    intro hmin
    rw [hmin] at hlock
    exact absurd hlock.1 (by decide)
  obtain ⟨script, hscript⟩ := BtcHtlcParams.exists_redeemScript_iff.mpr hne
  obtain ⟨sig, hrefund⟩ := buildRefund_of_payout h hpayout hscript hlock
  have hnonfinal : (0xfffffffe : UInt32) ≠ 0xffffffff := by decide
  have hfits : leg.htlc.cltvLocktime.toInt.toNat < 2 ^ 32 := by omega
  refine ⟨_, hrefund, ⟨_, sig, script, rfl, rfl, hnonfinal, rfl, hscript, ?_⟩, rfl⟩
  rw [BtcHtlcParams.lockTimeOperand_redeemScript hscript, BtcHtlcParams.spendTx, UInt32.toNat_ofNat',
    Nat.mod_eq_of_lt hfits, Int.toNat_of_nonneg hlock.1]

/-- EXACT: for every value that leaves a payout, a leg hands out an address exactly when it builds claims, and then a
    refund is built, at the lock time that the script checks, exactly when that fits the field of a transaction. -/
theorem btc_refundable_iff (lib : Library) (leg : BtcSwapLeg) (hsigns : leg.key.Signs lib) (funded : FundedHtlc)
    (payout : UInt64) (hpayout : leg.payout funded = .ok payout) :
    payout.toNat + leg.feeSat.toNat = funded.valueSat.toNat ∧
      (∀ preimage, (∃ claim, leg.buildClaim lib funded preimage = .ok claim) ↔
        ∃ address, (leg.htlcAddress lib : Result BtcError String) = .ok address) ∧
      (((∃ address, (leg.htlcAddress lib : Result BtcError String) = .ok address) →
          ∃ tx, leg.buildRefund lib funded = .ok (lib.serialize tx) ∧ leg.RefundsAt funded payout tx) ↔
        (0 ≤ leg.htlc.cltvLocktime.toInt ∧ leg.htlc.cltvLocktime.toInt < 2 ^ 32) ∨
          leg.htlc.cltvLocktime = Int64.minValue) := by
  refine ⟨(payout_ok hpayout).1, fun preimage => ?_, ?_⟩
  · rw [exists_buildClaim_iff hsigns hpayout, exists_htlcAddress_iff]
  · rw [exists_htlcAddress_iff]
    constructor
    · intro hrefunds
      by_contra hno
      rw [not_or] at hno
      obtain ⟨tx, hrefund, -⟩ := hrefunds hno.2
      rw [buildRefund_bad_locktime hpayout hno.1] at hrefund
      cases hrefund
    · rintro (hlock | hmin) hne
      · exact exists_refund hsigns hpayout hlock
      · exact absurd hmin hne

end BtcSwapLeg

namespace Sample

/-- A library that can do what signing takes. -/
def signingLib : Library where
  serialize tx := [tx.input.length.toUInt8]
  deserialize _ := none
  p2wshSignatureHash _ _ _ := some (ByteArr.fill 32 0)
  normalizeDer := some
  p2wshAddress _ _ := ""

/-- A leg with this lock time and a fee of 1000. -/
def legAt (cltv : Int64) : BtcSwapLeg where
  htlc := ⟨ByteArr.fill 32 1, ByteArr.fill 33 2, ByteArr.fill 33 3, cltv⟩
  network := .signet
  key := ⟨List.replicate 33 2, fun _ => [0x30]⟩
  payoutSpk := [0x00, 0x14] ++ List.replicate 20 7
  feeSat := 1000

def htlcFunding : FundedHtlc := ⟨ByteArr.fill 32 0x11, 0, 100000⟩

theorem legAt_signs (cltv : Int64) : (legAt cltv).key.Signs signingLib := ⟨by simp [signingLib], by simp [signingLib]⟩

end Sample

/-- A lock time of today is refunded at. -/
theorem sample_btc_refundable : ∃ tx, (Sample.legAt 1782588246).buildRefund Sample.signingLib Sample.htlcFunding =
      .ok (Sample.signingLib.serialize tx) ∧
    (Sample.legAt 1782588246).RefundsAt Sample.htlcFunding 99000 tx :=
  (BtcSwapLeg.btc_refundable_iff Sample.signingLib (Sample.legAt 1782588246) (Sample.legAt_signs _) Sample.htlcFunding
    99000 (by decide)).2.2.mpr (.inl (by decide)) ⟨_, rfl⟩

/-- A lock time in milliseconds has an address and claims, and is never refunded at. -/
theorem btc_leg_without_refund :
    (∃ address, ((Sample.legAt 1782588246000).htlcAddress Sample.signingLib : Result BtcError String) = .ok address) ∧
      (∀ preimage, ∃ claim, (Sample.legAt 1782588246000).buildClaim Sample.signingLib Sample.htlcFunding preimage =
        .ok claim) ∧
      (Sample.legAt 1782588246000).buildRefund Sample.signingLib Sample.htlcFunding = fail .badLocktime :=
  ⟨⟨_, rfl⟩, fun _ => ⟨_, rfl⟩, rfl⟩

end Nimmesh
