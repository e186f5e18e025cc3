import Nimmesh.Lib.Checked
import Nimmesh.Lib.Script
import Nimmesh.Swap.Wire

/-! @src btc.rs swap_btc_leg.rs | name:The BTC leg | layer:model

    The hash time-locked script of the Bitcoin leg, the two transactions that spend it, and the reading of a
    preimage off a transaction. What the Bitcoin library does (bytes of a transaction, signature hash,
    signature encoding, addresses) is a parameter. -/

namespace Nimmesh

open Checked

namespace Btc

structure OutPoint where
  txid : Hash
  vout : UInt32
  deriving DecidableEq

structure TxIn where
  previousOutput : OutPoint
  scriptSig : Bytes
  sequence : UInt32
  witness : List Bytes
  deriving DecidableEq

structure TxOut where
  value : UInt64
  scriptPubkey : Bytes
  deriving DecidableEq

structure Transaction where
  version : UInt32
  lockTime : UInt32
  input : List TxIn
  output : List TxOut
  deriving DecidableEq

inductive Network where | bitcoin | testnet | signet | regtest
  deriving DecidableEq, Repr

/-- The Bitcoin library, as far as the leg uses it. The signature hash is that of input 0, over all. -/
structure Library where
  serialize : Transaction → Bytes
  deserialize : Bytes → Option Transaction
  p2wshSignatureHash : Transaction → Bytes → UInt64 → Option Hash
  /-- Parse a DER signature and write it with a low S. -/
  normalizeDer : Bytes → Option Bytes
  p2wshAddress : Bytes → Network → String

/-- `EcdsaSighashType::All`. -/
def sighashAll : UInt8 := 1

end Btc

/-- The native secp256k1 key: the public key and signatures come out, the secret does not. -/
structure BtcEnclaveKey where
  publicKey : Bytes
  signSighash : Bytes → Bytes

structure FundedHtlc where
  txid : Hash
  vout : UInt32
  valueSat : UInt64
  deriving DecidableEq

inductive BtcError where
  | badKey
  | badLocktime
  | sighash
  | badSignature
  | feeExceedsValue
  | dustOutput (payout least : UInt64)
  deriving DecidableEq, Repr

/-- The public terms of the script. -/
structure BtcHtlcParams where
  hashRoot : Hash
  recipientPubkey : BtcPubkey
  senderPubkey : BtcPubkey
  cltvLocktime : Int64
  deriving DecidableEq

namespace BtcHtlcParams

def redeemOps (p : BtcHtlcParams) : List Script.Op :=
  [ .opIf
  , .instr .sha256
  , .instr (.push ⟨p.hashRoot.1, by rw [p.hashRoot.2]; decide⟩)
  , .instr .equalVerify
  , .instr (.push ⟨p.recipientPubkey.1, by rw [p.recipientPubkey.2]; decide⟩)
  , .instr .checkSig
  , .opElse
  , .instr (Script.pushInt p.cltvLocktime.toInt)
  , .instr .checkLockTimeVerify
  , .instr .drop
  , .instr (.push ⟨p.senderPubkey.1, by rw [p.senderPubkey.2]; decide⟩)
  , .instr .checkSig
  , .opEndif ]

/-- The script that the funding output commits to. `push_int` writes the lock time into a buffer of eight bytes. -/
def redeemScript {ε : Type} (p : BtcHtlcParams) : Result ε Bytes :=
  if 8 < (Script.scriptInt p.cltvLocktime.toInt).length then fault .index else .ok (Script.bytes p.redeemOps)

variable (lib : Btc.Library)

/-- Spend the funded output alone, to one output, with a signature of input 0 in front of the branch items. -/
def signSpend (p : BtcHtlcParams) (funded : FundedHtlc) (destSpk : Bytes) (payoutSat : UInt64)
    (locktime sequence : UInt32) (branch : List Bytes) (key : BtcEnclaveKey) : Result BtcError Bytes := do
  let redeem ← p.redeemScript
  let input : Btc.TxIn :=
    { previousOutput := ⟨funded.txid, funded.vout⟩, scriptSig := [], sequence, witness := [] }
  let tx : Btc.Transaction :=
    { version := 2, lockTime := locktime, input := [input], output := [⟨payoutSat, destSpk⟩] }
  match lib.p2wshSignatureHash tx redeem funded.valueSat with
  | none => fail .sighash
  | some sighash =>
    match lib.normalizeDer (key.signSighash sighash.1) with
    | none => fail .badSignature
    | some sig =>
      let witness := [sig ++ [Btc.sighashAll]] ++ branch ++ [redeem]
      .ok (lib.serialize { tx with input := [{ input with witness }] })

/-- Spend by the preimage: final sequence, no lock time. -/
def claimTxWithKey (p : BtcHtlcParams) (funded : FundedHtlc) (preimage : Hash) (destSpk : Bytes)
    (payoutSat : UInt64) (key : BtcEnclaveKey) : Result BtcError Bytes :=
  p.signSpend lib funded destSpk payoutSat 0 0xffffffff [preimage.1, [0x01]] key

/-- Spend after the timeout. -/
def refundTxWithKey (p : BtcHtlcParams) (funded : FundedHtlc) (destSpk : Bytes) (payoutSat : UInt64)
    (key : BtcEnclaveKey) : Result BtcError Bytes :=
  let locktime := p.cltvLocktime.toInt
  if locktime < 0 ∨ 2 ^ 32 ≤ locktime then fail .badLocktime
  else p.signSpend lib funded destSpk payoutSat (UInt32.ofNat locktime.toNat) 0xfffffffe [[]] key

/-- Only the least number does not fit the buffer. -/
theorem redeemScript_eq_ok_iff {ε : Type} {p : BtcHtlcParams} {script : Bytes} :
    (p.redeemScript : Result ε Bytes) = .ok script ↔
      p.cltvLocktime ≠ Int64.minValue ∧ script = Script.bytes p.redeemOps := by
  have hfits : (Script.scriptInt p.cltvLocktime.toInt).length ≤ 8 ↔ p.cltvLocktime ≠ Int64.minValue := by
    constructor
    · rintro h hmin
      rw [hmin] at h
      exact absurd h (by decide)
    · intro h
      refine Script.length_scriptInt_le ?_
      have hlow := p.cltvLocktime.le_toInt
      have hhigh := p.cltvLocktime.toInt_lt
      have hne : p.cltvLocktime.toInt ≠ -2 ^ 63 := fun heq => h (Int64.toInt_inj.mp heq)
      omega
  rw [← hfits, redeemScript]
  split_ifs with h
  · exact iff_of_false (fun hok => by cases hok) fun hok => absurd hok.1 (by omega)
  · rw [Except.ok.injEq, eq_comm]
    exact ⟨fun heq => ⟨by omega, heq⟩, And.right⟩

end BtcHtlcParams

/-- The preimage that a claim shows: the second witness item of input 0, if it has 32 bytes. -/
def extractPreimage (lib : Btc.Library) (claimTx : Bytes) : Option Hash := do
  let tx ← lib.deserialize claimTx
  let input ← tx.input.head?
  let item ← input.witness[1]?
  ByteArr.ofBytes? hashLen item

/-! ### One node's leg -/

def dustLimitSat : UInt64 := 546

structure BtcSwapLeg where
  htlc : BtcHtlcParams
  network : Btc.Network
  key : BtcEnclaveKey
  payoutSpk : Bytes
  feeSat : UInt64

namespace BtcSwapLeg

variable (lib : Btc.Library)

def params (leg : BtcSwapLeg) : BtcHtlcParams := leg.htlc

def htlcAddress {ε : Type} (leg : BtcSwapLeg) : Result ε String := do
  let redeem ← leg.htlc.redeemScript
  .ok (lib.p2wshAddress redeem leg.network)

/-- An address is handed out, or asking for it faults. -/
theorem htlcAddress_ne_fail {ε : Type} (leg : BtcSwapLeg) (err : ε) : leg.htlcAddress lib ≠ fail err := by
  rw [htlcAddress, BtcHtlcParams.redeemScript]
  split_ifs
  · intro h
    cases h
  · intro h
    cases h

/-- What is left after the fee, which may be neither less than nothing nor dust. -/
def payout (leg : BtcSwapLeg) (funded : FundedHtlc) : Except BtcError UInt64 :=
  if funded.valueSat < leg.feeSat then .error .feeExceedsValue
  else
    let payout := funded.valueSat - leg.feeSat
    if payout < dustLimitSat then .error (.dustOutput payout dustLimitSat) else .ok payout

def buildClaim (leg : BtcSwapLeg) (funded : FundedHtlc) (preimage : Hash) : Result BtcError Bytes := do
  let payout ← ofExcept (leg.payout funded)
  leg.htlc.claimTxWithKey lib funded preimage leg.payoutSpk payout leg.key

def buildRefund (leg : BtcSwapLeg) (funded : FundedHtlc) : Result BtcError Bytes := do
  let payout ← ofExcept (leg.payout funded)
  leg.htlc.refundTxWithKey lib funded leg.payoutSpk payout leg.key

end BtcSwapLeg

/-! ### What the script accepts -/

namespace Btc

/-- What a node checks of a spend, beside the script: a hash, a signature over the transaction, a lock time. -/
structure Consensus where
  sha256 : Bytes → Hash
  checkSig : Transaction → ℕ → Bytes → Bytes → Bytes → Option Bool
  lockTime : Transaction → ℕ → Bytes → Bool

def Consensus.checks (cs : Consensus) (tx : Transaction) (k : ℕ) (script : Bytes) : Script.Checks where
  sha256 item := (cs.sha256 item).1
  checkSig := cs.checkSig tx k script
  lockTime := cs.lockTime tx k

/-- Input `k` spends an output that commits to `script`, with `items` in front of it. -/
structure Spends (cs : Consensus) (script : Bytes) (outpoint : OutPoint) (tx : Transaction) (k : ℕ)
    (items : List Bytes) : Prop where
  input : ∃ input, tx.input[k]? = some input ∧ input.previousOutput = outpoint ∧ input.witness = items ++ [script]
  accepted : ∃ ops, Script.parse script = some ops ∧ Script.accepts (cs.checks tx k script) ops items = true

end Btc

namespace BtcHtlcParams

open Btc Script

variable {cs : Consensus} {p : BtcHtlcParams} {script : Bytes} {outpoint : OutPoint} {tx : Transaction} {k : ℕ}
  {items : List Bytes}

/-- The items of the branch that shows the preimage. -/
structure Claims (cs : Consensus) (p : BtcHtlcParams) (script : Bytes) (tx : Transaction) (k : ℕ) (items : List Bytes)
    (preimage : Bytes) : Prop where
  shape : ∃ sig cond, items = [sig, preimage, cond] ∧ truthy cond = true ∧
    cs.checkSig tx k script sig p.recipientPubkey.1 = some true
  opens : cs.sha256 preimage = p.hashRoot

/-- The items of the branch of the timeout. -/
structure Refunds (cs : Consensus) (p : BtcHtlcParams) (script : Bytes) (tx : Transaction) (k : ℕ)
    (items : List Bytes) : Prop where
  shape : ∃ sig cond, items = [sig, cond] ∧ truthy cond = false ∧
    cs.checkSig tx k script sig p.senderPubkey.1 = some true
  due : cs.lockTime tx k (scriptInt p.cltvLocktime.toInt) = true

def claimOps (p : BtcHtlcParams) : List Instr :=
  [.sha256, .push ⟨p.hashRoot.1, by rw [p.hashRoot.2]; decide⟩, .equalVerify,
    .push ⟨p.recipientPubkey.1, by rw [p.recipientPubkey.2]; decide⟩, .checkSig]

def refundOps (p : BtcHtlcParams) : List Instr :=
  [pushInt p.cltvLocktime.toInt, .checkLockTimeVerify, .drop,
    .push ⟨p.senderPubkey.1, by rw [p.senderPubkey.2]; decide⟩, .checkSig]

/-- What the branch of the preimage wants on the stack. -/
theorem applyAll_claimOps {st : Stack} {top : Item} :
    applyAll (cs.checks tx k script) p.claimOps st = some [top] ∧ truthy top = true ↔
      ∃ preimage sig, st = [preimage, sig] ∧ cs.sha256 preimage = p.hashRoot ∧
        cs.checkSig tx k script sig p.recipientPubkey.1 = some true ∧ top = flag true := by
  simp only [claimOps, applyAll_cons, applyAll_nil, apply_sha256, apply_push, apply_equalVerify, apply_checkSig]
  constructor
  · rintro ⟨⟨_, ⟨preimage, rest, rfl, rfl⟩, _, rfl, below, ⟨_, hequal⟩, _, rfl, _, ⟨_, sig, _, ok, hsig, hok, rfl⟩,
      hone⟩, htop⟩
    obtain ⟨rfl, hequal⟩ := List.cons.inj hequal
    obtain ⟨hopens, rfl⟩ := List.cons.inj hequal
    obtain ⟨rfl, hrest⟩ := List.cons.inj hsig
    obtain ⟨hflag, rfl⟩ := List.cons.inj hone
    rw [← hflag, truthy_flag] at htop
    subst htop
    exact ⟨preimage, sig, by rw [hrest], Subtype.ext hopens, hok, hflag.symm⟩
  · rintro ⟨preimage, sig, rfl, hopens, hsig, rfl⟩
    have hhash : (cs.checks tx k script).sha256 preimage = p.hashRoot.1 := congrArg Subtype.val hopens
    exact ⟨⟨_, ⟨preimage, [sig], rfl, rfl⟩, _, rfl, [sig], ⟨p.hashRoot.1, by rw [hhash]⟩, _, rfl, _,
      ⟨_, sig, [], true, rfl, hsig, rfl⟩, rfl⟩, rfl⟩

theorem applyAll_refundOps {st : Stack} {top : Item} :
    applyAll (cs.checks tx k script) p.refundOps st = some [top] ∧ truthy top = true ↔
      ∃ sig, st = [sig] ∧ cs.lockTime tx k (scriptInt p.cltvLocktime.toInt) = true ∧
        cs.checkSig tx k script sig p.senderPubkey.1 = some true ∧ top = flag true := by
  simp only [refundOps, applyAll_cons, applyAll_nil, apply_checkLockTimeVerify, apply_drop, apply_push, apply_checkSig,
    apply_pushInt]
  constructor
  · rintro ⟨⟨_, rfl, _, ⟨_, rest, heq, hdue, rfl⟩, below, ⟨_, hdrop⟩, _, rfl, _, ⟨_, sig, _, ok, hsig, hok, rfl⟩, hone⟩,
      htop⟩
    obtain ⟨rfl, rfl⟩ := List.cons.inj heq
    obtain ⟨-, rfl⟩ := List.cons.inj hdrop
    obtain ⟨rfl, hrest⟩ := List.cons.inj hsig
    obtain ⟨hflag, rfl⟩ := List.cons.inj hone
    rw [← hflag, truthy_flag] at htop
    subst htop
    exact ⟨sig, hrest, hdue, hok, hflag.symm⟩
  · rintro ⟨sig, rfl, hdue, hsig, rfl⟩
    exact ⟨⟨_, rfl, _, ⟨_, [sig], rfl, hdue, rfl⟩, [sig], ⟨_, rfl⟩, _, rfl, _, ⟨_, sig, [], true, rfl, hsig, rfl⟩, rfl⟩,
      rfl⟩

/-- CORRECT: a spend of the script shows an opening of the hash, or is a refund that is due. -/
theorem spends_iff {ε : Type} (h : (p.redeemScript : Result ε Bytes) = .ok script) :
    Spends cs script outpoint tx k items ↔
      (∃ input, tx.input[k]? = some input ∧ input.previousOutput = outpoint ∧ input.witness = items ++ [script]) ∧
      (∀ item ∈ items, item.length ≤ maxItemLen) ∧
      ((∃ preimage, Claims cs p script tx k items preimage) ∨ Refunds cs p script tx k items) := by
  have hparse : parse script = some (conditional p.claimOps p.refundOps) := by
    rw [(redeemScript_eq_ok_iff.mp h).2]
    exact parse_bytes p.redeemOps
  have haccepts : accepts (cs.checks tx k script) (conditional p.claimOps p.refundOps) items = true ↔
      (∀ item ∈ items, item.length ≤ maxItemLen) ∧
        ((∃ preimage, Claims cs p script tx k items preimage) ∨ Refunds cs p script tx k items) := by
    rw [accepts_conditional_iff]
    refine and_congr_right fun _ => ?_
    constructor
    · rintro ⟨below, cond, top, rfl, happly, htop⟩
      split_ifs at happly with hcond
      · obtain ⟨preimage, sig, hst, hopens, hsig, -⟩ := applyAll_claimOps.mp ⟨happly, htop⟩
        refine .inl ⟨preimage, ⟨sig, cond, ?_, hcond, hsig⟩, hopens⟩
        rw [← List.reverse_reverse below, hst]
        rfl
      · obtain ⟨sig, hst, hdue, hsig, -⟩ := applyAll_refundOps.mp ⟨happly, htop⟩
        refine .inr ⟨⟨sig, cond, ?_, Bool.eq_false_iff.mpr hcond, hsig⟩, hdue⟩
        rw [← List.reverse_reverse below, hst]
        rfl
    · rintro (⟨preimage, ⟨sig, cond, rfl, hcond, hsig⟩, hopens⟩ | ⟨⟨sig, cond, rfl, hcond, hsig⟩, hdue⟩)
      · refine ⟨[sig, preimage], cond, flag true, rfl, ?_⟩
        rw [if_pos hcond]
        exact applyAll_claimOps.mpr ⟨preimage, sig, rfl, hopens, hsig, rfl⟩
      · refine ⟨[sig], cond, flag true, rfl, ?_⟩
        rw [if_neg (by rw [hcond]; exact Bool.false_ne_true)]
        exact applyAll_refundOps.mpr ⟨sig, rfl, hdue, hsig, rfl⟩
  constructor
  · rintro ⟨hinput, ops, hops, haccepted⟩
    rw [hparse] at hops
    obtain rfl := Option.some.inj hops
    exact ⟨hinput, haccepts.mp haccepted⟩
  · rintro ⟨hinput, h⟩
    exact ⟨hinput, _, hparse, haccepts.mpr h⟩

end BtcHtlcParams

end Nimmesh
