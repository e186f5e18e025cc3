import Nimmesh.Lib.Word
import Nimmesh.Swap.FundingVerify

/-! @src btc_verifier.rs | name:The BTC funding verifier | layer:model

    The view of a Bitcoin HTLC at its script-derived address: the first listed output with exactly the
    expected script is the funding, a listed spend of it resolves it, and its depth counts from the block
    of its transaction to the tip. A second source must agree on that block. -/

namespace Nimmesh
open Word

structure BtcOutpoint where
  txid : String
  vout : UInt32
  deriving DecidableEq

structure BtcTxOut where
  scriptpubkey : Bytes
  valueSat : UInt64
  deriving DecidableEq

/-- A transaction that an address query lists. -/
structure BtcAddressTx where
  txid : String
  spends : List BtcOutpoint
  outputs : List BtcTxOut
  deriving DecidableEq

structure BtcTxStatus where
  confirmed : Bool
  blockHeight : Option UInt64
  deriving DecidableEq

/-- The reads of one source during an observation; `none` is an error. -/
structure BitcoinReads where
  addressTxs : String → Option (List BtcAddressTx)
  txStatus : String → Option BtcTxStatus
  tipHeight : Option UInt64

/-- `OP_0` and a program of 32 bytes. -/
def isP2wsh (spk : Bytes) : Bool := spk.length = 34 && spk[0]? = some 0x00 && spk[1]? = some 0x20

/-- An output that pays the watched script. -/
structure BtcFunding where
  outpoint : BtcOutpoint
  valueSat : UInt64
  deriving DecidableEq

structure BtcHtlcVerifier where
  expectedSpk : Bytes
  expectedAddr : String
  hashlock : Hash
  cltvLocktime : UInt64

/-- The block of a transaction that is confirmed at a known height. -/
def BtcTxStatus.block (s : BtcTxStatus) : Option UInt64 := if s.confirmed then s.blockHeight else none

namespace BtcHtlcVerifier

variable (v : BtcHtlcVerifier)

/-- One output: the first with the watched script is kept, and one with another witness script is noted. -/
def scanOutput (txid : String) (acc : Option BtcFunding × Bool) (out : BtcTxOut × ℕ) : Option BtcFunding × Bool :=
  if out.1.scriptpubkey = v.expectedSpk then
    if acc.1.isNone then (some ⟨⟨txid, out.2.toUInt32⟩, out.1.valueSat⟩, acc.2) else acc
  else if isP2wsh out.1.scriptpubkey then (acc.1, true)
  else acc

/-- The funding output that a list shows, and whether it shows another witness script. -/
def scanTxs (txs : List BtcAddressTx) : Option BtcFunding × Bool :=
  txs.foldl (fun acc tx => tx.outputs.zipIdx.foldl (v.scanOutput tx.txid) acc) (none, false)

/-- A listed transaction spends the outpoint. -/
def spent (txs : List BtcAddressTx) (o : BtcOutpoint) : Bool := txs.any fun tx => tx.spends.any (· = o)

/-- The tip after the optional cross-read: the second source agrees on the block, and the lower tip
    counts. -/
def crossTip (secondary : Option BitcoinReads) (txid : String) (block tip : UInt64) : Option UInt64 :=
  match secondary with
  | none => some tip
  | some sec =>
    match sec.txStatus txid with
    | some s => if s.block = some block then sec.tipHeight.map (min tip) else none
    | none => none

def btcDepth (tip block : UInt64) : UInt32 :=
  let n := (satAdd (satSub tip block) 1).toNat
  if n < 2 ^ 32 then n.toUInt32 else 4294967295

def observeBtc (reads : BitcoinReads) (secondary : Option BitcoinReads) (expect : HtlcExpectation) :
    FundingObservation :=
  if v.hashlock ≠ expect.hashlock then .absent
  else match reads.addressTxs v.expectedAddr with
    | none => .absent
    | some txs =>
      match v.scanTxs txs with
      | (none, true) => .mismatch .recipient
      | (none, false) => .absent
      | (some f, _) =>
        if spent txs f.outpoint then .absent
        else match reads.txStatus f.outpoint.txid with
          | none => .absent
          | some s =>
            match s.block with
            | none => .found f.valueSat v.cltvLocktime 0
            | some block =>
              match reads.tipHeight with
              | none => .absent
              | some tip =>
                match crossTip secondary f.outpoint.txid block tip with
                | none => .absent
                | some tip => .found f.valueSat v.cltvLocktime (btcDepth tip block)

/-- `observe`: only the counterparty leg. -/
def observe (reads : BitcoinReads) (secondary : Option BitcoinReads) (expect : HtlcExpectation) :
    FundingObservation :=
  if expect.leg ≠ .counterparty then .absent else v.observeBtc reads secondary expect

/-! ### What the scan finds -/

/-- The output, if it pays the watched script. -/
def payment (txid : String) (out : BtcTxOut × ℕ) : Option BtcFunding :=
  if out.1.scriptpubkey = v.expectedSpk then some ⟨⟨txid, out.2.toUInt32⟩, out.1.valueSat⟩ else none

/-- The listed outputs that pay the watched script, in the order of the list. -/
def payments (txs : List BtcAddressTx) : List BtcFunding :=
  txs.flatMap fun tx => tx.outputs.zipIdx.filterMap (v.payment tx.txid)

theorem foldl_scanOutput (txid : String) (outs : List (BtcTxOut × ℕ)) :
    ∀ acc : Option BtcFunding × Bool,
      (outs.foldl (v.scanOutput txid) acc).1 = acc.1.or (outs.filterMap (v.payment txid)).head? := by
  induction outs with
  | nil => exact fun acc => (Option.or_none).symm
  | cons out outs ih =>
    intro acc
    rw [List.foldl_cons, ih, scanOutput, List.filterMap_cons, payment]
    by_cases hspk : out.1.scriptpubkey = v.expectedSpk
    · obtain ⟨_ | f, other⟩ := acc <;> simp [hspk]
    · by_cases hother : isP2wsh out.1.scriptpubkey = true <;> simp [hspk, hother]

theorem foldl_scanTxs (txs : List BtcAddressTx) :
    ∀ acc : Option BtcFunding × Bool,
      (txs.foldl (fun acc tx => tx.outputs.zipIdx.foldl (v.scanOutput tx.txid) acc) acc).1 =
        acc.1.or (v.payments txs).head? := by
  induction txs with
  | nil => exact fun acc => (Option.or_none).symm
  | cons tx txs ih =>
    intro acc
    have hcons : v.payments (tx :: txs) = tx.outputs.zipIdx.filterMap (v.payment tx.txid) ++ v.payments txs :=
      List.flatMap_cons
    rw [List.foldl_cons, ih, foldl_scanOutput, hcons, List.head?_append, Option.or_assoc]

/-- The funding that a list shows is the first output with the watched script. -/
theorem scanTxs_fst (txs : List BtcAddressTx) : (v.scanTxs txs).1 = (v.payments txs).head? := by
  rw [scanTxs, foldl_scanTxs, Option.none_or]

/-- What a funding that is found with a depth rests on. -/
theorem observe_found_iff (reads : BitcoinReads) (secondary : Option BitcoinReads) (expect : HtlcExpectation)
    (amount timeout : UInt64) (confirmations : UInt32) :
    v.observe reads secondary expect = .found amount timeout confirmations ↔
      expect.leg = .counterparty ∧ v.hashlock = expect.hashlock ∧ v.cltvLocktime = timeout ∧
      ∃ txs f s, reads.addressTxs v.expectedAddr = some txs ∧ (v.payments txs).head? = some f ∧
        spent txs f.outpoint = false ∧ reads.txStatus f.outpoint.txid = some s ∧ f.valueSat = amount ∧
        (s.block = none ∧ confirmations = 0 ∨ ∃ block tip low, s.block = some block ∧
          reads.tipHeight = some tip ∧ crossTip secondary f.outpoint.txid block tip = some low ∧
          confirmations = btcDepth low block) := by
  rw [observe]
  by_cases hleg : expect.leg = .counterparty
  · rw [if_neg (not_not.mpr hleg), observeBtc]
    by_cases hhash : v.hashlock = expect.hashlock
    · rw [if_neg (not_not.mpr hhash)]
      cases htxs : reads.addressTxs v.expectedAddr with
      | none => simp
      | some txs =>
        have hscan := v.scanTxs_fst txs
        dsimp only
        generalize v.scanTxs txs = r at hscan ⊢
        obtain ⟨first, other⟩ := r
        constructor
        · intro h
          refine ⟨hleg, hhash, ?_⟩
          cases first with
          | none => cases other <;> cases h
          | some f =>
            dsimp only at h hscan
            split_ifs at h with hspent
            cases hs : reads.txStatus f.outpoint.txid with
            | none => simp only [hs] at h; cases h
            | some s =>
              simp only [hs] at h
              cases hb : s.block with
              | none =>
                simp only [hb] at h
                cases h
                exact ⟨rfl, txs, f, s, rfl, hscan.symm, by simpa using hspent, hs, rfl, .inl ⟨hb, rfl⟩⟩
              | some block =>
                simp only [hb] at h
                cases ht : reads.tipHeight with
                | none => simp only [ht] at h; cases h
                | some tip =>
                  simp only [ht] at h
                  cases hc : crossTip secondary f.outpoint.txid block tip with
                  | none => simp only [hc] at h; cases h
                  | some low =>
                    simp only [hc] at h
                    cases h
                    exact ⟨rfl, txs, f, s, rfl, hscan.symm, by simpa using hspent, hs, rfl,
                      .inr ⟨block, tip, low, hb, rfl, hc, rfl⟩⟩
        · rintro ⟨-, -, rfl, txs', f, s, htxs', hf, hspent, hs, rfl, hdepth⟩
          cases htxs'
          obtain rfl : first = some f := hscan.trans hf
          simp only [hspent, Bool.false_eq_true, if_false, hs]
          rcases hdepth with ⟨hb, rfl⟩ | ⟨block, tip, low, hb, ht, hc, rfl⟩
          · simp only [hb]
          · simp only [hb, ht, hc]
    · simp [hhash]
  · simp [hleg]

end BtcHtlcVerifier

end Nimmesh
