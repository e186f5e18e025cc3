import Nimmesh.Live.BtcVerifier
import Nimmesh.Swap.Signer

/-! @src btc_verifier.rs | name:One lying BTC source | layer:properties

    Two sources are read and one of them may lie. They must agree on the block of the funding transaction,
    and the lower tip counts, so the depth is one that the honest chain has. But the output, its value and
    that it is unspent are the primary's word alone: a liar names any old transaction, or leaves a spend out of
    its list. -/

namespace Nimmesh
open Word

/-- A transaction that the network knows, and its block once it is in one. -/
structure BtcChainTx where
  tx : BtcAddressTx
  block : Option UInt64
  deriving DecidableEq

/-- One view of the chain and its mempool; no block lies above the tip. -/
structure BtcChain where
  txs : List BtcChainTx
  tip : UInt64
  below : ∀ c ∈ txs, ∀ b, c.block = some b → b ≤ tip
  short : ∀ c ∈ txs, c.tx.outputs.length < 2 ^ 32

namespace BtcChain

/-- The output at this outpoint pays the script. -/
def Pays (chain : BtcChain) (spk : Bytes) (o : BtcOutpoint) (valueSat : UInt64) : Prop :=
  ∃ c ∈ chain.txs, c.tx.txid = o.txid ∧ c.tx.outputs[o.vout.toNat]? = some ⟨spk, valueSat⟩

/-- The output at this outpoint pays the script at least `valueSat`, and nothing spends it. -/
def Holds (chain : BtcChain) (spk : Bytes) (o : BtcOutpoint) (valueSat : UInt64) : Prop :=
  (∃ value, chain.Pays spk o value ∧ valueSat ≤ value) ∧ ∀ c ∈ chain.txs, o ∉ c.tx.spends

/-- The transaction is buried under at least `depth` blocks. -/
def Confirmed (chain : BtcChain) (txid : String) (depth : ℕ) : Prop :=
  ∃ c ∈ chain.txs, c.tx.txid = txid ∧ ∃ b, c.block = some b ∧ depth ≤ chain.tip.toNat - b.toNat + 1

/-- An unspent output of the script, with at least this value and depth. -/
def Funds (chain : BtcChain) (spk : Bytes) (o : BtcOutpoint) (valueSat : UInt64) (depth : ℕ) : Prop :=
  chain.Holds spk o valueSat ∧ chain.Confirmed o.txid depth

/-- The source answers from the chain; any read of it may fail. The address query lists transactions of the
    chain, and all that pay the script or spend an output of it. -/
structure AnsweredBy (chain : BtcChain) (v : BtcHtlcVerifier) (reads : BitcoinReads) : Prop where
  listed : ∀ txs, reads.addressTxs v.expectedAddr = some txs → ∀ tx ∈ txs, ∃ c ∈ chain.txs, c.tx = tx
  complete : ∀ txs, reads.addressTxs v.expectedAddr = some txs → ∀ c ∈ chain.txs, ∀ o value,
    chain.Pays v.expectedSpk o value → c.tx.txid = o.txid ∨ o ∈ c.tx.spends → c.tx ∈ txs
  status : ∀ txid s, reads.txStatus txid = some s → ∀ b, s.block = some b ↔
    ∃ c ∈ chain.txs, c.tx.txid = txid ∧ c.block = some b
  tip : ∀ n, reads.tipHeight = some n → n = chain.tip

end BtcChain

namespace BtcHtlcVerifier

variable {v : BtcHtlcVerifier} {chain : BtcChain} {rpc sec : BitcoinReads} {expect : HtlcExpectation}

/-- The output that the source lists first under the watched script. -/
def named (v : BtcHtlcVerifier) (reads : BitcoinReads) : Option BtcFunding :=
  (reads.addressTxs v.expectedAddr).bind fun txs => (v.payments txs).head?

/-- The first output under a script that a list shows: output `i` of `tx`. -/
structure FirstListed (spk : Bytes) (txs : List BtcAddressTx) (tx : BtcAddressTx) (i : ℕ) (valueSat : UInt64) :
    Prop where
  output : tx.outputs[i]? = some ⟨spk, valueSat⟩
  firstTx : ∃ before after, txs = before ++ tx :: after ∧ ∀ t ∈ before, ∀ out ∈ t.outputs, out.scriptpubkey ≠ spk
  firstOutput : ∀ (j : ℕ) (out : BtcTxOut), j < i → tx.outputs[j]? = some out → out.scriptpubkey ≠ spk

/-- The list that a source gives is true of the first output under the script that it shows: the chain has that
    output, worth no less, and no transaction of the chain that spends it goes unlisted. -/
def ListsTruly (v : BtcHtlcVerifier) (chain : BtcChain) (reads : BitcoinReads) : Prop :=
  ∀ txs tx i value, reads.addressTxs v.expectedAddr = some txs → FirstListed v.expectedSpk txs tx i value →
    (∃ paid, chain.Pays v.expectedSpk ⟨tx.txid, i.toUInt32⟩ paid ∧ value ≤ paid) ∧
    ∀ c ∈ chain.txs, ⟨tx.txid, i.toUInt32⟩ ∈ c.tx.spends → ∃ t ∈ txs, ⟨tx.txid, i.toUInt32⟩ ∈ t.spends

/-- A read about the named transaction fails, or the sources disagree on its block. -/
def Disputed (v : BtcHtlcVerifier) (rpc sec : BitcoinReads) : Prop :=
  rpc.addressTxs v.expectedAddr = none ∨ ∃ f, v.named rpc = some f ∧
    (rpc.txStatus f.outpoint.txid = none ∨ sec.txStatus f.outpoint.txid = none ∨
      (rpc.txStatus f.outpoint.txid).map (·.block) ≠ (sec.txStatus f.outpoint.txid).map (·.block) ∨
      rpc.tipHeight = none ∨ sec.tipHeight = none)

/-- The primary lists the named output as unspent and calls it unconfirmed. -/
def InMempool (v : BtcHtlcVerifier) (rpc : BitcoinReads) : Prop :=
  ∃ txs f s, rpc.addressTxs v.expectedAddr = some txs ∧ (v.payments txs).head? = some f ∧
    spent txs f.outpoint = false ∧ rpc.txStatus f.outpoint.txid = some s ∧ s.block = none

/-! ### The depth -/

theorem toNat_btcDepth (tip block : UInt64) :
    (btcDepth tip block).toNat = min (tip.toNat - block.toNat + 1) (2 ^ 32 - 1) := by
  have htip := tip.toNat_lt
  have hone : (1 : UInt64).toNat = 1 := rfl
  rw [btcDepth, toNat_satAdd, toNat_satSub, hone]
  split_ifs with hlt
  · rw [Nat.toUInt32_eq, UInt32.toNat_ofNat', Nat.mod_eq_of_lt hlt]
    omega
  · have hval : (4294967295 : UInt32).toNat = 2 ^ 32 - 1 := rfl
    rw [hval]
    omega

/-- A tip that is no higher never makes a block deeper. -/
theorem btcDepth_le {low tip : UInt64} (h : low ≤ tip) (block : UInt64) :
    (btcDepth low block).toNat ≤ tip.toNat - block.toNat + 1 := by
  rw [UInt64.le_iff_toNat_le] at h
  rw [toNat_btcDepth]
  omega

theorem crossTip_eq_some {txid : String} {block tip low : UInt64} :
    crossTip (some sec) txid block tip = some low ↔
      ∃ s n, sec.txStatus txid = some s ∧ s.block = some block ∧ sec.tipHeight = some n ∧ min tip n = low := by
  simp only [crossTip]
  cases hs : sec.txStatus txid with
  | none => simp
  | some s =>
    by_cases hb : s.block = some block
    · simp [hb]
    · simp [hb]

/-- CORRECT: whoever of the two is honest, a depth that is reported is one that the transaction has. -/
theorem confirmed_of_crossTip (hhonest : chain.AnsweredBy v rpc ∨ chain.AnsweredBy v sec) {txid : String}
    {s : BtcTxStatus} {block tip low : UInt64} (hs : rpc.txStatus txid = some s) (hb : s.block = some block)
    (ht : rpc.tipHeight = some tip) (hlow : crossTip (some sec) txid block tip = some low) :
    chain.Confirmed txid (btcDepth low block).toNat := by
  obtain ⟨s', n, hs', hb', hn, rfl⟩ := crossTip_eq_some.mp hlow
  have hmin : ∀ a b : UInt64, min a b = if a ≤ b then a else b := fun _ _ => rfl
  have hle : min tip n ≤ tip ∧ min tip n ≤ n := by
    rw [hmin]
    split_ifs with h
    · exact ⟨UInt64.le_refl _, h⟩
    · exact ⟨UInt64.le_of_lt (UInt64.not_le.mp h), UInt64.le_refl _⟩
  rcases hhonest with hon | hon
  · obtain ⟨c, hc, hid, hblock⟩ := (hon.status txid s hs block).mp hb
    have htip := hon.tip tip ht
    subst htip
    exact ⟨c, hc, hid, block, hblock, btcDepth_le hle.1 block⟩
  · obtain ⟨c, hc, hid, hblock⟩ := (hon.status txid s' hs' block).mp hb'
    have htip := hon.tip n hn
    subst htip
    exact ⟨c, hc, hid, block, hblock, btcDepth_le hle.2 block⟩

/-- Output `i` is the first of a transaction under the script. -/
theorem head_payment {txid : String} {outs : List BtcTxOut} {n : ℕ} {f : BtcFunding}
    (h : ((outs.zipIdx n).filterMap (v.payment txid)).head? = some f) :
    ∃ i, outs[i]? = some ⟨v.expectedSpk, f.valueSat⟩ ∧ f.outpoint = ⟨txid, (n + i).toUInt32⟩ ∧
      ∀ j out, j < i → outs[j]? = some out → out.scriptpubkey ≠ v.expectedSpk := by
  induction outs generalizing n with
  | nil => cases h
  | cons out outs ih =>
    rw [List.zipIdx_cons, List.filterMap_cons, payment] at h
    by_cases hspk : out.scriptpubkey = v.expectedSpk
    · simp only [hspk, if_true, List.head?_cons, Option.some.injEq] at h
      subst h
      exact ⟨0, by rw [← hspk]; rfl, rfl, fun j _ hj => absurd hj (Nat.not_lt_zero j)⟩
    · simp only [hspk, if_false] at h
      obtain ⟨i, hout, ho, hfirst⟩ := ih h
      refine ⟨i + 1, hout, by rw [ho, Nat.add_right_comm, Nat.add_assoc], fun j out' hj hget => ?_⟩
      cases j with
      | zero => rwa [← Option.some.inj hget]
      | succ j => exact hfirst j out' (Nat.lt_of_succ_lt_succ hj) hget

/-- What a verifier names is the first output under its script that is listed. -/
theorem firstListed_of_head {txs : List BtcAddressTx} {f : BtcFunding} (h : (v.payments txs).head? = some f) :
    ∃ tx i, FirstListed v.expectedSpk txs tx i f.valueSat ∧ f.outpoint = ⟨tx.txid, i.toUInt32⟩ := by
  induction txs with
  | nil => cases h
  | cons tx txs ih =>
    have hcons : v.payments (tx :: txs) = tx.outputs.zipIdx.filterMap (v.payment tx.txid) ++ v.payments txs :=
      List.flatMap_cons
    rw [hcons, List.head?_append] at h
    cases hhead : (tx.outputs.zipIdx.filterMap (v.payment tx.txid)).head? with
    | some f' =>
      rw [hhead] at h
      cases h
      obtain ⟨i, hout, ho, hfirst⟩ := head_payment hhead
      refine ⟨tx, i, ⟨hout, ⟨[], txs, rfl, fun t ht => absurd ht List.not_mem_nil⟩, hfirst⟩, ?_⟩
      rw [ho, Nat.zero_add]
    | none =>
      rw [hhead, Option.none_or] at h
      obtain ⟨tx', i, ⟨hout, ⟨before, after, rfl, hbefore⟩, hfirst⟩, ho⟩ := ih h
      refine ⟨tx', i, ⟨hout, ⟨tx :: before, after, rfl, fun t ht out hmem hspk => ?_⟩, hfirst⟩, ho⟩
      rcases List.mem_cons.mp ht with rfl | ht
      · obtain ⟨j, hj⟩ := List.mem_iff_getElem?.mp hmem
        have hpaid : (⟨⟨t.txid, j.toUInt32⟩, out.valueSat⟩ : BtcFunding) ∈
            t.outputs.zipIdx.filterMap (v.payment t.txid) :=
          List.mem_filterMap.mpr ⟨(out, j), List.mem_zipIdx_iff_getElem?.mpr hj, by rw [payment, if_pos hspk]⟩
        rw [List.head?_eq_none_iff.mp hhead] at hpaid
        exact List.not_mem_nil hpaid
      · exact hbefore t ht out hmem hspk

/-- There is one first output at most. -/
theorem FirstListed.unique {spk : Bytes} {txs : List BtcAddressTx} {tx tx' : BtcAddressTx} {i i' : ℕ}
    {value value' : UInt64} (h : FirstListed spk txs tx i value) (h' : FirstListed spk txs tx' i' value') :
    tx = tx' ∧ i = i' ∧ value = value' := by
  obtain ⟨hout, ⟨before, after, rfl, hbefore⟩, hfirst⟩ := h
  obtain ⟨hout', ⟨before', after', heq, hbefore'⟩, hfirst'⟩ := h'
  have hmem := List.mem_of_getElem? hout
  have hmem' := List.mem_of_getElem? hout'
  have hsame : tx = tx' := by
    rcases List.append_eq_append_iff.mp heq with ⟨mid, rfl, hmid⟩ | ⟨mid, rfl, hmid⟩
    · cases mid with
      | nil => exact (List.cons.inj hmid).1
      | cons t mid =>
        obtain ⟨rfl, -⟩ := List.cons.inj hmid
        exact absurd rfl (hbefore' tx (by simp) _ hmem)
    · cases mid with
      | nil => exact (List.cons.inj hmid).1.symm
      | cons t mid =>
        obtain ⟨rfl, -⟩ := List.cons.inj hmid
        exact absurd rfl (hbefore tx' (by simp) _ hmem')
  subst hsame
  have hi : i = i' := by
    rcases Nat.lt_trichotomy i i' with hlt | hi | hlt
    · exact absurd rfl (hfirst' i _ hlt hout)
    · exact hi
    · exact absurd rfl (hfirst i' _ hlt hout')
  subst hi
  rw [hout] at hout'
  cases hout'
  exact ⟨rfl, rfl, rfl⟩

/-- An honest source lists truly. -/
theorem listsTruly_of_answered (hon : chain.AnsweredBy v rpc) : v.ListsTruly chain rpc := by
  intro txs tx i value htxs hfirst
  obtain ⟨before, after, rfl, -⟩ := hfirst.firstTx
  obtain ⟨c, hc, rfl⟩ := hon.listed _ htxs tx (by simp)
  have hlt : i < 2 ^ 32 := (List.getElem?_eq_some_iff.mp hfirst.output).1.trans (chain.short c hc)
  have hpays : chain.Pays v.expectedSpk ⟨c.tx.txid, i.toUInt32⟩ value := by
    refine ⟨c, hc, rfl, ?_⟩
    rw [Nat.toUInt32_eq, UInt32.toNat_ofNat', Nat.mod_eq_of_lt hlt, hfirst.output]
  refine ⟨⟨value, hpays, UInt64.le_refl _⟩, fun c' hc' hspends => ?_⟩
  exact ⟨c'.tx, hon.complete _ htxs c' hc' _ _ hpays (.inr hspends), hspends⟩

/-- What is listed as unspent is held by the chain exactly when it is listed truly. -/
theorem holds_iff_listsTruly {txs : List BtcAddressTx} {f : BtcFunding}
    (htxs : rpc.addressTxs v.expectedAddr = some txs) (hf : (v.payments txs).head? = some f)
    (hspent : spent txs f.outpoint = false) :
    chain.Holds v.expectedSpk f.outpoint f.valueSat ↔ v.ListsTruly chain rpc := by
  obtain ⟨tx, i, hfirst, ho⟩ := firstListed_of_head hf
  constructor
  · rintro ⟨⟨paid, hpays, hle⟩, hunspent⟩ txs' tx' i' value' htxs' hfirst'
    obtain rfl : txs = txs' := Option.some.inj (htxs.symm.trans htxs')
    obtain ⟨rfl, rfl, rfl⟩ := hfirst.unique hfirst'
    rw [ho] at hpays hunspent
    exact ⟨⟨paid, hpays, hle⟩, fun c hc hspends => absurd hspends (hunspent c hc)⟩
  · intro htruly
    obtain ⟨⟨paid, hpays, hle⟩, hlisted⟩ := htruly txs tx i f.valueSat htxs hfirst
    rw [← ho] at hpays hlisted
    refine ⟨⟨paid, hpays, hle⟩, fun c hc hspends => ?_⟩
    obtain ⟨t, ht, hmem⟩ := hlisted c hc hspends
    have hany : spent txs f.outpoint = true := List.any_eq_true.mpr ⟨t, ht, List.any_eq_true.mpr ⟨_, hmem, by simp⟩⟩
    rw [hany] at hspent
    cases hspent

/-- An error or a disagreement leaves nothing found, unless the primary alone calls the funding
    unconfirmed. -/
theorem observe_disputed (hd : v.Disputed rpc sec) (hm : ¬ v.InMempool rpc) :
    v.observe rpc (some sec) expect = .absent := by
  rw [observe]
  split_ifs with hleg
  · rfl
  rw [observeBtc]
  split_ifs with hhash
  · rfl
  cases htxs : rpc.addressTxs v.expectedAddr with
  | none => rfl
  | some txs =>
    have hscan := v.scanTxs_fst txs
    have hnamed : v.named rpc = (v.payments txs).head? := by rw [named, htxs, Option.bind_some]
    dsimp only
    generalize v.scanTxs txs = r at hscan ⊢
    obtain ⟨first, other⟩ := r
    rcases hd with hd | ⟨f, hf, hd⟩
    · rw [htxs] at hd
      cases hd
    obtain rfl : first = some f := hscan.trans (hnamed.symm.trans hf)
    dsimp only
    split_ifs with hspent
    · rfl
    cases hs : rpc.txStatus f.outpoint.txid with
    | none => rfl
    | some s =>
      cases hb : s.block with
      | none => exact absurd ⟨txs, f, s, htxs, hscan.symm, by simpa using hspent, hs, hb⟩ hm
      | some block =>
        cases ht : rpc.tipHeight with
        | none => simp only [hb]
        | some tip =>
          have hcross : crossTip (some sec) f.outpoint.txid block tip = none := by
            by_contra hne
            obtain ⟨low, hlow⟩ := Option.ne_none_iff_exists'.mp hne
            obtain ⟨s', n, hs', hb', hn, -⟩ := crossTip_eq_some.mp hlow
            simp [hs, hs', hb, hb', ht, hn] at hd
          simp only [hb, hcross]

theorem observe_inMempool (sec : BitcoinReads) (hleg : expect.leg = .counterparty)
    (hhash : v.hashlock = expect.hashlock) (hm : v.InMempool rpc) :
    ∃ a t, v.observe rpc (some sec) expect = .found a t 0 := by
  obtain ⟨txs, f, s, htxs, hf, hspent, hs, hb⟩ := hm
  exact ⟨_, _, (v.observe_found_iff _ _ _ _ _ _).mpr
    ⟨hleg, hhash, rfl, txs, f, s, htxs, hf, hspent, hs, rfl, .inl ⟨hb, rfl⟩⟩⟩

/-- EXACT: a funding found with a depth is on the honest chain if the primary's list is true of the output that it
    shows first, as an honest one's is; and the named output is one only then, so that nothing is where no other
    output pays the script. An error or a disagreement leaves the funding absent exactly when the primary does not
    call the named output unconfirmed. -/
theorem btc_cross_read_exact (v : BtcHtlcVerifier) (chain : BtcChain) (rpc sec : BitcoinReads)
    (hhonest : chain.AnsweredBy v rpc ∨ chain.AnsweredBy v sec) (expect : HtlcExpectation) :
    (∀ amount timeout k, 0 < k → v.observe rpc (some sec) expect = .found amount timeout k →
      (v.ListsTruly chain rpc → ∃ o, chain.Funds v.expectedSpk o amount k.toNat) ∧
      (∃ f, v.named rpc = some f ∧ (chain.Funds v.expectedSpk f.outpoint amount k.toNat ↔ v.ListsTruly chain rpc) ∧
        ((∀ o value, chain.Pays v.expectedSpk o value → o = f.outpoint) →
          ((∃ o, chain.Funds v.expectedSpk o amount k.toNat) ↔ v.ListsTruly chain rpc))) ∧
      (chain.AnsweredBy v rpc → v.ListsTruly chain rpc)) ∧
    (v.Disputed rpc sec →
      (v.observe rpc (some sec) expect = .absent ↔
        ¬ (expect.leg = .counterparty ∧ v.hashlock = expect.hashlock ∧ v.InMempool rpc))) := by
  refine ⟨fun amount timeout k hk h => ?_, fun hd => ⟨?_, fun hm => ?_⟩⟩
  · obtain ⟨-, -, -, txs, f, s, htxs, hf, hspent, hs, rfl, hdepth⟩ :=
      (v.observe_found_iff _ _ _ _ _ _).mp h
    rcases hdepth with ⟨-, rfl⟩ | ⟨block, tip, low, hb, ht, hlow, rfl⟩
    · exact absurd hk (by decide)
    · have hconf := confirmed_of_crossTip hhonest hs hb ht hlow
      have hnamed : chain.Funds v.expectedSpk f.outpoint f.valueSat (btcDepth low block).toNat ↔
          v.ListsTruly chain rpc := by
        rw [← holds_iff_listsTruly htxs hf hspent]
        exact ⟨And.left, fun hholds => ⟨hholds, hconf⟩⟩
      refine ⟨fun htruly => ⟨f.outpoint, hnamed.mpr htruly⟩, ⟨f, by rw [named, htxs, Option.bind_some, hf], hnamed, ?_⟩,
        listsTruly_of_answered⟩
      intro hone
      constructor
      · rintro ⟨o, ho⟩
        obtain ⟨paid, hpays, -⟩ := ho.1.1
        rw [hone o paid hpays] at ho
        exact hnamed.mp ho
      · intro htruly
        exact ⟨f.outpoint, hnamed.mpr htruly⟩
  · rintro habs ⟨hleg, hhash, hm⟩
    obtain ⟨a, t, hfound⟩ := observe_inMempool sec hleg hhash hm
    rw [habs] at hfound
    cases hfound
  · by_cases hleg : expect.leg = .counterparty
    · by_cases hhash : v.hashlock = expect.hashlock
      · exact observe_disputed hd fun h => hm ⟨hleg, hhash, h⟩
      · simp only [observe, observeBtc, hleg, ne_eq, not_true_eq_false, if_false, hhash, not_false_eq_true,
          if_true]
    · simp only [observe, ne_eq, hleg, not_false_eq_true, if_true]

end BtcHtlcVerifier

/-! ### A genuine transaction, misquoted -/

namespace Sample

def btcVerifier : BtcHtlcVerifier where
  expectedSpk := 0x00 :: 0x20 :: List.replicate 32 0x42
  expectedAddr := "tb1qgfpyysjzgfpyysjzgfpyysjzgfpyysjzgfpyysjzgfpyysjzgfpqw33dxl"
  hashlock := hashlock
  cltvLocktime := 1005000

/-- A transaction of 20 000 satoshi to a script. -/
def btcPaying (spk : Bytes) : BtcAddressTx :=
  ⟨"639f78fb7729d09dc6066a6dd81997572d2413c50b703edd5b378166b5466b2d", [], [⟨spk, 20000⟩]⟩

/-- It is in block 100, under tip 150. -/
def btcChain (spk : Bytes) : BtcChain where
  txs := [⟨btcPaying spk, some 100⟩]
  tip := 150
  below := by simp
  short c hc := by
    rw [List.mem_singleton.mp hc, btcPaying, List.length_singleton]
    decide

/-- A source that lists the transaction as paying `spk`, and answers the rest from the chain. -/
def btcReads (spk : Bytes) : BitcoinReads where
  addressTxs _ := some [btcPaying spk]
  txStatus txid := some (if txid = (btcPaying spk).txid then ⟨true, some 100⟩ else ⟨false, none⟩)
  tipHeight := some 150

/-- The output of somebody else. -/
def otherSpk : Bytes := 0x00 :: 0x14 :: List.replicate 20 0x33

theorem btcChain_status (spk spk' : Bytes) (txid : String) (s : BtcTxStatus)
    (h : (btcReads spk').txStatus txid = some s) (b : UInt64) :
    s.block = some b ↔ ∃ c ∈ (btcChain spk).txs, c.tx.txid = txid ∧ c.block = some b := by
  simp only [btcReads, Option.some.injEq] at h
  subst h
  simp only [btcChain, List.mem_singleton, exists_eq_left]
  by_cases hid : txid = (btcPaying spk').txid
  · simp [hid, BtcTxStatus.block, btcPaying]
  · have hne : ¬ (btcPaying spk).txid = txid := fun h => hid h.symm
    simp [hid, hne, BtcTxStatus.block]

theorem btcChain_answered (spk : Bytes) : (btcChain spk).AnsweredBy btcVerifier (btcReads spk) where
  listed txs h tx htx := by
    cases h
    exact ⟨_, List.mem_singleton_self _, (List.mem_singleton.mp htx).symm⟩
  complete txs h c hc o value _ _ := by
    cases h
    rw [List.mem_singleton.mp hc]
    exact List.mem_singleton_self _
  status := btcChain_status spk spk
  tip n h := (Option.some.inj h).symm

end Sample

namespace BtcHtlcVerifier

/-- The sample funding is found at depth 51, and there it is. -/
theorem sample_btc_cross_read_exact :
    ∃ o, (Sample.btcChain Sample.btcVerifier.expectedSpk).Funds Sample.btcVerifier.expectedSpk o 20000 51 := by
  have hfound : Sample.btcVerifier.observe (Sample.btcReads Sample.btcVerifier.expectedSpk)
      (some (Sample.btcReads Sample.btcVerifier.expectedSpk)) ⟨.counterparty, Sample.hashlock, 20000, 5000, [], 0⟩ =
        .found 20000 1005000 51 := by decide +kernel
  have hon := Sample.btcChain_answered Sample.btcVerifier.expectedSpk
  obtain ⟨hfunds, -, htruly⟩ := (btc_cross_read_exact Sample.btcVerifier _ _ _ (.inl hon) _).1 _ _ _ (by decide) hfound
  exact hfunds (htruly hon)

/-- A liar quotes a genuine transaction as paying our script; the honest source confirms its block. -/
theorem misquoted_output_is_found :
    ¬ ∀ (v : BtcHtlcVerifier) (chain : BtcChain) (rpc sec : BitcoinReads) (expect : HtlcExpectation),
      chain.AnsweredBy v rpc ∨ chain.AnsweredBy v sec → ∀ amount timeout k, 0 < k →
      v.observe rpc (some sec) expect = .found amount timeout k →
      ∃ o, chain.Funds v.expectedSpk o amount k.toNat := by
  intro h
  obtain ⟨o, ⟨⟨value, ⟨c, hc, -, hout⟩, -⟩, -⟩, -⟩ := h Sample.btcVerifier (Sample.btcChain Sample.otherSpk)
    (Sample.btcReads Sample.btcVerifier.expectedSpk) (Sample.btcReads Sample.otherSpk)
    ⟨.counterparty, Sample.hashlock, 20000, 5000, [], 0⟩ (.inr (Sample.btcChain_answered _)) 20000 1005000 51
    (by decide) (by decide +kernel)
  rw [List.mem_singleton.mp hc] at hout
  have hmem := List.mem_of_getElem? hout
  simp [Sample.btcPaying, Sample.btcVerifier, Sample.otherSpk] at hmem

end BtcHtlcVerifier

end Nimmesh
