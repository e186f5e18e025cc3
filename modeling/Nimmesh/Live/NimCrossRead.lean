import Mathlib.Data.Set.Function
import Nimmesh.Lib.Run
import Nimmesh.Live.Claimable

/-! @src nim_verifier.rs | name:One lying NIM endpoint | layer:properties

    Two endpoints are read and one of them may lie. The other answers from one chain, or not at all. What
    the verifier reports is then what that chain holds: the block is one both endpoints name, and the
    depth is counted from the lower head. -/

namespace Nimmesh

/-- A transaction of the chain: its signed content, and its block once it is in one. -/
structure NimChainTx where
  content : Bytes
  block : Option UInt32
  deriving DecidableEq

/-- One view of the NIM chain; no block lies above the head. -/
structure NimChain where
  txs : List NimChainTx
  head : UInt32
  below : ∀ tx ∈ txs, ∀ b, tx.block = some b → b ≤ head

/-- The endpoint answers from the chain; any read of it may fail. -/
structure NimChain.AnsweredBy (chain : NimChain) (blake : Blake2b) (rpc : NimReads) : Prop where
  known : ∀ h t, rpc.getTransaction h = some (some t) →
    t.hash = h ∧ ∃ tx ∈ chain.txs, blake tx.content = h ∧ tx.block = t.blockNumber
  unknown : ∀ h, rpc.getTransaction h = some none → ∀ tx ∈ chain.txs, blake tx.content ≠ h
  head : ∀ n, rpc.blockNumber = some n → n = chain.head

/-- The chain has a transaction with this content hash, buried under at least `depth` blocks. -/
def NimChain.Buried (chain : NimChain) (blake : Blake2b) (hash : Hash) (depth : ℕ) (tx : NimChainTx) :
    Prop :=
  tx ∈ chain.txs ∧ blake tx.content = hash ∧
    ∃ b, tx.block = some b ∧ depth ≤ chain.head.toNat - b.toNat + 1

/-- The endpoint does not name the transaction with this content hash: an error, an unknown transaction,
    or another one. -/
def NimReads.Fails (rpc : NimReads) (hash : Hash) : Prop :=
  rpc.getTransaction hash = none ∨ rpc.getTransaction hash = some none ∨
    ∃ t, rpc.getTransaction hash = some (some t) ∧ t.hash ≠ hash

/-! ### The depth -/

theorem toNat_nimDepth (head b : UInt32) :
    (nimDepth head (some b)).toNat = min (head.toNat - b.toNat + 1) (2 ^ 32 - 1) := by
  have hh := head.toNat_lt
  by_cases hle : head ≤ b
  · rw [nimDepth, if_pos hle]
    rw [UInt32.le_iff_toNat_le] at hle
    simp only [UInt32.toNat_one]
    omega
  · have hlt : b.toNat < head.toNat := by
      rw [UInt32.le_iff_toNat_le] at hle
      omega
    have hsub : (head - b).toNat = head.toNat - b.toNat :=
      UInt32.toNat_sub_of_le _ _ (UInt32.le_iff_toNat_le.mpr (by omega))
    rw [nimDepth]
    simp only [if_neg hle]
    split_ifs with hmax
    · have hnat := congrArg UInt32.toNat hmax
      rw [hsub] at hnat
      have hval : (4294967295 : UInt32).toNat = 2 ^ 32 - 1 := rfl
      omega
    · have hne : (head - b).toNat ≠ 2 ^ 32 - 1 := fun h => hmax (UInt32.toNat_inj.mp (by rw [h]; rfl))
      have hone : (1 : UInt32).toNat = 1 := rfl
      rw [UInt32.toNat_add, hsub, hone, Nat.mod_eq_of_lt (by omega)]
      omega

theorem u32_min_le (a b : UInt32) : min a b ≤ a ∧ min a b ≤ b := by
  have hmin : min a b = if a ≤ b then a else b := rfl
  have htotal := UInt32.le_total a b
  rw [hmin]
  split_ifs with h
  · exact ⟨UInt32.le_refl a, h⟩
  · exact ⟨htotal.resolve_left h, UInt32.le_refl b⟩

/-- A head that is no higher never makes a block deeper. -/
theorem nimDepth_le {head top b : UInt32} (h : head ≤ top) :
    (nimDepth head (some b)).toNat ≤ top.toNat - b.toNat + 1 := by
  rw [UInt32.le_iff_toNat_le] at h
  rw [toNat_nimDepth]
  omega

/-! ### The store -/

namespace NimFundingStore

/-- Every kept creation is of the shape a swap uses, under its own hashlock. -/
def Shaped (store : NimFundingStore) : Prop := ∀ hashlock rec, store.lookup hashlock = some rec →
  rec.creation.data.hashRoot = hashlock ∧ rec.creation.data.hashAlgorithm = .sha256 ∧
    rec.creation.data.hashCount = 1

theorem Shaped.noteWire (blake : Blake2b) (store : NimFundingStore) (wire : Bytes) (h : Shaped store) :
    Shaped (noteWire blake store wire) := by
  simp only [NimFundingStore.noteWire]
  split
  · exact h
  · rename_i creation _
    split_ifs with h1 h2 h3
    · exact h
    · exact h
    · exact h
    · intro hashlock rec hl
      rw [Table.lookup_insert_iff] at hl
      rw [not_or, not_not, not_not] at h1
      split_ifs at hl with hk
      · cases hl
        exact ⟨hk.symm, h1⟩
      · exact h hashlock rec hl

/-- The store after a sequence of wires. -/
def noted (blake : Blake2b) (wires : List Bytes) : NimFundingStore := Run.exec (noteWire blake) ∅ wires

theorem shaped_noted (blake : Blake2b) (wires : List Bytes) : Shaped (noted blake wires) :=
  Run.exec_preserves (I := Shaped) (noteWire blake) (fun store wire h => h.noteWire blake store wire) wires ∅
    fun _ _ h => by cases h

end NimFundingStore

/-! ### What an honest endpoint says -/

theorem contentBoundBlock_eq_some {rpc : NimReads} {hash : Hash} {block : Option UInt32} :
    contentBoundBlock rpc hash = some block ↔
      ∃ t, rpc.getTransaction hash = some (some t) ∧ t.hash = hash ∧ t.blockNumber = block := by
  unfold contentBoundBlock
  cases ht : rpc.getTransaction hash with
  | none => simp
  | some t =>
    cases t with
    | none => simp
    | some t => by_cases hh : t.hash = hash <;> simp [hh]

theorem contentBoundBlock_eq_none {rpc : NimReads} {hash : Hash} :
    contentBoundBlock rpc hash = none ↔ rpc.Fails hash := by
  unfold contentBoundBlock NimReads.Fails
  cases ht : rpc.getTransaction hash with
  | none => simp
  | some t =>
    cases t with
    | none => simp
    | some t => by_cases hh : t.hash = hash <;> simp [hh]

theorem claimBlock_eq_some {rpc : NimReads} {hash : Hash} {block : Option UInt32} :
    claimBlock rpc hash = some (some block) ↔ contentBoundBlock rpc hash = some block := by
  rw [contentBoundBlock_eq_some]
  unfold claimBlock
  cases ht : rpc.getTransaction hash with
  | none => simp
  | some t =>
    cases t with
    | none => simp
    | some t => by_cases hh : t.hash = hash <;> simp [hh]

theorem claimBlock_eq_unknown {rpc : NimReads} {hash : Hash} :
    claimBlock rpc hash = some none ↔ rpc.getTransaction hash = some none := by
  unfold claimBlock
  cases ht : rpc.getTransaction hash with
  | none => simp
  | some t =>
    cases t with
    | none => simp
    | some t => by_cases hh : t.hash = hash <;> simp [hh]

namespace NimChain.AnsweredBy

variable {chain : NimChain} {blake : Blake2b} {rpc : NimReads}

/-- A block that an honest endpoint names holds the transaction, and a depth counted from at most the
    honest head is one the chain has. -/
theorem buried (hon : chain.AnsweredBy blake rpc) {hash : Hash} {b n head : UInt32}
    (hb : contentBoundBlock rpc hash = some (some b)) (hn : rpc.blockNumber = some n) (hle : head ≤ n) :
    ∃ tx, chain.Buried blake hash (nimDepth head (some b)).toNat tx := by
  obtain ⟨t, ht, -, hblock⟩ := contentBoundBlock_eq_some.mp hb
  obtain ⟨-, tx, hmem, hhash, htx⟩ := hon.known hash t ht
  have hn' := hon.head n hn
  subst hn'
  exact ⟨tx, hmem, hhash, b, htx.trans hblock, nimDepth_le hle⟩

end NimChain.AnsweredBy

namespace NimHtlcVerifier

variable {v : NimHtlcVerifier} {rpc sec : NimReads} {nowMs : UInt64} {store : NimFundingStore}
  {expect : HtlcExpectation}

/-- What stands behind a funding that is found with a depth: both endpoints name the block of the stored
    creation, and the depth is counted from the lower head. -/
theorem observeNim_found_deep {amount timeout : UInt64} {k : UInt32}
    (h : v.observeNim rpc (some sec) nowMs store expect = .found amount timeout k) (hk : 0 < k) :
    ∃ rec b n n', store.lookup expect.hashlock = some rec ∧
      rec.creation.data.htlcRecipient.1 = expect.recipient ∧ rec.creation.networkId = v.networkId ∧
      rec.creation.value = amount ∧
      contentBoundBlock rpc (rec.creation.txHash v.crypto) = some (some b) ∧
      contentBoundBlock sec (rec.creation.txHash v.crypto) = some (some b) ∧
      rpc.blockNumber = some n ∧ sec.blockNumber = some n' ∧ k = nimDepth (min n n') (some b) := by
  unfold observeNim at h
  cases hl : store.lookup expect.hashlock with
  | none =>
    simp only [hl] at h
    split_ifs at h
  | some rec =>
    simp only [hl] at h
    split_ifs at h with hr hn
    cases hb : contentBoundBlock rpc (rec.creation.txHash v.crypto) with
    | none => simp only [hb] at h; cases h
    | some block =>
      cases hh : rpc.blockNumber with
      | none => simp only [hb, hh] at h; cases h
      | some n =>
        simp only [hb, hh, crossReadHead] at h
        by_cases hsec : contentBoundBlock sec (rec.creation.txHash v.crypto) = some block
        · cases hs : sec.blockNumber with
          | none => simp only [hsec, hs, if_true, Option.map_none] at h; cases h
          | some n' =>
            simp only [hsec, hs, if_true, Option.map_some] at h
            have hfound : rec.creation.value = amount ∧ nimDepth (min n n') block = k := by
              split_ifs at h
              cases h
              exact ⟨rfl, rfl⟩
            cases block with
            | none =>
              rw [← hfound.2] at hk
              exact absurd hk (by simp [nimDepth])
            | some b =>
              exact ⟨rec, b, n, n', rfl, not_not.mp hr, not_not.mp hn, hfound.1, hb, hsec, rfl, rfl,
                hfound.2.symm⟩
        · simp only [if_neg hsec] at h
          cases h

/-- A read that fails, or endpoints that disagree about the block, leave nothing found. -/
theorem observeNim_absent {rec : NimFundingRecord} (hl : store.lookup expect.hashlock = some rec)
    (hr : rec.creation.data.htlcRecipient.1 = expect.recipient) (hn : rec.creation.networkId = v.networkId)
    (hfail : rpc.Fails (rec.creation.txHash v.crypto) ∨ sec.Fails (rec.creation.txHash v.crypto) ∨
      contentBoundBlock sec (rec.creation.txHash v.crypto) ≠
        contentBoundBlock rpc (rec.creation.txHash v.crypto) ∨
      rpc.blockNumber = none ∨ sec.blockNumber = none) :
    v.observeNim rpc (some sec) nowMs store expect = .absent := by
  simp only [← contentBoundBlock_eq_none] at hfail
  simp only [observeNim, hl, hr, hn, ne_eq, not_true_eq_false, if_false]
  cases hb : contentBoundBlock rpc (rec.creation.txHash v.crypto) with
  | none => rfl
  | some block =>
    cases hh : rpc.blockNumber with
    | none => rfl
    | some n =>
      rw [hb, hh] at hfail
      simp only [crossReadHead]
      by_cases hsec : contentBoundBlock sec (rec.creation.txHash v.crypto) = some block
      · have hs : sec.blockNumber = none := by
          rcases hfail with h | h | h | h | h
          · cases h
          · rw [hsec] at h
            cases h
          · exact absurd hsec h
          · cases h
          · exact h
        simp only [hsec, hs, if_true, Option.map_none]
      · simp only [if_neg hsec]

/-- The contract account is read once the transaction is in a block; then that read must not fail either. -/
theorem observeNim_account {rec : NimFundingRecord} (hl : store.lookup expect.hashlock = some rec)
    (hr : rec.creation.data.htlcRecipient.1 = expect.recipient) (hn : rec.creation.networkId = v.networkId)
    (hacct : rpc.getAccount rec.contract = none) {amount timeout : UInt64} {k : UInt32}
    (h : v.observeNim rpc (some sec) nowMs store expect = .found amount timeout k) : k = 0 := by
  simp only [observeNim, hl, hr, hn, ne_eq, not_true_eq_false, if_false, hacct] at h
  split at h
  · split at h
    · cases h
    · rename_i head _
      split_ifs at h with hpos
      cases h
      simpa using hpos
  · cases h

/-- Where a claim that is reported in a block is: both endpoints name the block, and the depth is counted
    from the lower head. -/
theorem observeClaim_included_deep {txId : Hash} {k : UInt32}
    (h : observeClaim rpc (some sec) .nim txId = .included k) (hk : 0 < k) :
    ∃ b n n', contentBoundBlock rpc txId = some (some b) ∧ contentBoundBlock sec txId = some (some b) ∧
      rpc.blockNumber = some n ∧ sec.blockNumber = some n' ∧ k = nimDepth (min n n') (some b) := by
  simp only [observeClaim, ne_eq, not_true_eq_false, if_false, Option.any_some, Option.map_some,
    decide_eq_true_eq] at h
  cases hb : claimBlock rpc txId with
  | none => simp only [hb] at h; cases h
  | some block =>
    simp only [hb] at h
    by_cases hsec : claimBlock sec txId = some block
    · simp only [hsec, not_true_eq_false, if_false] at h
      match block with
      | none => cases h
      | some none =>
        cases h
        exact absurd hk (by decide)
      | some (some b) =>
        refine ⟨b, ?_⟩
        rw [claimBlock_eq_some] at hb hsec
        cases hn : rpc.blockNumber with
        | none =>
          simp only [hn] at h
          cases h
          exact absurd hk (by decide)
        | some n =>
          cases hn' : sec.blockNumber with
          | none =>
            simp only [hn, hn'] at h
            cases h
            exact absurd hk (by decide)
          | some n' =>
            simp only [hn, hn'] at h
            cases h
            exact ⟨n, n', hb, hsec, rfl, rfl, rfl⟩
    · simp only [hsec, not_false_eq_true, if_true] at h
      cases h

/-- The endpoints do not agree on where a claim is: an error or another transaction on one side, or two
    different answers. -/
def ClaimDisputed (rpc sec : NimReads) (txId : Hash) : Prop :=
  claimBlock rpc txId = none ∨ claimBlock sec txId = none ∨ claimBlock sec txId ≠ claimBlock rpc txId

theorem observeClaim_disputed {txId : Hash} (h : ClaimDisputed rpc sec txId) :
    observeClaim rpc (some sec) .nim txId = .unavailable := by
  simp only [observeClaim, ne_eq, not_true_eq_false, if_false, Option.any_some, decide_eq_true_eq]
  cases hb : claimBlock rpc txId with
  | none => rfl
  | some block =>
    have hsec : ¬ claimBlock sec txId = some block := by
      intro hs
      rcases h with h | h | h
      · rw [hb] at h
        cases h
      · rw [hs] at h
        cases h
      · exact h (hs.trans hb.symm)
    simp only [hsec, not_false_eq_true, if_true]

/-- Where the endpoints agree, the answer is the place they name; a head that is not read makes the
    depth zero. -/
theorem observeClaim_agreed {txId : Hash} {block : Option (Option UInt32)}
    (h : claimBlock rpc txId = some block) (hsec : claimBlock sec txId = some block) :
    (block = none → observeClaim rpc (some sec) .nim txId = .notFound) ∧
    (block ≠ none → (rpc.blockNumber = none ∨ sec.blockNumber = none) →
      observeClaim rpc (some sec) .nim txId = .included 0) ∧
    (observeClaim rpc (some sec) .nim txId = .notFound → block = none) := by
  simp only [observeClaim, h, hsec, ne_eq, not_true_eq_false, if_false, Option.any_some, decide_false,
    Bool.false_eq_true, Option.map_some]
  match block with
  | none => simp
  | some none => simp
  | some (some b) =>
    refine ⟨by simp, fun _ hfail => ?_, fun hnf => ?_⟩
    · rcases hfail with hfail | hfail
      · simp only [hfail]
      · cases hn : rpc.blockNumber <;> simp only [hfail]
    · cases hn : rpc.blockNumber <;> cases hn' : sec.blockNumber <;> simp only [hn, hn'] at hnf <;>
        cases hnf

theorem observeClaim_notFound {txId : Hash} (h : observeClaim rpc (some sec) .nim txId = .notFound) :
    claimBlock rpc txId = some none ∧ claimBlock sec txId = some none := by
  by_cases hd : ClaimDisputed rpc sec txId
  · rw [observeClaim_disputed hd] at h
    cases h
  · simp only [ClaimDisputed, not_or, not_not] at hd
    obtain ⟨hr, -, hsame⟩ := hd
    cases hb : claimBlock rpc txId with
    | none => exact absurd hb hr
    | some block =>
      have hsec := hsame.trans hb
      have hnone := (observeClaim_agreed hb hsec).2.2 h
      subst hnone
      exact ⟨rfl, hsec⟩

/-- CORRECT: with one honest endpoint of two, a funding found with a depth and a claim reported with a
    depth or as unknown are so on the honest chain; reads that fail or disagree about the transaction leave
    the funding absent and the claim unavailable, and a head that is not read leaves the depth at zero. -/
theorem nim_cross_read (v : NimHtlcVerifier) (chain : NimChain) (rpc sec : NimReads)
    (hhonest : chain.AnsweredBy v.crypto rpc ∨ chain.AnsweredBy v.crypto sec) (wires : List Bytes) :
    (∀ nowMs expect amount timeout k, 0 < k →
      v.observeNim rpc (some sec) nowMs (.noted v.crypto wires) expect = .found amount timeout k →
      ∃ rec tx, (NimFundingStore.noted v.crypto wires).lookup expect.hashlock = some rec ∧
        chain.Buried v.crypto (rec.creation.txHash v.crypto) k.toNat tx ∧
        (Set.InjOn v.crypto ({ b | ∃ tx ∈ chain.txs, tx.content = b } ∪
            {rec.creation.serializeContent v.crypto}) →
          tx.content = rec.creation.serializeContent v.crypto) ∧
        rec.creation.data.hashRoot = expect.hashlock ∧
        rec.creation.data.htlcRecipient.1 = expect.recipient ∧ rec.creation.networkId = v.networkId ∧
        rec.creation.data.hashAlgorithm = .sha256 ∧ rec.creation.data.hashCount = 1 ∧
        rec.creation.value = amount) ∧
    (∀ nowMs expect rec, (NimFundingStore.noted v.crypto wires).lookup expect.hashlock = some rec →
      rec.creation.data.htlcRecipient.1 = expect.recipient → rec.creation.networkId = v.networkId →
      (rpc.Fails (rec.creation.txHash v.crypto) ∨ sec.Fails (rec.creation.txHash v.crypto) ∨
        contentBoundBlock sec (rec.creation.txHash v.crypto) ≠
          contentBoundBlock rpc (rec.creation.txHash v.crypto) ∨
        rpc.blockNumber = none ∨ sec.blockNumber = none →
        v.observeNim rpc (some sec) nowMs (.noted v.crypto wires) expect = .absent) ∧
      (rpc.getAccount rec.contract = none → ∀ amount timeout k, 0 < k →
        v.observeNim rpc (some sec) nowMs (.noted v.crypto wires) expect ≠ .found amount timeout k)) ∧
    (∀ txId k, 0 < k → observeClaim rpc (some sec) .nim txId = .included k →
      ∃ tx, chain.Buried v.crypto txId k.toNat tx) ∧
    (∀ txId, observeClaim rpc (some sec) .nim txId = .notFound →
      ∀ tx ∈ chain.txs, v.crypto tx.content ≠ txId) ∧
    (∀ txId, ClaimDisputed rpc sec txId → observeClaim rpc (some sec) .nim txId = .unavailable) ∧
    (∀ txId block, claimBlock rpc txId = some (some block) → claimBlock sec txId = some (some block) →
      (rpc.blockNumber = none ∨ sec.blockNumber = none) →
      observeClaim rpc (some sec) .nim txId = .included 0) := by
  -- what both endpoints name, the honest one names
  have hburied : ∀ {hash : Hash} {b n n' : UInt32}, contentBoundBlock rpc hash = some (some b) →
      contentBoundBlock sec hash = some (some b) → rpc.blockNumber = some n → sec.blockNumber = some n' →
      ∃ tx, chain.Buried v.crypto hash (nimDepth (min n n') (some b)).toNat tx := by
    intro hash b n n' hb hb' hn hn'
    rcases hhonest with hon | hon
    · exact hon.buried hb hn (u32_min_le n n').1
    · exact hon.buried hb' hn' (u32_min_le n n').2
  refine ⟨fun nowMs expect amount timeout k hk h => ?_, fun nowMs expect rec hl hr hn => ⟨fun hfail => ?_,
    fun hacct amount timeout k hk h => ?_⟩, fun txId k hk h => ?_, fun txId h tx htx => ?_,
    fun txId h => observeClaim_disputed h, fun txId block hb hsec hfail => ?_⟩
  · obtain ⟨rec, b, n, n', hl, hr, hn, hval, hb, hb', hh, hh', rfl⟩ := observeNim_found_deep h hk
    obtain ⟨tx, htx⟩ := hburied hb hb' hh hh'
    obtain ⟨hroot, halg, hcount⟩ := NimFundingStore.shaped_noted v.crypto wires _ _ hl
    refine ⟨rec, tx, hl, htx, fun hinj => ?_, hroot, hr, hn, halg, hcount, hval⟩
    exact hinj (.inl ⟨tx, htx.1, rfl⟩) (.inr rfl) htx.2.1
  · exact observeNim_absent hl hr hn hfail
  · have hzero := observeNim_account hl hr hn hacct h
    rw [hzero] at hk
    exact absurd hk (by decide)
  · obtain ⟨b, n, n', hb, hb', hh, hh', rfl⟩ := observeClaim_included_deep h hk
    exact hburied hb hb' hh hh'
  · obtain ⟨hr, hs⟩ := observeClaim_notFound h
    rw [claimBlock_eq_unknown] at hr hs
    rcases hhonest with hon | hon
    · exact hon.unknown txId hr tx htx
    · exact hon.unknown txId hs tx htx
  · exact (observeClaim_agreed hb hsec).2.1 (by simp) hfail

end NimHtlcVerifier

/-! ### A liar beside the sample chain -/

namespace Sample

/-- The sample funding in block 100, under head 110. -/
def fundedChain : NimChain where
  txs := [⟨nimFunding.contentTo nimContract, some 100⟩]
  head := 110
  below := by
    intro tx htx b hb
    have hle : (100 : UInt32) ≤ 110 := by decide
    rw [List.mem_singleton.mp htx] at hb
    cases hb
    exact hle

/-- An endpoint that agrees on the block and lies about the head. -/
def inflatedReads : NimReads := { nimReads with blockNumber := some 5000 }

/-- The honest endpoint, when its head is not read. -/
def headlessReads : NimReads := { nimReads with blockNumber := none }

def nimVerifier : NimHtlcVerifier where
  crypto := claimKeys.blake2b
  networkId := 5

def nimFundingWire : Bytes :=
  nimFunding.serializeWire claimKeys.blake2b (signatureProofSingleSig pubkey nimFundingSignature)

theorem fundedChain_answered {rpc : NimReads} (htx : rpc.getTransaction = nimReads.getTransaction)
    (hhead : ∀ n, rpc.blockNumber = some n → n = 110) : fundedChain.AnsweredBy nimVerifier.crypto rpc := by
  have hhash : claimKeys.blake2b (nimFunding.contentTo nimContract) = nimFundingHash := by decide +kernel
  have hread : ∀ h, rpc.getTransaction h =
      if h = nimFundingHash then some (some ⟨nimFundingHash, some 100⟩) else some none := by
    rw [htx]
    exact fun _ => rfl
  refine ⟨fun h t ht => ?_, fun h ht tx htx => ?_, hhead⟩
  · rw [hread] at ht
    split_ifs at ht with hh
    · cases ht
      exact ⟨hh.symm, ⟨_, some 100⟩, List.mem_singleton_self _, hhash.trans hh.symm, rfl⟩
    · cases ht
  · rw [hread] at ht
    split_ifs at ht with hh
    · cases ht
    · rw [List.mem_singleton.mp htx]
      intro hsame
      exact hh (hsame.symm.trans hhash)

end Sample

namespace NimHtlcVerifier

/-- Beside a liar about the head, the sample funding is found at the depth the chain has. -/
theorem sample_nim_cross_read :
    ∃ tx, Sample.fundedChain.Buried Sample.nimVerifier.crypto Sample.nimFundingHash 11 tx ∧
      Sample.nimVerifier.observeNim Sample.inflatedReads (some Sample.nimReads) 1000000000
        (.noted Sample.nimVerifier.crypto [Sample.nimFundingWire]) Sample.nimExpectation =
          .found 200000 10900 11 := by
  have hfound : Sample.nimVerifier.observeNim Sample.inflatedReads (some Sample.nimReads) 1000000000
      (.noted Sample.nimVerifier.crypto [Sample.nimFundingWire]) Sample.nimExpectation =
        .found 200000 10900 11 := by decide +kernel
  have hrec : ((NimFundingStore.noted Sample.nimVerifier.crypto [Sample.nimFundingWire]).lookup
      Sample.nimExpectation.hashlock).map (fun rec => rec.creation.txHash Sample.nimVerifier.crypto) =
        some Sample.nimFundingHash := by decide +kernel
  obtain ⟨hdeep, -⟩ := nim_cross_read Sample.nimVerifier Sample.fundedChain Sample.inflatedReads
    Sample.nimReads (.inr (Sample.fundedChain_answered rfl fun n hn => (Option.some.inj hn).symm))
    [Sample.nimFundingWire]
  obtain ⟨rec, tx, hl, htx, -⟩ := hdeep _ _ _ _ _ (by decide) hfound
  rw [hl, Option.map_some, Option.some.injEq] at hrec
  rw [hrec] at htx
  exact ⟨tx, htx, hfound⟩

/-- The head read of an honest endpoint fails: the claim is reported at depth zero, not unavailable. -/
theorem head_error_is_included :
    ¬ ∀ (chain : NimChain) (blake : Blake2b) (rpc sec : NimReads) (txId : Hash),
      chain.AnsweredBy blake rpc ∨ chain.AnsweredBy blake sec → rpc.blockNumber = none →
      observeClaim rpc (some sec) .nim txId = .unavailable := by
  intro h
  have hclaim := h Sample.fundedChain Sample.nimVerifier.crypto Sample.headlessReads Sample.nimReads
    Sample.nimFundingHash
    (.inl (Sample.fundedChain_answered rfl fun n hn => by cases hn)) rfl
  revert hclaim
  decide +kernel

end NimHtlcVerifier

end Nimmesh
