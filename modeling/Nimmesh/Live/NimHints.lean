import Nimmesh.Live.NimCrossRead

/-! @src nim_verifier.rs swap_funding_verify.rs | name:Hints for the NIM funding | layer:properties

    A funding proof is not authenticated, so anyone's wire is noted. The store keeps the first of the shape
    a swap uses under its hashlock, while there is room, and it never lets go of it. A hashlock is public:
    whoever names it first decides which transaction the verifier asks the chain about. -/

namespace Nimmesh
open Word

/-- A noted wire: the creation it carries, if it is of the shape a swap uses. -/
def hintOf (wire : Bytes) : Option HtlcCreation :=
  (decodeCreationWire wire).filter fun c => c.data.hashAlgorithm = .sha256 && c.data.hashCount = 1

/-- The wire is a hint for the hashlock. -/
def Hints (hashlock : Hash) (wire : Bytes) : Prop := ∃ c, hintOf wire = some c ∧ c.data.hashRoot = hashlock

/-- A creation with what it determines. -/
def HtlcCreation.record (blake : Blake2b) (c : HtlcCreation) : NimFundingRecord :=
  ⟨c, c.contractAddress blake, c.txHash blake⟩

namespace NimFundingStore

variable {blake : Blake2b} {store : NimFundingStore} {hashlock : Hash} {wire : Bytes}

theorem noteWire_eq (blake : Blake2b) (store : NimFundingStore) (wire : Bytes) :
    noteWire blake store wire = match hintOf wire with
      | none => store
      | some c =>
        if c.data.hashRoot ∈ store ∨ maxStoreEntries ≤ store.len then store
        else store.insert c.data.hashRoot (c.record blake) := by
  rw [noteWire, hintOf]
  cases decodeCreationWire wire with
  | none => rfl
  | some c =>
    by_cases halg : c.data.hashAlgorithm = .sha256
    · by_cases hcount : c.data.hashCount = 1
      · by_cases hmem : c.data.hashRoot ∈ store
        · simp [Option.filter, halg, hcount, hmem]
        · by_cases hfull : maxStoreEntries ≤ store.len
          · simp [Option.filter, halg, hcount, hfull]
          · simp [Option.filter, halg, hcount, hmem, hfull, HtlcCreation.record]
      · simp [Option.filter, hcount]
    · simp [Option.filter, halg]

theorem len_le_noteWire (blake : Blake2b) (store : NimFundingStore) (wire : Bytes) :
    store.len ≤ (noteWire blake store wire).len := by
  rw [noteWire_eq]
  cases hintOf wire with
  | none => exact le_rfl
  | some c =>
    dsimp only
    split_ifs with h
    · exact le_rfl
    · rw [not_or] at h
      rw [Table.len_insert_of_notMem h.1]
      omega

/-- A wire is kept when it is the first hint for its hashlock and there is room. -/
theorem lookup_noteWire_new (hnone : store.lookup hashlock = none) :
    (noteWire blake store wire).lookup hashlock =
      ((hintOf wire).filter fun c => c.data.hashRoot = hashlock ∧ store.len < maxStoreEntries).map
        (·.record blake) := by
  rw [noteWire_eq]
  cases hintOf wire with
  | none => simp [hnone]
  | some c =>
    by_cases hroot : c.data.hashRoot = hashlock
    · subst hroot
      have hnot : c.data.hashRoot ∉ store := by
        rw [← AList.lookup_eq_none]
        exact hnone
      by_cases hfull : maxStoreEntries ≤ store.len
      · have hlt : ¬ store.len < maxStoreEntries := by omega
        simp [hfull, hlt, hnone]
      · have hlt : store.len < maxStoreEntries := by omega
        simp [hnot, hfull, hlt]
    · have hne : ¬ hashlock = c.data.hashRoot := fun h => hroot h.symm
      dsimp only
      split_ifs with h
      · simp [hroot, hnone]
      · simp [hroot, hne, hnone]

theorem noted_append (blake : Blake2b) (wires : List Bytes) (wire : Bytes) :
    noted blake (wires ++ [wire]) = noteWire blake (noted blake wires) wire := by
  rw [noted, Run.exec_append]
  rfl

/-- A hint that left no record found the store full, and it still is. -/
theorem full_of_lookup_none (blake : Blake2b) {hashlock : Hash} {wires : List Bytes}
    (hnone : (noted blake wires).lookup hashlock = none) {wire : Bytes} (hmem : wire ∈ wires)
    (hhint : Hints hashlock wire) : maxStoreEntries ≤ (noted blake wires).len := by
  induction wires using List.reverseRecOn with
  | nil => cases hmem
  | append_singleton wires last ih =>
    rw [noted_append] at hnone ⊢
    have hlen := len_le_noteWire blake (noted blake wires) last
    have hbefore : (noted blake wires).lookup hashlock = none := by
      cases hl : (noted blake wires).lookup hashlock with
      | none => rfl
      | some rec =>
        rw [lookup_noteWire blake hl] at hnone
        cases hnone
    rcases List.mem_append.mp hmem with hin | hlast
    · exact (ih hbefore hin).trans hlen
    · obtain rfl : wire = last := List.mem_singleton.mp hlast
      obtain ⟨c, hc, hroot⟩ := hhint
      rw [lookup_noteWire_new hbefore, hc] at hnone
      have hfull : maxStoreEntries ≤ (noted blake wires).len := by simpa [hroot] using hnone
      exact hfull.trans hlen

/-- A record is kept because of the first hint for its hashlock, which came while there was room. -/
theorem lookup_noted_iff (blake : Blake2b) (hashlock : Hash) (rec : NimFundingRecord) (wires : List Bytes) :
    (noted blake wires).lookup hashlock = some rec ↔
      ∃ before wire after c, wires = before ++ wire :: after ∧ hintOf wire = some c ∧
        c.data.hashRoot = hashlock ∧ (∀ w ∈ before, ¬ Hints hashlock w) ∧
        (noted blake before).len < maxStoreEntries ∧ c.record blake = rec := by
  induction wires using List.reverseRecOn generalizing rec with
  | nil =>
    constructor
    · intro h
      cases h
    · rintro ⟨before, wire, after, c, h, -⟩
      simp at h
  | append_singleton wires last ih =>
    rw [noted_append]
    constructor
    · intro h
      cases hl : (noted blake wires).lookup hashlock with
      | some rec' =>
        rw [lookup_noteWire blake hl, ← hl, ih] at h
        obtain ⟨before, wire, after, c, rfl, rest⟩ := h
        exact ⟨before, wire, after ++ [last], c, by simp, rest⟩
      | none =>
        rw [lookup_noteWire_new hl] at h
        obtain ⟨c, hc, rfl⟩ := Option.map_eq_some_iff.mp h
        obtain ⟨hhint, hroom⟩ := Option.filter_eq_some_iff.mp hc
        rw [decide_eq_true_eq] at hroom
        refine ⟨wires, last, [], c, rfl, hhint, hroom.1, fun w hw hhints => ?_, hroom.2, rfl⟩
        have hfull := full_of_lookup_none blake hl hw hhints
        omega
    · rintro ⟨before, wire, after, c, hsplit, hhint, hroot, hnone, hlen, rfl⟩
      rcases List.eq_nil_or_concat after with rfl | ⟨after', last', rfl⟩
      · obtain ⟨rfl, hlast⟩ := List.append_inj' hsplit rfl
        cases hlast
        have hl : (noted blake wires).lookup hashlock = none := by
          cases hl : (noted blake wires).lookup hashlock with
          | none => rfl
          | some rec' =>
            obtain ⟨b, w, a, c', hs, hh, hr, -⟩ := (ih rec').mp hl
            exact absurd ⟨c', hh, hr⟩ (hnone w (by rw [hs]; simp))
        rw [lookup_noteWire_new hl, hhint]
        simp [hroot, hlen]
      · have hsplit' : wires ++ [last] = (before ++ wire :: after') ++ [last'] := by
          rw [hsplit]
          simp
        obtain ⟨rfl, -⟩ := List.append_inj' hsplit' rfl
        exact lookup_noteWire blake ((ih _).mpr ⟨before, wire, after', c, rfl, hhint, hroot, hnone, hlen, rfl⟩) _

end NimFundingStore

/-- The wires that came as hints for a leg. -/
def wiresFor (leg : SwapLegId) (hints : List (SwapLegId × Bytes)) : List Bytes :=
  (hints.filter (·.1 = leg)).map (·.2)

theorem wiresFor_append (leg : SwapLegId) (hints hints' : List (SwapLegId × Bytes)) :
    wiresFor leg (hints ++ hints') = wiresFor leg hints ++ wiresFor leg hints' := by
  rw [wiresFor, List.filter_append, List.map_append]
  rfl

theorem wiresFor_singleton (leg : SwapLegId) (hint : SwapLegId × Bytes) :
    wiresFor leg [hint] = if hint.1 = leg then [hint.2] else [] := by
  by_cases hleg : hint.1 = leg <;> simp [wiresFor, hleg]

namespace NimHtlcVerifier

/-- `note_funding_wire`: a hint for the other leg is ignored. -/
def noteFundingWire (v : NimHtlcVerifier) (store : NimFundingStore) (hint : SwapLegId × Bytes) :
    NimFundingStore :=
  if hint.1 = .nim then .noteWire v.crypto store hint.2 else store

/-- The store after a sequence of hints. -/
def hinted (v : NimHtlcVerifier) (hints : List (SwapLegId × Bytes)) : NimFundingStore :=
  Run.exec v.noteFundingWire ∅ hints

/-- RUN: the store is that of the wires for the NIM leg. -/
theorem hinted_eq (v : NimHtlcVerifier) (hints : List (SwapLegId × Bytes)) :
    v.hinted hints = .noted v.crypto (wiresFor .nim hints) := by
  induction hints using List.reverseRecOn with
  | nil => rfl
  | append_singleton hints hint ih =>
    rw [hinted, Run.exec_append, wiresFor_append]
    change v.noteFundingWire (v.hinted hints) hint = _
    rw [ih, noteFundingWire]
    by_cases hleg : hint.1 = .nim
    · rw [if_pos hleg, wiresFor_singleton, if_pos hleg, NimFundingStore.noted_append]
    · rw [if_neg hleg, wiresFor_singleton, if_neg hleg, List.append_nil]

end NimHtlcVerifier

/-! ### What an observation sees of a record -/

/-- The wire is the funding that the expectation is about. -/
structure GenuineFunding (v : NimHtlcVerifier) (expect : HtlcExpectation) (wire : Bytes) (g : HtlcCreation) :
    Prop where
  hint : hintOf wire = some g
  hashRoot : g.data.hashRoot = expect.hashlock
  recipient : g.data.htlcRecipient.1 = expect.recipient
  networkId : g.networkId = v.networkId
  leg : expect.leg = .nim

/-- No observation tells the two creations apart. -/
structure SameFunding (v : NimHtlcVerifier) (expect : HtlcExpectation) (c g : HtlcCreation) : Prop where
  txHash : c.txHash v.crypto = g.txHash v.crypto
  contract : c.contractAddress v.crypto = g.contractAddress v.crypto
  recipient : c.data.htlcRecipient.1 = g.data.htlcRecipient.1
  networkId : c.networkId = g.networkId
  value : c.value = g.value
  timeout : ∀ nowMs, termEquivalentOfTimeoutMs c.data.timeout nowMs expect.termAnchor v.timeoutSlackS =
    termEquivalentOfTimeoutMs g.data.timeout nowMs expect.termAnchor v.timeoutSlackS

/-- A chain that holds only this creation, in block 1. -/
def NimChain.lone (blake : Blake2b) (g : HtlcCreation) : NimChain where
  txs := [⟨g.serializeContent blake, some 1⟩]
  head := 1
  below := by
    intro tx htx b hb
    rw [List.mem_singleton.mp htx] at hb
    cases hb
    exact UInt32.le_refl 1

/-- A node of that chain; the contract holds as much as there can be. -/
def NimReads.lone (blake : Blake2b) (g : HtlcCreation) : NimReads where
  getTransaction h := some (if h = g.txHash blake then some ⟨h, some 1⟩ else none)
  blockNumber := some 1
  getAccount a := some (if a = g.contractAddress blake then some ⟨.htlc, u64Max⟩ else none)

theorem NimChain.lone_answeredBy (blake : Blake2b) (g : HtlcCreation) :
    (lone blake g).AnsweredBy blake (.lone blake g) where
  known h t ht := by
    simp only [NimReads.lone, Option.some.injEq] at ht
    split_ifs at ht with hh
    cases ht
    exact ⟨rfl, _, List.mem_singleton_self _, hh.symm, rfl⟩
  unknown h ht tx htx := by
    simp only [NimReads.lone, Option.some.injEq] at ht
    split_ifs at ht with hh
    rw [List.mem_singleton.mp htx]
    exact fun hsame => hh hsame.symm
  head n hn := (Option.some.inj hn).symm

namespace NimHtlcVerifier

variable {v : NimHtlcVerifier} {expect : HtlcExpectation} {store store' : NimFundingStore} {c g : HtlcCreation}

theorem observeNim_congr (hl : store.lookup expect.hashlock = some (c.record v.crypto))
    (hl' : store'.lookup expect.hashlock = some (g.record v.crypto)) (hsame : SameFunding v expect c g)
    (rpc : NimReads) (secondary : Option NimReads) (nowMs : UInt64) :
    v.observeNim rpc secondary nowMs store expect = v.observeNim rpc secondary nowMs store' expect := by
  have hhash : (c.record v.crypto).creation.txHash v.crypto = (g.record v.crypto).creation.txHash v.crypto :=
    hsame.txHash
  have hcontract : (c.record v.crypto).contract = (g.record v.crypto).contract := hsame.contract
  have hrecipient : (c.record v.crypto).creation.data.htlcRecipient.1 =
    (g.record v.crypto).creation.data.htlcRecipient.1 := hsame.recipient
  have hnetwork : (c.record v.crypto).creation.networkId = (g.record v.crypto).creation.networkId :=
    hsame.networkId
  have hvalue : (c.record v.crypto).creation.value = (g.record v.crypto).creation.value := hsame.value
  have htimeout := hsame.timeout nowMs
  simp only [observeNim, hl, hl', hhash, hcontract, hrecipient, hnetwork, hvalue]
  rw [show (c.record v.crypto).creation.data.timeout = c.data.timeout from rfl, htimeout]
  rfl

/-- On the chain that holds only `g`, a kept creation is found exactly when it cannot be told from `g`. -/
theorem observeNim_lone_iff (hl : store.lookup expect.hashlock = some (c.record v.crypto)) (nowMs amount timeout : UInt64)
    (k : UInt32) :
    v.observeNim (.lone v.crypto g) none nowMs store expect = .found amount timeout k ↔
      c.data.htlcRecipient.1 = expect.recipient ∧ c.networkId = v.networkId ∧
      c.txHash v.crypto = g.txHash v.crypto ∧ c.contractAddress v.crypto = g.contractAddress v.crypto ∧
      c.value = amount ∧
      termEquivalentOfTimeoutMs c.data.timeout nowMs expect.termAnchor v.timeoutSlackS = timeout ∧ k = 1 := by
  simp only [observeNim, hl, HtlcCreation.record]
  by_cases hr : c.data.htlcRecipient.1 = expect.recipient
  · by_cases hn : c.networkId = v.networkId
    · by_cases hh : c.txHash v.crypto = g.txHash v.crypto
      · have hmax : c.value ≤ u64Max := le_u64Max c.value
        by_cases ha : c.contractAddress v.crypto = g.contractAddress v.crypto
        · simp [hr, hn, hh, ha, NimReads.lone, contentBoundBlock, crossReadHead, nimDepth, hmax, eq_comm]
        · simp [hr, hn, hh, ha, NimReads.lone, contentBoundBlock, crossReadHead, nimDepth]
      · simp [hr, hn, hh, NimReads.lone, contentBoundBlock]
    · simp [hr, hn]
  · simp [hr]

theorem noted_genuine {wire : Bytes} (hgen : GenuineFunding v expect wire g) :
    (NimFundingStore.noted v.crypto [wire]).lookup expect.hashlock = some (g.record v.crypto) :=
  (NimFundingStore.lookup_noted_iff v.crypto expect.hashlock _ [wire]).mpr
    ⟨[], wire, [], g, rfl, hgen.hint, hgen.hashRoot, fun _ h => absurd h List.not_mem_nil,
      (by decide : (0 : ℕ) < 32), rfl⟩

/-- EXACT: whatever was noted before and after it, the verdict about the genuine funding is that of the
    genuine wire alone, on every honest chain, exactly when the first hint for its hashlock came while there was
    room and cannot be told from it. -/
theorem verdict_kept_iff {wire : Bytes} (hgen : GenuineFunding v expect wire g)
    (before after : List (SwapLegId × Bytes)) :
    (∀ chain rpc secondary nowMs, NimChain.AnsweredBy chain v.crypto rpc →
        (∀ sec, secondary = some sec → NimChain.AnsweredBy chain v.crypto sec) →
        v.observe rpc secondary nowMs (v.hinted (before ++ (.nim, wire) :: after)) expect =
          v.observe rpc secondary nowMs (v.hinted [(.nim, wire)]) expect) ↔
      ∃ earlier first later c, wiresFor .nim (before ++ (.nim, wire) :: after) = earlier ++ first :: later ∧
        hintOf first = some c ∧ c.data.hashRoot = expect.hashlock ∧
        (∀ w ∈ earlier, ¬ Hints expect.hashlock w) ∧
        (NimFundingStore.noted v.crypto earlier).len < maxStoreEntries ∧ SameFunding v expect c g := by
  have hl' : (v.hinted [(.nim, wire)]).lookup expect.hashlock = some (g.record v.crypto) := by
    rw [hinted_eq]
    exact noted_genuine hgen
  have hleg : ∀ rpc secondary nowMs store, v.observe rpc secondary nowMs store expect =
      v.observeNim rpc secondary nowMs store expect := by
    intro rpc secondary nowMs store
    rw [observe, if_neg (not_not.mpr hgen.leg)]
  rw [hinted_eq v (before ++ (.nim, wire) :: after)]
  generalize wiresFor .nim (before ++ (.nim, wire) :: after) = wires
  constructor
  · intro heq
    have hfound : ∀ nowMs, v.observeNim (.lone v.crypto g) none nowMs (.noted v.crypto wires) expect =
        .found g.value (termEquivalentOfTimeoutMs g.data.timeout nowMs expect.termAnchor v.timeoutSlackS) 1 := by
      intro nowMs
      have h := heq (.lone v.crypto g) (.lone v.crypto g) none nowMs (NimChain.lone_answeredBy v.crypto g)
        fun _ h => by cases h
      rw [hleg, hleg] at h
      rw [h]
      exact (observeNim_lone_iff hl' nowMs _ _ _).mpr ⟨hgen.recipient, hgen.networkId, rfl, rfl, rfl, rfl, rfl⟩
    cases hl : (NimFundingStore.noted v.crypto wires).lookup expect.hashlock with
    | none =>
      have h := hfound 0
      simp only [observeNim, hl] at h
      split_ifs at h
    | some rec =>
      obtain ⟨earlier, first, later, c, hsplit, hhint, hroot, hnone, hroom, rfl⟩ :=
        (NimFundingStore.lookup_noted_iff _ _ _ _).mp hl
      obtain ⟨hrecipient, hnetwork, hhash, hcontract, hvalue, -, -⟩ := (observeNim_lone_iff hl 0 _ _ _).mp (hfound 0)
      exact ⟨earlier, first, later, c, hsplit, hhint, hroot, hnone, hroom, hhash, hcontract,
        hrecipient.trans hgen.recipient.symm, hnetwork.trans hgen.networkId.symm, hvalue,
        fun nowMs => ((observeNim_lone_iff hl nowMs _ _ _).mp (hfound nowMs)).2.2.2.2.2.1⟩
  · rintro ⟨earlier, first, later, c, hsplit, hhint, hroot, hnone, hroom, hsame⟩ chain rpc secondary nowMs - -
    have hl := (NimFundingStore.lookup_noted_iff v.crypto expect.hashlock _ _).mpr
      ⟨earlier, first, later, c, hsplit, hhint, hroot, hnone, hroom, rfl⟩
    rw [hleg, hleg]
    exact observeNim_congr hl hl' hsame rpc secondary nowMs

end NimHtlcVerifier

end Nimmesh
