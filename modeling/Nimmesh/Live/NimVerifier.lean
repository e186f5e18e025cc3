import Nimmesh.Lib.Table
import Nimmesh.Live.NimHtlc

/-! @src nim_verifier.rs | name:The NIM funding verifier | layer:model

    The responder's view of the initiator's HTLC. The wires that funding proofs carry are decoded into a
    bounded store, the first one for a hashlock wins, and an observation asks the chain about the
    transaction and the contract that the stored creation determines. -/

namespace Nimmesh
open Word

/-- A decoded funding wire with what its content determines. -/
structure NimFundingRecord where
  creation : HtlcCreation
  contract : NimAddress
  txHash : Hash
  deriving DecidableEq

abbrev NimFundingStore := Table Hash NimFundingRecord

def maxStoreEntries : ℕ := 32

namespace NimFundingStore

/-- Keep a claimed funding: the first for its hashlock, of the shape a swap uses, while there is room. -/
def noteWire (blake : Blake2b) (store : NimFundingStore) (wire : Bytes) : NimFundingStore :=
  match decodeCreationWire wire with
  | none => store
  | some creation =>
    if creation.data.hashAlgorithm ≠ .sha256 ∨ creation.data.hashCount ≠ 1 then store
    else if creation.data.hashRoot ∈ store then store
    else if maxStoreEntries ≤ store.len then store
    else store.insert creation.data.hashRoot
      ⟨creation, creation.contractAddress blake, creation.txHash blake⟩

/-- Some kept funding pays `recipient` under another hashlock. -/
def paysRecipientUnderOtherHashlock (store : NimFundingStore) (recipient : Bytes) (hashlock : Hash) : Bool :=
  !(store.keysWhere fun h rec => h ≠ hashlock && rec.creation.data.htlcRecipient.1 = recipient).isEmpty

/-- A kept funding stays, whatever is noted later. -/
theorem lookup_noteWire (blake : Blake2b) {store : NimFundingStore} {hashlock : Hash} {rec : NimFundingRecord}
    (h : store.lookup hashlock = some rec) (wire : Bytes) :
    (noteWire blake store wire).lookup hashlock = some rec := by
  simp only [noteWire]
  split
  · exact h
  · rename_i creation _
    split_ifs with h1 h2 h3
    · exact h
    · exact h
    · exact h
    · rw [Table.lookup_insert_iff, if_neg, h]
      rintro rfl
      exact h2 ((Table.mem_iff_lookup _ _).mpr ⟨rec, h⟩)

/-- What is kept under a hashlock is a creation with that hashlock, and what it determines. -/
structure Sound (blake : Blake2b) (store : NimFundingStore) : Prop where
  hashRoot : ∀ hashlock rec, store.lookup hashlock = some rec → rec.creation.data.hashRoot = hashlock
  contract : ∀ hashlock rec, store.lookup hashlock = some rec →
    rec.contract = rec.creation.contractAddress blake

theorem Sound.empty (blake : Blake2b) : Sound blake ∅ where
  hashRoot _ _ h := by cases h
  contract _ _ h := by cases h

theorem Sound.noteWire {blake : Blake2b} {store : NimFundingStore} (h : Sound blake store) (wire : Bytes) :
    Sound blake (noteWire blake store wire) := by
  simp only [NimFundingStore.noteWire]
  split
  · exact h
  · rename_i creation _
    split_ifs with h1 h2 h3
    · exact h
    · exact h
    · exact h
    · refine ⟨fun hashlock rec hl => ?_, fun hashlock rec hl => ?_⟩ <;>
        rw [Table.lookup_insert_iff] at hl <;> split_ifs at hl with hk
      · cases hl
        exact hk.symm
      · exact h.hashRoot _ _ hl
      · cases hl
        rfl
      · exact h.contract _ _ hl

end NimFundingStore

/-! ### Reading the chain -/

/-- A transaction as a node reports it. -/
structure NimTransaction where
  hash : Hash
  blockNumber : Option UInt32
  deriving DecidableEq

inductive NimAccountType where | basic | vesting | htlc | staking
  deriving DecidableEq, Repr

structure NimAccount where
  accountType : NimAccountType
  balance : UInt64
  deriving DecidableEq

/-- The reads of one endpoint during an observation; the outer `none` is an error. -/
structure NimReads where
  getTransaction : Hash → Option (Option NimTransaction)
  blockNumber : Option UInt32
  getAccount : NimAddress → Option (Option NimAccount)

/-- The block of the transaction with exactly this content hash; the outer `none` fails closed. -/
def contentBoundBlock (rpc : NimReads) (expected : Hash) : Option (Option UInt32) :=
  match rpc.getTransaction expected with
  | some (some tx) => if tx.hash = expected then some tx.blockNumber else none
  | _ => none

/-- The timeout of the chain back in term units, plus the slack. -/
def termEquivalentOfTimeoutMs (timeoutMs nowMs termAnchor slackS : UInt64) : UInt64 :=
  satAdd (satAdd (satSub timeoutMs nowMs / 1000) slackS) termAnchor

structure NimHtlcVerifier where
  crypto : Blake2b
  timeoutSlackS : UInt64 := 900
  networkId : UInt8

/-- The depth of a transaction in `block` below `head`; zero in the mempool. -/
def nimDepth (head : UInt32) : Option UInt32 → UInt32
  | none => 0
  | some b => if head ≤ b then 1 else if head - b = 4294967295 then 4294967295 else head - b + 1

/-- The head after the optional cross-read: the second endpoint agrees on the block, and the lower head
    wins. -/
def crossReadHead (secondary : Option NimReads) (expected : Hash) (block : Option UInt32) (head : UInt32) :
    Option UInt32 :=
  match secondary with
  | none => some head
  | some sec =>
    if contentBoundBlock sec expected = some block then sec.blockNumber.map (min head) else none

/-- `observe_nim`: the stored creation pays us on our network, is on the chain, and its contract still
    holds the amount. -/
def NimHtlcVerifier.observeNim (v : NimHtlcVerifier) (rpc : NimReads) (secondary : Option NimReads)
    (nowMs : UInt64) (store : NimFundingStore) (expect : HtlcExpectation) : FundingObservation :=
  match store.lookup expect.hashlock with
  | none =>
    if store.paysRecipientUnderOtherHashlock expect.recipient expect.hashlock then .mismatch .hashlock
    else .absent
  | some rec =>
    if rec.creation.data.htlcRecipient.1 ≠ expect.recipient then .mismatch .recipient
    else if rec.creation.networkId ≠ v.networkId then .absent
    else
      let expected := rec.creation.txHash v.crypto
      match contentBoundBlock rpc expected, rpc.blockNumber with
      | some block, some head =>
        match crossReadHead secondary expected block head with
        | none => .absent
        | some head =>
          let confirmations := nimDepth head block
          let stands := match rpc.getAccount rec.contract with
            | some (some acct) => acct.accountType = .htlc && rec.creation.value ≤ acct.balance
            | _ => false
          if 0 < confirmations ∧ !stands then .absent
          else .found rec.creation.value
            (termEquivalentOfTimeoutMs rec.creation.data.timeout nowMs expect.termAnchor v.timeoutSlackS)
            confirmations
      | _, _ => .absent

/-- `observe`: only the NIM leg. -/
def NimHtlcVerifier.observe (v : NimHtlcVerifier) (rpc : NimReads) (secondary : Option NimReads)
    (nowMs : UInt64) (store : NimFundingStore) (expect : HtlcExpectation) : FundingObservation :=
  if expect.leg ≠ .nim then .absent else v.observeNim rpc secondary nowMs store expect

/-- Where a claim is: unknown to the chain, or its block, if it is in one; the outer `none` is an error or a
    transaction with another hash. -/
def claimBlock (rpc : NimReads) (txId : Hash) : Option (Option (Option UInt32)) :=
  match rpc.getTransaction txId with
  | none => none
  | some none => some none
  | some (some tx) => if tx.hash = txId then some (some tx.blockNumber) else none

/-- `observe_claim`: the endpoints must agree on where the claim is, and the lower head wins. -/
def NimHtlcVerifier.observeClaim (rpc : NimReads) (secondary : Option NimReads) (leg : SwapLegId)
    (txId : Hash) : ClaimObservation :=
  if leg ≠ .nim then .unavailable
  else match claimBlock rpc txId with
    | none => .unavailable
    | some block =>
      if secondary.any fun sec => claimBlock sec txId ≠ some block then .unavailable
      else match block with
        | none => .notFound
        | some none => .included 0
        | some (some b) =>
          match rpc.blockNumber, secondary.map (·.blockNumber) with
          | some head, none => .included (nimDepth head (some b))
          | some head, some (some other) => .included (nimDepth (min head other) (some b))
          | _, _ => .included 0

/-- A funding that is found is the stored one, pays the expected recipient, and is on the verifier's
    network. -/
theorem NimHtlcVerifier.observe_found {v : NimHtlcVerifier} {rpc : NimReads} {secondary : Option NimReads}
    {nowMs : UInt64} {store : NimFundingStore} {expect : HtlcExpectation} {amount timeout : UInt64}
    {confirmations : UInt32}
    (h : v.observe rpc secondary nowMs store expect = .found amount timeout confirmations) :
    ∃ rec, store.lookup expect.hashlock = some rec ∧ rec.creation.data.htlcRecipient.1 = expect.recipient ∧
      rec.creation.networkId = v.networkId ∧ rec.creation.value = amount := by
  simp only [observe] at h
  split_ifs at h with hleg
  simp only [observeNim] at h
  cases hl : store.lookup expect.hashlock with
  | none =>
    simp only [hl] at h
    split_ifs at h
  | some rec =>
    simp only [hl] at h
    split_ifs at h with hr hn
    refine ⟨rec, rfl, not_not.mp hr, not_not.mp hn, ?_⟩
    split at h
    · split at h
      · cases h
      · split_ifs at h
        cases h
        rfl
    · cases h

end Nimmesh
