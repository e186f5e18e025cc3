import Nimmesh.Lib.Codec
import Nimmesh.Live.Transfer
import Nimmesh.Swap.Signer

/-! @src swap_builder.rs nimiq/htlc.rs | name:The NIM leg | layer:model

    The builder of the three NIM transactions of a swap. The funding is a creation under the leg's own
    key; the claim and the refund rebuild that creation from its wire and spend it, each for the one key
    that the contract names. -/

namespace Nimmesh
open Codec

def testnetNetworkId : UInt8 := 5

/-- The public terms of a funding; the recipient is whatever bytes the other side named. -/
structure FundingTerms where
  hashlock : Hash
  amount : UInt64
  timeout : UInt64
  recipient : Bytes
  validityStartHeight : UInt32
  deriving DecidableEq

inductive LegBuildError where
  | gated (chain needs : String)
  | badField (reason : String)
  | badKeyMaterial
  deriving DecidableEq, Repr

/-- The leg's enclave key and its network. -/
structure NimiqLeg where
  key : EnclaveKey
  networkId : UInt8

/-- The proof of a refund: variant, then the signature proof. -/
def timeoutResolveProof (publicKey : ByteArr 32) (signature : ByteArr 64) : Bytes :=
  [0x02] ++ signatureProofSingleSig publicKey signature

namespace NimiqLeg

/-- A testnet leg. -/
def new (key : EnclaveKey) : NimiqLeg := ⟨key, testnetNetworkId⟩

def publicKey (leg : NimiqLeg) : Except LegBuildError (ByteArr publicKeyLen) :=
  match ByteArr.ofBytes? publicKeyLen leg.key.publicKey with
  | some key => .ok key
  | none => .error .badKeyMaterial

def sign (leg : NimiqLeg) (content : Bytes) : Except LegBuildError (ByteArr signatureLen) :=
  match ByteArr.ofBytes? signatureLen (leg.key.signContent content) with
  | some sig => .ok sig
  | none => .error .badKeyMaterial

variable (blake : Blake2b)

/-- The creation that a leg funds: it refunds to the leg's own address. -/
def creation (leg : NimiqLeg) (publicKey : ByteArr publicKeyLen) (recipient : NimAddress) (terms : FundingTerms) :
    HtlcCreation where
  funder := fromPublicKey blake publicKey
  data := {
    htlcSender := fromPublicKey blake publicKey
    htlcRecipient := recipient
    hashAlgorithm := .sha256
    hashRoot := terms.hashlock
    hashCount := 1
    timeout := terms.timeout }
  value := terms.amount
  fee := 0
  validityStartHeight := terms.validityStartHeight
  networkId := leg.networkId

def buildFunding (leg : NimiqLeg) (terms : FundingTerms) : Except LegBuildError Bytes := do
  let publicKey ← leg.publicKey
  match ByteArr.ofBytes? nimAddressLen terms.recipient with
  | none => .error (.badField "NIM recipient must be 20 raw address bytes")
  | some recipient =>
    let creation := leg.creation blake publicKey recipient terms
    let signature ← leg.sign (creation.serializeContent blake)
    return creation.serializeWire blake (signatureProofSingleSig publicKey signature)

/-- A redeem of the whole contract. -/
def redeem (creation : HtlcCreation) (recipient : NimAddress) (vsh : UInt32) : HtlcRedeem where
  contract := creation.contractAddress blake
  recipient := recipient
  value := creation.value
  fee := 0
  validityStartHeight := vsh
  networkId := creation.networkId

/-- The claim: only for the key of the HTLC's recipient. -/
def buildClaim (leg : NimiqLeg) (fundedTx : Bytes) (preimage : Hash) (vsh : UInt32) : Except LegBuildError Bytes :=
  match decodeCreationWire fundedTx with
  | none => .error (.badField "funded_tx is not a valid NIM HTLC funding tx")
  | some creation => do
    let publicKey ← leg.publicKey
    if fromPublicKey blake publicKey ≠ creation.data.htlcRecipient then
      .error (.badField "this key is not the HTLC recipient (claimant)")
    else
      let redeem := redeem blake creation creation.data.htlcRecipient vsh
      let signature ← leg.sign redeem.serializeContent
      return redeem.serializeWire (regularTransferProof creation.data.hashAlgorithm creation.data.hashRoot preimage
        publicKey signature)

/-- The refund: only for the key of the HTLC's sender. -/
def buildRefund (leg : NimiqLeg) (fundedTx : Bytes) (vsh : UInt32) : Except LegBuildError Bytes :=
  match decodeCreationWire fundedTx with
  | none => .error (.badField "funded_tx is not a valid NIM HTLC funding tx")
  | some creation => do
    let publicKey ← leg.publicKey
    if fromPublicKey blake publicKey ≠ creation.data.htlcSender then
      .error (.badField "this key is not the HTLC sender (refunder)")
    else
      let redeem := redeem blake creation creation.data.htlcSender vsh
      let signature ← leg.sign redeem.serializeContent
      return redeem.serializeWire (timeoutResolveProof publicKey signature)

end NimiqLeg

/-! ### The creation off its wire -/

theorem length_serialize (d : HtlcCreationData) : d.serialize.length = htlcDataLen := by
  simp only [HtlcCreationData.serialize, List.length_append, d.htlcSender.2, d.htlcRecipient.2, d.hashRoot.2,
    length_beBytes]
  rfl

/-- The parts of the contract's conditions. -/
def HtlcCreationData.parts (d : HtlcCreationData) : List Bytes :=
  [d.htlcSender.1, d.htlcRecipient.1, [d.hashAlgorithm.toU8], d.hashRoot.1, [d.hashCount], beBytes d.timeout]

theorem HtlcCreationData.flatten_parts (d : HtlcCreationData) : d.parts.flatten = d.serialize := by
  simp [parts, serialize]

theorem HtlcCreationData.lengths (d : HtlcCreationData) : d.parts.map List.length = [20, 20, 1, 32, 1, 8] := by
  simp only [parts, List.map_cons, List.map_nil, d.htlcSender.2, d.htlcRecipient.2, d.hashRoot.2, length_beBytes]
  rfl

/-- The parts of a creation's wire. -/
def HtlcCreation.parts (blake : Blake2b) (c : HtlcCreation) (proof : Bytes) : List Bytes :=
  [[formatExtended], c.funder.1, [accountTypeBasic], [0], (c.contractAddress blake).1, [accountTypeHtlc],
   [htlcDataLen.toUInt8], c.data.serialize, beBytes c.value, beBytes c.fee, beBytes32 c.validityStartHeight,
   [c.networkId], [flagContractCreation], varBytes proof]

theorem HtlcCreation.flatten_parts (blake : Blake2b) (c : HtlcCreation) (proof : Bytes) :
    (c.parts blake proof).flatten = c.serializeWire blake proof := by
  have hdata : varBytes c.data.serialize = htlcDataLen.toUInt8 :: c.data.serialize := by
    rw [varBytes, length_serialize]
    rfl
  have hnone : varBytes [] = [0] := rfl
  rw [serializeWire, hdata, hnone]
  simp [parts]

theorem HtlcCreation.lengths (blake : Blake2b) (c : HtlcCreation) (proof : Bytes) :
    (c.parts blake proof).map List.length = [1, 20, 1, 1, 20, 1, 1, 82, 8, 8, 4, 1, 1, (varBytes proof).length] := by
  simp only [parts, List.map_cons, List.map_nil, c.funder.2, (c.contractAddress blake).2, length_serialize,
    length_beBytes]
  rfl

theorem HashAlgorithm.fromU8_toU8 (a : HashAlgorithm) : fromU8 a.toU8 = some a := by
  cases a <;> rfl

/-- The conditions off their 82 bytes. -/
theorem HtlcCreationData.read (d : HtlcCreationData) :
    d.serialize[40]?.bind HashAlgorithm.fromU8 = some d.hashAlgorithm ∧
      ByteArr.ofBytes? nimAddressLen (slice d.serialize 0 20) = some d.htlcSender ∧
      ByteArr.ofBytes? nimAddressLen (slice d.serialize 20 20) = some d.htlcRecipient ∧
      ByteArr.ofBytes? hashLen (slice d.serialize 41 32) = some d.hashRoot ∧
      d.serialize[73]? = some d.hashCount ∧ u64OfBe (slice d.serialize 74 8) = d.timeout := by
  have hl := d.lengths
  rw [← d.flatten_parts]
  have halgorithm : d.parts.flatten[40]? = some d.hashAlgorithm.toU8 := getElem?_part 2 rfl (by rw [hl]; rfl)
  have hsender : slice d.parts.flatten 0 20 = d.htlcSender.1 := slice_part 0 rfl (by rw [hl]; rfl) d.htlcSender.2
  have hrecipient : slice d.parts.flatten 20 20 = d.htlcRecipient.1 :=
    slice_part 1 rfl (by rw [hl]; rfl) d.htlcRecipient.2
  have hroot : slice d.parts.flatten 41 32 = d.hashRoot.1 := slice_part 3 rfl (by rw [hl]; rfl) d.hashRoot.2
  have hcount : d.parts.flatten[73]? = some d.hashCount := getElem?_part 4 rfl (by rw [hl]; rfl)
  have htimeout : slice d.parts.flatten 74 8 = beBytes d.timeout := slice_part 5 rfl (by rw [hl]; rfl) rfl
  rw [halgorithm, hsender, hrecipient, hroot, hcount, htimeout, u64OfBe_beBytes]
  exact ⟨HashAlgorithm.fromU8_toU8 _, ByteArr.ofBytes?_val _, ByteArr.ofBytes?_val _, ByteArr.ofBytes?_val _, rfl,
    rfl⟩

/-- CORRECT: a creation survives its wire, whatever proof it carries. -/
theorem decodeCreationWire_serializeWire (blake : Blake2b) (c : HtlcCreation) (proof : Bytes) :
    decodeCreationWire (c.serializeWire blake proof) = some c := by
  have hl := c.lengths blake proof
  obtain ⟨halgorithm, hsender, hrecipient, hroot, hcount, htimeout⟩ := c.data.read
  rw [← c.flatten_parts blake proof]
  generalize hw : (c.parts blake proof).flatten = w
  have hlen : 149 ≤ w.length := by
    rw [← hw, List.length_flatten, hl]
    simp only [List.sum_cons]
    omega
  have hformat : w[0]? = some formatExtended := hw ▸ getElem?_part 0 rfl (by rw [hl]; rfl)
  have hfunder : slice w 1 20 = c.funder.1 := hw ▸ slice_part 1 rfl (by rw [hl]; rfl) c.funder.2
  have hbasic : w[21]? = some accountTypeBasic := hw ▸ getElem?_part 2 rfl (by rw [hl]; rfl)
  have hnone : w[22]? = some 0 := hw ▸ getElem?_part 3 rfl (by rw [hl]; rfl)
  have hhtlc : w[43]? = some accountTypeHtlc := hw ▸ getElem?_part 5 rfl (by rw [hl]; rfl)
  have hwidth : w[44]? = some htlcDataLen.toUInt8 := hw ▸ getElem?_part 6 rfl (by rw [hl]; rfl)
  have hdata : slice w 45 htlcDataLen = c.data.serialize :=
    hw ▸ slice_part 7 rfl (by rw [hl]; rfl) (length_serialize c.data)
  have hvalue : slice w 127 8 = beBytes c.value := hw ▸ slice_part 8 rfl (by rw [hl]; rfl) rfl
  have hfee : slice w 135 8 = beBytes c.fee := hw ▸ slice_part 9 rfl (by rw [hl]; rfl) rfl
  have hvsh : slice w 143 4 = beBytes32 c.validityStartHeight := hw ▸ slice_part 10 rfl (by rw [hl]; rfl) rfl
  have hnetwork : w[147]? = some c.networkId := hw ▸ getElem?_part 11 rfl (by rw [hl]; rfl)
  unfold decodeCreationWire
  simp only [hformat, hbasic, hnone, hhtlc, hwidth, hfunder, hdata, hvalue, hfee, hvsh, hnetwork, halgorithm,
    hsender, hrecipient, hroot, hcount, htimeout, u64OfBe_beBytes, u32OfBe_beBytes32, ByteArr.ofBytes?_val]
  rw [if_neg]
  · rfl
  · simp [htlcDataLen]
    omega

/-! ### Spending the funding -/

/-- A key that keeps the contract of its seam: a public key comes out, and signatures of the right length. -/
structure EnclaveKey.Holds (key : EnclaveKey) (publicKey : ByteArr publicKeyLen) : Prop where
  publicKey : key.publicKey = publicKey.1
  signature : ∀ content, (key.signContent content).length = signatureLen

namespace NimiqLeg

variable {blake : Blake2b} {leg : NimiqLeg}

theorem publicKey_ok_iff {pk : ByteArr publicKeyLen} : leg.publicKey = .ok pk ↔ leg.key.publicKey = pk.1 := by
  unfold publicKey
  constructor
  · intro h
    cases hk : ByteArr.ofBytes? publicKeyLen leg.key.publicKey with
    | none => simp [hk] at h
    | some key =>
      simp only [hk, Except.ok.injEq] at h
      rw [ByteArr.ofBytes?_eq_some.mp hk, h]
  · intro h
    rw [h, ByteArr.ofBytes?_val]

theorem publicKey_of_holds {pk : ByteArr publicKeyLen} (h : leg.key.Holds pk) : leg.publicKey = .ok pk :=
  publicKey_ok_iff.mpr h.publicKey

theorem sign_of_holds {pk : ByteArr publicKeyLen} (h : leg.key.Holds pk) (content : Bytes) :
    ∃ sig, leg.sign content = .ok sig ∧ leg.key.signContent content = sig.1 := by
  refine ⟨⟨_, h.signature content⟩, ?_, rfl⟩
  rw [sign, ByteArr.ofBytes?, dif_pos (h.signature content)]

/-- What a funding that was built is. -/
theorem buildFunding_ok {terms : FundingTerms} {wire : Bytes} (h : leg.buildFunding blake terms = .ok wire) :
    ∃ pk recipient proof, leg.publicKey = .ok pk ∧ terms.recipient = recipient.1 ∧
      wire = (leg.creation blake pk recipient terms).serializeWire blake proof := by
  rw [buildFunding, bind_ok_iff] at h
  obtain ⟨pk, hpk, h⟩ := h
  cases hr : ByteArr.ofBytes? nimAddressLen terms.recipient with
  | none => simp [hr] at h
  | some recipient =>
    simp only [hr, bind_ok_iff] at h
    obtain ⟨sig, -, hwire⟩ := h
    cases hwire
    exact ⟨pk, recipient, _, hpk, ByteArr.ofBytes?_eq_some.mp hr, rfl⟩

/-- The claim of a creation off its wire. -/
theorem buildClaim_eq {c : HtlcCreation} {wire : Bytes} (hc : decodeCreationWire wire = some c)
    {pk : ByteArr publicKeyLen} (hk : leg.key.Holds pk) (hpk : fromPublicKey blake pk = c.data.htlcRecipient)
    (preimage : Hash) (vsh : UInt32) :
    ∃ sig : ByteArr signatureLen,
      leg.key.signContent (redeem blake c c.data.htlcRecipient vsh).serializeContent = sig.1 ∧
      leg.buildClaim blake wire preimage vsh = .ok ((redeem blake c c.data.htlcRecipient vsh).serializeWire
        (regularTransferProof c.data.hashAlgorithm c.data.hashRoot preimage pk sig)) := by
  obtain ⟨sig, hsig, hbytes⟩ := sign_of_holds hk (redeem blake c c.data.htlcRecipient vsh).serializeContent
  refine ⟨sig, hbytes, ?_⟩
  simp only [buildClaim, hc, publicKey_of_holds hk, ok_bind, hpk, ne_eq, not_true_eq_false, if_false, hsig]
  rfl

theorem buildRefund_eq {c : HtlcCreation} {wire : Bytes} (hc : decodeCreationWire wire = some c)
    {pk : ByteArr publicKeyLen} (hk : leg.key.Holds pk) (hpk : fromPublicKey blake pk = c.data.htlcSender)
    (vsh : UInt32) :
    ∃ sig : ByteArr signatureLen,
      leg.key.signContent (redeem blake c c.data.htlcSender vsh).serializeContent = sig.1 ∧
      leg.buildRefund blake wire vsh =
        .ok ((redeem blake c c.data.htlcSender vsh).serializeWire (timeoutResolveProof pk sig)) := by
  obtain ⟨sig, hsig, hbytes⟩ := sign_of_holds hk (redeem blake c c.data.htlcSender vsh).serializeContent
  refine ⟨sig, hbytes, ?_⟩
  simp only [buildRefund, hc, publicKey_of_holds hk, ok_bind, hpk, ne_eq, not_true_eq_false, if_false, hsig]
  rfl

/-- No other key builds the claim. -/
theorem buildClaim_refused {c : HtlcCreation} {wire : Bytes} (hc : decodeCreationWire wire = some c)
    (hother : ∀ pk : ByteArr publicKeyLen, leg.key.publicKey = pk.1 → fromPublicKey blake pk ≠ c.data.htlcRecipient)
    (preimage : Hash) (vsh : UInt32) : ∃ err, leg.buildClaim blake wire preimage vsh = .error err := by
  simp only [buildClaim, hc]
  cases hpk : leg.publicKey with
  | error err => exact ⟨err, rfl⟩
  | ok pk => exact ⟨_, by rw [ok_bind, if_pos (hother pk (publicKey_ok_iff.mp hpk))]⟩

theorem buildRefund_refused {c : HtlcCreation} {wire : Bytes} (hc : decodeCreationWire wire = some c)
    (hother : ∀ pk : ByteArr publicKeyLen, leg.key.publicKey = pk.1 → fromPublicKey blake pk ≠ c.data.htlcSender)
    (vsh : UInt32) : ∃ err, leg.buildRefund blake wire vsh = .error err := by
  simp only [buildRefund, hc]
  cases hpk : leg.publicKey with
  | error err => exact ⟨err, rfl⟩
  | ok pk => exact ⟨_, by rw [ok_bind, if_pos (hother pk (publicKey_ok_iff.mp hpk))]⟩

end NimiqLeg

/-- CORRECT: a creation survives its wire. The wire of a funding decodes to the creation of its terms, which
    the recipient's key claims and the sender's key refunds, whole, on its own network and to itself, and no
    other key does. The basic wire is decoded exactly for the strings of its length that begin with two
    zeros, and then written back as it was. -/
theorem nim_leg_wires (blake : Blake2b) :
    (∀ (c : HtlcCreation) (proof : Bytes), decodeCreationWire (c.serializeWire blake proof) = some c) ∧
    (∀ (leg : NimiqLeg) (terms : FundingTerms) (wire : Bytes), leg.buildFunding blake terms = .ok wire →
      ∃ c pk recipient, leg.publicKey = .ok pk ∧ terms.recipient = recipient.1 ∧
        c = leg.creation blake pk recipient terms ∧ decodeCreationWire wire = some c ∧
        (∀ (leg' : NimiqLeg) (key : ByteArr publicKeyLen) (preimage : Hash) (vsh : UInt32), leg'.key.Holds key →
          fromPublicKey blake key = c.data.htlcRecipient →
          ∃ (r : HtlcRedeem) (sig : ByteArr signatureLen),
            r = ⟨c.contractAddress blake, c.data.htlcRecipient, c.value, 0, vsh, c.networkId⟩ ∧
            leg'.key.signContent r.serializeContent = sig.1 ∧ leg'.buildClaim blake wire preimage vsh =
              .ok (r.serializeWire (regularTransferProof c.data.hashAlgorithm c.data.hashRoot preimage key sig))) ∧
        (∀ (leg' : NimiqLeg) (key : ByteArr publicKeyLen) (vsh : UInt32), leg'.key.Holds key →
          fromPublicKey blake key = c.data.htlcSender →
          ∃ (r : HtlcRedeem) (sig : ByteArr signatureLen),
            r = ⟨c.contractAddress blake, c.data.htlcSender, c.value, 0, vsh, c.networkId⟩ ∧
            leg'.key.signContent r.serializeContent = sig.1 ∧ leg'.buildRefund blake wire vsh =
              .ok (r.serializeWire (timeoutResolveProof key sig))) ∧
        ∀ (leg' : NimiqLeg) (preimage : Hash) (vsh : UInt32),
          ((∀ key : ByteArr publicKeyLen, leg'.key.publicKey = key.1 →
            fromPublicKey blake key ≠ c.data.htlcRecipient) →
              ∃ err, leg'.buildClaim blake wire preimage vsh = .error err) ∧
          ((∀ key : ByteArr publicKeyLen, leg'.key.publicKey = key.1 →
            fromPublicKey blake key ≠ c.data.htlcSender) →
              ∃ err, leg'.buildRefund blake wire vsh = .error err)) ∧
    (∀ wire, (decodeBasicWire blake wire).isSome = true ↔ wire.length = 139 ∧ wire.take 2 = [0, 0]) ∧
    ∀ wire d, decodeBasicWire blake wire = some d → d.transfer.serializeBasic d.publicKey d.signature = wire := by
  refine ⟨decodeCreationWire_serializeWire blake, ?_, decodeBasicWire_isSome_iff blake,
    fun wire d h => serializeBasic_of_decode h⟩
  intro leg terms wire h
  obtain ⟨pk, recipient, proof, hpk, hrecipient, rfl⟩ := NimiqLeg.buildFunding_ok h
  have hc := decodeCreationWire_serializeWire blake (leg.creation blake pk recipient terms) proof
  refine ⟨_, pk, recipient, hpk, hrecipient, rfl, hc, ?_, ?_, ?_⟩
  · intro leg' key preimage vsh hk hkey
    obtain ⟨sig, hsig, hclaim⟩ := NimiqLeg.buildClaim_eq hc hk hkey preimage vsh
    exact ⟨_, sig, rfl, hsig, hclaim⟩
  · intro leg' key vsh hk hkey
    obtain ⟨sig, hsig, hrefund⟩ := NimiqLeg.buildRefund_eq hc hk hkey vsh
    exact ⟨_, sig, rfl, hsig, hrefund⟩
  · intro leg' preimage vsh
    exact ⟨fun hother => NimiqLeg.buildClaim_refused hc hother preimage vsh,
      fun hother => NimiqLeg.buildRefund_refused hc hother vsh⟩

namespace Sample

/-- The hash of the NIM chain on the sample's two keys. -/
def keyHash : Blake2b := fun b =>
  if b = pubkey.1 then ⟨aliceAddress.1 ++ List.replicate 12 0, rfl⟩
  else if b = bobPubkey.1 then ⟨bobAddress.1 ++ List.replicate 12 0, rfl⟩
  else ByteArr.fill 32 0

def aliceLeg : NimiqLeg := .new ⟨pubkey.1, fun _ => signature.1⟩

def bobLeg : NimiqLeg := .new ⟨bobPubkey.1, fun _ => bobSignature.1⟩

/-- What the initiator of the sample swap locks for the responder. -/
def fundingTerms : FundingTerms := ⟨hashlock, 200000, 12345, bobAddress.1, 100⟩

theorem bobLeg_holds : bobLeg.key.Holds bobPubkey := ⟨rfl, fun _ => rfl⟩

end Sample

/-- The responder of the sample swap claims what the initiator funded. -/
theorem sample_nim_leg_wires :
    ∃ wire claim, Sample.aliceLeg.buildFunding Sample.keyHash Sample.fundingTerms = .ok wire ∧
      Sample.bobLeg.buildClaim Sample.keyHash wire Sample.secret 101 = .ok claim := by
  obtain ⟨wire, hwire⟩ : ∃ wire, Sample.aliceLeg.buildFunding Sample.keyHash Sample.fundingTerms = .ok wire :=
    ⟨_, rfl⟩
  obtain ⟨c, pk, recipient, -, hrecipient, hc, -, hclaim, -⟩ :=
    (nim_leg_wires Sample.keyHash).2.1 Sample.aliceLeg Sample.fundingTerms wire hwire
  have hbob : fromPublicKey Sample.keyHash Sample.bobPubkey = c.data.htlcRecipient := by
    have haddr : fromPublicKey Sample.keyHash Sample.bobPubkey = Sample.bobAddress := by decide +kernel
    rw [haddr, hc]
    exact Subtype.ext hrecipient
  obtain ⟨r, sig, -, -, hbuilt⟩ := hclaim Sample.bobLeg Sample.bobPubkey Sample.secret 101 Sample.bobLeg_holds hbob
  exact ⟨wire, _, hwire, hbuilt⟩

end Nimmesh
