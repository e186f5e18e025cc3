import Nimmesh.Mesh.MicroHeader
import Nimmesh.Mesh.Beacon

/-! @src balance_proof.rs | name:Balance proofs and the head beacon | layer:model

    A balance proof carries a block header and a trie proof as opaque bytes. The root that the trie proof would
    be checked against is taken from the header only if the header hashes to the beacon that the node trusts. -/

namespace Nimmesh
open Codec

structure BalanceProof where
  address : NimAddress
  headHeight : UInt32
  networkId : UInt8
  header : Bytes
  proof : Bytes
  deriving DecidableEq

inductive BindVerdict where
  | bound | wrongNetwork | staleHeight | aheadOfBeacon | beaconUnhashed | headerMismatch
  deriving DecidableEq, Repr

/-- The cheap checks come before the hash. -/
def bindToBeacon (blake : Bytes → Hash) (proof : BalanceProof) (beacon : HeadBeacon) : BindVerdict :=
  if proof.networkId ≠ beacon.networkId then .wrongNetwork
  else if proof.headHeight < beacon.height then .staleHeight
  else if beacon.height < proof.headHeight then .aheadOfBeacon
  else if beacon.blockHash = ByteArr.fill hashLen 0 then .beaconUnhashed
  else if blake proof.header ≠ beacon.blockHash then .headerMismatch
  else .bound

def stateRootForBoundProof (blake : Bytes → Hash) (proof : BalanceProof) (beacon : HeadBeacon) : Option Hash :=
  if bindToBeacon blake proof beacon ≠ .bound then none
  else do
    let header ← decodeMicroHeader proof.header
    if header.blockNumber ≠ proof.headHeight ∨ header.network ≠ proof.networkId then none
    else some header.stateRoot

/-- EXACT: when a proof is bound. -/
theorem bindToBeacon_eq_bound_iff {blake : Bytes → Hash} {proof : BalanceProof} {beacon : HeadBeacon} :
    bindToBeacon blake proof beacon = .bound ↔ proof.networkId = beacon.networkId ∧ proof.headHeight = beacon.height ∧
      beacon.blockHash ≠ ByteArr.fill hashLen 0 ∧ blake proof.header = beacon.blockHash := by
  rw [bindToBeacon]
  split_ifs with hnet hstale hahead hzero hhash
  · simp [hnet]
  · simp only [false_iff]
    rintro ⟨-, heq, -⟩
    exact UInt32.lt_irrefl _ (heq ▸ hstale)
  · simp only [false_iff]
    rintro ⟨-, heq, -⟩
    exact UInt32.lt_irrefl _ (heq ▸ hahead)
  · simp [hzero]
  · simp [hhash]
  · have heq : proof.headHeight = beacon.height := by
      rw [UInt32.lt_iff_toNat_lt] at hstale hahead
      exact UInt32.toNat_inj.mp (by omega)
    simp only [true_iff]
    exact ⟨not_not.mp hnet, heq, hzero, not_not.mp hhash⟩

/-- EXACT: when a root is taken, and which. -/
theorem stateRootForBoundProof_eq_some_iff {blake : Bytes → Hash} {proof : BalanceProof} {beacon : HeadBeacon}
    {root : Hash} : stateRootForBoundProof blake proof beacon = some root ↔
      proof.networkId = beacon.networkId ∧ proof.headHeight = beacon.height ∧
      beacon.blockHash ≠ ByteArr.fill hashLen 0 ∧ blake proof.header = beacon.blockHash ∧
      ∃ header, decodeMicroHeader proof.header = some header ∧ header.network = beacon.networkId ∧
        header.blockNumber = beacon.height ∧ header.stateRoot = root := by
  rw [stateRootForBoundProof]
  by_cases hbound : bindToBeacon blake proof beacon = .bound
  · obtain ⟨hnet, hheight, hzero, hhash⟩ := bindToBeacon_eq_bound_iff.mp hbound
    rw [if_neg (not_not.mpr hbound), Option.bind_eq_bind, Option.bind_eq_some_iff]
    simp only [hnet, hheight, hzero, hhash, ne_eq, not_false_eq_true, true_and]
    refine exists_congr fun header => and_congr_right fun _ => ?_
    split_ifs with hdiff
    · simp only [false_iff]
      rintro ⟨hn, hb, -⟩
      rcases hdiff with h | h
      · exact h hb
      · exact h hn
    · obtain ⟨hb, hn⟩ := not_or.mp hdiff
      simp only [Option.some.injEq, not_not.mp hb, not_not.mp hn, true_and]
  · rw [if_pos hbound]
    simp only [false_iff, reduceCtorEq]
    rintro ⟨hnet, hheight, hzero, hhash, -⟩
    exact hbound (bindToBeacon_eq_bound_iff.mpr ⟨hnet, hheight, hzero, hhash⟩)

/-- EXACT: a valid header survives its bytes; a header that is accepted is spelled by its bytes if a tenth byte of
    its timestamp is 0 or 1; and a root is that of a header bound to the beacon. -/
theorem micro_header_binding (blake : Bytes → Hash) :
    (∀ h : MicroHeader, h.Valid → decodeMicroHeader (encodeMicroHeader h) = some h) ∧
    (∀ (bytes : Bytes) (h : MicroHeader), decodeMicroHeader bytes = some h →
      (h.Spelled bytes ↔ TimestampFits bytes)) ∧
    ∀ (proof : BalanceProof) (beacon : HeadBeacon) (root : Hash),
      stateRootForBoundProof blake proof beacon = some root ↔
        proof.networkId = beacon.networkId ∧ proof.headHeight = beacon.height ∧
        beacon.blockHash ≠ ByteArr.fill hashLen 0 ∧ blake proof.header = beacon.blockHash ∧
        ∃ header, decodeMicroHeader proof.header = some header ∧ header.network = beacon.networkId ∧
          header.blockNumber = beacon.height ∧ header.stateRoot = root :=
  ⟨fun _ hv => decode_encodeMicroHeader hv, fun _ _ hdec => spelled_iff hdec,
    fun _ _ _ => stateRootForBoundProof_eq_some_iff⟩

namespace Sample

def microHeader : MicroHeader where
  network := 5
  version := 1
  blockNumber := 7
  timestamp := 0
  parentHash := ByteArr.fill hashLen 1
  seed := ByteArr.fill vrfSeedLen 2
  extraData := []
  stateRoot := ByteArr.fill hashLen 3
  bodyRoot := ByteArr.fill hashLen 4
  diffRoot := ByteArr.fill hashLen 5
  historyRoot := ByteArr.fill hashLen 6

/-- Its bytes with the ten groups of 2^64 for a timestamp. -/
def wideTimestamp : Bytes :=
  [5, 1, 7] ++ (List.replicate 9 0x80 ++ [2]) ++ (encodeMicroHeader microHeader).drop 4

end Sample

/-- Ten groups that spell 2^64 are accepted as a timestamp of 0. -/
theorem timestamp_bits_dropped :
    decodeMicroHeader Sample.wideTimestamp = some Sample.microHeader ∧
      timestampBytes Sample.wideTimestamp = some (List.replicate 9 0x80 ++ [2]) ∧
      Varint.value (List.replicate 9 0x80 ++ [2]) = 2 ^ 64 := by
  decide +kernel

end Nimmesh
