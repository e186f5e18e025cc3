import Nimmesh.Contract.Forwarded

/-! @src evm_forward.rs evm_abi.rs | name:Forward requests off the chain | layer:model

    The user's half of a relayed call: the digest it signs and the calldata that submits it, built byte
    by byte. The digest is the contract's, and the contract reads the calldata back as the request and
    the signature it was built from. -/

namespace Nimmesh
open Abi Rlp

/-- The bytes of a Rust slice: there are fewer than `isize::MAX` of them. -/
abbrev ByteSlice := { b : Bytes // b.length < 2 ^ 63 }

/-- The arguments of a relayed call. -/
structure ForwardCall where
  fromAddr : EvmAddress
  dest : EvmAddress
  value : UInt64
  gas : UInt64
  nonce : UInt64
  deadline : UInt64
  data : ByteSlice

/-- A `u64` as a `uint256`. -/
def u256OfU64 (v : UInt64) : U256 := .ofNat 256 v.toNat

/-- The request the contract sees. -/
def ForwardCall.request (c : ForwardCall) : ForwardRequest :=
  ⟨c.fromAddr, c.dest, u256OfU64 c.value, u256OfU64 c.gas, u256OfU64 c.nonce, u256OfU64 c.deadline, c.data.1⟩

section Keccak

variable (keccak256 : Bytes → Hash)

def forwardRequestTypehash : Hash := keccak256 (asciiBytes
  "ForwardRequest(address from,address to,uint256 value,uint256 gas,uint256 nonce,uint256 deadline,bytes data)")

def forwardRequestDigest (domainSeparator : Hash) (c : ForwardCall) : Hash :=
  let enc := (forwardRequestTypehash keccak256).1 ++ wordAddress c.fromAddr ++ wordAddress c.dest ++
    wordU256 c.value ++ wordU256 c.gas ++ wordU256 c.nonce ++ wordU256 c.deadline ++ (keccak256 c.data.1).1
  let structHash := keccak256 enc
  keccak256 ([0x19, 0x01] ++ domainSeparator.1 ++ structHash.1)

def word : ℕ := 32

/-- The calldata of `execute`: a head of four words, the tuple behind it, and the data as its tail,
    padded to whole words. -/
def forwarderExecute (c : ForwardCall) (v : UInt8) (r s : Hash) : Bytes :=
  let padded := (c.data.1.length + (word - 1)) / word * word
  functionSelector keccak256
      "execute((address,address,uint256,uint256,uint256,uint256,bytes),uint8,bytes32,bytes32)" ++
    wordU256 (4 * word).toUInt64 ++ wordU256 v.toUInt64 ++ r.1 ++ s.1 ++
    wordAddress c.fromAddr ++ wordAddress c.dest ++ wordU256 c.value ++ wordU256 c.gas ++
    wordU256 c.nonce ++ wordU256 c.deadline ++ wordU256 (7 * word).toUInt64 ++
    wordU256 c.data.1.length.toUInt64 ++ c.data.1 ++ List.replicate (padded - c.data.1.length) 0

end Keccak

/-! ### The digest -/

/-- CORRECT: the digest signed off the chain is the one the forwarder checks. -/
theorem forwardRequestDigest_eq (f : Forwarder) (c : ForwardCall) :
    forwardRequestDigest f.keccak256 f.domainSeparator c = f.requestDigest c.request := by
  simp only [forwardRequestDigest, Forwarder.requestDigest, Forwarder.digestEncoding,
    Forwarder.structEncoding, ForwardCall.request, u256OfU64, abiWord_ofNat]
  rfl

/-! ### Reading words back -/

section Reading

variable {b : Bytes} {off : ℕ}

theorem toNat_u256OfU64 (v : UInt64) : (u256OfU64 v).toNat = v.toNat := by
  have hlt := v.toNat_lt
  rw [u256OfU64, BitVec.toNat_ofNat, Nat.mod_eq_of_lt (by omega)]

theorem ofBe_wordU256 (v : UInt64) : ofBe (wordU256 v) = v.toNat := by
  rw [← abiWord_ofNat, ofBe_abiWord]
  exact toNat_u256OfU64 v

theorem u256At_of_at {v : UInt64} (h : At b off (wordU256 v)) : u256At b off = some (u256OfU64 v) := by
  have hs := h.slice?
  rw [length_wordU256] at hs
  rw [u256At, hs, Option.map_some, ofBe_wordU256]
  rfl

theorem uint8At_of_at {v : UInt8} (h : At b off (wordU256 v.toUInt64)) : uint8At b off = some v := by
  have hs := h.slice?
  have hv := v.toNat_lt
  rw [length_wordU256] at hs
  rw [uint8At, hs, Option.bind_eq_bind, Option.bind_some, ofBe_wordU256, UInt8.toNat_toUInt64,
    if_pos (by omega)]
  simp

theorem bytes32At_of_at {a : Hash} (h : At b off a.1) : bytes32At b off = some a := by
  have hs := h.slice?
  rw [a.2] at hs
  rw [bytes32At, show (32 : ℕ) = hashLen from rfl, hs, Option.bind_eq_bind, Option.bind_some,
    ByteArr.ofBytes?_val]

theorem addressAt_of_at {a : EvmAddress} (h : At b off (wordAddress a)) : addressAt b off = some a := by
  have hlen : (wordAddress a).length = 32 := length_abiAddress a
  have hs := h.slice?
  rw [hlen] at hs
  have htake : (wordAddress a).take 12 = List.replicate 12 0 := List.take_left' (List.length_replicate ..)
  have hdrop : (wordAddress a).drop 12 = a.1 := List.drop_left' (List.length_replicate ..)
  rw [addressAt, hs, Option.bind_eq_bind, Option.bind_some, if_pos htake, hdrop, ByteArr.ofBytes?_val]

theorem bytesAt_of_at {data : ByteSlice} (hlen : At b off (wordU256 data.1.length.toUInt64))
    (h : At b (off + 32) data.1) : bytesAt b off = some data.1 := by
  have hbound := data.2
  have hnat : (u256OfU64 data.1.length.toUInt64).toNat = data.1.length := by
    rw [toNat_u256OfU64, Nat.toUInt64_eq, UInt64.toNat_ofNat', Nat.mod_eq_of_lt (by omega)]
  rw [bytesAt, u256At_of_at hlen, Option.bind_eq_bind, Option.bind_some, hnat, if_neg (by omega)]
  exact h.slice?

end Reading

theorem length_selector (keccak256 : Bytes → Hash) (signature : String) :
    (functionSelector keccak256 signature).length = 4 := by
  rw [functionSelector, List.length_take, (keccak256 _).2]
  rfl

/-- CORRECT: the forwarder reads the calldata back as the request and the signature it was built from. -/
theorem decodeExecute_forwarderExecute (f : Forwarder) (c : ForwardCall) (v : UInt8) (r s : Hash) :
    f.decodeExecute (forwarderExecute f.keccak256 c v r s) = some (c.request, ⟨v, r, s⟩) := by
  have hsel := length_selector f.keccak256 executeSignature
  have haddr := length_abiAddress
  have hhash : ∀ a : Hash, a.1.length = 32 := fun a => a.2
  generalize hb : forwarderExecute f.keccak256 c v r s = b
  have hall : At b 0 b := At.all b
  -- the calldata, taken apart from the left
  nth_rewrite 2 [← hb] at hall
  simp only [forwarderExecute, List.append_assoc] at hall
  have htake : b.take 4 = functionSelector f.keccak256 executeSignature := by
    rw [← hb]
    simp only [forwarderExecute, List.append_assoc]
    exact List.take_left' hsel
  have h0 := hall.right
  have h1 := h0.right
  have h2 := h1.right
  have h3 := h2.right
  have h4 := h3.right
  have h5 := h4.right
  have h6 := h5.right
  have h7 := h6.right
  have h8 := h7.right
  have h9 := h8.right
  have h10 := h9.right
  have h11 := h10.right
  have h12 := h11.right
  have hsel' : (functionSelector f.keccak256
      "execute((address,address,uint256,uint256,uint256,uint256,bytes),uint8,bytes32,bytes32)").length = 4 :=
    hsel
  simp only [hsel', length_wordU256, hhash, show ∀ a : EvmAddress, (wordAddress a).length = 32 from haddr,
    Nat.zero_add, Nat.reduceAdd] at h0 h1 h2 h3 h4 h5 h6 h7 h8 h9 h10 h11 h12
  have hreq : requestAt b 132 = some c.request := by
    have hrel : (u256OfU64 (7 * word).toUInt64).toNat = 224 := rfl
    simp only [requestAt, addressAt_of_at h4.left, addressAt_of_at h5.left, u256At_of_at h6.left,
      u256At_of_at h7.left, u256At_of_at h8.left, u256At_of_at h9.left, u256At_of_at h10.left,
      bytesAt_of_at h11.left h12.left, hrel, Nat.reduceAdd, Option.bind_eq_bind, Option.bind_some]
    rfl
  have hoff : (u256OfU64 (4 * word).toUInt64).toNat = 128 := rfl
  rw [Forwarder.decodeExecute, if_neg (not_not.mpr htake)]
  simp only [u256At_of_at h0.left, uint8At_of_at h1.left, bytes32At_of_at h2.left, bytes32At_of_at h3.left,
    hoff, hreq, Nat.reduceAdd, Option.bind_eq_bind, Option.bind_some]
  rfl

end Nimmesh
