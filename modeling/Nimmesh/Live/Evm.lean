import Nimmesh.Lib.Rlp
import Nimmesh.Contract.Htlc

/-! @src evm.rs evm_abi.rs evm_rlp.rs swap_usdc_leg.rs | name:EVM calldata and transactions | layer:model

    The bytes of a Polygon transaction: calldata in 32-byte words behind a selector, and the legacy
    transaction as a list of its fields. What a node reads in the signed bytes is `TxTo`: the fields are
    read back by `Rlp.decodeList`, so the calldata of a signed transaction is determined by its bytes. -/

namespace Nimmesh
open Rlp

/-- The ASCII bytes of a signature text. -/
def asciiBytes (s : String) : Bytes := s.toList.map fun c => c.toNat.toUInt8

/-- A key of the EVM side: its account, and its signature `(r, s, recovery id)` of a hash. -/
structure EvmKey where
  address : EvmAddress
  signHash : Hash → Hash × Hash × UInt8

def polygonAmoyChainId : UInt64 := 80002

def polygonMainnetChainId : UInt64 := 137

/-! ### Calldata -/

/-- A `u64` as a 32-byte word. -/
def wordU256 (v : UInt64) : Bytes := List.replicate 24 0 ++ beBytes v

/-- An address as a 32-byte word. -/
def wordAddress (a : EvmAddress) : Bytes := List.replicate 12 0 ++ a.1

section Keccak

variable (keccak256 : Bytes → Hash)

/-- The first four bytes of the hash of a signature text. -/
def functionSelector (signature : String) : Bytes := (keccak256 (asciiBytes signature)).1.take 4

def erc20Approve (spender : EvmAddress) (amount : UInt64) : Bytes :=
  functionSelector keccak256 "approve(address,uint256)" ++ wordAddress spender ++ wordU256 amount

def htlcNewSwap (receiver : EvmAddress) (amount : UInt64) (hashlock : Hash) (timelock : UInt64) : Bytes :=
  functionSelector keccak256 "newSwap(address,uint256,bytes32,uint256)" ++ wordAddress receiver ++
    wordU256 amount ++ hashlock.1 ++ wordU256 timelock

def htlcWithdraw (swapId secret : Hash) : Bytes :=
  functionSelector keccak256 "withdraw(bytes32,bytes32)" ++ swapId.1 ++ secret.1

/-- The slot the contract derives for an escrow. -/
def usdcSwapId (sender receiver : EvmAddress) (amount : UInt64) (hashlock : Hash) (timelock : UInt64) :
    Hash :=
  keccak256 (sender.1 ++ receiver.1 ++ wordU256 amount ++ hashlock.1 ++ wordU256 timelock)

theorem length_wordU256 (v : UInt64) : (wordU256 v).length = 32 := rfl

theorem length_functionSelector (signature : String) : (functionSelector keccak256 signature).length ≤ 4 := by
  rw [functionSelector]
  exact List.length_take_le 4 _

/-- `newSwap` takes four words behind its selector, `withdraw` two. -/
theorem length_htlcNewSwap (receiver : EvmAddress) (amount : UInt64) (hashlock : Hash) (timelock : UInt64) :
    (htlcNewSwap keccak256 receiver amount hashlock timelock).length ≤ 132 := by
  have hsel := length_functionSelector keccak256 "newSwap(address,uint256,bytes32,uint256)"
  simp only [htlcNewSwap, wordAddress, List.length_append, length_wordU256, List.length_replicate, receiver.2,
    hashlock.2, hashLen]
  omega

theorem length_htlcWithdraw (swapId secret : Hash) : (htlcWithdraw keccak256 swapId secret).length ≤ 68 := by
  have hsel := length_functionSelector keccak256 "withdraw(bytes32,bytes32)"
  simp only [htlcWithdraw, List.length_append, swapId.2, secret.2, hashLen]
  omega

end Keccak

/-! ### Transactions -/

def eip155V (recoveryId : UInt8) (chainId : UInt64) : UInt64 := recoveryId.toUInt64 + chainId * 2 + 35

def rlpU64 (v : UInt64) : Bytes := rlpBytes (minimalBe v.toNat)

/-- A big-endian integer without its leading zeros. -/
def rlpInt (be : Bytes) : Bytes := rlpBytes (be.dropWhile (· == 0))

structure LegacyTx where
  nonce : UInt64
  gasPrice : UInt64
  gasLimit : UInt64
  dest : EvmAddress
  value : UInt64
  data : Bytes
  chainId : UInt64
  deriving DecidableEq

namespace LegacyTx

/-- The payload that is signed, with the chain id in place of the signature. -/
def signingRlp (tx : LegacyTx) : Bytes :=
  rlpList [rlpU64 tx.nonce, rlpU64 tx.gasPrice, rlpU64 tx.gasLimit, rlpBytes tx.dest.1, rlpU64 tx.value,
    rlpBytes tx.data, rlpU64 tx.chainId, rlpU64 0, rlpU64 0]

def signingHash (keccak256 : Bytes → Hash) (tx : LegacyTx) : Hash := keccak256 tx.signingRlp

def signedTxRlp (tx : LegacyTx) (r s : Hash) (recoveryId : UInt8) : Bytes :=
  rlpList [rlpU64 tx.nonce, rlpU64 tx.gasPrice, rlpU64 tx.gasLimit, rlpBytes tx.dest.1, rlpU64 tx.value,
    rlpBytes tx.data, rlpU64 (eip155V recoveryId tx.chainId), rlpInt r.1, rlpInt s.1]

def signWith (keccak256 : Bytes → Hash) (tx : LegacyTx) (key : EvmKey) : Bytes :=
  let (r, s, recoveryId) := key.signHash (tx.signingHash keccak256)
  tx.signedTxRlp r s recoveryId

end LegacyTx

/-- The bytes read as a transaction to `dest` with calldata `data`. -/
def TxTo (wire : Bytes) (dest : EvmAddress) (data : Bytes) : Prop :=
  ∃ fields, decodeList wire = some fields ∧ fields[3]? = some dest.1 ∧ fields[5]? = some data

/-! ### What the bytes determine -/

theorem abiWord_ofNat (v : UInt64) : abiWord (.ofNat 256 v.toNat) = wordU256 v := by
  have hlt := v.toNat_lt
  have hbyte : ∀ k, ((BitVec.ofNat 256 v.toNat) >>> k).toNat = v.toNat / 2 ^ k := by
    intro k
    rw [BitVec.toNat_ushiftRight, BitVec.toNat_ofNat, Nat.mod_eq_of_lt (by omega), Nat.shiftRight_eq_div_pow]
  have hhigh : ∀ k, 64 ≤ k → v.toNat / 2 ^ k = 0 := fun k hk =>
    Nat.div_eq_of_lt (hlt.trans_le (Nat.pow_le_pow_right (by decide) hk))
  have hlow : ∀ k : UInt64, k < 64 → (v.toNat / 2 ^ k.toNat).toUInt8 = (v >>> k).toUInt8 := by
    intro k hk
    rw [UInt64.lt_iff_toNat_lt] at hk
    apply UInt8.toNat_inj.mp
    rw [UInt64.toNat_toUInt8, UInt64.toNat_shiftRight, Nat.toUInt8_eq, UInt8.toNat_ofNat',
      Nat.mod_eq_of_lt (show k.toNat < 64 from hk), Nat.shiftRight_eq_div_pow]
  have h7 := hlow 56 (by decide)
  have h6 := hlow 48 (by decide)
  have h5 := hlow 40 (by decide)
  have h4 := hlow 32 (by decide)
  have h3 := hlow 24 (by decide)
  have h2 := hlow 16 (by decide)
  have h1 := hlow 8 (by decide)
  simp only [UInt64.reduceToNat] at h7 h6 h5 h4 h3 h2 h1
  simp (disch := decide) only [abiWord, wordU256, beBytes, List.range, List.range.loop, List.map_cons,
    List.map_nil, hbyte, List.replicate, List.cons_append, List.nil_append, Nat.reduceMul, Nat.reduceSub,
    hhigh, h7, h6, h5, h4, h3, h2, h1]
  simp

/-- CORRECT: the slot the signer derives is the contract's. -/
theorem usdcSwapId_eq (keccak256 : Bytes → Hash) (sender receiver : EvmAddress) (amount : UInt64)
    (hashlock : Hash) (timelock : UInt64) :
    usdcSwapId keccak256 sender receiver amount hashlock timelock =
      swapIdFor keccak256 sender receiver (.ofNat 256 amount.toNat) hashlock (.ofNat 256 timelock.toNat) := by
  rw [usdcSwapId, swapIdFor, abiWord_ofNat, abiWord_ofNat]

theorem signedTxRlp_fields {tx : LegacyTx} (h : tx.data.length < 2 ^ 63) (r s : Hash) (recoveryId : UInt8) :
    decodeList (tx.signedTxRlp r s recoveryId) =
      some [minimalBe tx.nonce.toNat, minimalBe tx.gasPrice.toNat, minimalBe tx.gasLimit.toNat, tx.dest.1,
        minimalBe tx.value.toNat, tx.data, minimalBe (eip155V recoveryId tx.chainId).toNat,
        r.1.dropWhile (· == 0), s.1.dropWhile (· == 0)] := by
  have hword : ∀ n, (rlpBytes (minimalBe n)).length ≤ 17 := fun n =>
    (length_rlpBytes_le _).trans (Nat.add_le_add_right (length_minimalBe n) 9)
  have hsig : ∀ b : Hash, (rlpBytes (b.1.dropWhile (· == 0))).length ≤ 41 := fun b =>
    (length_rlpBytes_le _).trans (Nat.add_le_add_right
      ((List.dropWhile_sublist _).length_le.trans b.2.le) 9)
  have hdest := length_rlpBytes_le tx.dest.1
  have hdata := length_rlpBytes_le tx.data
  have hlen := tx.dest.2
  refine @decodeList_rlpList [_, _, _, _, _, _, _, _, _] ?_
  simp only [List.map_cons, List.map_nil, List.sum_cons, List.sum_nil]
  have h1 := hword tx.nonce.toNat
  have h2 := hword tx.gasPrice.toNat
  have h3 := hword tx.gasLimit.toNat
  have h4 := hword tx.value.toNat
  have h5 := hword (eip155V recoveryId tx.chainId).toNat
  have h6 := hsig r
  have h7 := hsig s
  omega

/-- An integer below `256 ^ k` takes its `k` bytes and a header. -/
theorem length_rlpU64_of_lt {v : UInt64} {k : ℕ} (hk : k ≤ 8) (h : v.toNat < 256 ^ k) :
    (rlpU64 v).length ≤ k + 1 := by
  have hmin := length_minimalBe_of_lt hk h
  have hle := length_rlpBytes_byte (minimalBe v.toNat) (by omega)
  rw [if_pos (by omega)] at hle
  exact hle.trans (by omega)

theorem length_rlpU64 (v : UInt64) : (rlpU64 v).length ≤ 9 := length_rlpU64_of_lt (by decide) v.toNat_lt

theorem length_rlpInt (b : Hash) : (rlpInt b.1).length ≤ 33 := by
  have hlen : b.1.length = 32 := b.2
  have hdrop := (List.dropWhile_sublist (l := b.1) (· == 0)).length_le
  have hle := length_rlpBytes_byte (b.1.dropWhile (· == 0)) (by omega)
  rw [if_pos (by omega)] at hle
  exact hle.trans (by omega)

theorem length_rlpBytes_data {data : Bytes} {n : ℕ} (h : data.length ≤ n) (hn : n < 256) :
    (rlpBytes data).length ≤ n + 2 := by
  have hle := length_rlpBytes_byte data (by omega)
  split_ifs at hle <;> omega

/-- The size of a signed transaction: 114 bytes at most for nonce, gas, destination and signature, what
    the value, the calldata and `v` take, and a header of two bytes. -/
theorem length_signedTxRlp_of {tx : LegacyTx} {recoveryId : UInt8} {n : ℕ}
    (h : (rlpU64 tx.value).length + (rlpBytes tx.data).length +
      (rlpU64 (eip155V recoveryId tx.chainId)).length ≤ n) (hn : n + 114 < 256) (r s : Hash) :
    (tx.signedTxRlp r s recoveryId).length ≤ n + 116 := by
  have hdest : (rlpBytes tx.dest.1).length ≤ 21 := by
    have hlen : tx.dest.1.length = 20 := tx.dest.2
    have hle := length_rlpBytes_byte tx.dest.1 (by omega)
    rwa [hlen] at hle
  have h1 := length_rlpU64 tx.nonce
  have h2 := length_rlpU64 tx.gasPrice
  have h3 := length_rlpU64 tx.gasLimit
  have h4 := length_rlpInt r
  have h5 := length_rlpInt s
  refine length_rlpList_le (n := n + 114) ?_ hn
  simp only [List.map_cons, List.map_nil, List.sum_cons, List.sum_nil]
  omega

/-- A signed transaction is short when its calldata is two words behind a selector. -/
theorem length_signedTxRlp {tx : LegacyTx} (h : tx.data.length ≤ 68) (r s : Hash) (recoveryId : UInt8) :
    (tx.signedTxRlp r s recoveryId).length ≤ 204 := by
  have hdata := length_rlpBytes_data h (by decide)
  have hvalue := length_rlpU64 tx.value
  have hv := length_rlpU64 (eip155V recoveryId tx.chainId)
  exact length_signedTxRlp_of (n := 88) (by omega) (by decide) r s

theorem length_signWith (keccak256 : Bytes → Hash) {tx : LegacyTx} (h : tx.data.length ≤ 68) (key : EvmKey) :
    (tx.signWith keccak256 key).length ≤ 204 := length_signedTxRlp h _ _ _

/-- The bytes of a signed transaction read as that transaction. -/
theorem signWith_txTo (keccak256 : Bytes → Hash) {tx : LegacyTx} (h : tx.data.length < 2 ^ 63) (key : EvmKey) :
    TxTo (tx.signWith keccak256 key) tx.dest tx.data :=
  ⟨_, signedTxRlp_fields h _ _ _, rfl, rfl⟩

/-- Bytes read as at most one call. -/
theorem TxTo.unique {wire : Bytes} {dest dest' : EvmAddress} {data data' : Bytes} (h : TxTo wire dest data)
    (h' : TxTo wire dest' data') : dest = dest' ∧ data = data' := by
  obtain ⟨fields, hd, hdest, hdata⟩ := h
  obtain ⟨fields', hd', hdest', hdata'⟩ := h'
  rw [hd] at hd'
  cases hd'
  rw [hdest] at hdest'
  rw [hdata] at hdata'
  exact ⟨Subtype.ext (Option.some.inj hdest'), Option.some.inj hdata'⟩

end Nimmesh
