import Nimmesh.Swap.Messages

/-! @src swap_intent.rs swap_rate.rs | name:Discovery intents and the rate floor | layer:model

    An intent advertises the trade a node wants. A NIM-giver initiates against a crossing intent of
    the asset it wants; `RatePolicy` is the floor a responder puts under the rate of a `Propose`.
    Products of amounts are taken in `ℕ`, as the source takes them in `u128`. -/

namespace Nimmesh

def evmAddressLen : ℕ := 20

inductive Asset where | nim | btc | usdc
  deriving DecidableEq, Repr

structure SwapIntent where
  gives : Asset
  counterAsset : Asset
  nimAmount : UInt64
  btcAmount : UInt64
  expiryHeight : UInt64
  minNim : UInt64
  maxNim : UInt64
  nimPubkey : ByteArr 32
  nimAddress : NimAddress
  btcPubkey : BtcPubkey
  btcAddress : Bytes
  evmAddress : ByteArr evmAddressLen
  networkId : UInt8
  signature : ByteArr 64
  deriving DecidableEq

/-- `u16::to_be_bytes` of a length cast `as u16`. -/
def beBytes16 (n : ℕ) : Bytes := [(n / 256).toUInt8, n.toUInt8]

/-- `u16::from_be_bytes`. -/
def u16OfBe (b : Bytes) : ℕ := b.foldl (fun acc x => acc * 256 + x.toNat) 0

/-- A length comes back modulo `2 ^ 16`. -/
theorem u16OfBe_beBytes16 (n : ℕ) : u16OfBe (beBytes16 n) = n % 65536 := by
  simp only [u16OfBe, beBytes16, List.foldl_cons, List.foldl_nil, Nat.toUInt8_eq, UInt8.toNat_ofNat']
  omega

def assetToU8 : Asset → UInt8
  | .nim => 0
  | .btc => 1
  | .usdc => 2

inductive IntentError where | truncated | malformed
  deriving DecidableEq, Repr

def assetFromU8 (b : UInt8) : Except IntentError Asset :=
  if b = 0 then .ok .nim
  else if b = 1 then .ok .btc
  else if b = 2 then .ok .usdc
  else .error .malformed

/-- An intent's signed content: every field except the trailing signature. -/
def encodeIntentContent (i : SwapIntent) : Bytes :=
  [assetToU8 i.gives, assetToU8 i.counterAsset] ++ beBytes i.nimAmount ++ beBytes i.btcAmount ++
  beBytes i.expiryHeight ++ beBytes i.minNim ++ beBytes i.maxNim ++ i.nimPubkey.1 ++ i.nimAddress.1 ++
  i.btcPubkey.1 ++ [i.networkId] ++ beBytes16 i.btcAddress.length ++ i.btcAddress ++ i.evmAddress.1

def encodeIntent (i : SwapIntent) : Bytes := encodeIntentContent i ++ i.signature.1

/-- Take the next `n` bytes as an array. -/
def takeArr (n : ℕ) : StateT Bytes (Except IntentError) (ByteArr n) := fun b =>
  match ByteArr.ofBytes? n (b.take n) with
  | some a => .ok (a, b.drop n)
  | none => .error .truncated

def takeU64 : StateT Bytes (Except IntentError) UInt64 := do return u64OfBe (← takeArr 8).1

def takeAsset : StateT Bytes (Except IntentError) Asset := do assetFromU8 (← takeArr 1).head

/-- Decode an intent; bytes after the signature are ignored. -/
def decodeIntent (bytes : Bytes) : Except IntentError SwapIntent := do
  let read : StateT Bytes (Except IntentError) SwapIntent := do
    let gives ← takeAsset
    let counterAsset ← takeAsset
    let nimAmount ← takeU64
    let btcAmount ← takeU64
    let expiryHeight ← takeU64
    let minNim ← takeU64
    let maxNim ← takeU64
    let nimPubkey ← takeArr 32
    let nimAddress ← takeArr nimAddressLen
    let btcPubkey ← takeArr btcPubkeyLen
    let networkId := (← takeArr 1).head
    let addrLen := u16OfBe (← takeArr 2).1
    let btcAddress := (← takeArr addrLen).1
    let evmAddress ← takeArr evmAddressLen
    let signature ← takeArr 64
    return { gives, counterAsset, nimAmount, btcAmount, expiryHeight, minNim, maxNim, nimPubkey,
             nimAddress, btcPubkey, networkId, btcAddress, evmAddress, signature }
  return (← read bytes).1

namespace SwapIntent

/-- Whether the holder of `self` initiates against `incoming`: it gives NIM, the other side gives the
    asset it wants, on the same network, and the rates cross. -/
def wouldInitiateAgainst (self incoming : SwapIntent) : Bool :=
  self.gives = .nim && incoming.gives ≠ .nim && incoming.gives = self.counterAsset &&
  self.networkId = incoming.networkId && 0 < self.btcAmount && 0 < incoming.btcAmount &&
  incoming.nimAmount.toNat * self.btcAmount.toNat ≤ self.nimAmount.toNat * incoming.btcAmount.toNat

/-- The intent is valid until the head passes its expiry height. -/
def isFresh (i : SwapIntent) (head : UInt64) : Bool := head ≤ i.expiryHeight

/-- The NIM trade sizes are mutually acceptable. -/
def amountCompatible (self incoming : SwapIntent) : Bool :=
  incoming.minNim ≤ self.nimAmount && self.nimAmount ≤ incoming.maxNim &&
  self.minNim ≤ incoming.nimAmount && incoming.nimAmount ≤ self.maxNim

/-- The key hashes to the claimed address and the signature covers the content. -/
def verifyAuthentic (cr : Crypto) (i : SwapIntent) : Bool :=
  if cr.addressOf i.nimPubkey ≠ i.nimAddress then false
  else cr.verifyStrict i.nimPubkey (encodeIntentContent i) i.signature

end SwapIntent

/-- The minimum NIM-per-BTC rate `num / den` a responder accepts. -/
structure RatePolicy where
  minNimPerBtcNum : UInt64
  minNimPerBtcDen : UInt64
  deriving DecidableEq, Repr

namespace RatePolicy

def acceptAll : RatePolicy := ⟨0, 1⟩

def accepts (r : RatePolicy) (giveAmount takeAmount : UInt64) : Bool :=
  if takeAmount = 0 then r.minNimPerBtcNum = 0
  else takeAmount.toNat * r.minNimPerBtcNum.toNat ≤ giveAmount.toNat * r.minNimPerBtcDen.toNat

end RatePolicy

end Nimmesh
