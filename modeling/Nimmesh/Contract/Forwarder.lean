import Nimmesh.Lib.Abi
import Nimmesh.Live.Evm

/-! @src contracts/src/NimmeshForwarder.sol contracts/src/NimmeshHtlc.sol | name:Trusted forwarder |
    layer:model

    The ERC-2771 forwarder before the escrow. `execute` checks a signed request, burns its nonce and
    calls the target with the signer appended to the calldata. The target may be any code, and may call
    back: what runs is a tree of calls (`Act`), in which a call that reverts undoes everything below it
    and its caller goes on. Two ghost lists roll back with the state: the requests executed and the
    slots that calls of the forwarder created. -/

namespace Nimmesh
open Abi Rlp

/-! ### Calldata of the escrow -/

/-- An `address` as an ABI word. -/
def abiAddress (a : EvmAddress) : Bytes := List.replicate 12 0 ++ a.1

def u256At (b : Bytes) (off : ℕ) : Option U256 := (slice? b off 32).map fun w => .ofNat 256 (ofBe w)

def bytes32At (b : Bytes) (off : ℕ) : Option Hash := do ByteArr.ofBytes? hashLen (← slice? b off 32)

/-- An address argument: the twelve bytes above it must be clear. -/
def addressAt (b : Bytes) (off : ℕ) : Option EvmAddress := do
  let w ← slice? b off 32
  if w.take 12 = List.replicate 12 0 then ByteArr.ofBytes? 20 (w.drop 12) else none

/-- A `uint8` argument: the bits above it must be clear. -/
def uint8At (b : Bytes) (off : ℕ) : Option UInt8 := do
  let w ← slice? b off 32
  if ofBe w < 256 then some (ofBe w).toUInt8 else none

/-- The arguments of a funding call that make up a slot. -/
structure NewSwapArgs where
  receiver : EvmAddress
  amount : U256
  hashlock : Hash
  timelock : U256
  deriving DecidableEq

namespace Htlc

variable {T : Type} (h : Htlc T)

def newSwapArgs (data : Bytes) : Option NewSwapArgs := do
  return ⟨← addressAt data 4, ← u256At data 36, ← bytes32At data 68, ← u256At data 100⟩

def permitArgs (data : Bytes) : Option PermitSig := do
  return ⟨← u256At data 132, ← uint8At data 164, ← bytes32At data 196, ← bytes32At data 228⟩

/-- The calldata starts with the selector of a function. -/
def selects (data : Bytes) (signature : String) : Bool :=
  data.take 4 = functionSelector h.keccak256 signature

def newSwapSignature : String := "newSwap(address,uint256,bytes32,uint256)"

def newSwapWithPermitSignature : String :=
  "newSwapWithPermit(address,uint256,bytes32,uint256,uint256,uint8,bytes32,bytes32)"

/-- What the calldata of a funding call says about the slot. -/
def decodeNewSwap (data : Bytes) : Option NewSwapArgs :=
  if h.selects data newSwapSignature || h.selects data newSwapWithPermitSignature then newSwapArgs data
  else none

/-- The arguments of a view; what it returns is left out. -/
def decodeView (data : Bytes) : Option Unit :=
  if h.selects data "swapIdFor(address,address,uint256,bytes32,uint256)" then do
    let _ ← addressAt data 4
    let _ ← addressAt data 36
    let _ ← u256At data 68
    let _ ← bytes32At data 100
    let _ ← u256At data 132
    return ()
  else if h.selects data "getSwap(bytes32)" then (bytes32At data 4).map fun _ => ()
  else if h.selects data "isTrustedForwarder(address)" then (addressAt data 4).map fun _ => ()
  else if h.selects data "token()" || h.selects data "trustedForwarder()" then some ()
  else none

/-- The function the calldata selects and its arguments: `none` reverts, `some none` is a view. -/
def decodeCall (msg : Msg) : Option (Option (Call h.self)) :=
  if h.selects msg.data newSwapSignature then do
    let a ← newSwapArgs msg.data
    return some (.newSwap msg a.receiver a.amount a.hashlock a.timelock)
  else if h.selects msg.data newSwapWithPermitSignature then do
    let a ← newSwapArgs msg.data
    let sig ← permitArgs msg.data
    return some (.newSwapWithPermit msg a.receiver a.amount a.hashlock a.timelock sig)
  else if h.selects msg.data "withdraw(bytes32,bytes32)" then do
    return some (.withdraw (← bytes32At msg.data 4) (← bytes32At msg.data 36))
  else if h.selects msg.data "refund(bytes32)" then do return some (.refund (← bytes32At msg.data 4))
  else (h.decodeView msg.data).map fun _ => none

/-- The escrow as called with raw calldata; no function is payable. -/
def dispatch (w : HtlcWorld T) (msg : Msg) (value : U256) : Option (HtlcWorld T) :=
  if value ≠ 0 then none
  else match h.decodeCall msg with
    | none => none
    | some none => some w
    | some (some call) => (h.run w call).toOption

end Htlc

/-! ### The forwarder -/

/-- One relayable call; `dest` is its `to`. -/
structure ForwardRequest where
  fromAddr : EvmAddress
  dest : EvmAddress
  value : U256
  gas : U256
  nonce : U256
  deadline : U256
  data : Bytes
  deriving DecidableEq

/-- The signature words of a request. -/
structure RequestSig where
  v : UInt8
  r : Hash
  s : Hash
  deriving DecidableEq

/-- The forwarder: its address, its chain, and the hash and recovery functions of the chain;
    `ecrecover` answers `address(0)` for no signature. -/
structure Forwarder where
  self : EvmAddress
  chainId : U256
  keccak256 : Bytes → Hash
  ecrecover : Hash → RequestSig → EvmAddress

/-- A `bytes` argument at an absolute offset: a length word, then that many bytes. -/
def bytesAt (b : Bytes) (off : ℕ) : Option Bytes := do
  let len ← u256At b off
  if 2 ^ 64 ≤ len.toNat then none else slice? b (off + 32) len.toNat

/-- A request at an absolute offset; its last word is the offset of its data. -/
def requestAt (b : Bytes) (base : ℕ) : Option ForwardRequest := do
  let fromAddr ← addressAt b base
  let dest ← addressAt b (base + 32)
  let value ← u256At b (base + 64)
  let gas ← u256At b (base + 96)
  let nonce ← u256At b (base + 128)
  let deadline ← u256At b (base + 160)
  let rel ← u256At b (base + 192)
  let data ← bytesAt b (base + rel.toNat)
  return ⟨fromAddr, dest, value, gas, nonce, deadline, data⟩

def executeSignature : String :=
  "execute((address,address,uint256,uint256,uint256,uint256,bytes),uint8,bytes32,bytes32)"

inductive ForwarderError where
  | expiredRequest (deadline nowTs : U256)
  | wrongNonce (given expected : U256)
  | badSignature
  | insufficientRelayGas
  | panic
  deriving DecidableEq

namespace Forwarder

variable (f : Forwarder)

def requestTypehash : Hash := f.keccak256 (asciiBytes
  "ForwardRequest(address from,address to,uint256 value,uint256 gas,uint256 nonce,uint256 deadline,bytes data)")

def domainTypehash : Hash := f.keccak256 (asciiBytes
  "EIP712Domain(string name,string version,uint256 chainId,address verifyingContract)")

def domainSeparator : Hash :=
  f.keccak256 (f.domainTypehash.1 ++ (f.keccak256 (asciiBytes "NimmeshForwarder")).1 ++
    (f.keccak256 (asciiBytes "1")).1 ++ abiWord f.chainId ++ abiAddress f.self)

/-- The arguments of a call of `execute`: the request stands where the first head word points. -/
def decodeExecute (b : Bytes) : Option (ForwardRequest × RequestSig) :=
  if b.take 4 ≠ functionSelector f.keccak256 executeSignature then none
  else do
    let off ← u256At b 4
    let v ← uint8At b 36
    let r ← bytes32At b 68
    let s ← bytes32At b 100
    if 2 ^ 64 ≤ off.toNat then none
    else return (← requestAt b (4 + off.toNat), ⟨v, r, s⟩)

/-- The encoded struct of a request, its data as a hash. -/
def structEncoding (req : ForwardRequest) : Bytes :=
  f.requestTypehash.1 ++ abiAddress req.fromAddr ++ abiAddress req.dest ++ abiWord req.value ++
    abiWord req.gas ++ abiWord req.nonce ++ abiWord req.deadline ++ (f.keccak256 req.data).1

/-- What the digest of a request is the hash of. -/
def digestEncoding (req : ForwardRequest) : Bytes :=
  [0x19, 0x01] ++ f.domainSeparator.1 ++ (f.keccak256 (f.structEncoding req)).1

def requestDigest (req : ForwardRequest) : Hash := f.keccak256 (f.digestEncoding req)

/-- The signer the signature recovers to is the `from` of the request. -/
def Verified (req : ForwardRequest) (sig : RequestSig) : Prop :=
  f.ecrecover (f.requestDigest req) sig = req.fromAddr ∧ req.fromAddr ≠ zeroAddress

/-- Would `execute` accept this request right now? -/
def verify (nonces : EvmAddress → U256) (now : U256) (req : ForwardRequest) (sig : RequestSig) : Bool :=
  if req.deadline < now ∨ req.nonce ≠ nonces req.fromAddr then false
  else
    let signer := f.ecrecover (f.requestDigest req) sig
    signer ≠ zeroAddress && signer = req.fromAddr

end Forwarder

/-! ### The chain -/

/-- An escrow and the forwarder it trusts. -/
structure Relay (T : Type) where
  htlc : Htlc T
  forwarder : Forwarder
  trusted : htlc.trustedForwarder = forwarder.self
  enabled : forwarder.self ≠ zeroAddress

/-- The nonces of the forwarder, the escrow, and what has been executed and created. -/
structure ChainWorld (T : Type) where
  nonces : EvmAddress → U256
  htlc : HtlcWorld T
  executed : List ForwardRequest := []
  forwarded : List Hash := []

/-- The forwarder and the escrow as deployed. -/
def ChainWorld.deployed {T : Type} (t : T) : ChainWorld T := ⟨fun _ => 0, .deployed t, [], []⟩

/-- The slots in use in `after` that were not in `before`. -/
def newSlots {T : Type} (before after : HtlcWorld T) : List Hash :=
  after.swaps.keysWhere fun id e => decide (e.state ≠ .none) && decide ((before.slot id).state = .none)

/-- The caller of a funding call. -/
def Htlc.Call.caller {escrow : EvmAddress} : Htlc.Call escrow → Option EvmAddress
  | .newSwap msg .. | .newSwapWithPermit msg .. => some msg.sender
  | _ => none

namespace Relay

variable {T : Type} (d : Relay T)

/-- The nonce of a request is burnt: the request counts as executed. -/
def burn (w : ChainWorld T) (req : ForwardRequest) : ChainWorld T :=
  { w with nonces := fun a => if a = req.fromAddr then req.nonce + 1 else w.nonces a,
           executed := req :: w.executed }

/-- `execute`: check, burn the nonce, call the target, check the gas left. `target` is the call as the
    chain answers it, `none` if it failed. -/
def execute (w : ChainWorld T) (req : ForwardRequest) (sig : RequestSig)
    (target : ChainWorld T → Option (ChainWorld T)) (gasLeft : U256) :
    Except ForwarderError (Bool × ChainWorld T) :=
  if req.deadline < w.htlc.now then .error (.expiredRequest req.deadline w.htlc.now)
  else if req.nonce ≠ w.nonces req.fromAddr then .error (.wrongNonce req.nonce (w.nonces req.fromAddr))
  else
    let signer := d.forwarder.ecrecover (d.forwarder.requestDigest req) sig
    if signer = zeroAddress ∨ signer ≠ req.fromAddr then .error .badSignature
    else if req.nonce = .allOnes 256 then .error .panic
    else
      let w := burn w req
      let (success, w) := match target w with
        | some w => (true, w)
        | none => (false, w)
      if gasLeft < req.gas / 63 then .error .insufficientRelayGas else .ok (success, w)

/-- The escrow as the target of a request: it is called by the forwarder with the signer appended. -/
def callEscrow (w : ChainWorld T) (req : ForwardRequest) : Option (ChainWorld T) :=
  match d.htlc.dispatch w.htlc ⟨d.forwarder.self, req.data ++ req.fromAddr.1⟩ req.value with
  | some htlc => some { w with htlc, forwarded := newSlots w.htlc htlc ++ w.forwarded }
  | none => none

/-- What code on the chain does, call by call: it calls the escrow or the token without the forwarder, has
    a request executed whose target does `target`, or calls other code that does `body`. A target or a
    body may fail, for want of gas or value or by its own choice. -/
inductive Act where
  | escrow (call : Htlc.Call d.htlc.self) (direct : call.caller ≠ some d.forwarder.self)
  | execute (req : ForwardRequest) (sig : RequestSig) (target : List Act) (fails : Bool) (gasLeft : U256)
  | other (body : List Act) (reverts : Bool)

mutual

/-- Whether an act succeeds, and the state after it. -/
def run (w : ChainWorld T) : Act d → Bool × ChainWorld T
  | .escrow call _ =>
    match d.htlc.run w.htlc call with
    | .ok htlc => (true, { w with htlc })
    | .error _ => (false, w)
  | .execute req sig target fails gasLeft =>
    let code := fun w =>
      if fails then none
      else if req.dest = d.htlc.self then d.callEscrow w req
      else some (runAll w target)
    match d.execute w req sig code gasLeft with
    | .ok (_, w') => (true, w')
    | .error _ => (false, w)
  | .other body reverts => if reverts then (false, w) else (true, runAll w body)

/-- One act after the other; the caller of a failing one goes on. -/
def runAll (w : ChainWorld T) : List (Act d) → ChainWorld T
  | [] => w
  | a :: as => runAll (run w a).2 as

end

/-- A transaction: a block time, and what its first call does. -/
def step (w : ChainWorld T) (tx : U256 × Act d) : ChainWorld T :=
  (d.run { w with htlc := { w.htlc with now := tx.1 } } tx.2).2

def exec (w : ChainWorld T) (txs : List (U256 × Act d)) : ChainWorld T := Run.exec d.step w txs

end Relay

end Nimmesh
