import Nimmesh.Mesh.Settlement
import Nimmesh.Mesh.Queries
import Nimmesh.Mesh.Beacon

/-! @src gateway.rs rpc.rs transport.rs | name:Gateways | layer:model

    The one place where the mesh meets the chain. A gateway's answers come from outside: each call
    carries the number of the consultation it is, and the answer is any function of that number. What
    `RpcGateway` makes of the answers of its RPC node is written out. -/

namespace Nimmesh

inductive MeshError where
  | notStarted
  | gateway (reason : String)
  deriving DecidableEq, Repr

structure Receipt where
  txId : TxId
  status : ReceiptStatus
  deriving DecidableEq

/-- What the engine hands a gateway: the opaque wire and the public fields around it. -/
structure SubmitContext where
  txId : TxId
  txWire : Bytes
  networkId : UInt8
  validUntil : Option UInt32
  deriving DecidableEq

/-- A gateway's reading of a balance. -/
structure BalanceAnswer where
  balance : UInt64
  headHeight : UInt32
  networkId : UInt8
  deriving DecidableEq

/-- The gateway seam; the number tells one consultation from another. -/
structure MeshGateway where
  submitValidated : ℕ → SubmitContext → Except MeshError Receipt
  headBeacon : ℕ → Option HeadBeacon
  balanceOf : ℕ → NimAddress → Option BalanceAnswer
  historyOf : ℕ → NimAddress → Option HistoryResponse

/-! ### The RPC gateway -/

inductive RpcError where
  | notTestnet (reason : String)
  | http (status : UInt16) (method : String)
  | transport (e : String)
  | rpc (method message : String)
  | badResponse (method : String)
  deriving DecidableEq, Repr

/-- Retrying might succeed. -/
def RpcError.isTransient : RpcError → Bool
  | .transport _ => true
  | .http status _ => decide (500 ≤ status) || decide (status = 429)
  | _ => false

def RpcError.display : RpcError → String
  | .notTestnet reason => s!"refused non-testnet RPC: {reason}"
  | .http status method => s!"rpc http {status} ({method})"
  | .transport e => s!"rpc transport error: {e}"
  | .rpc method message => s!"{method}: {message}"
  | .badResponse method => s!"{method}: malformed response"

/-- The head height and hash an RPC node reports. -/
structure RpcHead where
  height : UInt32
  hash : Hash

/-- The RPC client: what the node at the other end answers. Account and history rows are given as the
    gateway reads them. -/
structure GatewayRpc where
  blockNumber : ℕ → Except RpcError UInt32
  latestBlock : ℕ → Except RpcError RpcHead
  accountBalance : ℕ → NimAddress → Except RpcError (Option UInt64)
  history : ℕ → NimAddress → Option HistoryResponse
  sendRawTransaction : ℕ → Bytes → Except RpcError String

namespace RpcGateway

/-- Hand the wire to the node: a transient failure leaves the transaction to a retry. -/
def broadcast (rpc : GatewayRpc) (i : ℕ) (ctx : SubmitContext) : Except MeshError Receipt :=
  match rpc.sendRawTransaction i ctx.txWire with
  | .ok _ => .ok ⟨ctx.txId, .accepted⟩
  | .error e => if e.isTransient then .error (.gateway e.display) else .ok ⟨ctx.txId, .failed⟩

/-- Guard the network, then the validity window, then broadcast. -/
def submitValidated (rpc : GatewayRpc) (networkId : UInt8) (i : ℕ) (ctx : SubmitContext) :
    Except MeshError Receipt :=
  if ctx.networkId ≠ networkId then .ok ⟨ctx.txId, .failed⟩
  else match ctx.validUntil with
    | none => broadcast rpc i ctx
    | some validUntil =>
      match rpc.blockNumber i with
      | .error e => .error (.gateway e.display)
      | .ok head => if validUntil ≤ head then .ok ⟨ctx.txId, .expired⟩ else broadcast rpc i ctx

def headBeacon (rpc : GatewayRpc) (networkId : UInt8) (i : ℕ) : Option HeadBeacon :=
  match rpc.latestBlock i with
  | .ok head => some ⟨head.height, head.hash, networkId⟩
  | .error _ => none

def balanceOf (rpc : GatewayRpc) (networkId : UInt8) (i : ℕ) (address : NimAddress) : Option BalanceAnswer :=
  match rpc.blockNumber i, rpc.accountBalance i address with
  | .ok headHeight, .ok (some balance) => some ⟨balance, headHeight, networkId⟩
  | _, _ => none

end RpcGateway

/-- The gateway over an RPC client, for one network. -/
def rpcGateway (rpc : GatewayRpc) (networkId : UInt8) : MeshGateway where
  submitValidated := RpcGateway.submitValidated rpc networkId
  headBeacon := RpcGateway.headBeacon rpc networkId
  balanceOf := RpcGateway.balanceOf rpc networkId
  historyOf := rpc.history

end Nimmesh
