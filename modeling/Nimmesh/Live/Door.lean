import Nimmesh.Live.Signer
import Nimmesh.Swap.Origin
import Mathlib.Data.List.Infix

/-! @src swap_live_ffi_live_impl.rs swap_live_ffi.rs swap_secret.rs swap_intent.rs swap_session.rs rpc.rs
    polygon_gateway.rs nimiq/hex.rs | name:The live responder's door | layer:model

    How a live responder is built from its configuration: the checks, the standing intent that advertises
    one trade, the session and its policies. The trade that the intent advertises bounds the fundings of
    the node exactly as far as the proposals it admits keep to that trade. -/

namespace Nimmesh

inductive NetworkId where | testnet | mainnet
  deriving DecidableEq, Repr

def NetworkId.wireId : NetworkId → UInt8
  | .testnet => testnetWireId
  | .mainnet => mainnetWireId

inductive LiveSwapFfiError where
  | unsupported
  | badInput (reason : String)
  | refused (reason : String)
  | transport (reason : String)
  deriving DecidableEq, Repr

/-- What the app hands over. -/
structure FfiLiveResponderConfig where
  usdcMicro : UInt64
  nimLuna : UInt64
  expiryHeight : UInt64
  nimClaimSeed : Bytes
  evmFundingSecret : Bytes
  nimRpcUrl : String
  amoyRpcUrl : String
  htlcAddress : String
  usdcAddress : String
  deltaSafeBlocks : UInt64
  minClaimWindowBlocks : UInt64

/-- The primitives behind the door: the hashes, and the keys that a seed determines on the two chains.
    Not every secret is a secp256k1 scalar. -/
structure DoorKeys where
  crypto : Crypto
  keccak256 : Bytes → Hash
  blake2b : Blake2b
  publicKey : ByteArr 32 → ByteArr 32
  sign : ByteArr 32 → Bytes → ByteArr 64
  evmKey : ByteArr 32 → Option EvmKey

/-- The hashes as the signers take them. -/
def DoorKeys.chain (k : DoorKeys) : ChainCrypto := ⟨k.keccak256, k.blake2b, k.crypto.addressOf⟩

/-! ### The checks -/

def minDistinctBytes : ℕ := 8

/-- The entropy gate: not all zeros, and enough distinct bytes. -/
def checkSeedEntropy (seed : ByteArr 32) : Except String Unit :=
  if seed.1.all (· = 0) then
    .error ("seed is all zeros — the CSPRNG almost certainly failed and its error was discarded; " ++
      "a zero seed makes every swap secret public-derivable")
  else if seed.1.eraseDups.length < minDistinctBytes then
    .error ("seed has too few distinct byte values to have come from a CSPRNG " ++
      "(a stuck RNG or a hand-typed placeholder)")
  else .ok ()

def seed32 (bytes : Bytes) (what : String) : Except LiveSwapFfiError (ByteArr 32) :=
  match ByteArr.ofBytes? 32 bytes with
  | none => .error (.badInput (what ++ " must be 32 bytes"))
  | some seed =>
    match checkSeedEntropy seed with
    | .error why => .error (.badInput (what ++ ": " ++ why))
    | .ok _ => .ok seed

/-- The hex digit of a character. -/
def nibble (c : Char) : Option UInt8 :=
  if '0' ≤ c ∧ c ≤ '9' then some (c.toNat - 48).toUInt8
  else if 'a' ≤ c ∧ c ≤ 'f' then some (c.toNat - 87).toUInt8
  else if 'A' ≤ c ∧ c ≤ 'F' then some (c.toNat - 55).toUInt8
  else none

def hexPairs : List Char → Option Bytes
  | [] => some []
  | [_] => none
  | hi :: lo :: rest => do
    let h ← nibble hi
    let l ← nibble lo
    return (h * 16 + l) :: (← hexPairs rest)

/-- Decode hex digits, with or without `0x`. -/
def hexToBytes : List Char → Option Bytes
  | '0' :: 'x' :: rest => hexPairs rest
  | s => hexPairs s

/-- The characters that `str::trim` drops. -/
def isWhiteSpace (c : Char) : Bool :=
  c.toNat ∈ [0x20, 0x85, 0xA0, 0x1680, 0x2028, 0x2029, 0x202F, 0x205F, 0x3000] ||
    (0x09 ≤ c.toNat && c.toNat ≤ 0x0D) || (0x2000 ≤ c.toNat && c.toNat ≤ 0x200A)

def trim (s : List Char) : List Char :=
  ((s.dropWhile isWhiteSpace).reverse.dropWhile isWhiteSpace).reverse

def evmAddr (s what : String) : Except LiveSwapFfiError EvmAddress :=
  match (hexToBytes (trim s.toList)).bind (ByteArr.ofBytes? 20) with
  | some a => .ok a
  | none => .error (.badInput (what ++ " must be a 20-byte 0x-hex address"))

/-- The lowercased url contains the host. -/
def mentions (url host : String) : Bool := decide (host.toList <:+: url.toList.map Char.toLower)

/-- Refuse a url that contains one of the hosts, naming the first. -/
def refuseHosts (url : String) (hosts : List String) : Except String Unit :=
  match hosts.find? (mentions url) with
  | some host => .error ("URL '" ++ url ++ "' matches a known mainnet RPC host '" ++ host ++ "'")
  | none => .ok ()

/-- The NIM client's guard; the door only ever asks for testnet. -/
def guardTestnet (url : String) : Except String Unit :=
  (refuseHosts url ["rpc.nimiqwatch.com"]).mapError ("refused non-testnet RPC: " ++ ·)

/-- The mainnet NIM client's guard. -/
def guardNimMainnet (url : String) : Except String Unit :=
  if mentions url "testnet" then
    .error ("refused non-testnet RPC: mainnet gateway refused a testnet-looking RPC url: " ++ url)
  else .ok ()

def guardAmoy (url : String) : Except String Unit :=
  (refuseHosts url ["polygon-rpc.com", "polygon-mainnet", "polygon.llamarpc"]).mapError
    ("refused non-Amoy RPC: " ++ ·)

def guardPolygonMainnet (url : String) : Except String Unit :=
  if ["polygon.drpc.org", "polygon-bor-rpc.publicnode.com"].any (mentions url) then .ok ()
  else .error ("refused non-Amoy RPC: URL '" ++ url ++ "' is not an allow-listed Polygon mainnet RPC host")

/-- The optional gateway behind a client's guard. -/
def buildGateway (guardUrl : String → Except String Unit) : Option String → Except LiveSwapFfiError Unit
  | none => .ok ()
  | some url => (guardUrl url).mapError fun e => .refused ("gateway refused: " ++ e)

/-- Zero asks for the default. -/
def ladder (delta window : UInt64) : LadderParams where
  deltaSafeBlocks := if delta = 0 then defaultDeltaSafeBlocks else delta
  minClaimWindowBlocks := if window = 0 then defaultMinClaimWindowBlocks else window

/-! ### The standing intent -/

/-- The field is unused on the USDC pair, but it rides the wire and salts the swap id. -/
def btcPubkeyFiller (k : DoorKeys) (seed : ByteArr 32) : BtcPubkey :=
  ⟨0x02 :: (k.crypto.sha256 (seed.1 ++ asciiBytes "nimmesh-live-btc-pubkey-filler-v1")).1, by
    rw [List.length_cons, (k.crypto.sha256 _).2]; rfl⟩

/-- Fill in the key, its address, and the signature of the content. -/
def signIntent (k : DoorKeys) (intent : SwapIntent) (seed : ByteArr 32) : SwapIntent :=
  let pubkey := k.publicKey seed
  let intent := { intent with nimPubkey := pubkey, nimAddress := k.crypto.addressOf pubkey }
  { intent with signature := k.sign seed (encodeIntentContent intent) }

def buildLiveIntentOn (k : DoorKeys) (gives : Asset) (nimLuna usdcMicro expiryHeight : UInt64)
    (seed : ByteArr 32) (evmAddress : EvmAddress) (network : NetworkId) :
    Except LiveSwapFfiError SwapIntent :=
  if nimLuna = 0 ∨ usdcMicro = 0 then .error (.badInput "trade amounts must be non-zero")
  else if expiryHeight = 0 then .error (.badInput "expiry_height must be non-zero")
  else if gives ≠ .nim ∧ gives ≠ .usdc then .error (.badInput "live pair is NIM⇄USDC only")
  else .ok (signIntent k
    { gives, counterAsset := .usdc, nimAmount := nimLuna, btcAmount := usdcMicro, expiryHeight,
      minNim := 0, maxNim := Word.u64Max, nimPubkey := ByteArr.fill 32 0,
      nimAddress := ByteArr.fill nimAddressLen 0, btcPubkey := btcPubkeyFiller k seed,
      btcAddress := evmAddress.1, evmAddress, networkId := network.wireId,
      signature := ByteArr.fill 64 0 } seed)

/-- The per-swap secret: a hash of the master that the seed determines, and of the swap id. -/
def secretSource (k : DoorKeys) (seed : ByteArr 32) (swapId : SwapId) : Hash :=
  let master := k.crypto.sha256 (seed.1 ++ asciiBytes "nimmesh-swap-secret-master-v1")
  k.crypto.sha256 (master.1 ++ swapId.1 ++ asciiBytes "nimmesh-swap-secret-v1")

/-! ### The session and the signer -/

/-- What the two networks pin. -/
structure MoneyPath where
  htlc : EvmAddress
  usdc : EvmAddress
  evmChainId : UInt64
  confirmPolicy : ConfirmationPolicy
  caps : Option SwapCaps
  network : NetworkId

def mainnetDefaults : ConfirmationPolicy := ⟨2, 2, 8⟩

def mainnetMoneyPath (htlcAddress : String) : Except LiveSwapFfiError MoneyPath := do
  return { htlc := ← evmAddr htlcAddress "MAINNET_HTLC_ADDRESS"
           usdc := ← evmAddr "0x3c499c542cEF5E3811e1192ce70d8cC03d5c3359" "NATIVE_USDC_POLYGON_MAINNET"
           evmChainId := polygonMainnetChainId
           confirmPolicy := mainnetDefaults
           caps := some .mainnetFirstSwap
           network := .mainnet }

/-- Every default that is unsafe with a live signer was replaced. -/
def liveSafety (s : Session) (chainBacked secretIsSim : Bool) : Except String Unit :=
  if !chainBacked then .error "funding verifier is not chain-backed (sim/accept-all)"
  else if secretIsSim then .error "secret source is the deterministic sim stand-in"
  else if s.requiredDepth .nim = 0 ∨ s.requiredDepth .counterparty = 0 then
    .error "confirmation policy allows zero-confirmation funding"
  else .ok ()

/-- A built responder: its session, the one-shot signer's inner signer, the verifier and the source of
    its secrets. -/
structure LiveResponderNode where
  session : Session
  signer : LiveResponder
  verifier : NimHtlcVerifier
  secrets : SwapId → Hash

/-- The common half of the two constructors: one trade is advertised, one swap is in flight, and every
    rate is accepted. -/
def responderNode (k : DoorKeys) (config : FfiLiveResponderConfig) (money : MoneyPath)
    (claimSeed : ByteArr 32) (evmKey : EvmKey) : Except LiveSwapFfiError LiveResponderNode := do
  let intent ← buildLiveIntentOn k .usdc config.nimLuna config.usdcMicro config.expiryHeight claimSeed
    evmKey.address money.network
  let identity : NodeIdentity :=
    { nimAddress := intent.nimAddress
      btcAddress := evmKey.address.1
      btcPubkey := intent.btcPubkey
      ratePolicy := RatePolicy.acceptAll
      maxConcurrentSwaps := 1
      standingIntent := some intent }
  let session : Session :=
    { Session.new identity (ladder config.deltaSafeBlocks config.minClaimWindowBlocks) with
      counterpartyChain := .usdc
      confirmPolicy := money.confirmPolicy
      caps := money.caps }
  (liveSafety session true false).mapError fun reason => .badInput ("live-safety refused: " ++ reason)
  return { session
           signer := { crypto := k.chain, evmKey, htlc := money.htlc, usdc := money.usdc,
                       nimClaimKey := ⟨(k.publicKey claimSeed).1, fun m => (k.sign claimSeed m).1⟩,
                       evmChainId := money.evmChainId }
           verifier := { crypto := k.chain.blake2b, networkId := money.network.wireId }
           secrets := secretSource k claimSeed }

/-- The EVM key of a funding secret. -/
def fundingKey (k : DoorKeys) (config : FfiLiveResponderConfig) : Except LiveSwapFfiError EvmKey := do
  let evmSecret ← seed32 config.evmFundingSecret "evm_funding_secret"
  match k.evmKey evmSecret with
  | some key => return key
  | none => .error (.badInput "evm_funding_secret is not a valid secp256k1 scalar")

/-- `build_responder`, up to the radio. -/
def buildResponder (k : DoorKeys) (config : FfiLiveResponderConfig) (gatewayRpcUrl : Option String) :
    Except LiveSwapFfiError LiveResponderNode := do
  let claimSeed ← seed32 config.nimClaimSeed "nim_claim_seed"
  let evmKey ← fundingKey k config
  let htlc ← evmAddr config.htlcAddress "htlc_address"
  let usdc ← evmAddr config.usdcAddress "usdc_address"
  (guardTestnet config.nimRpcUrl).mapError .refused
  (guardAmoy config.amoyRpcUrl).mapError .refused
  let node ← responderNode k config
    ⟨htlc, usdc, polygonAmoyChainId, .testnetDefaults, none, .testnet⟩ claimSeed evmKey
  buildGateway guardTestnet gatewayRpcUrl
  return node

/-- `assemble_responder_mainnet`. -/
def assembleResponderMainnet (k : DoorKeys) (config : FfiLiveResponderConfig)
    (gatewayRpcUrl : Option String) (htlcAddress : String) :
    Except LiveSwapFfiError LiveResponderNode := do
  let money ← mainnetMoneyPath htlcAddress
  let claimSeed ← seed32 config.nimClaimSeed "nim_claim_seed"
  let evmKey ← fundingKey k config
  (guardNimMainnet config.nimRpcUrl).mapError .refused
  (guardPolygonMainnet config.amoyRpcUrl).mapError .refused
  let node ← responderNode k config money claimSeed evmKey
  buildGateway guardNimMainnet gatewayRpcUrl
  return node

/-! ### What a built node advertises -/

theorem bind_eq_ok {ε α β : Type} {x : Except ε α} {f : α → Except ε β} {b : β}
    (h : (x >>= f) = .ok b) : ∃ a, x = .ok a ∧ f a = .ok b := by
  cases x with
  | error e => cases h
  | ok a => exact ⟨a, rfl, h⟩

theorem toOption_eq_some {ε α : Type} {x : Except ε α} {a : α} (h : x.toOption = some a) : x = .ok a := by
  cases x with
  | error e => cases h
  | ok b =>
    cases h
    rfl

/-- A built responder is the common half over some money path. -/
theorem buildResponder_ok {k : DoorKeys} {config : FfiLiveResponderConfig} {gateway : Option String}
    {node : LiveResponderNode} (h : buildResponder k config gateway = .ok node) :
    ∃ money claimSeed evmKey, responderNode k config money claimSeed evmKey = .ok node := by
  obtain ⟨claimSeed, -, h⟩ := bind_eq_ok h
  obtain ⟨evmKey, -, h⟩ := bind_eq_ok h
  obtain ⟨htlc, -, h⟩ := bind_eq_ok h
  obtain ⟨usdc, -, h⟩ := bind_eq_ok h
  obtain ⟨_, -, h⟩ := bind_eq_ok h
  obtain ⟨_, -, h⟩ := bind_eq_ok h
  obtain ⟨node', hnode, h⟩ := bind_eq_ok h
  obtain ⟨_, -, h⟩ := bind_eq_ok h
  cases h
  exact ⟨_, claimSeed, evmKey, hnode⟩

theorem assembleResponderMainnet_ok {k : DoorKeys} {config : FfiLiveResponderConfig}
    {gateway : Option String} {htlc : String} {node : LiveResponderNode}
    (h : assembleResponderMainnet k config gateway htlc = .ok node) :
    ∃ money claimSeed evmKey, responderNode k config money claimSeed evmKey = .ok node := by
  obtain ⟨money, -, h⟩ := bind_eq_ok h
  obtain ⟨claimSeed, -, h⟩ := bind_eq_ok h
  obtain ⟨evmKey, -, h⟩ := bind_eq_ok h
  obtain ⟨_, -, h⟩ := bind_eq_ok h
  obtain ⟨_, -, h⟩ := bind_eq_ok h
  obtain ⟨node', hnode, h⟩ := bind_eq_ok h
  obtain ⟨_, -, h⟩ := bind_eq_ok h
  cases h
  exact ⟨money, claimSeed, evmKey, hnode⟩

/-- One of the two constructors built the node. -/
def Built (k : DoorKeys) (config : FfiLiveResponderConfig) (gateway : Option String)
    (node : LiveResponderNode) : Prop :=
  buildResponder k config gateway = .ok node ∨
    ∃ htlc, assembleResponderMainnet k config gateway htlc = .ok node

theorem Built.node {k : DoorKeys} {config : FfiLiveResponderConfig} {gateway : Option String}
    {node : LiveResponderNode} (h : Built k config gateway node) :
    ∃ money claimSeed evmKey, responderNode k config money claimSeed evmKey = .ok node := by
  rcases h with h | ⟨htlc, h⟩
  · exact buildResponder_ok h
  · exact assembleResponderMainnet_ok h

/-- The intent of one configured trade. -/
structure Advertises (intent : SwapIntent) (config : FfiLiveResponderConfig) : Prop where
  gives : intent.gives = .usdc
  nimAmount : intent.nimAmount = config.nimLuna
  usdcAmount : intent.btcAmount = config.usdcMicro

theorem buildLiveIntentOn_ok {k : DoorKeys} {gives : Asset} {nimLuna usdcMicro expiryHeight : UInt64}
    {seed : ByteArr 32} {evmAddress : EvmAddress} {network : NetworkId} {intent : SwapIntent}
    (h : buildLiveIntentOn k gives nimLuna usdcMicro expiryHeight seed evmAddress network = .ok intent) :
    intent.gives = gives ∧ intent.nimAmount = nimLuna ∧ intent.btcAmount = usdcMicro ∧
      intent.nimAddress = k.crypto.addressOf (k.publicKey seed) := by
  simp only [buildLiveIntentOn] at h
  split_ifs at h
  cases h
  exact ⟨rfl, rfl, rfl, rfl⟩

/-- The claim key of a node owns the address that its session gives out, and its verifier and its signer
    hash alike. -/
structure LiveResponderNode.Owns (node : LiveResponderNode) (key : ByteArr 32) (sign : Bytes → ByteArr 64) :
    Prop where
  claimKey : node.signer.nimClaimKey = ⟨key.1, fun m => (sign m).1⟩
  nimAddress : node.signer.crypto.addressOf key = node.session.identity.nimAddress
  blake2b : node.verifier.crypto = node.signer.crypto.blake2b

/-- The session of a built node starts empty and advertises the configured trade. -/
theorem responderNode_ok {k : DoorKeys} {config : FfiLiveResponderConfig} {money : MoneyPath}
    {claimSeed : ByteArr 32} {evmKey : EvmKey} {node : LiveResponderNode}
    (h : responderNode k config money claimSeed evmKey = .ok node) :
    node.session.Fresh ∧ node.Owns (k.publicKey claimSeed) (k.sign claimSeed) ∧
      ∃ intent, node.session.identity.standingIntent = some intent ∧ Advertises intent config := by
  obtain ⟨intent, hintent, h⟩ := bind_eq_ok h
  obtain ⟨_, -, h⟩ := bind_eq_ok h
  cases h
  obtain ⟨hg, hn, hu, ha⟩ := buildLiveIntentOn_ok hintent
  exact ⟨⟨rfl, rfl, rfl, rfl, rfl⟩, ⟨rfl, ha.symm, rfl⟩, intent, rfl, hg, hn, hu⟩

/-! ### The advertised trade -/

/-- The trade is no larger than the advertised one, and pays at least its rate. -/
def WithinAdvert (intent : SwapIntent) (giveAmount takeAmount : UInt64) : Prop :=
  takeAmount ≤ intent.btcAmount ∧
    takeAmount.toNat * intent.nimAmount.toNat ≤ giveAmount.toNat * intent.btcAmount.toNat

instance (intent : SwapIntent) (give take : UInt64) : Decidable (WithinAdvert intent give take) :=
  inferInstanceAs (Decidable (_ ∧ _))

namespace Session

/-- The call is no `Propose` that the session would let in outside the advertised trade. -/
def ProposesWithin (env : Env) (intent : SwapIntent) (s : Session) : Op → Prop
  | .message .propose payload head => ∀ e p, decodeSwap .propose payload = .ok e →
      SwapProposal.fromEnvelope e = some p → e.swapId ∉ s.coordinators → Admits env s e head →
      WithinAdvert intent p.giveAmount p.takeAmount
  | _ => True

/-- The held responder swaps keep to the advertised trade, and so did every funding that was asked for. -/
structure KeepsAdvert (env : Env) (intent : SwapIntent) (s : Session) : Prop where
  wf : s.WF env
  held : ∀ k c, s.coordinators.lookup k = some c → c.role = .responder →
    WithinAdvert intent c.ctx.giveAmount c.ctx.takeAmount
  asked : ∀ id ctx head answer, .builtFunding id .responder ctx head answer ∈ s.trace →
    WithinAdvert intent ctx.giveAmount ctx.takeAmount

theorem keepsAdvert_step {env : Env} {intent : SwapIntent} (s : Session) (op : Op)
    (h : KeepsAdvert env intent s) (hop : ProposesWithin env intent s op) :
    KeepsAdvert env intent (s.step env op) where
  wf := (step_config_wf h.wf op).2
  held := by
    intro k c hc hrole
    rcases step_origin h.wf op hc with ⟨c₀, hc₀, hr, hx⟩ | hcr
    · rw [hx]
      exact h.held k c₀ hc₀ (hr.symm.trans hrole)
    · cases op with
      | message kind payload head =>
        obtain ⟨rfl, -, e, p, he, rfl, hmem, hp, had, hx⟩ := hcr
        rw [hx]
        exact hop e p he hp hmem had
      | initiate id head =>
        obtain ⟨-, hi, -⟩ := hcr
        rw [hi] at hrole
        cases hrole
      | _ => exact hcr.elim
  asked := by
    intro id ctx head answer hm
    obtain ⟨new, htr, hnew⟩ := step_trace h.wf op
    rw [htr] at hm
    rcases List.mem_append.mp hm with hm | hm
    · obtain ⟨c, hc, hr, rfl⟩ := held_of_builtFunding (hnew _ hm)
      exact h.held id c hc hr
    · exact h.asked id ctx head answer hm

end Session

/-- SAFE: a built responder advertises one trade, and as long as every proposal that it admits keeps to
    that trade, so does every USDC funding that its signer is asked for. -/
theorem fundings_within_advert (k : DoorKeys) (config : FfiLiveResponderConfig) (gateway : Option String)
    (node : LiveResponderNode) (hnode : Built k config gateway node) :
    ∃ intent, node.session.identity.standingIntent = some intent ∧ Advertises intent config ∧
      ∀ (env : Env) (ops : List Op),
        Run.Along (Session.step env) (Session.ProposesWithin env intent) node.session ops →
        ∀ id ctx head answer,
          .builtFunding id .responder ctx head answer ∈ (node.session.exec env ops).trace →
          WithinAdvert intent ctx.giveAmount ctx.takeAmount := by
  obtain ⟨money, claimSeed, evmKey, hbuilt⟩ := hnode.node
  obtain ⟨hfresh, -, intent, hst, had⟩ := responderNode_ok hbuilt
  refine ⟨intent, hst, had, fun env ops hok => ?_⟩
  have hstart : node.session.KeepsAdvert env intent :=
    { wf := hfresh.wf env
      held := fun k c hc => by rw [hfresh.coordinators] at hc; cases hc
      asked := fun id ctx head answer hm => by rw [hfresh.trace] at hm; cases hm }
  exact (Run.exec_invariant (Session.step env) Session.keepsAdvert_step ops node.session hstart hok).asked

namespace Sample

/-- The seed `01 02 … 20` of the responder's NIM claim key. -/
def claimSeed : ByteArr 32 := ⟨(List.range 32).map fun n => (n + 1).toUInt8, rfl⟩

/-- The secret `21 22 … 40` of the responder's EVM account. -/
def fundingSecret : ByteArr 32 := ⟨(List.range 32).map fun n => (n + 33).toUInt8, rfl⟩

def claimPubkey : ByteArr 32 :=
  ⟨[0x79, 0xb5, 0x56, 0x2e, 0x8f, 0xe6, 0x54, 0xf9, 0x40, 0x78, 0xb1, 0x12, 0xe8, 0xa9, 0x8b, 0xa7,
    0x90, 0x1f, 0x85, 0x3a, 0xe6, 0x95, 0xbe, 0xd7, 0xe0, 0xe3, 0x91, 0x0b, 0xad, 0x04, 0x96, 0x64], rfl⟩

def claimNimAddress : NimAddress :=
  ⟨[0x4d, 0x4d, 0xbe, 0x91, 0x75, 0x44, 0xb0, 0x79, 0x22, 0x34, 0x8a, 0x66, 0xb9, 0xc4, 0xb5, 0xa5,
    0xa5, 0xf3, 0x4a, 0x9f], rfl⟩

def fillerHash : Hash :=
  ⟨[0xa6, 0x8e, 0x16, 0x2c, 0xbb, 0x5c, 0x4c, 0x36, 0x9b, 0xa3, 0xd5, 0x08, 0x42, 0x38, 0x0f, 0x25,
    0x8c, 0x42, 0x2c, 0xf4, 0x4a, 0xdc, 0x7f, 0x9c, 0x23, 0x45, 0xf3, 0xd1, 0x83, 0x73, 0x3a, 0x37], rfl⟩

def fundingAccount : EvmAddress :=
  ⟨[0x67, 0x7b, 0xb7, 0x27, 0x0e, 0x0b, 0x03, 0xf0, 0xa2, 0x99, 0x3a, 0x69, 0x76, 0x54, 0xfb, 0x8e,
    0xcb, 0x6d, 0xee, 0x91], rfl⟩

/-- The signature of the advert of 100 000 micro-USDC for 200 000 luna. -/
def advertSignature : ByteArr 64 :=
  ⟨[0x5b, 0xda, 0x8c, 0xd0, 0xa3, 0x0a, 0xad, 0x6c, 0xa9, 0x9c, 0xec, 0x5d, 0x13, 0xf0, 0xda, 0xa0,
    0x47, 0x1a, 0xa6, 0x07, 0xfb, 0x93, 0xd8, 0x24, 0x33, 0x51, 0xd5, 0x12, 0x46, 0x02, 0x75, 0x82,
    0xb2, 0xc3, 0x49, 0xf0, 0x78, 0x9a, 0x8f, 0xdd, 0x03, 0xe2, 0xc1, 0x37, 0xee, 0xa6, 0xf0, 0x66,
    0xa1, 0x00, 0x35, 0x2e, 0x87, 0x61, 0xa4, 0xc8, 0x12, 0x0e, 0x08, 0x0e, 0xcc, 0xac, 0x50, 0x01], rfl⟩

/-- The signature of the advert of 50 000 micro-USDC for 500 000 luna. -/
def dearAdvertSignature : ByteArr 64 :=
  ⟨[0x63, 0x22, 0x6d, 0x3e, 0xb8, 0xe9, 0xbc, 0xaf, 0x60, 0xd1, 0x3c, 0xf6, 0xde, 0x2c, 0xb5, 0x21,
    0x2d, 0xe1, 0x45, 0x2c, 0x61, 0x65, 0xca, 0x0c, 0xf2, 0x67, 0xeb, 0xd1, 0xad, 0xc4, 0x38, 0x9f,
    0xcf, 0xb1, 0xc8, 0x9a, 0x57, 0xbe, 0xb3, 0x61, 0xcb, 0x15, 0x0c, 0xe9, 0x2d, 0xc1, 0xc1, 0x9f,
    0x96, 0x45, 0x95, 0x1a, 0xfe, 0xcf, 0xa0, 0x31, 0x91, 0x5b, 0xbd, 0xf2, 0x5f, 0x21, 0x1b, 0x08], rfl⟩

/-- The address of a sample key. -/
def addressOfKey (k : ByteArr 32) : NimAddress := if k = claimPubkey then claimNimAddress else crypto.addressOf k

/-- The primitives on the sample's inputs; the two adverts are the only contents signed here. -/
def doorKeys : DoorKeys where
  crypto :=
    { crypto with
      sha256 := fun b =>
        if b = claimSeed.1 ++ asciiBytes "nimmesh-live-btc-pubkey-filler-v1" then fillerHash
        else crypto.sha256 b
      addressOf := addressOfKey }
  keccak256 := keccak256
  blake2b _ := ByteArr.fill 32 0
  publicKey seed := if seed = claimSeed then claimPubkey else ByteArr.fill 32 0
  sign _ m := if (m.drop 2).take 8 = beBytes 500000 then dearAdvertSignature else advertSignature
  evmKey secret := if secret = fundingSecret then some ⟨fundingAccount, signHash⟩ else none

/-- A responder that advertises `usdcMicro` for `nimLuna`. -/
def liveConfig (nimLuna usdcMicro : UInt64) : FfiLiveResponderConfig where
  usdcMicro := usdcMicro
  nimLuna := nimLuna
  expiryHeight := 1000000
  nimClaimSeed := claimSeed.1
  evmFundingSecret := fundingSecret.1
  nimRpcUrl := "https://rpc.testnet.nimiqwatch.com"
  amoyRpcUrl := "https://rpc-amoy.polygon.technology"
  htlcAddress := "0xeeeeeeeeeeeeeeeeeeeeeeeeeeeeeeeeeeeeeeee"
  usdcAddress := "0xdddddddddddddddddddddddddddddddddddddddd"
  deltaSafeBlocks := 0
  minClaimWindowBlocks := 0

/-- What the door builds for that responder. -/
def liveNode (nimLuna usdcMicro : UInt64) : Option LiveResponderNode :=
  (buildResponder doorKeys (liveConfig nimLuna usdcMicro) none).toOption

/-- The mock mesh over these primitives. -/
def doorEnv : Env := { env with toCrypto := doorKeys.crypto }

/-- A proposal of 200 000 luna for 100 000 micro-USDC, and the proof of its NIM funding. -/
def fundRun : List Op := packet .propose propose 0 ++ packet .fundingProof (fundingProof .nim) 0

/-- The funding of that proposal, as the node's signer is asked for it. -/
def askedFunding (node : LiveResponderNode) : Event :=
  let ctx := node.session.responderContext proposal 0
  .builtFunding swapId .responder ctx 0 (MockSigner.buildFunding ctx .counterparty)

theorem decode_propose {e : SwapEnvelope} {p : SwapProposal}
    (he : decodeSwap .propose propose = .ok e) (hp : SwapProposal.fromEnvelope e = some p) :
    p = proposal := by
  have h : decodeSwap .propose propose = .ok (proposal.toSignedEnvelope pubkey signature) := by
    decide +kernel
  rw [h] at he
  cases he
  have h' : SwapProposal.fromEnvelope (proposal.toSignedEnvelope pubkey signature) = some proposal := by
    decide +kernel
  rw [h'] at hp
  cases hp
  rfl

end Sample

theorem sample_funding_within_advert :
    (Sample.liveNode 200000 100000).map (fun node =>
      decide (Sample.askedFunding node ∈ (node.session.exec Sample.doorEnv Sample.fundRun).trace)) = some true ∧
    ∀ node, Sample.liveNode 200000 100000 = some node → ∀ id ctx head answer,
      .builtFunding id .responder ctx head answer ∈
        (node.session.exec Sample.doorEnv Sample.fundRun).trace →
      ctx.takeAmount ≤ 100000 ∧ ctx.takeAmount.toNat * 200000 ≤ ctx.giveAmount.toNat * 100000 := by
  refine ⟨by decide +kernel, fun node hnode id ctx head answer hm => ?_⟩
  obtain ⟨intent, -, had, hrun⟩ :=
    fundings_within_advert _ _ _ node (.inl (toOption_eq_some hnode))
  have hnim : intent.nimAmount = 200000 := had.nimAmount
  have husdc : intent.btcAmount = 100000 := had.usdcAmount
  have hwithin : WithinAdvert intent Sample.proposal.giveAmount Sample.proposal.takeAmount := by
    rw [WithinAdvert, hnim, husdc]
    decide
  have hok : Run.Along (Session.step Sample.doorEnv) (Session.ProposesWithin Sample.doorEnv intent)
      node.session Sample.fundRun := by
    refine ⟨fun e p he hp _ _ => ?_, trivial, trivial, trivial, trivial⟩
    rw [Sample.decode_propose he hp]
    exact hwithin
  have h := hrun Sample.doorEnv Sample.fundRun hok id ctx head answer hm
  rw [WithinAdvert, hnim, husdc] at h
  exact h

/-- A responder that advertises 50 000 micro-USDC for 500 000 luna funds 100 000 micro-USDC for
    200 000 luna. -/
theorem dear_advert_funds_cheap_proposal :
    ∃ node intent, buildResponder Sample.doorKeys (Sample.liveConfig 500000 50000) none = .ok node ∧
      node.session.identity.standingIntent = some intent ∧
      ∃ ctx answer, .builtFunding Sample.swapId .responder ctx 0 answer ∈
          (node.session.exec Sample.doorEnv Sample.fundRun).trace ∧
        ¬ ctx.takeAmount ≤ intent.btcAmount ∧
        ¬ ctx.takeAmount.toNat * intent.nimAmount.toNat ≤
          ctx.giveAmount.toNat * intent.btcAmount.toNat := by
  have hrun : (Sample.liveNode 500000 50000).map (fun node =>
      decide (Sample.askedFunding node ∈ (node.session.exec Sample.doorEnv Sample.fundRun).trace)) =
      some true := by
    decide +kernel
  rw [Option.map_eq_some_iff] at hrun
  obtain ⟨node, hnode, hm⟩ := hrun
  have hok := toOption_eq_some hnode
  obtain ⟨money, claimSeed, evmKey, hbuilt⟩ := buildResponder_ok hok
  obtain ⟨-, -, intent, hst, had⟩ := responderNode_ok hbuilt
  refine ⟨node, intent, hok, hst, _, _, of_decide_eq_true hm, ?_⟩
  have htake : (node.session.responderContext Sample.proposal 0).takeAmount = 100000 := rfl
  have hgive : (node.session.responderContext Sample.proposal 0).giveAmount = 200000 := rfl
  rw [had.nimAmount, had.usdcAmount, htake, hgive]
  exact ⟨by decide, by decide⟩

end Nimmesh
