import Nimmesh.Contract.Erc20
import Nimmesh.Lib.Run
import Nimmesh.Lib.Table

/-! @src contracts/src/NimmeshHtlc.sol | name:USDC escrow | layer:model

    The hashed-timelock escrow: `newSwap` pulls the funder's tokens into a slot, `withdraw` pays the
    receiver against the secret until the timelock, `refund` pays the sender after it. A transaction
    that reverts leaves no trace but the clock. The payouts are ghost state: one record for each token
    transfer out of the escrow. -/

namespace Nimmesh

/-- The lifecycle of a slot. -/
inductive EscrowState where | none | live | claimed | refunded
  deriving DecidableEq, Repr

/-- A `Swap` slot of the contract. -/
structure Escrow where
  sender : EvmAddress
  receiver : EvmAddress
  amount : U256
  hashlock : Hash
  timelock : U256
  state : EscrowState
  deriving DecidableEq

/-- What an unwritten slot reads. -/
def Escrow.unwritten : Escrow :=
  ⟨zeroAddress, zeroAddress, 0, ByteArr.fill 32 0, 0, .none⟩

inductive HtlcEvent where
  | newSwap (swapId : Hash) (sender receiver : EvmAddress) (amount : U256) (hashlock : Hash)
      (timelock : U256)
  | withdrawn (swapId secret : Hash)
  | refunded (swapId : Hash)
  deriving DecidableEq

inductive HtlcError where
  | zeroReceiver
  | zeroAmount
  | timelockNotFuture (timelock nowTs : U256)
  | swapAlreadyExists (swapId : Hash)
  | unknownSwap (swapId : Hash)
  | notLive (swapId : Hash)
  | wrongSecret
  | claimWindowClosed (timelock nowTs : U256)
  | timeoutNotReached (timelock nowTs : U256)
  | transferFailed
  | tokenReverted
  deriving DecidableEq

/-- A transfer out of the escrow: for which slot, to whom, how much, when, and with which secret if it is
    a claim. -/
structure Payout where
  swapId : Hash
  dst : EvmAddress
  amount : U256
  secret : Option Hash
  time : U256
  deriving DecidableEq

/-- A deployment: its own address, the immutables, and the two hash functions of the chain. -/
structure Htlc (T : Type) where
  self : EvmAddress
  token : Erc20 T
  trustedForwarder : EvmAddress
  sha256 : Bytes → Hash
  keccak256 : Bytes → Hash

/-- The token, the storage of the escrow, its event log, its payouts and the block time. -/
structure HtlcWorld (T : Type) where
  token : T
  swaps : Table Hash Escrow := ∅
  events : List HtlcEvent := []
  payouts : List Payout := []
  now : U256 := 0

/-- The caller of a transaction and its calldata. -/
structure Msg where
  sender : EvmAddress
  data : Bytes

/-- A `uint256` as 32 big-endian bytes. -/
def abiWord (v : U256) : Bytes := (List.range 32).map fun i => (v >>> (8 * (31 - i))).toNat.toUInt8

/-- `keccak256(abi.encodePacked(sender, receiver, amount, hashlock, timelock))`. -/
def swapIdFor (keccak256 : Bytes → Hash) (sender receiver : EvmAddress) (amount : U256) (hashlock : Hash)
    (timelock : U256) : Hash :=
  keccak256 (sender.1 ++ receiver.1 ++ abiWord amount ++ hashlock.1 ++ abiWord timelock)

/-- `swaps[swapId]`. -/
def HtlcWorld.slot {T : Type} (w : HtlcWorld T) (swapId : Hash) : Escrow :=
  (w.swaps.lookup swapId).getD .unwritten

/-- `getSwap`: the six fields of a slot. -/
def HtlcWorld.getSwap {T : Type} (w : HtlcWorld T) (swapId : Hash) :
    EvmAddress × EvmAddress × U256 × Hash × U256 × EscrowState :=
  let s := w.slot swapId
  (s.sender, s.receiver, s.amount, s.hashlock, s.timelock, s.state)

/-- The payouts of one slot. -/
def HtlcWorld.paid {T : Type} (w : HtlcWorld T) (swapId : Hash) : List Payout :=
  w.payouts.filter fun p => p.swapId = swapId

/-- What a slot has locked. -/
def Escrow.locked (e : Escrow) : ℕ := if e.state = .live then e.amount.toNat else 0

/-- The escrow as deployed over a token in state `t`. -/
def HtlcWorld.deployed {T : Type} (t : T) : HtlcWorld T := { token := t }

namespace Htlc

/-- A transaction on the chain: a call of the escrow by anyone, or a token call by anyone else. -/
inductive Call (escrow : EvmAddress) where
  | newSwap (msg : Msg) (receiver : EvmAddress) (amount : U256) (hashlock : Hash) (timelock : U256)
  | newSwapWithPermit (msg : Msg) (receiver : EvmAddress) (amount : U256) (hashlock : Hash)
      (timelock : U256) (sig : PermitSig)
  | withdraw (swapId secret : Hash)
  | refund (swapId : Hash)
  | token (call : Erc20.OutsideCall escrow)

/-- A call and the timestamp of its block. -/
structure Tx (escrow : EvmAddress) where
  time : U256
  call : Call escrow

variable {T : Type} (h : Htlc T)

/-- `_msgSender`: behind the trusted forwarder the caller is the last 20 bytes of the calldata. -/
def msgSender (msg : Msg) : EvmAddress :=
  if msg.sender = h.trustedForwarder ∧ h.trustedForwarder ≠ zeroAddress ∧ 20 ≤ msg.data.length then
    (ByteArr.ofBytes? 20 (msg.data.drop (msg.data.length - 20))).getD msg.sender
  else msg.sender

/-- `_newSwap`: check, write the slot, emit, pull the tokens. -/
def newSwapFrom (w : HtlcWorld T) (funder receiver : EvmAddress) (amount : U256) (hashlock : Hash)
    (timelock : U256) : Except HtlcError (HtlcWorld T) :=
  if receiver = zeroAddress then .error .zeroReceiver
  else if amount = 0 then .error .zeroAmount
  else if timelock ≤ w.now then .error (.timelockNotFuture timelock w.now)
  else
    let swapId := swapIdFor h.keccak256 funder receiver amount hashlock timelock
    if (w.slot swapId).state ≠ .none then .error (.swapAlreadyExists swapId)
    else
      let w := { w with
        swaps := w.swaps.insert swapId ⟨funder, receiver, amount, hashlock, timelock, .live⟩,
        events := .newSwap swapId funder receiver amount hashlock timelock :: w.events }
      match h.token.transferFrom w.token h.self funder h.self amount.toNat with
      | none => .error .tokenReverted
      | some (false, _) => .error .transferFailed
      | some (true, token) => .ok { w with token }

def newSwap (w : HtlcWorld T) (msg : Msg) (receiver : EvmAddress) (amount : U256) (hashlock : Hash)
    (timelock : U256) : Except HtlcError (HtlcWorld T) :=
  h.newSwapFrom w (h.msgSender msg) receiver amount hashlock timelock

/-- `newSwapWithPermit`: a permit that fails is ignored. -/
def newSwapWithPermit (w : HtlcWorld T) (msg : Msg) (receiver : EvmAddress) (amount : U256)
    (hashlock : Hash) (timelock : U256) (sig : PermitSig) : Except HtlcError (HtlcWorld T) :=
  let funder := h.msgSender msg
  let token := (h.token.permit w.token w.now funder h.self amount.toNat sig).getD w.token
  h.newSwapFrom { w with token } funder receiver amount hashlock timelock

/-- The last part of `withdraw` and `refund`: the slot is resolved, the event emitted, then the tokens
    move. -/
def payOut (w : HtlcWorld T) (swapId : Hash) (s : Escrow) (state : EscrowState) (event : HtlcEvent)
    (dst : EvmAddress) (secret : Option Hash) : Except HtlcError (HtlcWorld T) :=
  let w := { w with swaps := w.swaps.insert swapId { s with state }, events := event :: w.events }
  match h.token.transfer w.token h.self dst s.amount.toNat with
  | none => .error .tokenReverted
  | some (false, _) => .error .transferFailed
  | some (true, token) =>
    .ok { w with token, payouts := ⟨swapId, dst, s.amount, secret, w.now⟩ :: w.payouts }

def withdraw (w : HtlcWorld T) (swapId secret : Hash) : Except HtlcError (HtlcWorld T) :=
  let s := w.slot swapId
  if s.state = .none then .error (.unknownSwap swapId)
  else if s.state ≠ .live then .error (.notLive swapId)
  else if h.sha256 secret.1 ≠ s.hashlock then .error .wrongSecret
  else if s.timelock < w.now then .error (.claimWindowClosed s.timelock w.now)
  else h.payOut w swapId s .claimed (.withdrawn swapId secret) s.receiver (some secret)

def refund (w : HtlcWorld T) (swapId : Hash) : Except HtlcError (HtlcWorld T) :=
  let s := w.slot swapId
  if s.state = .none then .error (.unknownSwap swapId)
  else if s.state ≠ .live then .error (.notLive swapId)
  else if w.now ≤ s.timelock then .error (.timeoutNotReached s.timelock w.now)
  else h.payOut w swapId s .refunded (.refunded swapId) s.sender none

/-! ### Transactions -/

def run (w : HtlcWorld T) : Call h.self → Except HtlcError (HtlcWorld T)
  | .newSwap msg receiver amount hashlock timelock => h.newSwap w msg receiver amount hashlock timelock
  | .newSwapWithPermit msg receiver amount hashlock timelock sig =>
    h.newSwapWithPermit w msg receiver amount hashlock timelock sig
  | .withdraw swapId secret => h.withdraw w swapId secret
  | .refund swapId => h.refund w swapId
  | .token call => .ok { w with token := h.token.outside w.token w.now call }

/-- One transaction: a revert undoes everything but the time. -/
def step (w : HtlcWorld T) (tx : Tx h.self) : HtlcWorld T :=
  match h.run { w with now := tx.time } tx.call with
  | .ok w' => w'
  | .error _ => { w with now := tx.time }

def exec (w : HtlcWorld T) (txs : List (Tx h.self)) : HtlcWorld T := Run.exec h.step w txs

/-! ### What a transaction can do -/

/-- The slot that a creation writes. -/
structure Created (w w' : HtlcWorld T) (swapId : Hash) (e : Escrow) : Prop where
  fresh : (w.slot swapId).state = .none
  live : e.state = .live
  positive : 0 < e.amount.toNat
  future : w'.now < e.timelock
  swaps : w'.swaps = w.swaps.insert swapId e
  payouts : w'.payouts = w.payouts
  pulled : ∃ t, h.token.transferFrom t h.self e.sender h.self e.amount.toNat = some (true, w'.token) ∧
    (t = w.token ∨ ∃ now sig, h.token.permit w.token now e.sender h.self e.amount.toNat sig = some t)

/-- The slot that a payout resolves. -/
structure Resolved (w w' : HtlcWorld T) (swapId : Hash) (e : Escrow) (state : EscrowState) (p : Payout) :
    Prop where
  slot : w.slot swapId = e
  live : e.state = .live
  swaps : w'.swaps = w.swaps.insert swapId { e with state }
  payouts : w'.payouts = p :: w.payouts
  paid : p.swapId = swapId ∧ p.amount = e.amount ∧ p.time = w'.now
  moved : h.token.transfer w.token h.self p.dst e.amount.toNat = some (true, w'.token)

theorem newSwapFrom_ok (w₀ : HtlcWorld T) {w w' : HtlcWorld T} {funder receiver : EvmAddress} {amount : U256}
    {hashlock : Hash} {timelock : U256} (hok : h.newSwapFrom w funder receiver amount hashlock timelock = .ok w')
    (hs : w.swaps = w₀.swaps) (hp : w.payouts = w₀.payouts)
    (ht : w.token = w₀.token ∨
      ∃ now sig, h.token.permit w₀.token now funder h.self amount.toNat sig = some w.token) :
    w'.now = w.now ∧ ∃ swapId e, h.Created w₀ w' swapId e := by
  simp only [newSwapFrom] at hok
  split_ifs at hok with h1 h2 h3 h4
  split at hok
  · cases hok
  · cases hok
  · rename_i token htok
    cases hok
    refine ⟨rfl, swapIdFor h.keccak256 funder receiver amount hashlock timelock,
      ⟨funder, receiver, amount, hashlock, timelock, .live⟩, ?_, rfl, ?_, ?_, ?_, hp,
      w.token, htok, ht⟩
    · have hslot : ∀ id, w₀.slot id = w.slot id := fun id => by rw [HtlcWorld.slot, HtlcWorld.slot, hs]
      rw [hslot]
      exact not_not.mp h4
    · show 0 < amount.toNat
      rcases Nat.eq_zero_or_pos amount.toNat with hz | hpos
      · exact absurd (BitVec.eq_of_toNat_eq (by rw [hz]; rfl)) h2
      · exact hpos
    · exact BitVec.not_le.mp h3
    · rw [← hs]

theorem payOut_ok {w w' : HtlcWorld T} {swapId : Hash} {s : Escrow} {state : EscrowState} {event : HtlcEvent}
    {dst : EvmAddress} {secret : Option Hash} (hslot : w.slot swapId = s) (hlive : s.state = .live)
    (hok : h.payOut w swapId s state event dst secret = .ok w') :
    w'.now = w.now ∧ h.Resolved w w' swapId s state ⟨swapId, dst, s.amount, secret, w.now⟩ := by
  simp only [payOut] at hok
  split at hok
  · cases hok
  · cases hok
  · rename_i token htok
    cases hok
    exact ⟨rfl, hslot, hlive, rfl, rfl, ⟨rfl, rfl, rfl⟩, htok⟩

/-- A transaction creates a slot, resolves one by a claim in time or by a refund after it, makes a token
    call of somebody else, or changes nothing. -/
theorem step_cases (w : HtlcWorld T) (tx : Tx h.self) :
    (h.step w tx).now = tx.time ∧
    ((∃ swapId e, h.Created w (h.step w tx) swapId e) ∨
     (∃ swapId e secret, h.Resolved w (h.step w tx) swapId e .claimed
        ⟨swapId, e.receiver, e.amount, some secret, tx.time⟩ ∧
        h.sha256 secret.1 = e.hashlock ∧ tx.time ≤ e.timelock) ∨
     (∃ swapId e, h.Resolved w (h.step w tx) swapId e .refunded
        ⟨swapId, e.sender, e.amount, none, tx.time⟩ ∧ e.timelock < tx.time) ∨
     (∃ call : Erc20.OutsideCall h.self,
        h.step w tx = { w with now := tx.time, token := h.token.outside w.token tx.time call }) ∨
     h.step w tx = { w with now := tx.time }) := by
  cases hrun : h.run { w with now := tx.time } tx.call with
  | error err =>
    have hstep : h.step w tx = { w with now := tx.time } := by simp only [step, hrun]
    rw [hstep]
    exact ⟨rfl, .inr (.inr (.inr (.inr rfl)))⟩
  | ok w' =>
    have hstep : h.step w tx = w' := by simp only [step, hrun]
    rw [hstep]
    cases hcall : tx.call with
    | newSwap msg receiver amount hashlock timelock =>
      rw [hcall] at hrun
      simp only [run, newSwap] at hrun
      obtain ⟨hn, hcr⟩ := h.newSwapFrom_ok w hrun rfl rfl (.inl rfl)
      exact ⟨hn, .inl hcr⟩
    | newSwapWithPermit msg receiver amount hashlock timelock sig =>
      rw [hcall] at hrun
      have hpermit : (h.token.permit w.token tx.time (h.msgSender msg) h.self amount.toNat sig).getD w.token =
            w.token ∨ ∃ now sig', h.token.permit w.token now (h.msgSender msg) h.self amount.toNat sig' =
            some ((h.token.permit w.token tx.time (h.msgSender msg) h.self amount.toNat sig).getD w.token) := by
        cases hp : h.token.permit w.token tx.time (h.msgSender msg) h.self amount.toNat sig with
        | none => exact .inl rfl
        | some t => exact .inr ⟨tx.time, sig, hp⟩
      simp only [run, newSwapWithPermit] at hrun
      obtain ⟨hn, hcr⟩ := h.newSwapFrom_ok w hrun rfl rfl hpermit
      exact ⟨hn, .inl hcr⟩
    | withdraw swapId secret =>
      rw [hcall] at hrun
      simp only [run, withdraw] at hrun
      split_ifs at hrun with h1 h2 h3 h4
      obtain ⟨hn, hres⟩ := h.payOut_ok rfl (not_not.mp h2) hrun
      refine ⟨hn, .inr (.inl ⟨swapId, w.slot swapId, secret, ?_, not_not.mp h3, BitVec.not_lt.mp h4⟩)⟩
      exact ⟨rfl, hres.live, hres.swaps, hres.payouts, hres.paid, hres.moved⟩
    | refund swapId =>
      rw [hcall] at hrun
      simp only [run, refund] at hrun
      split_ifs at hrun with h1 h2 h3
      obtain ⟨hn, hres⟩ := h.payOut_ok rfl (not_not.mp h2) hrun
      refine ⟨hn, .inr (.inr (.inl ⟨swapId, w.slot swapId, ?_, BitVec.not_le.mp h3⟩))⟩
      exact ⟨rfl, hres.live, hres.swaps, hres.payouts, hres.paid, hres.moved⟩
    | token call =>
      rw [hcall] at hrun
      cases hrun
      exact ⟨rfl, .inr (.inr (.inr (.inl ⟨call, rfl⟩)))⟩

end Htlc

end Nimmesh
