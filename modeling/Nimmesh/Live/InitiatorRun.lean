import Nimmesh.Lib.Record
import Nimmesh.Live.AmoyVerifier
import Nimmesh.Swap.InPlace
import Nimmesh.Swap.Reveal

/-! @src live_swap_signer.rs amoy_swap_verifier.rs | name:The live initiator in a run | layer:model

    The initiator's verifier and signer share one store; what they remember is a function of the trace.
    The funding half of the environment is any that is given: nothing here depends on it. -/

namespace Nimmesh

/-- What the chain and the clock answer to a call made after a trace. -/
structure InitiatorChains where
  reads : List Event → AmoyReads
  secondary : List Event → Option AmoyReads
  nowS : List Event → UInt64
  amoy : List Event → AmoyRpc

structure LiveInitiatorNode where
  verifier : AmoyHtlcSwapVerifier
  signer : LiveInitiator

namespace LiveInitiatorNode

variable (node : LiveInitiatorNode) (ch : InitiatorChains)

/-- The shared store after a trace. -/
def store : List Event → PolygonFundingStore
  | [] => {}
  | .notedWire _ .counterparty wire :: tr => (store tr).noteCandidate node.verifier.keccak256 wire
  | .observed _ expect _ :: tr =>
    (node.verifier.observe (ch.reads tr) (ch.secondary tr) (ch.nowS tr) (store tr) expect).2
  | _ :: tr => store tr

/-- The slot recorded for a hashlock, which `claim_usdc` withdraws. -/
def recorded (tr : List Event) (hashlock : Hash) : Option Hash :=
  ((node.store ch tr).found.lookup hashlock).map (·.swapId)

/-- The claim that the signer remembers. -/
def lastClaim : List Event → Option (Bytes × Hash)
  | [] => none
  | .builtClaim _ _ ctx secret _ _ :: tr =>
    (claimUsdc (node.signer.claimRpc (ch.amoy tr) (node.recorded ch tr)) (lastClaim tr) ctx secret).2
  | _ :: tr => lastClaim tr

/-- The withdraw that a claim call after the trace hands to the node, if it comes that far. -/
def handed (tr : List Event) (ctx : SwapContext) (secret : Hash) : Option Bytes :=
  node.signer.claimHanded (ch.amoy tr) (node.recorded ch tr) (node.lastClaim ch tr) ctx secret

/-- The verifier and the signer of the node over this chain, beside the funding half of `base`. -/
def env (base : Env) : Env :=
  { base with
    observe := fun tr expect =>
      (node.verifier.observe (ch.reads tr) (ch.secondary tr) (ch.nowS tr) (node.store ch tr) expect).1
    observeClaim := fun _ _ _ => .unavailable
    buildClaim := fun tr ctx secret =>
      (claimUsdc (node.signer.claimRpc (ch.amoy tr) (node.recorded ch tr)) (node.lastClaim ch tr) ctx
        secret).1 }

/-- What an event writes into the store: the escrow that an observation picks. -/
def picks (tr : List Event) : Event → Option (Hash × FoundEscrow)
  | .observed _ expect _ =>
    (node.verifier.pick (ch.reads tr) (ch.secondary tr) (node.store ch tr) expect).map (expect.hashlock, ·)
  | _ => none

/-- The escrows found are the record of what was picked. -/
theorem found_eq_record (tr : List Event) :
    (node.store ch tr).found = Record.record (node.picks ch) tr := by
  induction tr with
  | nil => rfl
  | cons ev tr ih =>
    cases ev with
    | observed id expect obs =>
      rw [store, AmoyHtlcSwapVerifier.observe_found, Record.record, picks, ih]
      cases node.verifier.pick (ch.reads tr) (ch.secondary tr) (node.store ch tr) expect <;> rfl
    | notedWire id leg wire =>
      cases leg with
      | counterparty =>
        rw [store, PolygonFundingStore.noteCandidate_found]
        exact ih
      | nim => exact ih
    | _ => exact ih

theorem recorded_eq_some_iff (tr : List Event) (hashlock escrow : Hash) :
    node.recorded ch tr hashlock = some escrow ↔
      Record.Has (node.picks ch) hashlock (fun e => e.swapId = escrow) tr := by
  rw [recorded, found_eq_record, Option.map_eq_some_iff, Record.Has]

end LiveInitiatorNode

end Nimmesh
