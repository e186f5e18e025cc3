import Mathlib.Logic.Function.Basic
import Nimmesh.Swap.Worker

/-! @src swap_node.rs swap_fast_tick.rs | name:Two nodes over the mesh | layer:model

    An initiator node and a responder node, and everything that was ever flooded. A delivery hands one
    flooded packet to one node: a packet that is never picked is lost, one picked late is delayed, one
    picked twice is duplicated, and nothing orders the picks. Each node hears its own beacons, so the
    two heads rise independently. -/

namespace Nimmesh

/-- The envelopes a handler floods. -/
def Worker.floods (env : Env) (w : Worker) : WorkerOp → List (MessageType × Bytes)
  | .packet mt sender payload => (w.handleSwapPacket env mt sender payload).1
  | .beacon _ => []
  | .gcTick => (w.gcTick env).1
  | .fastTick nowMs => (w.fastTick env nowMs).1
  | .cancel id => (w.session.cancel id).1.elim [] (Session.pushEnv .swapAbort)

/-- The surroundings of the two nodes: one set of primitives for both, and a signer, a verifier and a
    clock for each. -/
structure NetEnv where
  crypto : Crypto
  node : SwapRole → Env

def NetEnv.at (E : NetEnv) (r : SwapRole) : Env := { E.node r with toCrypto := E.crypto }

structure Net where
  worker : SwapRole → Worker
  sent : List (MessageType × Bytes)

/-- One thing that happens in the net, at one node. -/
inductive NetOp where
  | deliver (node : SwapRole) (i : ℕ) (sender : PeerId)
  | beacon (node : SwapRole) (height : UInt32)
  | gcTick (node : SwapRole)
  | fastTick (node : SwapRole) (nowMs : UInt64)
  | cancel (node : SwapRole) (id : SwapId)

def NetOp.node : NetOp → SwapRole
  | .deliver node .. | .beacon node _ | .gcTick node | .fastTick node _ | .cancel node _ => node

namespace Net

/-- What happens at the node: a delivery needs a packet that was flooded. -/
def workerOp (n : Net) : NetOp → Option WorkerOp
  | .deliver _ i sender => (n.sent[i]?).map fun m => .packet m.1 sender m.2
  | .beacon _ height => some (.beacon height)
  | .gcTick _ => some .gcTick
  | .fastTick _ nowMs => some (.fastTick nowMs)
  | .cancel _ id => some (.cancel id)

/-- The net after a handler of one node has run. -/
def act (E : NetEnv) (n : Net) (r : SwapRole) (o : WorkerOp) : Net where
  worker := Function.update n.worker r ((n.worker r).step (E.at r) o)
  sent := n.sent ++ (n.worker r).floods (E.at r) o

def step (E : NetEnv) (n : Net) (op : NetOp) : Net :=
  match n.workerOp op with
  | some o => n.act E op.node o
  | none => n

/-- The net after a run. -/
def exec (E : NetEnv) (n : Net) (ops : List NetOp) : Net := Run.exec (step E) n ops

/-- A step runs one handler of its node; it leaves the other node alone. -/
theorem step_worker (E : NetEnv) (n : Net) (op : NetOp) (r : SwapRole) :
    (n.step E op).worker r = n.worker r ∨
    ∃ o, n.workerOp op = some o ∧ op.node = r ∧
      (n.step E op).worker r = (n.worker r).step (E.at r) o := by
  unfold step
  cases ho : n.workerOp op with
  | none => exact .inl rfl
  | some o =>
    by_cases hr : op.node = r
    · subst hr
      exact .inr ⟨o, rfl, rfl, Function.update_self _ _ _⟩
    · exact .inl (Function.update_of_ne (Ne.symm hr) _ _)

/-- SIMULATION: a run of the net is a run of each node's session. -/
theorem exec_session (E : NetEnv) (r : SwapRole) : ∀ (ops : List NetOp) (n : Net),
    ∃ calls, ((n.exec E ops).worker r).session = (n.worker r).session.exec (E.at r) calls
  | [], _ => ⟨[], rfl⟩
  | op :: ops, n => by
      obtain ⟨calls, he⟩ := exec_session E r ops (n.step E op)
      have hexec : n.exec E (op :: ops) = (n.step E op).exec E ops := rfl
      rcases n.step_worker E op r with hw | ⟨o, -, -, hw⟩
      · exact ⟨calls, by rw [hexec, he, hw]⟩
      · refine ⟨(n.worker r).calls (E.at r) o ++ calls, ?_⟩
        rw [hexec, he, hw, Worker.step_session, Session.exec_append]

/-- A net before its first swap, whatever was flooded already. -/
def Fresh (n : Net) : Prop := ∀ r, (n.worker r).session.Fresh

theorem head_le_step (E : NetEnv) (n : Net) (op : NetOp) (r : SwapRole) :
    (n.worker r).head ≤ ((n.step E op).worker r).head := by
  rcases n.step_worker E op r with hw | ⟨o, -, -, hw⟩
  · rw [hw]
    exact UInt64.le_refl _
  · rw [hw]
    exact Worker.head_le_step _ _ o

end Net

/-! ### The sample net -/

namespace Sample

def netEnv : NetEnv := ⟨crypto, fun _ => env⟩

/-- Both nodes fresh, and the responder's intent advertised. -/
def net : Net where
  worker
    | .initiator => aliceWorker
    | .responder => bobWorker
  sent := [(.swapIntent, encodeIntent bobIntent)]

def alicePeer : PeerId := ByteArr.fill 8 0xA0

/-- The swap up to the reveal: both nodes hear head 0, the initiator matches the intent and proposes, the
    responder accepts, the legs are funded and the initiator claims. -/
def netRun : List NetOp :=
  [.beacon .initiator 0, .beacon .responder 0, .deliver .initiator 0 bobPeer, .gcTick .initiator,
    .gcTick .initiator, .deliver .responder 1 alicePeer, .deliver .initiator 2 bobPeer,
    .deliver .responder 3 alicePeer, .deliver .initiator 4 bobPeer]

theorem net_fresh : net.Fresh := by
  intro r
  cases r with
  | initiator => exact alice_fresh
  | responder => exact bob_fresh

end Sample

end Nimmesh
