import Nimmesh.Mesh.Flood
import Nimmesh.Mesh.Carriage

/-! @src engine.rs radio.rs relay.rs node.rs | name:Nodes joined by links | layer:abstract

    The mesh net with the links drawn in: a frame in flight has a sender, and arrives at the far end of the link that
    it was sent on. The radio may or may not name the link it came by. Frames still arrive in any order, or are
    lost; forgetting who is at the end of which link gives the net of the flood back. -/

namespace Nimmesh

/-- How the links lie: who is at the far end of a node's link, and what the link is called there. -/
structure Links (ν : Type*) where
  far : ν → Link → ν
  back : ν → Link → Link
  far_back : ∀ v l, far (far v l) (back v l) = v

/-- A frame on its way, and who sent it. -/
structure Hop (ν : Type*) where
  sender : ν
  flight : Flight

structure RadioNet (ν : Type*) where
  nodes : ν → MeshNode
  air : List (Hop ν)

inductive RadioOp (ν : Type*) where
  | work (v : ν) (job : Job)
  | arrive (i : ℕ) (named : Bool)
  | lose (i : ℕ)

section
variable {ν : Type*} (L : Links ν)

/-- Where a frame arrives. -/
def Hop.target (h : Hop ν) : ν := L.far h.sender h.flight.peer

/-- The link it came by, if the radio names it. -/
def Hop.source (named : Bool) (h : Hop ν) : Option Link :=
  if named then some (L.back h.sender h.flight.peer) else none

namespace RadioNet

/-- The net that remembers neither senders nor links. -/
def mesh (s : RadioNet ν) : MeshNet ν := ⟨s.nodes, s.air.map Hop.flight⟩

/-- The step as that net sees it. -/
def forget (s : RadioNet ν) : RadioOp ν → MeshNetOp ν
  | .work v job => .work v job
  | .arrive i named =>
    match s.air[i]? with
    | some h => .deliver i (h.target L) (h.source L named)
    | none => .lose i
  | .lose i => .lose i

/-- The node that works in a step, and its job. -/
def task (s : RadioNet ν) : RadioOp ν → Option (ν × Job)
  | .work v job => some (v, job)
  | .arrive i named => s.air[i]?.map fun h => (h.target L, .inbound (h.source L named) h.flight.frame)
  | .lose _ => none

/-- What stays in flight. -/
def rest (s : RadioNet ν) : RadioOp ν → List (Hop ν)
  | .work .. => s.air
  | .arrive i _ | .lose i => s.air.eraseIdx i

variable [DecidableEq ν] (env : ν → NodeEnv)

/-- The frames that step `k` puts on the air. -/
def sends (k : ℕ) (s : RadioNet ν) (op : RadioOp ν) : List (Hop ν) :=
  match s.task L op with
  | some (v, _) => (s.mesh.sends env k (s.forget L op)).map (Hop.mk v)
  | none => []

def next (k : ℕ) (s : RadioNet ν) (op : RadioOp ν) : RadioNet ν where
  nodes := match s.task L op with
    | some (v, job) => Function.update s.nodes v ((s.nodes v).step (env v) job)
    | none => s.nodes
  air := s.sends L env k op ++ s.rest op

/-- The net after the first `k` steps of a schedule. -/
def after (ops : ℕ → RadioOp ν) (s : RadioNet ν) : ℕ → RadioNet ν
  | 0 => s
  | k + 1 => (after ops s k).next L env k (ops k)

end RadioNet
end

namespace RadioNet

variable {ν : Type*} {L : Links ν} {env : ν → NodeEnv} {s : RadioNet ν}

/-- What a step puts on the air is what the node that works sends. -/
theorem mem_sends {k : ℕ} {op : RadioOp ν} {h : Hop ν} (hh : h ∈ s.sends L env k op) :
    ∃ v job, s.task L op = some (v, job) ∧ h.sender = v ∧
      (h.flight.peer, h.flight.frame, h.flight.kind) ∈ (s.nodes v).transmissions (env v) job := by
  unfold sends at hh
  cases op with
  | work v job =>
    simp only [task, forget, MeshNet.sends, List.mem_map] at hh
    obtain ⟨f, ⟨t, ht, rfl⟩, rfl⟩ := hh
    exact ⟨v, job, rfl, rfl, ht⟩
  | arrive i named =>
    cases hi : s.air[i]? with
    | none => simp [task, hi] at hh
    | some g =>
      have hi' : s.mesh.flight[i]? = some g.flight := by rw [mesh, List.getElem?_map, hi]; rfl
      simp only [task, forget, hi, Option.map_some, MeshNet.sends, hi', List.mem_map] at hh
      obtain ⟨f, ⟨t, ht, rfl⟩, rfl⟩ := hh
      exact ⟨_, _, by rw [task, hi]; rfl, rfl, ht⟩
  | lose i => simp [task] at hh

/-- What the node that works sends is put on the air. -/
theorem exists_sends {k : ℕ} {op : RadioOp ν} {v : ν} {job : Job} (hop : s.task L op = some (v, job)) {peer : Link}
    {frame : Bytes} {kind : SendKind} (ht : (peer, frame, kind) ∈ (s.nodes v).transmissions (env v) job) :
    ∃ h ∈ s.sends L env k op, h.sender = v ∧ h.flight.peer = peer ∧ h.flight.frame = frame := by
  cases op with
  | work w j =>
    cases hop
    refine ⟨⟨v, ⟨k, peer, frame, kind⟩⟩, ?_, rfl, rfl, rfl⟩
    simp only [sends, task, forget, MeshNet.sends, List.mem_map]
    exact ⟨_, ⟨_, ht, rfl⟩, rfl⟩
  | arrive i named =>
    cases hi : s.air[i]? with
    | none => simp [task, hi] at hop
    | some g =>
      have hi' : s.mesh.flight[i]? = some g.flight := by rw [mesh, List.getElem?_map, hi]; rfl
      have hop' := hop
      rw [task, hi] at hop'
      cases hop'
      refine ⟨⟨_, ⟨if kind = .own then k else g.flight.cause, peer, frame, kind⟩⟩, ?_, rfl, rfl, rfl⟩
      simp only [sends, hop, forget, hi, MeshNet.sends, hi', List.mem_map]
      exact ⟨_, ⟨_, ht, rfl⟩, rfl⟩
  | lose i => cases hop

variable [DecidableEq ν]

/-- REFINES: a step of the net with links is a step of the net without. -/
theorem mesh_next (k : ℕ) (op : RadioOp ν) :
    (s.next L env k op).mesh = s.mesh.next env k (s.forget L op) := by
  have hflight : ∀ (v : ν) (l : List Flight), (l.map (Hop.mk v)).map Hop.flight = l := by
    intro v l
    rw [List.map_map]
    exact List.map_id l
  cases op with
  | work v job =>
    simp only [mesh, next, sends, task, rest, forget, MeshNet.next, List.map_append, hflight]
  | arrive i named =>
    cases hi : s.air[i]? with
    | none =>
      have herase : s.air.eraseIdx i = s.air := List.eraseIdx_of_length_le (List.getElem?_eq_none_iff.mp hi)
      have herase' : (s.air.map Hop.flight).eraseIdx i = s.air.map Hop.flight :=
        List.eraseIdx_of_length_le (by rw [List.length_map]; exact List.getElem?_eq_none_iff.mp hi)
      simp only [mesh, next, sends, task, rest, forget, MeshNet.next, hi, Option.map_none, List.nil_append, herase,
        herase']
    | some h =>
      have hi' : (s.air.map Hop.flight)[i]? = some h.flight := by rw [List.getElem?_map, hi]; rfl
      simp only [mesh, next, sends, task, rest, forget, MeshNet.next, hi, hi', Option.map_some, List.map_append, hflight,
        List.eraseIdx_map]
  | lose i =>
    simp only [mesh, next, sends, task, rest, forget, MeshNet.next, List.nil_append, List.eraseIdx_map]

/-- Every node's retransmit buffer holds swap messages only. -/
theorem buffered_next (h : s.mesh.Buffered) (k : ℕ) (op : RadioOp ν) : (s.next L env k op).mesh.Buffered := by
  rw [mesh_next]
  exact h.next k _

/-- The node that works takes its step. -/
theorem next_nodes_task (k : ℕ) {op : RadioOp ν} {v : ν} {job : Job} (h : s.task L op = some (v, job)) :
    (s.next L env k op).nodes v = (s.nodes v).step (env v) job := by
  rw [next, h]
  exact Function.update_self _ _ _

/-- A node that does not work in a step stays as it is. -/
theorem next_nodes (L : Links ν) (env : ν → NodeEnv) (s : RadioNet ν) (k : ℕ) (op : RadioOp ν) (v : ν) :
    (s.next L env k op).nodes v = s.nodes v ∨
    ∃ job, s.task L op = some (v, job) ∧ (s.next L env k op).nodes v = (s.nodes v).step (env v) job := by
  unfold next
  cases hop : s.task L op with
  | none => exact .inl rfl
  | some t =>
    by_cases hv : v = t.1
    · subst hv
      exact .inr ⟨t.2, rfl, Function.update_self _ _ _⟩
    · exact .inl (Function.update_of_ne hv _ _)

end RadioNet

end Nimmesh
