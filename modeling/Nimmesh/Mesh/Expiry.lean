import Nimmesh.Mesh.Refine

/-! @src engine.rs beacon.rs store_forward.rs pending_retry.rs | name:Dead transactions on the air |
    layer:model

    A transaction is judged where it enters a node, and its copies live on while the head moves. The relay
    and the retry pass judge again before they send. The answer to a sync request does not, and neither
    does the first flood of an own transaction. So a node sends nothing dead exactly as long as it answers
    with nothing dead and builds nothing at the last height of all. -/

namespace Nimmesh
open Word

/-- A frame that left with a transaction whose window had closed at the head heard by then. -/
def MeshEvent.carriesDead : MeshEvent → Bool
  | .sent _ frame _ head =>
    match decode frame with
    | .ok p => decide (p.msgType = .nimiqTx) && isExpired head (txValidUntil p)
    | .error _ => false
  | _ => false

/-- Nothing that this job sends without judging it is dead. -/
def MeshNode.sendsLive (env : NodeEnv) (n : MeshNode) : Job → Prop
  | .inbound src bytes => ∀ p ∈ n.answers env src bytes, Live n.cachedHead p
  | .localTx _ => n.cachedHead ≠ some 4294967295
  | _ => True

/-- What stands for one packet is dead only if that packet is. -/
theorem carriesDead_eq_false {p : Packet} {frame : Bytes} {head : Option UInt32} (h : encode p = .ok frame)
    (hlive : Live head p) (peer : Link) (kind : SendKind) :
    (MeshEvent.sent peer frame kind head).carriesDead = false := by
  dsimp only [MeshEvent.carriesDead]
  split
  · next q hq =>
    rw [eq_of_decode_encode h hq]
    by_cases hty : p.msgType = .nimiqTx
    · rw [hlive hty, Bool.and_false]
    · rw [decide_eq_false hty, Bool.false_and]
  · rfl

/-- Nothing dead has left, and what is kept for retries is judged by the height in its own envelope. -/
structure Books.Fresh (b : Books) : Prop where
  sent : ∀ e ∈ b.trace, e.carriesDead = false
  pending : ∀ e ∈ b.pending.entries, ∃ p, encode p = .ok e.bytes ∧ txValidUntil p = e.validUntil

namespace Books

variable {env : NodeEnv} {n₀ : MeshNode} {job : Job}

theorem Fresh.log {b : Books} (h : b.Fresh) {e : MeshEvent} (he : e.carriesDead = false) : (b.log e).Fresh :=
  ⟨fun e' he' => (List.mem_cons.mp he').elim (fun h' => h' ▸ he) (h.sent e'), h.pending⟩

/-- Keeping fewer of the pending entries, in an order of one's own. -/
theorem Fresh.of_subset {b b' : Books} (h : b.Fresh) (ht : b'.trace = b.trace)
    (hp : ∀ e ∈ b'.pending.entries, e ∈ b.pending.entries) : b'.Fresh :=
  ⟨ht ▸ h.sent, fun e he => h.pending e (hp e he)⟩

theorem Fresh.sends {b : Books} (h : b.Fresh) {peer : Link} {frame : Bytes} {kind : SendKind}
    (hok : n₀.sendsLive env job) (hhead : (∃ wire, job = .localTx wire) → b.head = n₀.head)
    (hsend : MaySend env n₀ job b peer frame kind) :
    (MeshEvent.sent peer frame kind b.head.height).carriesDead = false := by
  cases hsend with
  | own p hframe hlive =>
    rcases hlive with hlive | ⟨⟨wire, rfl⟩, hmax⟩
    · exact carriesDead_eq_false hframe hlive peer .own
    · rw [hhead ⟨wire, rfl⟩] at hmax
      exact absurd hmax hok
  | again e he hframe hlive =>
    obtain ⟨p, hp, hvu⟩ := h.pending e he
    exact carriesDead_eq_false (hframe ▸ hp) (fun _ => hvu ▸ hlive) peer .own
  | relay p src ttl _ _ hframe _ hlive => exact carriesDead_eq_false hframe hlive peer .relay
  | reply p bytes hjob hp hbhead hframe =>
    subst hjob
    have hlive : Live b.head.height p := hbhead ▸ hok p hp
    exact carriesDead_eq_false hframe hlive peer .reply

/-- STEP: a job that sends nothing dead unjudged sends nothing dead. -/
theorem Fresh.path {b b' : Books} (h : b.Fresh) (hok : n₀.sendsLive env job)
    (hhead : b.head = n₀.head) (hpath : Path env n₀ job b b') : b'.Fresh := by
  refine (hpath.invariant
    (I := fun b => b.Fresh ∧ ((∃ wire, job = .localTx wire) → b.head = n₀.head)) ?_ ⟨h, fun _ => hhead⟩).1
  rintro b₁ b₂ hact ⟨h₁, hhead₁⟩
  cases hact with
  | took p hnew =>
    refine ⟨⟨?_, ?_⟩, fun hj => (take_head p b₁).trans (hhead₁ hj)⟩
    · rw [take_trace]
      exact fun e he => (List.mem_cons.mp he).elim (fun he => he ▸ rfl) (h₁.sent e)
    · intro e he
      refine h₁.pending e ?_
      unfold take at he
      split at he
      · exact (List.mem_filter.mp he).1
      · exact he
  | own p => exact ⟨(h₁.log (e := .own p) rfl).of_subset rfl fun _ => id, hhead₁⟩
  | keep p => exact ⟨h₁.of_subset rfl fun _ => id, hhead₁⟩
  | prune recent => exact ⟨h₁.of_subset rfl fun _ => id, hhead₁⟩
  | heard beacon hjob => exact ⟨h₁.of_subset rfl fun _ => id, fun ⟨wire, hj⟩ => absurd hj (hjob wire)⟩
  | watch txId => exact ⟨h₁.of_subset rfl fun _ => id, hhead₁⟩
  | launch wire e _ _ hwire =>
    refine ⟨⟨h₁.sent, fun e' he' => ?_⟩, hhead₁⟩
    rcases Fifo.mem_of_mem_push he' with he' | rfl
    · exact h₁.pending e' (List.mem_filter.mp he').1
    · exact hwire
  | expire nowMs => exact ⟨h₁.of_subset rfl fun e he => (List.mem_filter.mp he).1, hhead₁⟩
  | touch nowMs =>
    refine ⟨⟨h₁.sent, fun e he => ?_⟩, hhead₁⟩
    obtain ⟨e', he', rfl⟩ := List.mem_map.mp he
    split_ifs
    · exact h₁.pending e' he'
    · exact h₁.pending e' he'
  | offer txId nowMs => exact ⟨h₁.log rfl, hhead₁⟩
  | hand ctx answer => exact ⟨(h₁.log (e := .handed ctx answer) rfl).of_subset rfl fun _ => id, hhead₁⟩
  | link peers => exact ⟨h₁.of_subset rfl fun _ => id, hhead₁⟩
  | swap w => exact ⟨h₁.of_subset rfl fun _ => id, hhead₁⟩
  | sent peer frame kind hsend => exact ⟨h₁.log (h₁.sends hok hhead₁ hsend), hhead₁⟩

end Books

namespace MeshNode

/-- RUN: while a node answers sync requests with nothing dead and builds nothing at the last height, no
    frame it sends, on any path, carries a transaction that is dead at the head it has heard. -/
theorem nothing_dead_leaves (env : NodeEnv) (n : MeshNode) (jobs : List Job) (hn : n.Started)
    (hok : Run.Along (step env) (sendsLive env) n jobs) :
    ∀ e ∈ (n.exec env jobs).io.trace, e.carriesDead = false := by
  have hfresh : n.books.Fresh := by
    refine ⟨fun e he => ?_, fun e he => ?_⟩
    · rw [show n.books.trace = [] from hn.trace] at he
      cases he
    · rw [show n.books.pending.entries = [] from hn.pending] at he
      cases he
  refine (Run.exec_invariant (step env) (I := fun n => n.books.Fresh ∧ n.books.Buffered) ?_ jobs n
    ⟨hfresh, hn.buffered⟩ hok).1.sent
  rintro m job ⟨hm, hbuf⟩ hjob
  exact ⟨hm.path hjob rfl (step_path env m job hbuf), step_buffered env m job hbuf⟩

end MeshNode

namespace Sample

/-- A transaction that is dead from height 100 on. -/
def shortTx : Packet := meshPacket .nimiqTx (envelope { txWire := [1, 2, 3], validUntil := some 100 }) 5

/-- A sync request of a node that has nothing. -/
def emptyRequest : Packet := meshPacket .requestSync (GcsFilter.build []).toBytes 7

end Sample

open Sample in
/-- The sample node answers a sync request in time. -/
theorem sample_nothing_dead_leaves : meshNode.Started ∧
    ∀ e ∈ (meshNode.exec (meshEnv (fun _ => 1000) none)
      [.inbound (some "a") (frame shortTx), .inbound (some "b") (frame emptyRequest)]).io.trace,
      e.carriesDead = false := by
  refine ⟨started_meshNode,
    MeshNode.nothing_dead_leaves (meshEnv (fun _ => 1000) none) meshNode _ started_meshNode ⟨?_, ?_, trivial⟩⟩
  · have hnone : meshNode.answers (meshEnv (fun _ => 1000) none) (some "a") (frame shortTx) = [] := by
      decide +kernel
    exact fun p hp => absurd (hnone ▸ hp) List.not_mem_nil
  · have hhead : (meshNode.step (meshEnv (fun _ => 1000) none)
        (.inbound (some "a") (frame shortTx))).cachedHead = none := by decide +kernel
    intro p _ _
    rw [hhead]
    rfl

open Sample in
/-- A transaction is heard, then a head past its window, then a sync request: the reply is dead. -/
theorem sync_reply_carries_dead :
    ∃ e ∈ (meshNode.exec (meshEnv (fun _ => 1000) none)
      [.inbound (some "a") (frame shortTx),
       .inbound (some "a") (frame (meshPacket .nimiqHeadBeacon (beacon 200) 6)),
       .inbound (some "b") (frame emptyRequest)]).io.trace, e.carriesDead = true := by
  have h : ((meshNode.exec (meshEnv (fun _ => 1000) none)
      [.inbound (some "a") (frame shortTx),
       .inbound (some "a") (frame (meshPacket .nimiqHeadBeacon (beacon 200) 6)),
       .inbound (some "b") (frame emptyRequest)]).io.trace.any (·.carriesDead)) = true := by decide +kernel
  exact List.any_eq_true.mp h

end Nimmesh
