import Nimmesh.Lib.Cascade
import Nimmesh.Mesh.Submission

/-! @src engine.rs relay.rs fragment.rs node.rs | name:A flood ends | layer:abstract

    Any number of nodes with frames in flight between them. A frame in flight may reach any node, over any
    link or none that its radio can name, or be lost; which nodes are in reach of which is whatever the
    order of these events makes it. A frame is put on the air by what a node does of its own accord, or by
    the arrival of another frame, as a relay of it or an answer to it. What nodes have forgotten plays no
    part: a relay has fewer hops left than the copy that arrived, and an answer has none. -/

namespace Nimmesh

/-! ### Frames in flight -/

/-- A frame on its way to a peer, and the step that it goes back to. -/
structure Flight where
  cause : ℕ
  peer : Link
  frame : Bytes
  kind : SendKind

structure MeshNet (ν : Type*) where
  nodes : ν → MeshNode
  flight : List Flight

/-- What happens next: a node works on a job of its own, or hears a frame that is in flight, or a frame is
    lost. A frame from outside is a job of its own, too. -/
inductive MeshNetOp (ν : Type*) where
  | work (v : ν) (job : Job)
  | deliver (i : ℕ) (v : ν) (src : Option Link)
  | lose (i : ℕ)

def MeshEvent.transmission : MeshEvent → Option (Link × Bytes × SendKind)
  | .sent peer frame kind _ => some (peer, frame, kind)
  | _ => none

/-- What a job makes a node put on the air. -/
def MeshNode.transmissions (env : NodeEnv) (n : MeshNode) (job : Job) : List (Link × Bytes × SendKind) :=
  (n.news env job).filterMap MeshEvent.transmission

namespace MeshNet

variable {ν : Type*} [DecidableEq ν] (env : ν → NodeEnv)

/-- The frames that step `k` puts on the air: what a node sends of its own accord goes back to this step,
    a relay and an answer to where the frame goes back that they are made for. -/
def sends (k : ℕ) (s : MeshNet ν) : MeshNetOp ν → List Flight
  | .work v job => ((s.nodes v).transmissions (env v) job).map fun t => ⟨k, t.1, t.2.1, t.2.2⟩
  | .deliver i v src =>
    match s.flight[i]? with
    | none => []
    | some f => ((s.nodes v).transmissions (env v) (.inbound src f.frame)).map fun t =>
        ⟨if t.2.2 = .own then k else f.cause, t.1, t.2.1, t.2.2⟩
  | .lose _ => []

def next (k : ℕ) (s : MeshNet ν) (op : MeshNetOp ν) : MeshNet ν :=
  match op with
  | .work v job =>
    { nodes := Function.update s.nodes v ((s.nodes v).step (env v) job), flight := s.sends env k op ++ s.flight }
  | .deliver i v src =>
    match s.flight[i]? with
    | none => s
    | some f =>
      { nodes := Function.update s.nodes v ((s.nodes v).step (env v) (.inbound src f.frame))
        flight := s.sends env k op ++ s.flight.eraseIdx i }
  | .lose i => { s with flight := s.flight.eraseIdx i }

/-- The net after the first `k` steps of a schedule. -/
def after (ops : ℕ → MeshNetOp ν) (s : MeshNet ν) : ℕ → MeshNet ν
  | 0 => s
  | k + 1 => (after ops s k).next env k (ops k)

/-- The frame that a step brings to a node. -/
def brings (s : MeshNet ν) : MeshNetOp ν → Option (Option Link × Bytes)
  | .work _ (.inbound src bytes) => some (src, bytes)
  | .work _ _ => none
  | .deliver i _ src => s.flight[i]?.map fun f => (src, f.frame)
  | .lose _ => none

end MeshNet

/-- The copy `frame` that goes to `peer` is a proper relay of the copy that came from `src`. -/
structure RelayOf (src : Option Link) (bytes : Bytes) (peer : Link) (frame : Bytes) (p : Packet) (ttl : UInt8) :
    Prop where
  received : decode bytes = .ok p
  relayed : encode { p with ttl } = .ok frame
  fewer : ttl < p.ttl
  capped : ttl ≤ 6
  onward : some peer ≠ src
  flooded : p.flags.isRsr = false ∧ p.msgType ≠ .requestSync

/-! ### Hops -/

/-- How far a frame still goes: an answer nowhere, a request to its answers, anything else as many hops as
    it says. -/
def hops (frame : Bytes) : ℕ :=
  match decode frame with
  | .error _ => 0
  | .ok p => if p.flags.isRsr then 0 else if p.msgType = .requestSync then 1 else p.ttl.toNat

section
variable {env : NodeEnv} {n : MeshNode} {job : Job}

/-- What a job makes a node send is its own, or relays the frame that the job brings, or answers it. -/
theorem transmission_cases (hbuf : n.books.Buffered) {peer : Link} {frame : Bytes} {kind : SendKind}
    (h : (peer, frame, kind) ∈ n.transmissions env job) : kind = .own ∨
      (kind = .relay ∧ ∃ src bytes p ttl, job = .inbound src bytes ∧ RelayOf src bytes peer frame p ttl) ∨
      (kind = .reply ∧ ∃ bytes p, job = .inbound (some peer) bytes ∧ p ∈ n.answers env (some peer) bytes ∧
        encode { p with flags := { p.flags with isRsr := true } } = .ok frame) := by
  obtain ⟨e, he, hsent⟩ := List.mem_filterMap.mp h
  cases e with
  | sent peer' frame' kind' head =>
    cases hsent
    obtain ⟨b, hsend⟩ := MeshNode.sends_guarded hbuf he
    cases hsend with
    | own p => exact .inl rfl
    | again e => exact .inl rfl
    | relay p src ttl hjob httl hframe hback =>
      obtain ⟨bytes, hjob, hdec, hrsr, hsync⟩ := hjob
      obtain ⟨hlt, hle⟩ := relayedTtl_lt httl
      exact .inr (.inl ⟨rfl, src, bytes, p, ttl, hjob, hdec, hframe, hlt, hle, hback, hrsr, hsync⟩)
    | reply p bytes hjob hp _ hframe => exact .inr (.inr ⟨rfl, bytes, p, hjob, hp, hframe⟩)
  | _ => cases hsent

theorem hops_relay {src : Option Link} {bytes frame : Bytes} {peer : Link} {p : Packet} {ttl : UInt8}
    (h : RelayOf src bytes peer frame p ttl) : hops frame < hops bytes := by
  have hbytes : hops bytes = p.ttl.toNat := by
    rw [hops, h.received]
    dsimp only
    rw [h.flooded.1, if_neg (by decide), if_neg h.flooded.2]
  have hlt := UInt8.lt_iff_toNat_lt.mp h.fewer
  rw [hbytes, hops]
  split
  · exact Nat.zero_lt_of_lt hlt
  · next q hq =>
    rw [eq_of_decode_encode h.relayed hq]
    dsimp only
    rw [h.flooded.1, if_neg (by decide), if_neg h.flooded.2]
    exact hlt

theorem hops_reply {src : Option Link} {bytes frame : Bytes} {p : Packet} (hp : p ∈ n.answers env src bytes)
    (hframe : encode { p with flags := { p.flags with isRsr := true } } = .ok frame) : hops frame < hops bytes := by
  have hzero : hops frame = 0 := by
    unfold hops
    split
    · rfl
    · next q hq =>
      rw [eq_of_decode_encode hframe hq]
      rfl
  have hone : hops bytes = 1 := by
    unfold MeshNode.answers at hp
    dsimp only at hp
    split at hp
    · next peer q hq =>
      split_ifs at hp with hc
      · obtain ⟨⟨-, hrsr⟩, hsync⟩ := by simpa using hc
        rw [hops, hq]
        dsimp only
        rw [hrsr, if_neg (by decide), if_pos hsync]
      · cases hp
    · cases hp
  omega

end

/-! ### The flood -/

namespace MeshNet

variable {ν : Type*} {env : ν → NodeEnv}

/-- Every node's retransmit buffer holds swap messages only. -/
def Buffered (s : MeshNet ν) : Prop := ∀ v, (s.nodes v).books.Buffered

/-- STEP: a relay is a proper relay of the copy that the step brings. -/
theorem relay_of_sends {s : MeshNet ν} (hbuf : s.Buffered) {k : ℕ} {op : MeshNetOp ν} {f : Flight}
    (hf : f ∈ s.sends env k op) (hkind : f.kind = .relay) : ∃ src bytes p ttl,
      s.brings op = some (src, bytes) ∧ RelayOf src bytes f.peer f.frame p ttl := by
  have hrelay : ∀ v job (t : Link × Bytes × SendKind), t ∈ (s.nodes v).transmissions (env v) job → t.2.2 = .relay →
      ∃ src bytes p ttl, job = .inbound src bytes ∧ RelayOf src bytes t.1 t.2.1 p ttl := by
    intro v job t ht hk
    rcases transmission_cases (hbuf v) ht with hown | ⟨-, hrel⟩ | ⟨hreply, -⟩
    · cases hown.symm.trans hk
    · exact hrel
    · cases hreply.symm.trans hk
  cases op with
  | work v job =>
    obtain ⟨t, ht, rfl⟩ := List.mem_map.mp hf
    obtain ⟨src, bytes, p, ttl, rfl, hrel⟩ := hrelay v job t ht hkind
    exact ⟨src, bytes, p, ttl, rfl, hrel⟩
  | deliver i v src =>
    unfold sends at hf
    dsimp only at hf
    split at hf
    · cases hf
    · next g hg =>
      obtain ⟨t, ht, rfl⟩ := List.mem_map.mp hf
      obtain ⟨_, _, p, ttl, ⟨⟩, hrel⟩ := hrelay v _ t ht hkind
      exact ⟨src, g.frame, p, ttl, by rw [brings, hg]; rfl, hrel⟩
  | lose i => cases hf

variable [DecidableEq ν]

theorem Buffered.update {s : MeshNet ν} (h : s.Buffered) (v : ν) (job : Job) (w : ν) :
    (Function.update s.nodes v ((s.nodes v).step (env v) job) w).books.Buffered := by
  by_cases hw : w = v
  · rw [hw, Function.update_self]
    exact MeshNode.step_buffered (env v) _ job (h v)
  · rw [Function.update_of_ne hw]
    exact h w

theorem Buffered.next {s : MeshNet ν} (h : s.Buffered) (k : ℕ) (op : MeshNetOp ν) : (s.next env k op).Buffered := by
  cases op with
  | work v job => exact h.update v job
  | deliver i v src =>
    unfold MeshNet.next
    dsimp only
    split
    · exact h
    · next f _ => exact h.update v (.inbound src f.frame)
  | lose i => exact h

theorem Buffered.after {s : MeshNet ν} (h : s.Buffered) (ops : ℕ → MeshNetOp ν) (k : ℕ) : (s.after env ops k).Buffered := by
  induction k with
  | zero => exact h
  | succ k ih => exact ih.next k (ops k)

theorem coe_eq_cons_eraseIdx {l : List Flight} {i : ℕ} {f : Flight} (h : l[i]? = some f) :
    (l : Multiset Flight) = f ::ₘ (l.eraseIdx i : Multiset Flight) := by
  obtain ⟨hi, rfl⟩ := List.getElem?_eq_some_iff.mp h
  exact Multiset.coe_eq_coe.mpr (List.getElem_cons_eraseIdx_perm hi).symm

/-- STEP: what goes back to a step is spent and replaced by frames with fewer hops to go. -/
theorem cascade {s : MeshNet ν} (hbuf : s.Buffered) (k : ℕ) (op : MeshNetOp ν) :
    Cascade.Step Flight.cause (fun f : Flight => hops f.frame) (· < ·) k (s.sends env k op : Multiset Flight)
      (s.flight : Multiset Flight) ((s.next env k op).flight : Multiset Flight) := by
  cases op with
  | work v job =>
    change Cascade.Step _ _ _ k _ _ ((s.sends env k (.work v job) ++ s.flight : List Flight) : Multiset Flight)
    rw [← Multiset.coe_add]
    refine .spawn _ _ fun f hf => ?_
    obtain ⟨t, -, rfl⟩ := List.mem_map.mp (Multiset.mem_coe.mp hf)
    rfl
  | deliver i v src =>
    cases hg : s.flight[i]? with
    | none =>
      have hsends : s.sends env k (.deliver i v src) = [] := by rw [sends, hg]
      have hnext : s.next env k (.deliver i v src) = s := by rw [next, hg]
      rw [hsends, hnext]
      exact .idle _
    | some g =>
      have hnext : (s.next env k (.deliver i v src)).flight =
          s.sends env k (.deliver i v src) ++ s.flight.eraseIdx i := by
        rw [next, hg]
      rw [hnext, ← Multiset.coe_add, coe_eq_cons_eraseIdx hg]
      refine .spend _ _ g fun f hf => ?_
      have hf := Multiset.mem_coe.mp hf
      rw [sends, hg] at hf
      obtain ⟨t, ht, rfl⟩ := List.mem_map.mp hf
      rcases transmission_cases (hbuf v) ht with hown | ⟨hk, src', bytes, p, ttl, hjob, hrel⟩ |
        ⟨hk, bytes, p, hjob, hp, hframe⟩
      · exact .inl (if_pos hown)
      · cases hjob
        exact .inr ⟨if_neg (by rw [hk]; decide), hops_relay hrel⟩
      · cases hjob
        exact .inr ⟨if_neg (by rw [hk]; decide), hops_reply hp hframe⟩
  | lose i =>
    change Cascade.Step _ _ _ k 0 _ ((s.flight.eraseIdx i : List Flight) : Multiset Flight)
    cases hg : s.flight[i]? with
    | none =>
      rw [List.eraseIdx_of_length_le (List.getElem?_eq_none_iff.mp hg)]
      exact .idle _
    | some g =>
      rw [coe_eq_cons_eraseIdx hg]
      exact .lose _ g

/-- RUN: for any number of nodes, whoever is in reach of whom and in whatever order things happen, a relay
    has fewer hops than the copy it is made of, at most six, and leaves out the link that this copy is known
    to have come by; answers and requests are not relayed; and what goes back to any one step is on the
    air finitely often. -/
theorem flood_terminates (env : ν → NodeEnv) {s : MeshNet ν} (hbuf : s.Buffered) (ops : ℕ → MeshNetOp ν) :
    (∀ k, ∀ f ∈ (s.after env ops k).sends env k (ops k), f.kind = .relay → ∃ src bytes p ttl,
      (s.after env ops k).brings (ops k) = some (src, bytes) ∧ RelayOf src bytes f.peer f.frame p ttl) ∧
    ∀ cause, ∃ K, ∀ k, K ≤ k → ∀ f ∈ (s.after env ops k).sends env k (ops k), f.cause ≠ cause := by
  constructor
  · exact fun k f hf hkind => relay_of_sends (hbuf.after ops k) hf hkind
  · intro cause
    have hstep : ∀ k, Cascade.Step Flight.cause (fun f : Flight => hops f.frame) (· < ·) k
        ((s.after env ops k).sends env k (ops k) : Multiset Flight) ((s.after env ops k).flight : Multiset Flight)
        ((s.after env ops (k + 1)).flight : Multiset Flight) := fun k => cascade (hbuf.after ops k) k (ops k)
    have hlater : ∀ k, cause + 1 ≤ k → k ≠ cause := fun k hk => Nat.ne_of_gt hk
    obtain ⟨K, hK⟩ := Cascade.ends wellFounded_lt hstep hlater
    exact ⟨K, fun k hk f hf => hK k hk f (Multiset.mem_coe.mpr hf)⟩

end MeshNet

namespace Sample

/-- Two nodes, each the only peer of the other. -/
def pair : MeshNet Bool where
  nodes := fun v => { meshNode with peers := [if v then "a" else "b"] }
  flight := []

def pairEnv (_ : Bool) : NodeEnv := meshEnv (fun _ => 1000) none

/-- One of them sends a payment, and it arrives, by a radio that cannot name the link. -/
def unattributed : ℕ → MeshNetOp Bool
  | 0 => .work false (.localTx paymentWire)
  | _ => .deliver 0 true none

end Sample

open Sample in
/-- The second sample node relays the payment over its only link, by which it came. -/
theorem unattributed_copy_goes_back :
    ((pair.after pairEnv unattributed 1).flight.map fun f => (f.cause, f.peer)) = [(0, "b")] ∧
    ((pair.after pairEnv unattributed 1).nodes true).peers = ["a"] ∧
    (((pair.after pairEnv unattributed 1).sends pairEnv 1 (unattributed 1)).map fun f => (f.cause, f.peer, f.kind)) =
      [(0, "a", .relay)] := by
  decide +kernel

open Sample in
/-- The two sample nodes, one payment and its echo. -/
theorem sample_flood_terminates :
    (∀ k, ∀ f ∈ (pair.after pairEnv unattributed k).sends pairEnv k (unattributed k), f.kind = .relay →
      ∃ src bytes p ttl, (pair.after pairEnv unattributed k).brings (unattributed k) = some (src, bytes) ∧
        RelayOf src bytes f.peer f.frame p ttl) ∧
    ∀ cause, ∃ K, ∀ k, K ≤ k →
      ∀ f ∈ (pair.after pairEnv unattributed k).sends pairEnv k (unattributed k), f.cause ≠ cause :=
  MeshNet.flood_terminates pairEnv (fun _ => started_meshNode.buffered) unattributed

end Nimmesh
