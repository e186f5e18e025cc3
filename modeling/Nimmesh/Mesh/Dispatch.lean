import Nimmesh.Mesh.Handlers

/-! @src fragment.rs engine.rs | name:Dispatch ends | layer:model

    A reassembled message may itself be a fragment that completes a further set. Each round gives back
    less than it took: the header of the fragment is gone from the bytes held and in hand. So the fuel of
    the dispatch never runs out and `dispatchPacket_eq` reads as the recursion of the source. -/

namespace Nimmesh
open Word

theorem length_parseFragment {bytes : Bytes} {f : Fragment} (h : parseFragment bytes = some f) :
    f.chunk.length + fragmentHeaderLen = bytes.length := by
  unfold parseFragment at h
  split_ifs at h with hlen
  simp only at h
  split_ifs at h
  cases h
  rw [List.length_drop]
  omega

/-- A message is as long as its chunks together. -/
theorem Partial.length_message (p : Partial) : p.message.length = Table.total List.length p.chunks := by
  unfold Partial.message Table.total
  rw [List.length_flatMap]
  exact ((List.perm_insertionSort _ p.chunks.entries).map _).sum_eq

namespace Reassembler

theorem held_evictIfFull_le (r : Reassembler) : MeshNode.heldBytes (evictIfFull r) ≤ MeshNode.heldBytes r := by
  unfold evictIfFull
  split_ifs
  · exact le_rfl
  · split
    · exact Table.total_erase_le _ _ _
    · exact le_rfl

/-- The set a fragment joins and the rest, against what was held. -/
theorem held_partialFor_le (r : Reassembler) (f : Fragment) (nowMs : UInt64) :
    MeshNode.heldBytes ((partialFor r f nowMs).2.erase f.id) +
        Table.total List.length (partialFor r f nowMs).1.chunks ≤ MeshNode.heldBytes r := by
  have hevict : ∀ r' : Reassembler, MeshNode.heldBytes r' ≤ MeshNode.heldBytes r →
      MeshNode.heldBytes ((evictIfFull r').erase f.id) ≤ MeshNode.heldBytes r := fun r' hr' =>
    (Table.total_erase_le _ _ _).trans ((held_evictIfFull_le r').trans hr')
  unfold partialFor
  split
  · next p hp =>
    split_ifs
    · exact hevict _ (Table.total_erase_le _ _ _)
    · exact (Table.total_erase_of_lookup _ hp).le
  · exact hevict r le_rfl

/-- What a completed message takes out of the reassembler, the reassembler and the fragment put in. -/
theorem held_accept_le {r r' : Reassembler} {f : Fragment} {nowMs : UInt64} {ty : UInt8} {msg : Bytes}
    (h : accept r f nowMs = (some (ty, msg), r')) :
    MeshNode.heldBytes r' + msg.length ≤ MeshNode.heldBytes r + f.chunk.length := by
  unfold accept at h
  have hgc : MeshNode.heldBytes (gc r nowMs) ≤ MeshNode.heldBytes r := Table.total_retain_le _ _ _
  have hset := held_partialFor_le (gc r nowMs) f nowMs
  have hins := Table.total_insert List.length (partialFor (gc r nowMs) f nowMs).1.chunks f.index f.chunk
  have hle := Table.total_erase_le List.length (partialFor (gc r nowMs) f nowMs).1.chunks f.index
  simp only at h
  split_ifs at h with hfull
  · cases (Prod.mk.inj h).1
  · obtain ⟨hmsg, hr⟩ := Prod.mk.inj h
    rw [← hr, ← (Prod.mk.inj (Option.some.inj hmsg)).2, Partial.length_message]
    dsimp only
    omega

end Reassembler

namespace MeshNode

theorem relayAllowed_eq (env : NodeEnv) (msgType : MessageType) (n : MeshNode) :
    (n.relayAllowed env msgType).2 = { n with io := (n.relayAllowed env msgType).2.io } := by
  unfold relayAllowed
  simp only
  split_ifs
  · rfl
  · rfl
  · rfl

@[simp] theorem relayAllowed_trace (env : NodeEnv) (msgType : MessageType) (n : MeshNode) :
    (n.relayAllowed env msgType).2.io.trace = n.io.trace := by
  unfold relayAllowed
  dsimp only
  split_ifs
  · rfl
  · rfl
  · rfl

/-- Relaying touches nothing but what the outside sees. -/
theorem relayOnward_eq (env : NodeEnv) (p : Packet) (src : Option Link) (n : MeshNode) :
    n.relayOnward env p src = { n with io := (n.relayOnward env p src).io } := by
  have hroll := relayAllowed_eq env p.msgType n
  unfold relayOnward
  generalize n.relayAllowed env p.msgType = roll at hroll ⊢
  obtain ⟨allowed, m⟩ := roll
  simp only at hroll ⊢
  split_ifs
  · exact hroll
  · split
    · exact hroll
    · split
      · rw [hroll]
        rfl
      · rw [hroll]
        rfl

@[simp] theorem relayOnward_reassembler (env : NodeEnv) (p : Packet) (src : Option Link) (n : MeshNode) :
    (n.relayOnward env p src).reassembler = n.reassembler := by
  rw [relayOnward_eq]

/-- The bytes held and in hand. -/
def load (n : MeshNode) (p : Packet) : ℕ := heldBytes n.reassembler + p.payload.length

/-- A round gives a message back when a fragment completes a set of a known type. -/
theorem dispatchOnce_some {env : NodeEnv} {p r : Packet} {src : Option Link} {n n' : MeshNode}
    (h : n.dispatchOnce env p src = (some r, n')) :
    p.msgType = .fragment ∧ ∃ f nowMs ty, parseFragment p.payload = some f ∧
      n.reassembler.accept f nowMs = (some (ty, r.payload), n'.reassembler) ∧
      MessageType.fromU8 ty = some r.msgType ∧ r.ttl = 0 := by
  unfold dispatchOnce at h
  split at h
  case h_8 hty =>
    refine ⟨hty, ?_⟩
    unfold handleFragment at h
    simp only at h
    generalize hm : (((n.firstSeen p).2.remember env p).ask).relayOnward env p src = m at h
    have hre : m.reassembler = n.reassembler := by
      rw [← hm, relayOnward_reassembler]
      rfl
    split_ifs at h with hfresh
    · cases (Prod.mk.inj h).1
    · split at h
      · cases (Prod.mk.inj h).1
      · next f hf =>
        split at h
        · cases (Prod.mk.inj h).1
        · next ty msg hdone =>
          split at h
          · cases (Prod.mk.inj h).1
          · next msgType hty =>
            obtain ⟨hr, hn⟩ := Prod.mk.inj h
            refine ⟨f, ((n.firstSeen p).2.remember env p).now env, ty, hf, ?_, ?_, ?_⟩
            · rw [← hre, ← hn, ← Option.some.inj hr]
              exact Prod.ext hdone rfl
            · rw [← Option.some.inj hr, hty]
            · rw [← Option.some.inj hr]
  all_goals cases (Prod.mk.inj h).1

/-- A round that gives a message back gives back less than it took. -/
theorem load_dispatchOnce {env : NodeEnv} {p r : Packet} {src : Option Link} {n n' : MeshNode}
    (h : n.dispatchOnce env p src = (some r, n')) : n'.load r < n.load p := by
  obtain ⟨_, f, nowMs, ty, hf, hacc, _, _⟩ := dispatchOnce_some h
  have hheld := Reassembler.held_accept_le hacc
  have hlen := length_parseFragment hf
  unfold load
  simp only [fragmentHeaderLen] at hlen
  omega

theorem dispatchLoop_eq (env : NodeEnv) (a b : ℕ) (p : Packet) (src : Option Link) (n : MeshNode)
    (ha : n.load p < a) (hb : n.load p < b) : dispatchLoop env a p src n = dispatchLoop env b p src n := by
  induction a generalizing b p src n with
  | zero => omega
  | succ a ih =>
    cases b with
    | zero => omega
    | succ b =>
      have hload := fun r n' => @load_dispatchOnce env p r src n n'
      rw [dispatchLoop, dispatchLoop]
      generalize n.dispatchOnce env p src = round at hload ⊢
      rcases round with ⟨_ | r, n'⟩
      · rfl
      · have := hload r n' rfl
        exact ih b r none n' (by omega) (by omega)

/-- CORRECT: dispatching a packet is one round and the dispatch of what the round completed. -/
theorem dispatchPacket_eq (env : NodeEnv) (p : Packet) (src : Option Link) (n : MeshNode) :
    n.dispatchPacket env p src =
      match n.dispatchOnce env p src with
      | (none, n') => n'
      | (some r, n') => n'.dispatchPacket env r none := by
  conv_lhs => rw [dispatchPacket, dispatchLoop]
  rcases h : n.dispatchOnce env p src with ⟨_ | r, n'⟩
  · rfl
  · have hload := load_dispatchOnce h
    unfold load at hload
    exact dispatchLoop_eq env _ _ r none n' hload (Nat.lt_succ_self _)

/-- A round that completes nothing is the whole dispatch. -/
theorem dispatchPacket_last {env : NodeEnv} {p : Packet} {src : Option Link} {n m : MeshNode}
    (h : n.dispatchOnce env p src = (none, m)) : n.dispatchPacket env p src = m := by
  rw [dispatchPacket_eq, h]

/-- A frame that the limiter admits and that decodes. -/
theorem processInbound_admitted {env : NodeEnv} {src : Option Link} {bytes : Bytes} {p : Packet} {n : MeshNode}
    (hadm : (n.admitPeer env src).1 = true) (hdec : decode bytes = .ok p) :
    n.processInbound env src bytes = (n.admitPeer env src).2.receivePacket env p src := by
  unfold processInbound
  dsimp only
  rw [hadm, hdec]
  rfl

/-- The induction rule of the dispatch: on the bytes held and in hand. -/
theorem dispatch_induction {env : NodeEnv} {P : Packet → Option Link → MeshNode → MeshNode → Prop}
    (last : ∀ p src n n', n.dispatchOnce env p src = (none, n') → P p src n n')
    (more : ∀ p src n r n' n'', n.dispatchOnce env p src = (some r, n') → P r none n' n'' → P p src n n'')
    (p : Packet) (src : Option Link) (n : MeshNode) : P p src n (n.dispatchPacket env p src) := by
  induction hk : n.load p using Nat.strong_induction_on generalizing p src n with
  | _ k ih =>
    rw [dispatchPacket_eq]
    split
    · next n' h => exact last p src n n' h
    · next r n' h => exact more p src n r n' _ h (ih _ (hk ▸ load_dispatchOnce h) r none n' rfl)

end MeshNode

end Nimmesh
