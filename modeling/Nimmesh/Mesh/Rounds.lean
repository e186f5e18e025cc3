import Nimmesh.Mesh.Dispatch
import Nimmesh.Mesh.Reassembly

/-! @src fragment.rs engine.rs | name:The rounds of a dispatch | layer:properties

    A dispatch is a row of rounds: a packet, then the message that it completes, then what that completes. Behind its
    first-seen gate a handler adds to the trace and leaves the reassembler alone; only a fragment that is let in is
    fed to it. So over a run of packets the reassembler is run on those fragments, whatever else the handlers do. -/

namespace Nimmesh
namespace MeshNode

/-! ### What a handler does behind its gate -/

/-- The trace only grows, and the reassembler stays. -/
structure Keeps (n m : MeshNode) : Prop where
  reassembler : m.reassembler = n.reassembler
  trace : n.io.trace <:+ m.io.trace

theorem Keeps.refl (n : MeshNode) : Keeps n n := ⟨rfl, List.suffix_rfl⟩

theorem Keeps.trans {n m k : MeshNode} (h : Keeps n m) (h' : Keeps m k) : Keeps n k :=
  ⟨h'.reassembler.trans h.reassembler, h.trace.trans h'.trace⟩

theorem keeps_of_eq {n m : MeshNode} (h : m.reassembler = n.reassembler) (h' : m.io.trace = n.io.trace) : Keeps n m :=
  ⟨h, h' ▸ List.suffix_rfl⟩

/-- What is done before, beside the trace and the reassembler. -/
theorem Keeps.before {n k m : MeshNode} (h : Keeps k m) (hr : k.reassembler = n.reassembler)
    (ht : k.io.trace = n.io.trace) : Keeps n m := (keeps_of_eq hr ht).trans h

section Behind
variable (env : NodeEnv) (p : Packet) (src : Option Link) (n : MeshNode)

theorem keeps_foldl {α : Type} {f : MeshNode → α → MeshNode} (h : ∀ n a, Keeps n (f n a)) (l : List α) (n : MeshNode) :
    Keeps n (l.foldl f n) := by
  induction l generalizing n with
  | nil => exact .refl n
  | cons a l ih => exact (h n a).trans (ih (f n a))

theorem keeps_count (f : Counters → Counters) : Keeps n (n.count f) := keeps_of_eq rfl rfl

theorem keeps_remember : Keeps n (n.remember env p) := by
  refine keeps_of_eq rfl ?_
  simp only [remember]
  split_ifs
  · rfl
  · rfl

theorem keeps_markOwn : Keeps n (n.markOwn p) := by
  refine ⟨rfl, ?_⟩
  simp only [markOwn]
  split_ifs
  · exact List.suffix_cons _ _
  · exact List.suffix_rfl

theorem keeps_floodExcluding (frame : Bytes) (exclude : Option Link) (kind : SendKind) :
    Keeps n (n.floodExcluding env frame exclude kind) := by
  refine ⟨rfl, ?_⟩
  have hrun (l : List Link) (io : NodeIo) : io.trace <:+ (l.foldl (fun (io : NodeIo) peer =>
      if some peer = exclude then io else io.send peer frame kind n.cachedHead) io).trace := by
    induction l generalizing io with
    | nil => exact List.suffix_rfl
    | cons peer l ih =>
      refine List.IsSuffix.trans ?_ (ih _)
      dsimp only
      split_ifs
      · exact List.suffix_rfl
      · exact List.suffix_cons _ _
  exact hrun _ _

theorem keeps_floodPacket : Keeps n (n.floodPacket env p) := by
  unfold floodPacket
  split
  · exact keeps_floodExcluding env n _ none .own
  · exact .refl n

theorem keeps_originate (ty : MessageType) (payload : Bytes) : Keeps n (n.originate env ty payload) := by
  simp only [originate]
  refine .trans ?_ (keeps_floodPacket env _ _)
  refine .trans ?_ (keeps_remember env _ _)
  exact (keeps_markOwn _ _).before rfl rfl

theorem keeps_relayOnward : Keeps n (n.relayOnward env p src) := by
  have hroll : Keeps n (n.relayAllowed env p.msgType).2 := by
    simp only [relayAllowed]
    split_ifs
    · exact .refl n
    · exact keeps_of_eq rfl rfl
    · exact .refl n
  refine hroll.trans ?_
  simp only [relayOnward]
  split_ifs
  · exact .refl _
  · split
    · exact .refl _
    · split
      · exact keeps_of_eq rfl rfl
      · exact (keeps_floodExcluding env _ _ src .relay).before rfl rfl

theorem keeps_submit (gw : MeshGateway) (e : NimiqEnvelope) (txId : TxId) : Keeps n (n.submit env gw e txId) := by
  simp only [submit]
  split_ifs
  · exact keeps_of_eq rfl rfl
  · split
    · exact ⟨rfl, List.suffix_cons _ _⟩
    · refine .trans ?_ (keeps_floodPacket env _ _)
      refine .trans ?_ (keeps_markOwn _ _)
      exact ⟨rfl, List.suffix_cons _ _⟩

theorem keeps_handleTx : Keeps (n.firstSeen p).2 (n.handleTx env p src) := by
  simp only [handleTx]
  split_ifs
  · exact .refl _
  · exact keeps_of_eq rfl rfl
  · exact keeps_of_eq rfl rfl
  · exact keeps_of_eq rfl rfl
  · refine .trans ?_ (keeps_relayOnward env p src _)
    refine (keeps_remember env p _).trans ?_
    split
    · exact keeps_submit env _ _ _ _
    · exact .refl _

theorem keeps_handleReceipt : Keeps (n.firstSeen p).2 (n.handleReceipt env p src) := by
  simp only [handleReceipt]
  split_ifs
  · exact .refl _
  · refine .trans ?_ (keeps_relayOnward env p src _)
    refine (keeps_remember env p _).trans ?_
    split
    · exact keeps_of_eq rfl rfl
    · exact .refl _

theorem keeps_handleHeadBeacon : Keeps (n.firstSeen p).2 (n.handleHeadBeacon env p src) := by
  simp only [handleHeadBeacon]
  split_ifs
  · exact .refl _
  · refine .trans ?_ (keeps_relayOnward env p src _)
    refine .trans ?_ (keeps_remember env p _)
    split
    · exact keeps_of_eq rfl rfl
    · exact .refl _

theorem keeps_handleBalanceQuery : Keeps (n.firstSeen p).2 (n.handleBalanceQuery env p src) := by
  simp only [handleBalanceQuery]
  split_ifs
  · exact .refl _
  · refine .trans ?_ (keeps_relayOnward env p src _)
    refine (keeps_remember env p _).trans ?_
    split
    · split
      · simp only [answerBalance]
        exact (keeps_originate env _ _ _).before rfl rfl
      · exact keeps_of_eq rfl rfl
    · exact .refl _

theorem keeps_handleBalanceResponse : Keeps (n.firstSeen p).2 (n.handleBalanceResponse env p src) := by
  simp only [handleBalanceResponse]
  split_ifs
  · exact .refl _
  · refine .trans ?_ (keeps_relayOnward env p src _)
    refine .trans ?_ (keeps_remember env p _)
    split
    · exact keeps_of_eq rfl rfl
    · exact .refl _

theorem keeps_answerHistory (r : HistoryResponse) : Keeps n (n.answerHistory env r) := by
  have hfrag (n : MeshNode) (frag : Bytes) : Keeps n (n.originateFragment env frag) :=
    keeps_originate env n .fragment frag
  simp only [answerHistory]
  refine .trans ?_ (keeps_count _ _)
  exact (keeps_foldl hfrag _ _).before rfl rfl

theorem keeps_handleHistoryQuery : Keeps (n.firstSeen p).2 (n.handleHistoryQuery env p src) := by
  simp only [handleHistoryQuery]
  split_ifs
  · exact .refl _
  · refine .trans ?_ (keeps_relayOnward env p src _)
    refine (keeps_remember env p _).trans ?_
    split
    · split
      · exact (keeps_answerHistory env _ _).before rfl rfl
      · exact keeps_of_eq rfl rfl
    · exact .refl _

theorem keeps_handleHistoryResponse : Keeps (n.firstSeen p).2 (n.handleHistoryResponse env p src) := by
  simp only [handleHistoryResponse]
  split_ifs
  · exact .refl _
  · refine .trans ?_ (keeps_relayOnward env p src _)
    refine .trans ?_ (keeps_remember env p _)
    split
    · exact keeps_of_eq rfl rfl
    · exact .refl _

theorem keeps_handleChatPacket : Keeps (n.firstSeen p).2 (n.handleChatPacket env p src) := by
  simp only [handleChatPacket]
  split_ifs
  · exact .refl _
  · refine .trans ?_ (keeps_relayOnward env p src _)
    refine (keeps_remember env p _).trans ?_
    split
    · exact keeps_of_eq rfl rfl
    · exact .refl _

theorem keeps_countIntent : Keeps n (n.countIntent p) := by
  simp only [countIntent]
  split
  · exact keeps_of_eq rfl rfl
  · exact .refl _

theorem keeps_floodReplies (replies : List (MessageType × Bytes)) : Keeps n (n.floodReplies env replies) := by
  have hreply (n : MeshNode) (reply : MessageType × Bytes) : Keeps n (n.floodSwapReply env reply) :=
    keeps_originate env n reply.1 reply.2
  exact keeps_foldl hreply replies n

theorem keeps_handleSwapPacket : Keeps (n.firstSeen p).2 (n.handleSwapPacket env p src) := by
  have hcount (m : MeshNode) : Keeps m ((m.remember env p).countIntent p) :=
    (keeps_remember env p m).trans (keeps_countIntent p _)
  simp only [handleSwapPacket]
  split_ifs
  · exact .refl _
  · exact hcount _
  · refine .trans ?_ (keeps_relayOnward env p src _)
    refine (hcount _).trans ?_
    split
    · exact .refl _
    · exact (keeps_floodReplies env _ _).before rfl rfl

theorem keeps_handleOther : Keeps (n.firstSeen p).2 (n.handleOther env p src) := by
  simp only [handleOther]
  split_ifs
  · exact (keeps_remember env p _).trans (keeps_relayOnward env p src _)
  · exact .refl _

/-- Every handler but that of fragments. -/
theorem keeps_dispatchOnce (h : p.msgType ≠ .fragment) : Keeps (n.firstSeen p).2 (n.dispatchOnce env p src).2 := by
  simp only [dispatchOnce]
  split
  case h_8 hty => exact absurd hty h
  case h_1 => exact keeps_handleTx env p src n
  case h_2 => exact keeps_handleReceipt env p src n
  case h_3 => exact keeps_handleHeadBeacon env p src n
  case h_4 => exact keeps_handleBalanceQuery env p src n
  case h_5 => exact keeps_handleBalanceResponse env p src n
  case h_6 => exact keeps_handleHistoryQuery env p src n
  case h_7 => exact keeps_handleHistoryResponse env p src n
  case h_15 => exact keeps_handleChatPacket env p src n
  all_goals first
    | exact keeps_handleSwapPacket env p src n
    | exact keeps_handleOther env p src n

end Behind

end MeshNode
end Nimmesh
