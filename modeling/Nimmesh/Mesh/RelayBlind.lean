import Nimmesh.Mesh.Dispatch
import Nimmesh.Mesh.Twins

/-! @src engine.rs swap_node.rs store_forward.rs | name:A relay is blind | layer:properties

    A node without a gateway and without a swap side treats two packets of a sealed type alike if they differ only in
    the bytes of their payload: handler by handler two alike nodes stay alike, and so over any run of frames and of
    the worker's own jobs. What goes out in the two runs goes to the same peers in the same order under the same
    headers, and carries the two payloads as they came in. -/

namespace Nimmesh
namespace Alike
open MeshNode
variable {In : Packet → Packet → Prop} {base : List MeshEvent} {n m : MeshNode} {p q : Packet} {env : NodeEnv}
  {src : Option Link}

/-- A reading of the other fields. -/
theorem field {α : Type} (h : Alike In base n m) (f : MeshNode → α)
    (hf : ∀ (n : MeshNode) (r : RecentCache) (io : NodeIo), f { n with recent := r, io := io } = f n) : f m = f n := by
  obtain ⟨r, io, rfl, -⟩ := h.written
  exact hf n r io

/-! ### Own packets -/

theorem buildPacket (h : Alike In base n m) (ty : MessageType) (payload : Bytes) :
    (m.buildPacket ty payload).1 = (n.buildPacket ty payload).1 ∧
      Alike In base (n.buildPacket ty payload).2 (m.buildPacket ty payload).2 :=
  ⟨h.field (fun n => (n.buildPacket ty payload).1) fun _ _ _ => rfl,
    h.map (f := fun n => (n.buildPacket ty payload).2) fun _ _ _ => rfl⟩

section Handlers
variable (hIn : ∀ a b, In a b → a = b ∨ Reworded a b)
include hIn

theorem originate (h : Alike In base n m) (ty : MessageType) (payload : Bytes) :
    Alike In base (n.originate env ty payload) (m.originate env ty payload) := by
  obtain ⟨hpacket, hbuilt⟩ := h.buildPacket ty payload
  simp only [MeshNode.originate, hpacket]
  exact (hbuilt.markOwn.remember hIn env (.inl rfl)).floodPacket

/-! ### Handlers -/

variable (hp : Given In p p)
include hp

theorem handleTx (hgw : env.gateway = none) (h : Alike In base n m) :
    Alike In base (n.handleTx env p src) (m.handleTx env p src) := by
  obtain ⟨hfst, hseen⟩ := h.firstSeen hIn hp.twin
  have hhead := hseen.field cachedHead fun _ _ _ => rfl
  have hverify := hseen.field verifyBeforeRelay fun _ _ _ => rfl
  have hacked := hseen.field acked fun _ _ _ => rfl
  simp only [MeshNode.handleTx, hfst, hhead, hverify, hacked, hgw]
  split_ifs
  · exact hseen
  · exact hseen.count _
  · exact hseen.count _
  · exact hseen.count _
  · exact (hseen.remember hIn env hp.twin).relayOnward hIn env hp src

theorem handleReceipt (h : Alike In base n m) :
    Alike In base (n.handleReceipt env p src) (m.handleReceipt env p src) := by
  obtain ⟨hfst, hseen⟩ := h.firstSeen hIn hp.twin
  have hkept := hseen.remember hIn env hp.twin
  simp only [MeshNode.handleReceipt, hfst]
  split_ifs
  · exact hseen
  · refine relayOnward hIn ?_ env hp src
    rcases decodeReceipt p.payload with _ | ⟨txId, status⟩
    · exact hkept
    · exact hkept.map (f := fun n => { n with
        ledger := n.ledger.settle txId status.payment
        pending := n.pending.clear txId
        acked := (n.acked.insert txId).2 }) fun _ _ _ => rfl

theorem handleHeadBeacon (h : Alike In base n m) :
    Alike In base (n.handleHeadBeacon env p src) (m.handleHeadBeacon env p src) := by
  obtain ⟨hfst, hseen⟩ := h.firstSeen hIn hp.twin
  simp only [MeshNode.handleHeadBeacon, hfst]
  split_ifs
  · exact hseen
  · refine relayOnward hIn (remember hIn ?_ env hp.twin) env hp src
    cases decodeBeacon p.payload with
    | none => exact hseen
    | some b => exact hseen.map (f := fun n => { n with head := n.head.accept b }) fun _ _ _ => rfl

theorem handleBalanceQuery (hgw : env.gateway = none) (h : Alike In base n m) :
    Alike In base (n.handleBalanceQuery env p src) (m.handleBalanceQuery env p src) := by
  obtain ⟨hfst, hseen⟩ := h.firstSeen hIn hp.twin
  simp only [MeshNode.handleBalanceQuery, hfst, hgw]
  split_ifs
  · exact hseen
  · exact (hseen.remember hIn env hp.twin).relayOnward hIn env hp src

theorem handleBalanceResponse (h : Alike In base n m) :
    Alike In base (n.handleBalanceResponse env p src) (m.handleBalanceResponse env p src) := by
  obtain ⟨hfst, hseen⟩ := h.firstSeen hIn hp.twin
  simp only [MeshNode.handleBalanceResponse, hfst]
  split_ifs
  · exact hseen
  · refine relayOnward hIn (remember hIn ?_ env hp.twin) env hp src
    cases decodeBalanceResponse p.payload with
    | none => exact hseen
    | some r => exact hseen.map (f := fun n => { n with balances := n.balances.observe r }) fun _ _ _ => rfl

theorem handleHistoryQuery (hgw : env.gateway = none) (h : Alike In base n m) :
    Alike In base (n.handleHistoryQuery env p src) (m.handleHistoryQuery env p src) := by
  obtain ⟨hfst, hseen⟩ := h.firstSeen hIn hp.twin
  simp only [MeshNode.handleHistoryQuery, hfst, hgw]
  split_ifs
  · exact hseen
  · exact (hseen.remember hIn env hp.twin).relayOnward hIn env hp src

theorem handleHistoryResponse (h : Alike In base n m) :
    Alike In base (n.handleHistoryResponse env p src) (m.handleHistoryResponse env p src) := by
  obtain ⟨hfst, hseen⟩ := h.firstSeen hIn hp.twin
  simp only [MeshNode.handleHistoryResponse, hfst]
  split_ifs
  · exact hseen
  · refine relayOnward hIn (remember hIn ?_ env hp.twin) env hp src
    cases decodeHistoryResponse p.payload with
    | none => exact hseen
    | some r => exact hseen.map (f := fun n => { n with history := n.history.observe r n.network }) fun _ _ _ => rfl

theorem handleChatPacket (h : Alike In base n m) :
    Alike In base (n.handleChatPacket env p src) (m.handleChatPacket env p src) := by
  obtain ⟨hfst, hseen⟩ := h.firstSeen hIn hp.twin
  have hkept := hseen.remember hIn env hp.twin
  simp only [MeshNode.handleChatPacket, hfst]
  split_ifs
  · exact hseen
  · refine relayOnward hIn ?_ env hp src
    cases decodeChat p.payload with
    | none => exact hkept
    | some c =>
      exact hkept.map (f := fun n => { n with chat := n.chat.push (chatEntry p (decide (p.senderId = n.senderId)) c) })
        fun _ _ _ => rfl

/-- A fragment completes the same message in both. -/
theorem handleFragment (h : Alike In base n m) :
    (m.handleFragment env p src).1 = (n.handleFragment env p src).1 ∧
      Alike In base (n.handleFragment env p src).2 (m.handleFragment env p src).2 := by
  obtain ⟨hfst, hseen⟩ := h.firstSeen hIn hp.twin
  have hkept := hseen.remember hIn env hp.twin
  have hon := hkept.ask.relayOnward hIn env hp src
  have hset := hon.field reassembler fun _ _ _ => rfl
  simp only [MeshNode.handleFragment, hfst, hkept.now_eq, hset]
  split_ifs
  · exact ⟨rfl, hseen⟩
  · cases parseFragment p.payload with
    | none => exact ⟨rfl, hon⟩
    | some f =>
      dsimp only
      generalize Reassembler.accept _ f _ = out
      have hfed := hon.map (f := fun n => { n with reassembler := out.2 }) fun _ _ _ => rfl
      rcases out with ⟨_ | ⟨ty, payload⟩, r⟩
      · exact ⟨rfl, hfed⟩
      · dsimp only
        cases MessageType.fromU8 ty with
        | none => exact ⟨rfl, hfed⟩
        | some mt =>
          refine ⟨?_, hfed.ask⟩
          rw [hfed.now_eq]

end Handlers

/-! ### Packets of a sealed type -/

section Sealed
variable (hIn : ∀ a b, In a b → a = b ∨ Reworded a b)
include hIn

theorem handleOther (hp : Given In p q) (h : Alike In base n m) :
    Alike In base (n.handleOther env p src) (m.handleOther env q src) := by
  obtain ⟨hfst, hseen⟩ := h.firstSeen hIn hp.twin
  simp only [MeshNode.handleOther, hfst]
  split_ifs
  · exact (hseen.remember hIn env hp.twin).relayOnward hIn env hp src
  · exact hseen

omit hIn in
theorem countIntent_of_no_swap (h : n.swap = none) : n.countIntent p = n := by
  simp [MeshNode.countIntent, h]

/-- Whether an intent is stale is read off an open type. -/
theorem staleIntent_eq (h : Alike In base n m) (hp : Twin In p q) : m.staleIntent q = n.staleIntent p := by
  cases hty : p.msgType.isSealed with
  | false =>
    rw [← hp.eq_of_open hIn hty]
    exact h.field (fun n => n.staleIntent p) fun _ _ _ => rfl
  | true =>
    have hother : ∀ (n : MeshNode) (p : Packet), p.msgType.isSealed = true → n.staleIntent p = false := by
      intro n p hp
      cases hmt : p.msgType <;> simp [MeshNode.staleIntent, hmt]
      simp [hmt, MessageType.isSealed] at hp
    obtain ⟨payload, rfl, -⟩ := hp.shape hIn
    rw [hother n p hty]
    exact hother m _ hty

/-- A node without a swap side reads a swap message no further than its header, unless it is an intent. -/
theorem handleSwapPacket (hp : Given In p q) (h : Alike In base n m) :
    Alike In base (n.handleSwapPacket env p src) (m.handleSwapPacket env q src) := by
  obtain ⟨hfst, hseen⟩ := h.firstSeen hIn hp.twin
  have hkept := hseen.remember hIn env hp.twin
  have hswap : ((m.firstSeen q).2.remember env q).swap = none := 
    (hkept.field MeshNode.swap fun _ _ _ => rfl).trans hkept.swap
  simp only [MeshNode.handleSwapPacket, hfst, countIntent_of_no_swap hkept.swap, countIntent_of_no_swap hswap,
    staleIntent_eq hIn hkept hp.twin]
  split_ifs
  · exact hseen
  · exact hkept
  · simp only [hkept.swap, hswap]
    exact hkept.relayOnward hIn env hp src

/-! ### Dispatch -/

/-- STEP: a round gives back the same in both. -/
theorem dispatchOnce (hgw : env.gateway = none) (hp : Given In p q) (src : Option Link) (h : Alike In base n m) :
    (m.dispatchOnce env q src).1 = (n.dispatchOnce env p src).1 ∧
      Alike In base (n.dispatchOnce env p src).2 (m.dispatchOnce env q src).2 := by
  cases hty : p.msgType.isSealed with
  | false =>
    have heq := hp.twin.eq_of_open hIn hty
    rw [← heq] at hp ⊢
    rw [MeshNode.dispatchOnce, MeshNode.dispatchOnce]
    cases p.msgType
    case nimiqTx => exact ⟨rfl, handleTx hIn hp hgw h⟩
    case nimiqTxReceipt => exact ⟨rfl, handleReceipt hIn hp h⟩
    case nimiqHeadBeacon => exact ⟨rfl, handleHeadBeacon hIn hp h⟩
    case nimiqBalanceQuery => exact ⟨rfl, handleBalanceQuery hIn hp hgw h⟩
    case nimiqBalanceResponse => exact ⟨rfl, handleBalanceResponse hIn hp h⟩
    case nimiqTxHistoryQuery => exact ⟨rfl, handleHistoryQuery hIn hp hgw h⟩
    case nimiqTxHistoryResponse => exact ⟨rfl, handleHistoryResponse hIn hp h⟩
    case fragment => exact handleFragment hIn hp h
    case chat => exact ⟨rfl, handleChatPacket hIn hp h⟩
    all_goals first
      | exact ⟨rfl, handleSwapPacket hIn hp h⟩
      | exact ⟨rfl, handleOther hIn hp h⟩
  | true =>
    have hsame : q.msgType = p.msgType := by
      obtain ⟨payload, rfl, -⟩ := hp.twin.shape hIn
      rfl
    rw [MeshNode.dispatchOnce, MeshNode.dispatchOnce, hsame]
    cases hmt : p.msgType <;> rw [hmt] at hty <;> first
      | exact absurd hty (by decide)
      | exact ⟨rfl, handleSwapPacket hIn hp h⟩
      | exact ⟨rfl, handleOther hIn hp h⟩

theorem dispatchLoop (hgw : env.gateway = none) (fuel : ℕ) (hp : Given In p q) (h : Alike In base n m) :
    Alike In base (MeshNode.dispatchLoop env fuel p src n) (MeshNode.dispatchLoop env fuel q src m) := by
  induction fuel generalizing p q src n m with
  | zero => exact h
  | succ fuel ih =>
    obtain ⟨hback, hround⟩ := dispatchOnce hIn hgw hp src h
    rw [MeshNode.dispatchLoop, MeshNode.dispatchLoop]
    rcases hn : n.dispatchOnce env p src with ⟨_ | r, n'⟩
    · rcases hm : m.dispatchOnce env q src with ⟨o, m'⟩
      rw [hn, hm] at hback hround
      rw [show o = none from hback]
      exact hround
    · rcases hm : m.dispatchOnce env q src with ⟨o, m'⟩
      rw [hn, hm] at hback hround
      rw [show o = some r from hback]
      refine ih (.inr ⟨rfl, ?_⟩) hround
      obtain ⟨-, -, -, -, -, -, -, httl⟩ := dispatchOnce_some hn
      rw [httl, relayedTtl_zero]

theorem dispatchPacket (hgw : env.gateway = none) (hp : Given In p q) (h : Alike In base n m) :
    Alike In base (n.dispatchPacket env p src) (m.dispatchPacket env q src) := by
  obtain ⟨payload, hq, hlen⟩ := hp.twin.shape hIn
  have hload : q.payload.length = p.payload.length := by rw [hq, hlen]
  have hheld := h.field reassembler fun _ _ _ => rfl
  rw [MeshNode.dispatchPacket, MeshNode.dispatchPacket, hload, hheld]
  exact dispatchLoop hIn hgw _ hp h

/-! ### Frames -/

/-- One cached packet, or its twin, for a peer that lacks it. -/
theorem sendMissing (hp : Twin In p q) (h : Alike In base n m) (peer : Link) :
    Alike In base (n.sendMissing peer p) (m.sendMissing peer q) := by
  obtain ⟨r, io, rfl, hr, hio, hs⟩ := h.written
  have hrsr := hp.rsr true
  rw [MeshNode.sendMissing, MeshNode.sendMissing]
  rcases hrsr.encode hIn with ⟨e, e', he, he'⟩ | ⟨f, g, hf, hg⟩
  · rw [he, he']
    exact h
  · have hsent : EventAlike In (.sent peer f .reply n.cachedHead) (.sent peer g .reply n.cachedHead) :=
      .replied peer n.cachedHead hrsr hf hg
    have hio' := (hio.send hsent).count fun c => { c with rsrSent := c.rsrSent + 1 }
    rw [hf, hg]
    exact ⟨rfl, hr, hio', hs⟩

theorem handleRequestSync (h : Alike In base n m) :
    Alike In base (n.handleRequestSync env p src) (m.handleRequestSync env p src) := by
  have hrun : ∀ (peer : Link) (l l' : List Packet), List.Forall₂ (Twin In) l l' → ∀ n m, Alike In base n m →
      Alike In base (l.foldl (MeshNode.sendMissing peer) n) (l'.foldl (MeshNode.sendMissing peer) m) := by
    intro peer l l' hl
    induction hl with
    | nil => exact fun n m h => h
    | cons hpq _ ih => exact fun n m h => ih _ _ (sendMissing hIn hpq h peer)
  cases src with
  | none => exact h
  | some peer =>
    simp only [MeshNode.handleRequestSync, h.now_eq]
    cases GcsFilter.fromBytes p.payload with
    | none => exact h
    | some filter =>
      obtain ⟨hmissing, hrecent⟩ := RecentCache.missing_alike h.recent filter (n.now env)
      obtain ⟨r, io, rfl, hr, hio, hs⟩ := h.written
      exact hrun peer _ _ hmissing _ _ ⟨rfl, hrecent, hio.ask, hs⟩

theorem receivePacket (hgw : env.gateway = none) (hp : Relabelled In p q) (h : Alike In base n m) :
    Alike In base (n.receivePacket env p src) (m.receivePacket env q src) := by
  obtain ⟨payload, rfl, -⟩ := Twin.shape hIn (.inr hp)
  simp only [MeshNode.receivePacket]
  split_ifs with hreply hsync
  · exact dispatchPacket hIn hgw (.inl ((hp.rsr false).ttl 0)) (h.count _)
  · have heq := Twin.eq_of_open hIn (.inr hp) (by rw [hsync]; rfl)
    rw [← heq]
    exact handleRequestSync hIn h
  · exact dispatchPacket hIn hgw (.inl hp) h

omit hIn in
theorem admitPeer (h : Alike In base n m) (env : NodeEnv) (src : Option Link) :
    (m.admitPeer env src).1 = (n.admitPeer env src).1 ∧
      Alike In base (n.admitPeer env src).2 (m.admitPeer env src).2 := by
  cases src with
  | none => exact ⟨rfl, h⟩
  | some peer =>
    have hlim := h.field limiter fun _ _ _ => rfl
    simp only [MeshNode.admitPeer, hlim, h.now_eq, h.io.asked]
    generalize n.limiter.allow (env.bucketOrder n.io.asked) peer (n.now env) = out
    exact ⟨trivial, h.ask.map (f := fun n => { n with limiter := out.2 }) fun _ _ _ => rfl⟩

/-- The frames of one input: equal, or of two packets that the runs are paired on. -/
theorem processInbound (hgw : env.gateway = none) {f g : Bytes}
    (hfg : f = g ∧ (∀ p, decode f = .ok p → In p p) ∨ ∃ p q, decode f = .ok p ∧ decode g = .ok q ∧ In p q)
    (h : Alike In base n m) : Alike In base (n.processInbound env src f) (m.processInbound env src g) := by
  obtain ⟨hadmitted, hadmit⟩ := h.admitPeer env src
  have hinput : ∀ p q, In p q → Relabelled In p q := by
    intro p q hpq
    refine ⟨p, q, hpq, p.ttl, p.flags, rfl, ?_⟩
    rcases hIn p q hpq with rfl | hre
    · rfl
    · rw [hre.rest]
  simp only [MeshNode.processInbound, hadmitted]
  split_ifs
  · exact hadmit.count _
  · rcases hfg with ⟨rfl, hin⟩ | ⟨p, q, hf, hg, hpq⟩
    · cases hf : decode f with
      | error e => exact hadmit
      | ok p => exact receivePacket hIn hgw (hinput p p (hin p hf)) hadmit
    · simp only [hf, hg]
      exact receivePacket hIn hgw (hinput p q hpq) hadmit

end Sealed

end Alike
end Nimmesh
