import Nimmesh.Mesh.Completions
import Nimmesh.Mesh.Window

/-! @src engine.rs relay.rs beacon.rs balance.rs tx_history.rs chat.rs fragment.rs swap_node.rs |
    name:What a node carries onward | layer:properties

    Behind the first-seen gate a handler does what is its own and then carries the packet on. In between it may
    flood packets of its own, but the peers and the battery stay as they are, so the decision to relay can be read
    off the node as it was before. A payment and an intent are carried only under conditions of their type. -/

namespace Nimmesh
namespace MeshNode

/-! ### Up to the relay -/

/-- Peers and battery stay, and the trace only grows. -/
structure Poised (n m : MeshNode) : Prop where
  peers : m.peers = n.peers
  battery : m.battery = n.battery
  trace : n.io.trace <:+ m.io.trace

theorem Poised.refl (n : MeshNode) : Poised n n := ⟨rfl, rfl, List.suffix_rfl⟩

theorem Poised.trans {n m k : MeshNode} (h : Poised n m) (h' : Poised m k) : Poised n k :=
  ⟨h'.peers.trans h.peers, h'.battery.trans h.battery, h.trace.trans h'.trace⟩

theorem poised_of_eq {n m : MeshNode} (hp : m.peers = n.peers) (hb : m.battery = n.battery)
    (ht : m.io.trace = n.io.trace) : Poised n m := ⟨hp, hb, ht ▸ List.suffix_rfl⟩

/-- What is done before, beside the peers, the battery and the trace. -/
theorem Poised.before {n k m : MeshNode} (h : Poised k m) (hp : k.peers = n.peers) (hb : k.battery = n.battery)
    (ht : k.io.trace = n.io.trace) : Poised n m := (poised_of_eq hp hb ht).trans h

section Steps
variable (env : NodeEnv) (p : Packet) (src : Option Link) (n : MeshNode)

theorem poised_foldl {α : Type} {f : MeshNode → α → MeshNode} (h : ∀ n a, Poised n (f n a)) (l : List α)
    (n : MeshNode) : Poised n (l.foldl f n) := by
  induction l generalizing n with
  | nil => exact .refl n
  | cons a l ih => exact (h n a).trans (ih (f n a))

theorem poised_firstSeen : Poised n (n.firstSeen p).2 := by
  refine ⟨rfl, rfl, ?_⟩
  simp only [firstSeen]
  split_ifs
  · exact List.suffix_cons _ _
  · exact List.suffix_rfl

theorem poised_count (f : Counters → Counters) : Poised n (n.count f) := poised_of_eq rfl rfl rfl

theorem poised_remember : Poised n (n.remember env p) := ⟨rfl, rfl, (keeps_remember env p n).trace⟩

theorem poised_markOwn : Poised n (n.markOwn p) := ⟨rfl, rfl, (keeps_markOwn p n).trace⟩

theorem poised_floodPacket : Poised n (n.floodPacket env p) := by
  refine ⟨?_, ?_, (keeps_floodPacket env p n).trace⟩
  · unfold floodPacket
    split
    · rfl
    · rfl
  · unfold floodPacket
    split
    · rfl
    · rfl

theorem poised_originate (ty : MessageType) (payload : Bytes) : Poised n (n.originate env ty payload) := by
  simp only [originate]
  refine .trans ?_ (poised_floodPacket env _ _)
  refine .trans ?_ (poised_remember env _ _)
  exact (poised_markOwn _ _).before rfl rfl rfl

theorem poised_submit (gw : MeshGateway) (e : NimiqEnvelope) (txId : TxId) : Poised n (n.submit env gw e txId) := by
  simp only [submit]
  split_ifs
  · exact poised_of_eq rfl rfl rfl
  · split
    · exact ⟨rfl, rfl, List.suffix_cons _ _⟩
    · refine .trans ?_ (poised_floodPacket env _ _)
      refine .trans ?_ (poised_markOwn _ _)
      exact ⟨rfl, rfl, List.suffix_cons _ _⟩

theorem poised_answerBalance (address : NimAddress) (a : BalanceAnswer) :
    Poised n (n.answerBalance env address a) := by
  simp only [answerBalance]
  exact (poised_originate env _ _ _).before rfl rfl rfl

theorem poised_answerHistory (r : HistoryResponse) : Poised n (n.answerHistory env r) := by
  have hfrag (n : MeshNode) (frag : Bytes) : Poised n (n.originateFragment env frag) :=
    poised_originate env n .fragment frag
  simp only [answerHistory]
  refine .trans ?_ (poised_count _ _)
  exact (poised_foldl hfrag _ _).before rfl rfl rfl

theorem poised_countIntent : Poised n (n.countIntent p) := by
  simp only [countIntent]
  split
  · exact poised_of_eq rfl rfl rfl
  · exact .refl n

theorem poised_floodReplies (replies : List (MessageType × Bytes)) : Poised n (n.floodReplies env replies) := by
  have hreply (n : MeshNode) (reply : MessageType × Bytes) : Poised n (n.floodSwapReply env reply) :=
    poised_originate env n reply.1 reply.2
  exact poised_foldl hreply replies n

theorem poised_swapFastTick : Poised n (n.swapFastTick env) := by
  simp only [swapFastTick]
  split
  · exact poised_of_eq rfl rfl rfl
  · exact (poised_floodReplies env _ _).before rfl rfl rfl

theorem poised_admitPeer : Poised n (n.admitPeer env src).2 := by
  cases src with
  | none => exact .refl n
  | some peer => exact poised_of_eq rfl rfl rfl

end Steps

/-! ### The relay -/

/-- The conditions of its type under which a packet that is news is carried on. -/
def willing (env : NodeEnv) (p : Packet) (n : MeshNode) : Bool :=
  if p.msgType = .nimiqTx then
    let e := (decodeEnvelope p.payload).toOption
    !isExpired n.cachedHead (txValidUntil p) &&
      (!(n.verifyBeforeRelay && !e.any fun e => verifyBasicWire env.toCrypto e.txWire) &&
        !e.any fun e => n.acked.contains (claimedId e))
  else !n.staleIntent p

section Relay
variable {env : NodeEnv} {p : Packet} {src : Option Link} {n : MeshNode}

theorem willing_of_other (h : p.msgType ≠ .nimiqTx) (hw : n.willing env p = true) : n.staleIntent p = false := by
  rw [willing, if_neg h] at hw
  simpa using hw

theorem handleTx_carries (hty : p.msgType = .nimiqTx) (hnew : relayKey p ∉ n.relaySeen.order)
    (hw : n.willing env p = true) : ∃ m, Poised n m ∧ n.handleTx env p src = m.relayOnward env p src := by
  have hfresh := firstSeen_of_notMem hnew
  rw [willing, if_pos hty] at hw
  simp only [Bool.and_eq_true, Bool.not_eq_true'] at hw
  obtain ⟨hexp, hsig, hack⟩ := hw
  have hexp' : isExpired (n.firstSeen p).2.cachedHead (txValidUntil p) = false := hexp
  have hsig' : ((n.firstSeen p).2.verifyBeforeRelay && !(decodeEnvelope p.payload).toOption.any
      fun e => verifyBasicWire env.toCrypto e.txWire) = false := hsig
  have hack' : ((decodeEnvelope p.payload).toOption.any fun e =>
      (n.firstSeen p).2.acked.contains (claimedId e)) = false := hack
  simp only [handleTx, hfresh, hexp', hsig', hack', Bool.not_true, Bool.false_eq_true, if_false]
  refine ⟨_, ?_, rfl⟩
  refine .trans ((poised_firstSeen p n).trans (poised_remember env p _)) ?_
  split
  · exact poised_submit env _ _ _ _
  · exact .refl _

theorem handleSwapPacket_carries (hnew : relayKey p ∉ n.relaySeen.order) (hw : n.staleIntent p = false) :
    ∃ m, Poised n m ∧ n.handleSwapPacket env p src = m.relayOnward env p src := by
  have hfresh := firstSeen_of_notMem hnew
  have hgate : Poised n (((n.firstSeen p).2.remember env p).countIntent p) :=
    ((poised_firstSeen p n).trans (poised_remember env p _)).trans (poised_countIntent p _)
  have hw' : (((n.firstSeen p).2.remember env p).countIntent p).staleIntent p = false := by
    have hcount : ∀ m : MeshNode, (m.countIntent p).staleIntent p = m.staleIntent p := by
      intro m
      unfold countIntent
      split
      · rfl
      · rfl
    rw [hcount]
    exact hw
  simp only [handleSwapPacket, hfresh, hw', Bool.not_true, Bool.false_eq_true, if_false]
  refine ⟨_, hgate.trans ?_, rfl⟩
  split
  · exact .refl _
  · exact (poised_floodReplies env _ _).before rfl rfl rfl

theorem handleFragment_carries (hnew : relayKey p ∉ n.relaySeen.order) : ∃ m, Poised n m ∧
    (m.relayOnward env p src).io.trace <:+ (n.handleFragment env p src).2.io.trace := by
  have hfresh := firstSeen_of_notMem hnew
  simp only [handleFragment, hfresh, Bool.not_true, Bool.false_eq_true, if_false]
  refine ⟨((n.firstSeen p).2.remember env p).ask, ?_, ?_⟩
  · exact ((poised_firstSeen p n).trans (poised_remember env p _)).trans (poised_of_eq rfl rfl rfl)
  · split
    · exact List.suffix_rfl
    · split
      · exact List.suffix_rfl
      · split
        · exact List.suffix_rfl
        · exact List.suffix_rfl

/-- CORRECT: what is news to a node and meets the conditions of its type is put to the relay, with the node's
    peers and battery as they are. -/
theorem dispatchOnce_carries (src : Option Link) (hnew : relayKey p ∉ n.relaySeen.order) (hw : n.willing env p = true) :
    ∃ m, Poised n m ∧ (m.relayOnward env p src).io.trace <:+ (n.dispatchOnce env p src).2.io.trace := by
  have hfresh := firstSeen_of_notMem hnew
  have hgate := (poised_firstSeen p n).trans (poised_remember env p _)
  have hof : ∀ {k : MeshNode}, (∃ m, Poised n m ∧ k = m.relayOnward env p src) → ∃ m, Poised n m ∧
      (m.relayOnward env p src).io.trace <:+ k.io.trace := by
    rintro k ⟨m, hm, rfl⟩
    exact ⟨m, hm, List.suffix_rfl⟩
  have hblind : ∃ m, Poised n m ∧ n.handleOther env p src = m.relayOnward env p src := by
    simp only [handleOther, hfresh, if_true]
    exact ⟨_, hgate, rfl⟩
  have hswap : p.msgType ≠ .nimiqTx → ∃ m, Poised n m ∧ n.handleSwapPacket env p src = m.relayOnward env p src :=
    fun hty => handleSwapPacket_carries hnew (willing_of_other hty hw)
  rw [dispatchOnce]
  split
  case h_1 hty => exact hof (handleTx_carries hty hnew hw)
  case h_2 =>
    refine hof ?_
    simp only [handleReceipt, hfresh, Bool.not_true, Bool.false_eq_true, if_false]
    refine ⟨_, hgate.trans ?_, rfl⟩
    split
    · exact poised_of_eq rfl rfl rfl
    · exact .refl _
  case h_3 =>
    refine hof ?_
    simp only [handleHeadBeacon, hfresh, Bool.not_true, Bool.false_eq_true, if_false]
    refine ⟨_, ((poised_firstSeen p n).trans ?_).trans (poised_remember env p _), rfl⟩
    split
    · exact poised_of_eq rfl rfl rfl
    · exact .refl _
  case h_4 =>
    refine hof ?_
    simp only [handleBalanceQuery, hfresh, Bool.not_true, Bool.false_eq_true, if_false]
    refine ⟨_, hgate.trans ?_, rfl⟩
    split
    · split
      · exact (poised_answerBalance env _ _ _).before rfl rfl rfl
      · exact poised_of_eq rfl rfl rfl
    · exact .refl _
  case h_5 =>
    refine hof ?_
    simp only [handleBalanceResponse, hfresh, Bool.not_true, Bool.false_eq_true, if_false]
    refine ⟨_, ((poised_firstSeen p n).trans ?_).trans (poised_remember env p _), rfl⟩
    split
    · exact poised_of_eq rfl rfl rfl
    · exact .refl _
  case h_6 =>
    refine hof ?_
    simp only [handleHistoryQuery, hfresh, Bool.not_true, Bool.false_eq_true, if_false]
    refine ⟨_, hgate.trans ?_, rfl⟩
    split
    · split
      · exact (poised_answerHistory env _ _).before rfl rfl rfl
      · exact poised_of_eq rfl rfl rfl
    · exact .refl _
  case h_7 =>
    refine hof ?_
    simp only [handleHistoryResponse, hfresh, Bool.not_true, Bool.false_eq_true, if_false]
    refine ⟨_, ((poised_firstSeen p n).trans ?_).trans (poised_remember env p _), rfl⟩
    split
    · exact poised_of_eq rfl rfl rfl
    · exact .refl _
  case h_8 => exact handleFragment_carries hnew
  case h_15 =>
    refine hof ?_
    simp only [handleChatPacket, hfresh, Bool.not_true, Bool.false_eq_true, if_false]
    refine ⟨_, hgate.trans ?_, rfl⟩
    split
    · exact poised_of_eq rfl rfl rfl
    · exact .refl _
  all_goals first
    | exact hof hblind
    | exact hof (hswap (by simp [*]))

/-- The first round of a dispatch is behind the whole of it. -/
theorem trace_dispatchPacket (env : NodeEnv) (p : Packet) (src : Option Link) (n : MeshNode) :
    (n.dispatchOnce env p src).2.io.trace <:+ (n.dispatchPacket env p src).io.trace := by
  refine dispatch_induction (P := fun p src n m => (n.dispatchOnce env p src).2.io.trace <:+ m.io.trace)
    (fun p src n m h => ?_) (fun p src n r m k h ih => ?_) p src n
  · rw [h]
  · rw [h]
    exact ((poised_firstSeen r m).trace.trans (trace_dispatchOnce env r none m)).trans ih

/-! ### The roll -/

/-- When a packet is dispatched, the relay decides on it in a state in which the posture carries its type and the degree
    roll is won. -/
def Passes (env : NodeEnv) (p : Packet) (src : Option Link) (n : MeshNode) : Prop :=
  ∃ m, Poised n m ∧ (m.relayOnward env p src).io.trace <:+ (n.dispatchOnce env p src).2.io.trace ∧
    (m.relayAllowed env p.msgType).1 = true

/-- A packet that is taken up passes if the draws win the roll at the node's degree. -/
theorem passes_of_draws (src : Option Link) (hnew : relayKey p ∉ n.relaySeen.order) (hw : n.willing env p = true)
    (hty : (relayPosture n.battery).relaysType p.msgType = true)
    (hdraws : ∀ i, bernoulli (env.draw i) (relayChance n.peers.length (relayPosture n.battery).probabilityFactor) =
      true) : n.Passes env p src := by
  obtain ⟨m, hm, hcarry⟩ := dispatchOnce_carries src hnew hw
  refine ⟨m, hm, hcarry, ?_⟩
  simp only [relayAllowed, hm.battery, hm.peers, hty, Bool.not_true, Bool.false_eq_true, if_false]
  exact hdraws m.io.asked

/-- A node that relays packets of this type with certainty: its battery does not hold it back, and it has so few
    peers that each of them counts. -/
def Eager (ty : MessageType) (n : MeshNode) : Prop :=
  (relayPosture n.battery).relaysType ty = true ∧ (relayPosture n.battery).probabilityFactor = 1 ∧
    n.peers.length < highDegreeThreshold

instance (ty : MessageType) (n : MeshNode) : Decidable (n.Eager ty) := inferInstanceAs (Decidable (_ ∧ _ ∧ _))

/-- No roll is lost then. -/
theorem passes_of_eager (src : Option Link) (hnew : relayKey p ∉ n.relaySeen.order) (hw : n.willing env p = true)
    (h : n.Eager p.msgType) : n.Passes env p src := by
  obtain ⟨hty, hfactor, hdeg⟩ := h
  have hchance : relayChance n.peers.length (relayPosture n.battery).probabilityFactor = 1 := by
    rw [relayChance, if_pos hdeg, hfactor]
    norm_num
  refine passes_of_draws src hnew hw hty fun i => ?_
  rw [hchance]
  simp [bernoulli]

theorem relayOnward_sends (env : NodeEnv) (src : Option Link) (h : (n.relayAllowed env p.msgType).1 = true)
    {ttl : UInt8} (httl : relayedTtl p.ttl = some ttl) {frame : Bytes}
    (hframe : encode { p with ttl } = .ok frame) : ∃ add, (n.relayOnward env p src).io.trace = add ++ n.io.trace ∧
      ∀ peer ∈ n.peers, some peer ≠ src → .sent peer frame .relay n.cachedHead ∈ add := by
  have htrace := relayAllowed_trace env p.msgType n
  have hroll := relayAllowed_eq env p.msgType n
  unfold relayOnward
  generalize n.relayAllowed env p.msgType = roll at h htrace hroll ⊢
  obtain ⟨allowed, m⟩ := roll
  dsimp only at h htrace hroll ⊢
  have hrest : m.peers = n.peers ∧ m.cachedHead = n.cachedHead := by
    rw [hroll]
    exact ⟨rfl, rfl⟩
  have hflood := floodExcluding_sends env frame src .relay (m.ask.count (Counters.relayed p.msgType))
  simp only [h, httl, hframe, Bool.not_true, Bool.false_eq_true, if_false]
  rw [← htrace, ← hrest.1, ← hrest.2]
  exact hflood

/-- A frame that is admitted and holds a packet for dispatch. -/
theorem step_dispatch {bytes : Bytes} (hadm : (n.admitPeer env src).1 = true) (hdec : decode bytes = .ok p)
    (hrsr : p.flags.isRsr = false) (hsync : p.msgType ≠ .requestSync) : n.step env (.inbound src bytes) =
      ((n.admitPeer env src).2.dispatchPacket env p src).swapFastTick env := by
  rw [step, processInbound_admitted hadm hdec, receivePacket, if_neg (by simp [hrsr]), if_neg hsync]

/-- STEP: a node takes a packet in that is news to it. -/
theorem step_takes {bytes : Bytes} (hadm : (n.admitPeer env src).1 = true) (hdec : decode bytes = .ok p)
    (hrsr : p.flags.isRsr = false) (hsync : p.msgType ≠ .requestSync) (hnew : relayKey p ∉ n.relaySeen.order) :
    .took p ∈ n.news env (.inbound src bytes) := by
  have hbooks := admitPeer_books env src n
  have hseen : (n.admitPeer env src).2.relaySeen = n.relaySeen := congrArg Books.relaySeen hbooks
  have htrace : (n.admitPeer env src).2.io.trace = n.io.trace := congrArg Books.trace hbooks
  have hfirst := trace_firstSeen (n := (n.admitPeer env src).2) (p := p) (hseen ▸ hnew)
  have hbehind := (trace_dispatchOnce env p src (n.admitPeer env src).2).trans (trace_dispatchPacket env p src _)
  obtain ⟨after, hafter⟩ := hbehind.trans (poised_swapFastTick env _).trace
  have hnews : n.news env (.inbound src bytes) = after ++ [.took p] := by
    refine news_eq ?_
    rw [step_dispatch hadm hdec hrsr hsync, ← hafter, hfirst, htrace, List.append_assoc]
    rfl
  rw [hnews]
  exact List.mem_append_right _ (List.mem_singleton_self _)

/-- STEP: a node that hears a packet, and lets it pass, sends it to every other peer with one hop less. -/
theorem step_relays {bytes frame : Bytes} {ttl : UInt8} (hadm : (n.admitPeer env src).1 = true)
    (hdec : decode bytes = .ok p) (hrsr : p.flags.isRsr = false) (hsync : p.msgType ≠ .requestSync)
    (hpass : (n.admitPeer env src).2.Passes env p src)
    (httl : relayedTtl p.ttl = some ttl) (hframe : encode { p with ttl } = .ok frame) :
    ∀ peer ∈ n.peers, some peer ≠ src → ∃ head, .sent peer frame .relay head ∈ n.news env (.inbound src bytes) := by
  obtain ⟨m, hm, hcarry, hallowed⟩ := hpass
  have hpoised := (poised_admitPeer env src n).trans hm
  obtain ⟨add, hadd, hsent⟩ := relayOnward_sends env src hallowed httl hframe
  obtain ⟨before, hbefore⟩ := hpoised.trace
  obtain ⟨after, hafter⟩ := (hcarry.trans (trace_dispatchPacket env p src _)).trans (poised_swapFastTick env _).trace
  have hnews : n.news env (.inbound src bytes) = after ++ add ++ before := by
    refine news_eq ?_
    rw [step_dispatch hadm hdec hrsr hsync, ← hafter, hadd, ← hbefore]
    simp only [List.append_assoc]
  intro peer hpeer hback
  refine ⟨m.cachedHead, ?_⟩
  rw [hnews]
  have hmem := hsent peer (hpoised.peers ▸ hpeer) hback
  exact List.mem_append_left _ (List.mem_append_right _ hmem)

end Relay

end MeshNode
end Nimmesh
