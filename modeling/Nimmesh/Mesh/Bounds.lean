import Nimmesh.Mesh.Dispatch
import Nimmesh.Mesh.Reassembly

/-! @src engine.rs dedup.rs fragment.rs ratelimit.rs chat.rs store_forward.rs | name:A node's size | layer:properties

    A node that hears anything at all stays small. Most handlers leave the rate limiter, the capacities of the seen
    sets, the chat log and the reassembler as they are; the few that write to one keep its bound. The rate limiter is
    consulted at the door only, once for each frame that names its peer. -/

namespace Nimmesh
open Word

/-! ### The sets of fragments -/

/-- Every chunk of the set has its place in it, and one is missing. -/
structure Partial.Unfinished (p : Partial) : Prop where
  placed : ∀ i ∈ p.chunks, i < p.total
  missing : p.chunks.len < p.total.toNat

namespace Reassembler

/-- Not too many sets in flight, and none of them complete. -/
structure Bounded (r : Reassembler) : Prop where
  few : Table.len r ≤ maxInFlight
  unfinished : ∀ e ∈ r.entries, e.2.Unfinished

theorem bounded_empty : Bounded ∅ := ⟨Nat.zero_le _, fun _ h => absurd h List.not_mem_nil⟩

theorem mem_of_mem_erase {r : Reassembler} {id : FragmentId} {e : Σ _ : FragmentId, Partial}
    (h : e ∈ (r.erase id).entries) : e ∈ r.entries := (List.kerase_sublist id r.entries).subset h

theorem mem_of_mem_evictIfFull {r : Reassembler} {e : Σ _ : FragmentId, Partial} (h : e ∈ (evictIfFull r).entries) :
    e ∈ r.entries := by
  unfold evictIfFull at h
  split_ifs at h
  · exact h
  · split at h
    · exact mem_of_mem_erase h
    · exact h

/-- The set that a fragment goes to has its total and only chunks in their place; the others were there. -/
theorem unfinished_partialFor {r : Reassembler} (h : ∀ e ∈ r.entries, e.2.Unfinished) (f : Fragment) (nowMs : UInt64) :
    (partialFor r f nowMs).1.total = f.total ∧ (∀ i ∈ (partialFor r f nowMs).1.chunks, i < f.total) ∧
      ∀ e ∈ (partialFor r f nowMs).2.entries, e.2.Unfinished := by
  have hnone : ∀ i ∈ (∅ : Table UInt16 Bytes), i < f.total := fun i hi => absurd hi (AList.notMem_empty i)
  unfold partialFor
  split
  · next p hp =>
    split_ifs with hother
    · exact ⟨rfl, hnone, fun e he => h e (mem_of_mem_erase (mem_of_mem_evictIfFull he))⟩
    · have htotal : p.total = f.total := not_not.mp fun hne => hother (.inl hne)
      have hplaced := (h ⟨f.id, p⟩ ((Table.lookup_eq_some_iff r f.id p).mp hp)).placed
      exact ⟨htotal, fun i hi => htotal ▸ hplaced i hi, h⟩
  · exact ⟨rfl, hnone, fun e he => h e (mem_of_mem_evictIfFull he)⟩

/-- A table of chunks that have their place has at most as many as there are places. -/
theorem len_le_of_placed {t : Table UInt16 Bytes} {total : UInt16} (h : ∀ i ∈ t, i < total) :
    t.len ≤ total.toNat := by
  have hsub : (t.keys.map UInt16.toNat) ⊆ List.range total.toNat := by
    intro n hn
    obtain ⟨i, hi, rfl⟩ := List.mem_map.mp hn
    exact List.mem_range.mpr (UInt16.lt_iff_toNat_lt.mp (h i (AList.mem_keys.mpr hi)))
  have hnodup : (t.keys.map UInt16.toNat).Nodup := t.keys_nodup.map fun _ _ => UInt16.toNat_inj.mp
  have hlen := (hnodup.subperm hsub).length_le
  rw [List.length_map, List.length_range] at hlen
  rwa [Table.len, ← List.length_map (f := Sigma.fst)]

/-- STEP: a fragment that has its place leaves the reassembler within its bounds. -/
theorem Bounded.accept {r : Reassembler} (h : Bounded r) {f : Fragment} (hf : f.index < f.total) (nowMs : UInt64) :
    Bounded (accept r f nowMs).2 := by
  refine ⟨len_accept h.few f nowMs, ?_⟩
  have hgc : ∀ e ∈ (gc r nowMs).entries, e.2.Unfinished := fun e he => h.unfinished e (List.mem_of_mem_filter he)
  obtain ⟨htotal, hplaced, hrest⟩ := unfinished_partialFor hgc f nowMs
  rw [accept_eq (Prod.eta _).symm rfl]
  split_ifs with hfull
  · exact fun e he => hrest e (mem_of_mem_erase he)
  · intro e he
    rw [AList.entries_insert, List.mem_cons] at he
    rcases he with rfl | he
    · have hall : ∀ i ∈ (partialFor (gc r nowMs) f nowMs).1.chunks.insert f.index f.chunk, i < f.total := by
        intro i hi
        rcases (AList.mem_insert _).mp hi with rfl | hi
        · exact hf
        · exact hplaced i hi
      refine ⟨fun i hi => htotal ▸ hall i hi, lt_of_le_of_ne ?_ fun heq => hfull ?_⟩
      · exact htotal ▸ len_le_of_placed hall
      · exact UInt16.toNat_inj.mp (by simp [heq])
    · exact hrest e (mem_of_mem_erase he)

end Reassembler

theorem index_lt_of_parseFragment {bytes : Bytes} {f : Fragment} (h : parseFragment bytes = some f) :
    f.index < f.total := by
  unfold parseFragment at h
  split_ifs at h
  simp only at h
  split_ifs at h with hbad
  cases h
  exact UInt16.not_le.mp fun hle => hbad (.inr hle)

/-! ### The rate limiter -/

theorem PeerRateLimiter.len_evictIfFull {walk : BucketOrder} {l : PeerRateLimiter} {peer : Link}
    (h : Table.len l ≤ maxTrackedPeers) (hnew : peer ∉ l) : Table.len (evictIfFull walk l peer) < maxTrackedPeers := by
  have hnone : (l.lookup peer).isSome = false := by
    rw [AList.lookup_eq_none.mpr hnew]
    rfl
  unfold evictIfFull
  simp only [hnone, Bool.false_eq_true, or_false]
  split_ifs with hroom
  · exact hroom
  · cases hmin : (walk.1 l.entries).argmin fun e => e.2.lastMs.toNat with
    | none =>
      have hzero : Table.len l = 0 := by
        rw [Table.len, ← (walk.2 l.entries).length_eq, List.argmin_eq_none.mp hmin]
        rfl
      rw [hzero] at hroom
      exact absurd (by decide) hroom
    | some oldest =>
      have hentry := (walk.2 l.entries).mem_iff.mp (List.argmin_mem hmin)
      have hmem : oldest.1 ∈ l := AList.mem_keys.mpr (List.mem_map_of_mem hentry)
      have hlen := Table.len_erase_of_mem hmem
      dsimp only
      omega

theorem PeerRateLimiter.evictIfFull_of_mem {walk : BucketOrder} {l : PeerRateLimiter} {peer : Link} (h : peer ∈ l) :
    evictIfFull walk l peer = l := if_pos (.inr (AList.lookup_isSome.mpr h))

/-- However many peers come by, the limiter keeps track of only so many. -/
theorem PeerRateLimiter.len_allow (walk : BucketOrder) {l : PeerRateLimiter} (h : Table.len l ≤ maxTrackedPeers)
    (peer : Link) (nowMs : UInt64) : Table.len (allow walk l peer nowMs).2 ≤ maxTrackedPeers := by
  have hins : ∀ b, Table.len ((evictIfFull walk l peer).insert peer b) ≤ maxTrackedPeers := by
    intro b
    by_cases hmem : peer ∈ l
    · rw [evictIfFull_of_mem hmem, Table.len_insert_of_mem hmem]
      exact h
    · have hroom : Table.len (evictIfFull walk l peer) < maxTrackedPeers := len_evictIfFull h hmem
      have hle := Table.len_insert_le (evictIfFull walk l peer) peer b
      omega
  unfold allow
  dsimp only
  split_ifs
  · exact hins _
  · exact hins _

theorem ChatLog.length_push_le {l : ChatLog} (h : l.length ≤ chatLogCap) (e : ChatEntry) :
    (l.push e).length ≤ chatLogCap := by
  unfold push
  split_ifs
  · exact h
  · exact Fifo.length_push_le (by decide) h e

namespace MeshNode

/-! ### What a handler does -/

/-- How much the three seen sets may hold. -/
def seenCaps (n : MeshNode) : ℕ × ℕ × ℕ := (n.relaySeen.capacity, n.gatewaySeen.capacity, n.acked.capacity)

/-- The rate limiter and the capacities are left alone, consultations are only added, and bounds are kept. -/
structure Modest (n m : MeshNode) : Prop where
  limiter : m.limiter = n.limiter
  caps : m.seenCaps = n.seenCaps
  asked : n.io.asked ≤ m.io.asked
  chat : n.chat.length ≤ chatLogCap → m.chat.length ≤ chatLogCap
  reassembler : n.reassembler.Bounded → m.reassembler.Bounded

theorem Modest.refl (n : MeshNode) : Modest n n := ⟨rfl, rfl, le_rfl, id, id⟩

theorem Modest.trans {n m k : MeshNode} (h : Modest n m) (h' : Modest m k) : Modest n k :=
  ⟨h'.limiter.trans h.limiter, h'.caps.trans h.caps, h.asked.trans h'.asked, h'.chat ∘ h.chat,
    h'.reassembler ∘ h.reassembler⟩

/-- What is done to the other parts of a node is modest. -/
theorem modest_of_eq {n m : MeshNode} (hl : m.limiter = n.limiter) (hs : m.seenCaps = n.seenCaps)
    (ha : n.io.asked ≤ m.io.asked) (hc : m.chat = n.chat) (hr : m.reassembler = n.reassembler) : Modest n m :=
  ⟨hl, hs, ha, fun h => hc ▸ h, fun h => hr ▸ h⟩

/-- What is done before, to the other parts of the node. -/
theorem Modest.before {n k m : MeshNode} (h : Modest k m) (hl : k.limiter = n.limiter) (hs : k.seenCaps = n.seenCaps)
    (ha : n.io.asked ≤ k.io.asked) (hc : k.chat = n.chat) (hr : k.reassembler = n.reassembler) : Modest n m :=
  (modest_of_eq hl hs ha hc hr).trans h

section Handlers
variable (env : NodeEnv) (p : Packet) (src : Option Link) (n : MeshNode)

theorem modest_foldl {α : Type} {f : MeshNode → α → MeshNode} (h : ∀ n a, Modest n (f n a)) (l : List α)
    (n : MeshNode) : Modest n (l.foldl f n) := by
  induction l generalizing n with
  | nil => exact .refl n
  | cons a l ih => exact (h n a).trans (ih (f n a))

theorem modest_ask : Modest n n.ask := modest_of_eq rfl rfl (Nat.le_succ _) rfl rfl

theorem modest_count (f : Counters → Counters) : Modest n (n.count f) := modest_of_eq rfl rfl le_rfl rfl rfl

theorem modest_log (e : MeshEvent) : Modest n (n.log e) := modest_of_eq rfl rfl le_rfl rfl rfl

theorem modest_firstSeen : Modest n (n.firstSeen p).2 := by
  refine modest_of_eq rfl ?_ ?_ rfl rfl
  · simp only [firstSeen, seenCaps, DedupCache.insert_capacity]
  · simp only [firstSeen]
    split_ifs
    · exact le_rfl
    · exact le_rfl

theorem modest_markOwn : Modest n (n.markOwn p) := by
  refine modest_of_eq rfl ?_ ?_ rfl rfl
  · simp only [markOwn, seenCaps, DedupCache.insert_capacity]
  · simp only [markOwn]
    split_ifs
    · exact le_rfl
    · exact le_rfl

theorem modest_remember : Modest n (n.remember env p) := by
  refine modest_of_eq rfl rfl ?_ rfl rfl
  simp only [remember]
  split_ifs
  · exact Nat.le_succ _
  · exact Nat.le_succ _

theorem modest_floodExcluding (frame : Bytes) (exclude : Option Link) (kind : SendKind) :
    Modest n (n.floodExcluding env frame exclude kind) := by
  refine modest_of_eq rfl rfl ?_ rfl rfl
  have hrun (l : List Link) (io : NodeIo) : io.asked ≤ (l.foldl (fun (io : NodeIo) peer =>
      if some peer = exclude then io else io.send peer frame kind n.cachedHead) io).asked := by
    induction l generalizing io with
    | nil => exact le_rfl
    | cons peer l ih =>
      refine le_trans ?_ (ih _)
      dsimp only
      split_ifs
      · exact le_rfl
      · exact le_rfl
  exact hrun _ _

theorem modest_floodPacket : Modest n (n.floodPacket env p) := by
  unfold floodPacket
  split
  · exact modest_floodExcluding env n _ none .own
  · exact .refl n

theorem modest_buildPacket (ty : MessageType) (payload : Bytes) : Modest n (n.buildPacket ty payload).2 :=
  modest_of_eq rfl rfl le_rfl rfl rfl

theorem modest_originate (ty : MessageType) (payload : Bytes) : Modest n (n.originate env ty payload) := by
  simp only [originate]
  refine .trans ?_ (modest_floodPacket env _ _)
  refine .trans ?_ (modest_remember env _ _)
  exact (modest_buildPacket n ty payload).trans (modest_markOwn _ _)

theorem modest_relayOnward : Modest n (n.relayOnward env p src) := by
  have hroll : Modest n (n.relayAllowed env p.msgType).2 := by
    simp only [relayAllowed]
    split_ifs
    · exact .refl n
    · exact modest_ask n
    · exact .refl n
  refine hroll.trans ?_
  simp only [relayOnward]
  split_ifs
  · exact .refl _
  · split
    · exact .refl _
    · split
      · exact modest_ask _
      · refine (modest_ask _).trans ?_
        exact (modest_count _ _).trans (modest_floodExcluding env _ _ src .relay)

/-! ### Handlers of packets -/

theorem modest_submit (gw : MeshGateway) (e : NimiqEnvelope) (txId : TxId) : Modest n (n.submit env gw e txId) := by
  have hseen : Modest n { n with gatewaySeen := (n.gatewaySeen.insert txId).2 } :=
    modest_of_eq rfl (by simp only [seenCaps, DedupCache.insert_capacity]) le_rfl rfl rfl
  refine hseen.trans ?_
  simp only [submit]
  split_ifs
  · exact .refl _
  · split
    · exact (modest_ask _).trans (modest_log _ _)
    · refine .trans ?_ (modest_floodPacket env _ _)
      refine .trans ?_ (modest_markOwn _ _)
      exact (modest_ask _).trans ((modest_log _ _).trans (modest_buildPacket _ _ _))

theorem modest_handleTx : Modest n (n.handleTx env p src) := by
  refine (modest_firstSeen p n).trans ?_
  simp only [handleTx]
  split_ifs
  · exact .refl _
  · exact modest_count _ _
  · exact modest_count _ _
  · exact modest_count _ _
  · refine .trans ?_ (modest_relayOnward env p src _)
    refine (modest_remember env p _).trans ?_
    split
    · exact modest_submit env _ _ _ _
    · exact .refl _

theorem modest_handleReceipt : Modest n (n.handleReceipt env p src) := by
  refine (modest_firstSeen p n).trans ?_
  simp only [handleReceipt]
  split_ifs
  · exact .refl _
  · refine .trans ?_ (modest_relayOnward env p src _)
    refine (modest_remember env p _).trans ?_
    split
    · exact modest_of_eq rfl (by simp only [seenCaps, DedupCache.insert_capacity]) le_rfl rfl rfl
    · exact .refl _

theorem modest_handleHeadBeacon : Modest n (n.handleHeadBeacon env p src) := by
  refine (modest_firstSeen p n).trans ?_
  simp only [handleHeadBeacon]
  split_ifs
  · exact .refl _
  · refine .trans ?_ (modest_relayOnward env p src _)
    refine .trans ?_ (modest_remember env p _)
    split
    · exact modest_of_eq rfl rfl le_rfl rfl rfl
    · exact .refl _

theorem modest_handleBalanceQuery : Modest n (n.handleBalanceQuery env p src) := by
  refine (modest_firstSeen p n).trans ?_
  simp only [handleBalanceQuery]
  split_ifs
  · exact .refl _
  · refine .trans ?_ (modest_relayOnward env p src _)
    refine (modest_remember env p _).trans ?_
    split
    · split
      · refine (modest_ask _).trans ?_
        exact (modest_originate env _ .nimiqBalanceResponse _).before rfl rfl le_rfl rfl rfl
      · exact modest_ask _
    · exact .refl _

theorem modest_handleBalanceResponse : Modest n (n.handleBalanceResponse env p src) := by
  refine (modest_firstSeen p n).trans ?_
  simp only [handleBalanceResponse]
  split_ifs
  · exact .refl _
  · refine .trans ?_ (modest_relayOnward env p src _)
    refine .trans ?_ (modest_remember env p _)
    split
    · exact modest_of_eq rfl rfl le_rfl rfl rfl
    · exact .refl _

theorem modest_answerHistory (r : HistoryResponse) : Modest n (n.answerHistory env r) := by
  have hfrag (n : MeshNode) (frag : Bytes) : Modest n (n.originateFragment env frag) :=
    modest_originate env n .fragment frag
  simp only [answerHistory]
  refine .trans ?_ (modest_count _ _)
  exact (modest_foldl hfrag _ _).before rfl rfl le_rfl rfl rfl

theorem modest_handleHistoryQuery : Modest n (n.handleHistoryQuery env p src) := by
  refine (modest_firstSeen p n).trans ?_
  simp only [handleHistoryQuery]
  split_ifs
  · exact .refl _
  · refine .trans ?_ (modest_relayOnward env p src _)
    refine (modest_remember env p _).trans ?_
    split
    · split
      · exact (modest_ask _).trans (modest_answerHistory env _ _)
      · exact modest_ask _
    · exact .refl _

theorem modest_handleHistoryResponse : Modest n (n.handleHistoryResponse env p src) := by
  refine (modest_firstSeen p n).trans ?_
  simp only [handleHistoryResponse]
  split_ifs
  · exact .refl _
  · refine .trans ?_ (modest_relayOnward env p src _)
    refine .trans ?_ (modest_remember env p _)
    split
    · exact modest_of_eq rfl rfl le_rfl rfl rfl
    · exact .refl _

theorem modest_chat (e : ChatEntry) : Modest n { n with chat := n.chat.push e } :=
  ⟨rfl, rfl, le_rfl, fun h => ChatLog.length_push_le h e, id⟩

theorem modest_handleChatPacket : Modest n (n.handleChatPacket env p src) := by
  refine (modest_firstSeen p n).trans ?_
  simp only [handleChatPacket]
  split_ifs
  · exact .refl _
  · refine .trans ?_ (modest_relayOnward env p src _)
    refine (modest_remember env p _).trans ?_
    split
    · exact modest_chat _ _
    · exact .refl _

theorem modest_countIntent : Modest n (n.countIntent p) := by
  simp only [countIntent]
  split
  · exact modest_count _ _
  · exact .refl _

theorem modest_floodReplies (replies : List (MessageType × Bytes)) : Modest n (n.floodReplies env replies) := by
  have hreply (n : MeshNode) (reply : MessageType × Bytes) : Modest n (n.floodSwapReply env reply) :=
    modest_originate env n reply.1 reply.2
  exact modest_foldl hreply replies n

theorem modest_handleSwapPacket : Modest n (n.handleSwapPacket env p src) := by
  have hcount (m : MeshNode) : Modest m ((m.remember env p).countIntent p) :=
    (modest_remember env p m).trans (modest_countIntent p _)
  refine (modest_firstSeen p n).trans ?_
  simp only [handleSwapPacket]
  split_ifs
  · exact .refl _
  · exact hcount _
  · refine .trans ?_ (modest_relayOnward env p src _)
    refine (hcount _).trans ?_
    split
    · exact .refl _
    · exact (modest_floodReplies env _ _).before rfl rfl le_rfl rfl rfl

theorem modest_handleOther : Modest n (n.handleOther env p src) := by
  refine (modest_firstSeen p n).trans ?_
  simp only [handleOther]
  split_ifs
  · exact (modest_remember env p _).trans (modest_relayOnward env p src _)
  · exact .refl _

theorem modest_handleFragment : Modest n (n.handleFragment env p src).2 := by
  refine (modest_firstSeen p n).trans ?_
  simp only [handleFragment]
  split_ifs
  · exact .refl _
  · refine (modest_remember env p _).trans ?_
    refine (modest_ask _).trans ?_
    refine (modest_relayOnward env p src _).trans ?_
    split
    · exact .refl _
    · next f hf =>
      have hfed (m : MeshNode) (nowMs : UInt64) :
          Modest m { m with reassembler := (m.reassembler.accept f nowMs).2 } :=
        ⟨rfl, rfl, le_rfl, id, fun h => h.accept (index_lt_of_parseFragment hf) nowMs⟩
      split
      · exact hfed _ _
      · split
        · exact hfed _ _
        · exact (hfed _ _).trans (modest_ask _)

theorem modest_dispatchOnce : Modest n (n.dispatchOnce env p src).2 := by
  simp only [dispatchOnce]
  split
  case h_1 => exact modest_handleTx env p src n
  case h_2 => exact modest_handleReceipt env p src n
  case h_3 => exact modest_handleHeadBeacon env p src n
  case h_4 => exact modest_handleBalanceQuery env p src n
  case h_5 => exact modest_handleBalanceResponse env p src n
  case h_6 => exact modest_handleHistoryQuery env p src n
  case h_7 => exact modest_handleHistoryResponse env p src n
  case h_8 => exact modest_handleFragment env p src n
  case h_15 => exact modest_handleChatPacket env p src n
  all_goals first
    | exact modest_handleSwapPacket env p src n
    | exact modest_handleOther env p src n

theorem modest_dispatchLoop (fuel : ℕ) : Modest n (dispatchLoop env fuel p src n) := by
  induction fuel generalizing p src n with
  | zero => exact .refl n
  | succ fuel ih =>
    have hround := modest_dispatchOnce env p src n
    rw [dispatchLoop]
    split
    · next m h => exact (congrArg Prod.snd h ▸ hround :)
    · next r m h => exact (congrArg Prod.snd h ▸ hround :).trans (ih r none m)

/-! ### Jobs -/

theorem modest_sendMissing (peer : Link) : Modest n (n.sendMissing peer p) := by
  unfold sendMissing
  split
  · exact modest_of_eq rfl rfl le_rfl rfl rfl
  · exact .refl n

theorem modest_handleRequestSync : Modest n (n.handleRequestSync env p src) := by
  unfold handleRequestSync
  split
  · exact (modest_foldl (fun m p => modest_sendMissing p m _) _ _).before rfl rfl (Nat.le_succ _) rfl rfl
  · exact .refl n

theorem modest_receivePacket : Modest n (n.receivePacket env p src) := by
  unfold receivePacket
  split_ifs
  · exact (modest_count _ _).trans (modest_dispatchLoop env _ none _ _)
  · exact modest_handleRequestSync env p src n
  · exact modest_dispatchLoop env p src n _

theorem modest_emitRequestSync : Modest n (n.emitRequestSync env) := by
  simp only [emitRequestSync]
  exact (modest_floodPacket env _ _).before rfl rfl (Nat.le_succ _) rfl rfl

theorem modest_offerAgain (nowMs : UInt64) (e : PendingTx) : Modest n (n.offerAgain env nowMs e) :=
  (modest_log n _).trans (modest_floodExcluding env _ _ none .own)

theorem modest_retryTick : Modest n (n.retryTick env) := by
  simp only [retryTick]
  split_ifs
  · exact modest_of_eq rfl rfl (Nat.le_succ _) rfl rfl
  · exact (modest_foldl (fun m e => modest_offerAgain env m _ e) _ _).before rfl rfl (Nat.le_succ _) rfl rfl

theorem modest_maintenanceTick : Modest n (n.maintenanceTick env) := by
  simp only [maintenanceTick]
  refine .trans ?_ (modest_retryTick env _)
  split_ifs
  · exact (modest_emitRequestSync env _).before rfl rfl (Nat.le_succ _) rfl rfl
  · exact modest_of_eq rfl rfl (Nat.le_succ _) rfl rfl

theorem modest_emitHeadBeacon : Modest n (n.emitHeadBeacon env) := by
  unfold emitHeadBeacon
  split
  · exact .refl n
  · dsimp only
    split_ifs
    · exact modest_of_eq rfl rfl (Nat.le_succ _) rfl rfl
    · split
      · exact modest_of_eq rfl rfl (Nat.le_succ_of_le (Nat.le_succ _)) rfl rfl
      · refine .trans ?_ (modest_originate env _ .nimiqHeadBeacon _)
        exact modest_of_eq rfl rfl (Nat.le_succ_of_le (Nat.le_succ _)) rfl rfl
    · split
      · exact modest_of_eq rfl rfl (Nat.le_succ _) rfl rfl
      · refine .trans ?_ (modest_originate env _ .nimiqHeadBeacon _)
        exact modest_of_eq rfl rfl (Nat.le_succ _) rfl rfl

theorem modest_floodLocalTx (wire : Bytes) : Modest n (n.floodLocalTx env wire) := by
  unfold floodLocalTx
  split
  · exact .refl n
  · next payload _ =>
    have hkept (p : Packet) : Modest n (((n.buildPacket .nimiqTx payload).2.markOwn p).remember env p) :=
      (modest_buildPacket n .nimiqTx payload).trans ((modest_markOwn p _).trans (modest_remember env p _))
    refine (hkept (n.buildPacket .nimiqTx payload).1).trans ?_
    dsimp only
    split
    · exact modest_of_eq rfl rfl le_rfl rfl rfl
    · simp only [launch]
      refine .trans ?_ (modest_floodExcluding env _ _ none .own)
      split_ifs
      · exact modest_of_eq rfl rfl (Nat.le_succ _) rfl rfl
      · exact modest_of_eq rfl rfl (Nat.le_succ _) rfl rfl

theorem modest_floodLocalChat (payload : Bytes) : Modest n (n.floodLocalChat env payload) := by
  unfold floodLocalChat
  split
  · exact .refl n
  · dsimp only
    refine .trans ?_ (modest_floodPacket env _ _)
    refine .trans ?_ (modest_chat _ _)
    refine .trans ?_ (modest_remember env _ _)
    exact (modest_buildPacket n .chat payload).trans (modest_markOwn _ _)

theorem modest_readvertiseIntent (w : Worker) : Modest n (n.readvertiseIntent env w) := by
  unfold readvertiseIntent
  extract_lets m
  have hm : Modest n m := modest_of_eq rfl rfl le_rfl rfl rfl
  refine hm.trans ?_
  clear_value m
  split_ifs
  · exact modest_of_eq rfl rfl le_rfl rfl rfl
  · split
    · exact .refl m
    · split_ifs
      · exact .refl m
      · dsimp only
        split_ifs
        · exact modest_of_eq rfl rfl le_rfl rfl rfl
        · refine .trans ?_ (modest_originate env _ .swapIntent _)
          exact modest_of_eq rfl rfl le_rfl rfl rfl

theorem modest_gcTick : Modest n (n.gcTick env) := by
  unfold gcTick
  split
  · exact .refl n
  · refine .trans ?_ (modest_readvertiseIntent env _ _)
    exact (modest_floodReplies env _ _).before rfl rfl le_rfl rfl rfl

theorem modest_swapFastTick : Modest n (n.swapFastTick env) := by
  simp only [swapFastTick]
  split
  · exact modest_ask n
  · exact (modest_floodReplies env _ _).before rfl rfl (Nat.le_succ _) rfl rfl

end Handlers

end MeshNode

/-- The peer that the frame of a job names. -/
def Job.peer : Job → Option Link
  | .inbound src _ => src
  | _ => none

namespace MeshNode

/-- The rate limiter after a job: it is consulted if the job brings a frame and names its peer. -/
def limiterAfter (env : NodeEnv) (n : MeshNode) (job : Job) : PeerRateLimiter :=
  match job.peer with
  | some peer => (n.limiter.allow (env.bucketOrder n.io.asked) peer (n.now env)).2
  | none => n.limiter

theorem modest_admitPeer (env : NodeEnv) (src : Option Link) (bytes : Bytes) (n : MeshNode) :
    Modest { n with limiter := n.limiterAfter env (.inbound src bytes) } (n.admitPeer env src).2 := by
  cases src with
  | none => exact .refl n
  | some peer => exact modest_of_eq rfl rfl (Nat.le_succ _) rfl rfl

/-- STEP: but for the rate limiter's look at its frame, a job is modest. -/
theorem modest_step (env : NodeEnv) (n : MeshNode) (job : Job) :
    Modest { n with limiter := n.limiterAfter env job } (n.step env job) := by
  cases job with
  | inbound src bytes =>
    refine .trans ?_ (modest_swapFastTick env _)
    refine (modest_admitPeer env src bytes n).trans ?_
    unfold processInbound
    dsimp only
    split_ifs
    · exact modest_count _ _
    · split
      · exact .refl _
      · exact modest_receivePacket env _ src _
  | localTx wire => exact modest_floodLocalTx env n wire
  | requestSync => exact modest_emitRequestSync env n
  | syncTick => exact (modest_maintenanceTick env n).trans (modest_gcTick env _)
  | beaconTick =>
    refine .trans ?_ (modest_gcTick env _)
    exact (modest_emitHeadBeacon env n).trans (modest_maintenanceTick env _)
  | swapFastTick => exact modest_swapFastTick env n
  | balanceQuery address => exact modest_originate env n .nimiqBalanceQuery _
  | historyQuery address => exact modest_originate env n .nimiqTxHistoryQuery _
  | chat payload => exact modest_floodLocalChat env n payload
  | stopAdvertising => exact modest_of_eq rfl rfl le_rfl rfl rfl
  | peerConnected peer => exact modest_of_eq rfl rfl le_rfl rfl rfl
  | peerDisconnected peer => exact modest_of_eq rfl rfl le_rfl rfl rfl
  | watchIncoming txId => exact modest_of_eq rfl rfl le_rfl rfl rfl
  | setBattery levelPct charging => exact modest_of_eq rfl rfl le_rfl rfl rfl
  | sendResult ok => exact modest_count n _

/-! ### Any run -/

/-- A node within its bounds. -/
structure Small (n : MeshNode) : Prop where
  caps : n.seenCaps = (relayCacheCap, gatewayCacheCap, gatewayCacheCap)
  chat : n.chat.length ≤ chatLogCap
  limiter : Table.len n.limiter ≤ maxTrackedPeers
  reassembler : n.reassembler.Bounded

theorem small_new (senderId : PeerId) (network : UInt8) (verifyBeforeRelay : Bool) (seed : UInt64)
    (swap : Option Worker) : (new senderId network verifyBeforeRelay seed swap).Small :=
  ⟨rfl, Nat.zero_le _, Nat.zero_le _, Reassembler.bounded_empty⟩

/-- STEP: no job takes a node over its bounds. -/
theorem Small.step {n : MeshNode} (h : n.Small) (env : NodeEnv) (job : Job) : (n.step env job).Small := by
  have hmodest := modest_step env n job
  have hlimiter : Table.len (n.limiterAfter env job) ≤ maxTrackedPeers := by
    unfold limiterAfter
    split
    · exact PeerRateLimiter.len_allow _ h.limiter _ _
    · exact h.limiter
  exact ⟨hmodest.caps.trans h.caps, hmodest.chat h.chat, hmodest.limiter ▸ hlimiter, hmodest.reassembler h.reassembler⟩

theorem Small.exec {n : MeshNode} (h : n.Small) (env : NodeEnv) (jobs : List Job) : (n.exec env jobs).Small :=
  Run.exec_preserves (MeshNode.step env) (I := Small) (fun _ job hn => hn.step env job) jobs n h

/-- What each bounded store of a node may hold. -/
structure WithinBounds (n : MeshNode) : Prop where
  relaySeen : n.relaySeen.order.length ≤ relayCacheCap
  gatewaySeen : n.gatewaySeen.order.length ≤ gatewayCacheCap
  acked : n.acked.order.length ≤ gatewayCacheCap
  recent : n.recent.entries.length ≤ recentCacheCap
  pending : n.pending.entries.length ≤ maxPending
  chat : n.chat.length ≤ chatLogCap
  limiter : Table.len n.limiter ≤ maxTrackedPeers
  inFlight : Table.len n.reassembler ≤ maxInFlight
  unfinished : ∀ e ∈ n.reassembler.entries, e.2.Unfinished

theorem Small.withinBounds {n : MeshNode} (h : n.Small) : n.WithinBounds := by
  obtain ⟨hrelay, hgateway, hacked⟩ : n.relaySeen.capacity = relayCacheCap ∧
      n.gatewaySeen.capacity = gatewayCacheCap ∧ n.acked.capacity = gatewayCacheCap := by
    simpa [seenCaps] using h.caps
  exact {
    relaySeen := hrelay ▸ n.relaySeen.bound
    gatewaySeen := hgateway ▸ n.gatewaySeen.bound
    acked := hacked ▸ n.acked.bound
    recent := n.recent.bound
    pending := n.pending.bound
    chat := h.chat
    limiter := h.limiter
    inFlight := h.reassembler.few
    unfinished := h.reassembler.unfinished }

/-- RUN: whatever a node is given to do and whatever frames it hears, it never holds more than a fixed number of
    seen keys, packets, pending payments, chat entries and peers, nor more than a fixed number of sets of fragments,
    in each of which every chunk has its place and one is missing. -/
theorem holdings_bounded (env : NodeEnv) (senderId : PeerId) (network : UInt8) (verifyBeforeRelay : Bool)
    (seed : UInt64) (swap : Option Worker) (jobs : List Job) :
    ((new senderId network verifyBeforeRelay seed swap).exec env jobs).WithinBounds :=
  ((small_new senderId network verifyBeforeRelay seed swap).exec env jobs).withinBounds

end MeshNode
end Nimmesh
