import Nimmesh.Lib.Spread
import Nimmesh.Mesh.Radio

/-! @src engine.rs relay.rs dedup.rs ratelimit.rs citizen.rs | name:What a flood reaches | layer:properties

    A flooded packet starts with seven hops, and a node relays only the first copy that it hears. Copies overtake
    each other, so that first copy may have come a long way round: what counts is how many nodes had the packet
    before. The first seven to have it all pass it on, in whatever order the copies arrive, so a flood that nothing
    disturbs reaches every node it can reach, or at least eight of them. -/

namespace Nimmesh

/-! ### One packet -/

/-- The node remembers the packet's key. -/
def MeshNode.Knows (p : Packet) (n : MeshNode) : Prop := relayKey p ∈ n.relaySeen.order

/-- A copy of the packet, with as many hops left. -/
def Hop.Copies {ν : Type*} (p : Packet) (ttl : UInt8) (h : Hop ν) : Prop :=
  decode h.flight.frame = .ok { p with ttl }

theorem relayedTtl_toNat {ttl t : UInt8} (h : relayedTtl ttl = some t) : min ttl.toNat 7 = t.toNat + 1 := by
  unfold relayedTtl defaultTtl at h
  simp only [UInt8.lt_iff_toNat_lt, UInt8.le_iff_toNat_le] at h
  split_ifs at h with h1 h2 h2
  all_goals cases h
  all_goals
    simp only [UInt8.reduceToNat] at h1 h2 ⊢
    try rw [UInt8.toNat_sub_of_le _ _ (UInt8.le_iff_toNat_le.mpr (by simp only [UInt8.reduceToNat]; omega))]
    simp only [UInt8.reduceToNat]
    omega

theorem exists_relayedTtl {ttl : UInt8} (h : 2 ≤ ttl.toNat) : ∃ t, relayedTtl ttl = some t := by
  unfold relayedTtl defaultTtl
  simp only [UInt8.lt_iff_toNat_lt, UInt8.le_iff_toNat_le]
  split_ifs with h1 h2 h2
  · simp only [UInt8.reduceToNat] at h2
    omega
  · exact ⟨_, rfl⟩
  · simp only [UInt8.reduceToNat] at h2
    omega
  · exact ⟨_, rfl⟩

/-- A frame that a node sends and that is a copy of a packet is its own, or passes on a copy that has come in. -/
theorem copy_of_transmission {env : NodeEnv} {n : MeshNode} {job : Job} (hbuf : n.books.Buffered) {p : Packet}
    (hrsr : p.flags.isRsr = false) {peer : Link} {frame : Bytes} {kind : SendKind} {t : UInt8}
    (ht : (peer, frame, kind) ∈ n.transmissions env job) (hcopy : decode frame = .ok { p with ttl := t }) :
    kind = .own ∨ ∃ src bytes ttl, job = .inbound src bytes ∧ decode bytes = .ok { p with ttl } ∧
      relayedTtl ttl = some t := by
  obtain ⟨e, he, hsent⟩ := List.mem_filterMap.mp ht
  cases e with
  | sent peer' frame' kind' head =>
    cases hsent
    obtain ⟨b, hsend⟩ := MeshNode.sends_guarded hbuf he
    cases hsend with
    | own q => exact .inl rfl
    | again e => exact .inl rfl
    | relay q src ttl hjob httl hframe =>
      obtain ⟨bytes, hjob, hdec, -⟩ := hjob
      have heq := eq_of_decode_encode hframe hcopy
      have hq : q = { p with ttl := q.ttl } := by
        cases q
        simp only [Packet.mk.injEq] at heq ⊢
        tauto
      refine .inr ⟨src, bytes, q.ttl, hjob, hdec.trans (congrArg _ hq), ?_⟩
      rw [httl]
      exact congrArg (fun x : Packet => some x.ttl) heq.symm
    | reply q bytes hjob hq hhead hframe =>
      have heq := eq_of_decode_encode hframe hcopy
      have := congrArg (fun x : Packet => x.flags.isRsr) heq
      rw [hrsr] at this
      cases this
  | _ => cases hsent

/-- A packet that a node knows makes it relay nothing. -/
theorem own_of_knows {env : NodeEnv} {n : MeshNode} (hbuf : n.books.Buffered) {p : Packet} (hknows : n.Knows p)
    (hrsr : p.flags.isRsr = false) (hsync : p.msgType ≠ .requestSync) {src : Option Link} {bytes : Bytes} {ttl : UInt8}
    (hdec : decode bytes = .ok { p with ttl }) {peer : Link} {frame : Bytes} {kind : SendKind}
    (ht : (peer, frame, kind) ∈ n.transmissions env (.inbound src bytes)) : kind = .own := by
  have hseen : relayKey { p with ttl } ∈ (n.admitPeer env src).2.relaySeen.order := by
    rw [show (n.admitPeer env src).2.relaySeen = n.relaySeen from congrArg Books.relaySeen
      (MeshNode.admitPeer_books env src n)]
    exact hknows
  -- nothing but the limiter and a counter is touched before the swap code's tick
  obtain ⟨m, hbooks, hstep⟩ : ∃ m : MeshNode, m.books = n.books ∧
      n.step env (.inbound src bytes) = m.swapFastTick env := by
    have hadm := MeshNode.admitPeer_books env src n
    simp only [MeshNode.step, MeshNode.processInbound, hdec]
    split_ifs
    · exact ⟨MeshNode.count _ _, hadm, rfl⟩
    · refine ⟨_, ?_, rfl⟩
      rw [MeshNode.receivePacket, if_neg (by simp [hrsr]), if_neg hsync,
        MeshNode.dispatchPacket_last (MeshNode.dispatchOnce_seen env hseen)]
      exact hadm
  have hpath : Path env m .swapFastTick m.books (m.swapFastTick env).books :=
    MeshNode.swapFastTick_path m (hbooks ▸ hbuf)
  obtain ⟨add, htrace, hsends⟩ := hpath.sends_guarded
  have hnews : n.news env (.inbound src bytes) = add := by
    refine MeshNode.news_eq ?_
    rw [hstep, ← show m.io.trace = n.io.trace from congrArg Books.trace hbooks]
    exact htrace
  obtain ⟨e, he, hsent⟩ := List.mem_filterMap.mp ht
  cases e with
  | sent peer' frame' kind' head =>
    cases hsent
    rw [hnews] at he
    obtain ⟨b, hsend⟩ := hsends _ _ _ _ he
    cases hsend with
    | own q => rfl
    | again e => rfl
    | relay q src ttl hjob =>
      obtain ⟨_, hjob, -⟩ := hjob
      cases hjob
    | reply q bytes hjob => cases hjob
  | _ => cases hsent

/-- A job that is not about links leaves the peers alone. -/
theorem MeshNode.step_peers {env : NodeEnv} {n : MeshNode} {job : Job} (hbuf : n.books.Buffered)
    (hjob : ∀ peer, job ≠ .peerConnected peer ∧ job ≠ .peerDisconnected peer) : (n.step env job).peers = n.peers :=
  (MeshNode.step_path env n job hbuf).frame (·.peers) fun b _ hact => by
    cases hact with
    | took q => exact Books.take_peers q b
    | link peers hlink =>
      obtain ⟨peer, rfl | rfl⟩ := hlink
      · exact absurd rfl (hjob peer).1
      · exact absurd rfl (hjob peer).2
    | _ => rfl

/-- The node takes up a packet that a frame brings: its limiter admits the frame, the packet meets the conditions of its
    type, and the relay lets it pass. -/
structure MeshNode.TakesUp (env : NodeEnv) (p : Packet) (src : Option Link) (n : MeshNode) : Prop where
  admitted : (n.admitPeer env src).1 = true
  willing : n.willing env p = true
  passes : (n.admitPeer env src).2.Passes env p src

/-- So does a node to which it is news and that has few peers and battery enough. -/
theorem MeshNode.takesUp_of_eager {env : NodeEnv} {p : Packet} {src : Option Link} {n : MeshNode}
    (hadm : (n.admitPeer env src).1 = true) (hwill : n.willing env p = true) (heager : n.Eager p.msgType)
    (hnew : ¬ n.Knows p) : n.TakesUp env p src := by
  refine ⟨hadm, hwill, ?_⟩
  have hseen : relayKey p ∉ (n.admitPeer env src).2.relaySeen.order := by
    rw [show (n.admitPeer env src).2.relaySeen = n.relaySeen from congrArg Books.relaySeen (admitPeer_books env src n)]
    exact hnew
  cases src with
  | none => exact passes_of_eager none hseen hwill heager
  | some peer => exact passes_of_eager (some peer) hseen hwill heager

/-! ### An undisturbed flood -/

namespace RadioNet

variable {ν : Type*} (L : Links ν)

/-- The step brings a copy of the packet to the node. -/
structure Brings (p : Packet) (s : RadioNet ν) (op : RadioOp ν) (v : ν) (src : Option Link) (bytes : Bytes)
    (ttl : UInt8) : Prop where
  task : s.task L op = some (v, .inbound src bytes)
  copy : decode bytes = .ok { p with ttl }

/-- The step brings it, and the node does not know the packet. -/
def Arrives (p : Packet) (s : RadioNet ν) (op : RadioOp ν) (v : ν) (src : Option Link) (bytes : Bytes)
    (ttl : UInt8) : Prop := s.Brings L p op v src bytes ttl ∧ ¬ (s.nodes v).Knows p

/-- One node is in reach of another. -/
def Linked (s : RadioNet ν) (u v : ν) : Prop := ∃ peer ∈ (s.nodes u).peers, L.far u peer = v

/-- The origin has just put the packet on the air, with all its hops, on each of its links. -/
structure Launched (p : Packet) (o : ν) (s : RadioNet ν) : Prop where
  knows : ∀ v, (s.nodes v).Knows p ↔ v = o
  copies : ∀ h ∈ s.air, ∀ ttl, h.Copies p ttl → h.sender = o ∧ 7 ≤ ttl.toNat
  sent : ∀ peer ∈ (s.nodes o).peers, ∃ h ∈ s.air, h.sender = o ∧ h.flight.peer = peer ∧ ∃ ttl, h.Copies p ttl

section
variable {s : RadioNet ν} {op : RadioOp ν}

theorem mem_rest (op : RadioOp ν) {h : Hop ν} (hh : h ∈ s.air) : h ∈ s.rest op ∨ ∃ i, s.air[i]? = some h ∧
    (op = .lose i ∨ ∃ named, op = .arrive i named) := by
  have herase : ∀ i, h ∈ s.air.eraseIdx i ∨ s.air[i]? = some h := by
    intro i
    by_cases hi : i < s.air.length
    · have hmem := (List.getElem_cons_eraseIdx_perm hi).mem_iff.mpr hh
      rcases List.mem_cons.mp hmem with rfl | hmem
      · exact .inr (List.getElem?_eq_getElem hi)
      · exact .inl hmem
    · rw [List.eraseIdx_of_length_le (Nat.not_lt.mp hi)]
      exact .inl hh
  cases op with
  | work v job => exact .inl hh
  | arrive i named => exact (herase i).imp_right fun hi => ⟨i, hi, .inr ⟨named, rfl⟩⟩
  | lose i => exact (herase i).imp_right fun hi => ⟨i, hi, .inl rfl⟩

theorem mem_of_mem_rest {h : Hop ν} (hh : h ∈ s.rest op) : h ∈ s.air := by
  cases op with
  | work v job => exact hh
  | arrive i named => exact List.mem_of_mem_eraseIdx hh
  | lose i => exact List.mem_of_mem_eraseIdx hh

end

/-- The copies on the air, where they go and how far. -/
def copies (p : Packet) (s : RadioNet ν) : Set (Spread.Copy ν) :=
  {c | ∃ h ∈ s.air, ∃ ttl, h.Copies p ttl ∧ c = ⟨h.target L, ttl.toNat⟩}

/-- What holds of the net while the packet spreads. -/
structure Spreading (p : Packet) (adj : ν → ν → Prop) (o : ν) (reached : List ν) (s : RadioNet ν) : Prop where
  inv : Spread.Inv adj 7 o reached (s.copies L p)
  knows : ∀ v, (s.nodes v).Knows p ↔ v ∈ reached
  senders : ∀ h ∈ s.air, ∀ ttl, h.Copies p ttl → h.sender ∈ reached
  linked : ∀ u v, s.Linked L u v ↔ adj u v

section
variable {L} {p : Packet} {s : RadioNet ν} {o : ν}

/-- A flood that has ended left no copy. -/
theorem copies_eq_empty (hdone : ∀ h ∈ s.air, ∀ ttl, ¬ h.Copies p ttl) : s.copies L p = ∅ := by
  refine Set.eq_empty_of_forall_notMem ?_
  rintro c ⟨h, hh, ttl, hcopy, -⟩
  exact hdone h hh ttl hcopy

theorem Launched.spreading (h : s.Launched p o) : s.Spreading L p (s.Linked L) o [o] where
  inv := by
    refine .start ?_ ?_
    · rintro c ⟨g, hg, ttl, hcopy, rfl⟩
      exact (h.copies g hg ttl hcopy).2
    · rintro v ⟨peer, hpeer, rfl⟩
      obtain ⟨g, hg, hs, hp, ttl, hcopy⟩ := h.sent peer hpeer
      exact .inr ⟨_, ⟨g, hg, ttl, hcopy, rfl⟩, by rw [← hs, ← hp]; rfl⟩
  knows := fun v => (h.knows v).trans List.mem_singleton.symm
  senders := fun g hg ttl hcopy => List.mem_singleton.mpr (h.copies g hg ttl hcopy).1
  linked := fun _ _ => Iff.rfl

end

variable [DecidableEq ν] (env : ν → NodeEnv)

/-- A step that leaves the flood of a packet alone. -/
structure Undisturbed (p : Packet) (k : ℕ) (s : RadioNet ν) (op : RadioOp ν) : Prop where
  -- no link comes or goes
  links : ∀ v peer, s.task L op ≠ some (v, .peerConnected peer) ∧ s.task L op ≠ some (v, .peerDisconnected peer)
  -- no copy is lost on the air, and none is brought in from outside
  kept : ∀ i h ttl, op = .lose i → s.air[i]? = some h → ¬ h.Copies p ttl
  outside : ∀ v src bytes ttl, op = .work v (.inbound src bytes) → decode bytes ≠ .ok { p with ttl }
  -- a node to which the packet is news takes it up
  taken : ∀ v src bytes ttl, s.Arrives L p op v src bytes ttl → (s.nodes v).TakesUp (env v) { p with ttl } src
  -- a node that has heard of it remembers it, and no other packet goes by its key
  heard : ∀ v, ((s.next L env k op).nodes v).Knows p ↔
    (s.nodes v).Knows p ∨ ∃ src bytes ttl, s.Brings L p op v src bytes ttl
  -- who sends it again of his own accord knows it, and gives it all its hops
  again : ∀ h ∈ s.sends L env k op, ∀ ttl, h.flight.kind = .own → h.Copies p ttl →
    (s.nodes h.sender).Knows p ∧ 7 ≤ ttl.toNat

variable {L env} {p : Packet} {k : ℕ} {s : RadioNet ν} {op : RadioOp ν} {o : ν} {adj : ν → ν → Prop}
  {reached : List ν}

theorem Undisturbed.linked (hu : s.Undisturbed L env p k op) (hbuf : s.mesh.Buffered) (u v : ν) :
    (s.next L env k op).Linked L u v ↔ s.Linked L u v := by
  unfold Linked
  rcases next_nodes L env s k op u with hsame | ⟨job, hop, hstep⟩
  · rw [hsame]
  · have hpeers : ((s.nodes u).step (env u) job).peers = (s.nodes u).peers :=
      MeshNode.step_peers (hbuf u) fun peer => by
        constructor
        · rintro rfl
          exact (hu.links u peer).1 hop
        · rintro rfl
          exact (hu.links u peer).2 hop
    rw [hstep, hpeers]

/-- A copy that arrives was on the air. -/
theorem Brings.hop {v : ν} {src : Option Link} {bytes : Bytes} {ttl : UInt8} (hu : s.Undisturbed L env p k op)
    (h : s.Brings L p op v src bytes ttl) : ∃ i named g, op = .arrive i named ∧ s.air[i]? = some g ∧
      g.target L = v ∧ g.source L named = src ∧ g.flight.frame = bytes := by
  have htask := h.task
  cases op with
  | work w job =>
    cases htask
    exact absurd h.copy (hu.outside v src bytes ttl rfl)
  | arrive i named =>
    obtain ⟨g, hg, heq⟩ := Option.map_eq_some_iff.mp htask
    cases heq
    exact ⟨i, named, g, rfl, hg, rfl, rfl, rfl⟩
  | lose i => cases htask

/-- STEP: no copy arrives that is news. -/
theorem Spreading.idle (h : s.Spreading L p adj o reached) (hbuf : s.mesh.Buffered) (hrsr : p.flags.isRsr = false)
    (hsync : p.msgType ≠ .requestSync) (hu : s.Undisturbed L env p k op)
    (hnone : ∀ v src bytes ttl, ¬ s.Arrives L p op v src bytes ttl) :
    (s.next L env k op).Spreading L p adj o reached := by
  have hknown : ∀ {v src bytes ttl}, s.Brings L p op v src bytes ttl → (s.nodes v).Knows p := fun hb =>
    by_contra fun hk => hnone _ _ _ _ ⟨hb, hk⟩
  -- whatever is sent now is sent of the sender's own accord
  have hown : ∀ g ∈ s.sends L env k op, ∀ ttl, g.Copies p ttl → (s.nodes g.sender).Knows p ∧ 7 ≤ ttl.toNat := by
    intro g hg ttl hcopy
    refine hu.again g hg ttl ?_ hcopy
    obtain ⟨v, job, hop, -, ht⟩ := mem_sends hg
    rcases copy_of_transmission (hbuf v) hrsr ht hcopy with hk | ⟨src, bytes, ttl', rfl, hdec, -⟩
    · exact hk
    · exact own_of_knows (hbuf v) (hknown ⟨hop, hdec⟩) hrsr hsync hdec ht
  refine ⟨h.inv.same ?_ ?_, fun v => ?_, ?_, fun u v => (hu.linked hbuf u v).trans (h.linked u v)⟩
  · rintro c ⟨g, hg, ttl, hcopy, rfl⟩
    rcases mem_rest op hg with hrest | ⟨i, hi, hlose | ⟨named, harr⟩⟩
    · exact .inl ⟨g, List.mem_append_right _ hrest, ttl, hcopy, rfl⟩
    · exact absurd hcopy (hu.kept i g ttl hlose hi)
    · have hb : s.Brings L p op (g.target L) (g.source L named) g.flight.frame ttl :=
        ⟨by rw [harr, task, hi]; rfl, hcopy⟩
      exact .inr ((h.knows _).mp (hknown hb))
  · rintro c ⟨g, hg, ttl, hcopy, rfl⟩
    rcases List.mem_append.mp hg with hsent | hrest
    · exact .inr (hown g hsent ttl hcopy).2
    · exact .inl ⟨g, mem_of_mem_rest hrest, ttl, hcopy, rfl⟩
  · rw [hu.heard v, h.knows v]
    refine or_iff_left_of_imp ?_
    rintro ⟨src, bytes, ttl, hb⟩
    exact (h.knows v).mp (hknown hb)
  · intro g hg ttl hcopy
    rcases List.mem_append.mp hg with hsent | hrest
    · exact (h.knows _).mp (hown g hsent ttl hcopy).1
    · exact h.senders g (mem_of_mem_rest hrest) ttl hcopy

/-- STEP: a copy arrives at a node that does not know the packet, and the node passes it on. -/
theorem Spreading.arrive (h : s.Spreading L p adj o reached) (hbuf : s.mesh.Buffered) (hrsr : p.flags.isRsr = false)
    (hsync : p.msgType ≠ .requestSync) (hu : s.Undisturbed L env p k op) {v : ν} {src : Option Link} {bytes : Bytes}
    {ttl : UInt8} (ha : s.Arrives L p op v src bytes ttl) :
    (s.next L env k op).Spreading L p adj o (reached ++ [v]) := by
  obtain ⟨hb, hfresh⟩ := ha
  obtain ⟨i, named, g, hop, hi, htarget, hsource, hframe⟩ := hb.hop hu
  have hg : g ∈ s.air := List.mem_of_getElem? hi
  have hcopy : g.Copies p ttl := by rw [Hop.Copies, hframe]; exact hb.copy
  have hnot : v ∉ reached := fun hv => hfresh ((h.knows v).mpr hv)
  have hmem : ⟨v, ttl.toNat⟩ ∈ s.copies L p := ⟨g, hg, ttl, hcopy, by rw [htarget]⟩
  have hsent : ∀ g' ∈ s.sends L env k op, ∀ t, g'.Copies p t → g'.sender = v ∧ min ttl.toNat 7 ≤ t.toNat + 1 := by
    intro g' hg' t hcopy'
    obtain ⟨w, job, htask, hs, ht⟩ := mem_sends hg'
    cases hb.task.symm.trans htask
    refine ⟨hs, ?_⟩
    rcases copy_of_transmission (hbuf v) hrsr ht hcopy' with hk | ⟨_, _, ttl', hjob, hdec, hrel⟩
    · have hfull := (hu.again g' hg' t hk hcopy').2
      omega
    · cases hjob
      have hcap := relayedTtl_toNat hrel
      have hsame : ttl' = ttl := congrArg Packet.ttl (Except.ok.inj (hdec.symm.trans hb.copy))
      rw [hsame] at hcap
      exact hcap.le
  refine ⟨h.inv.reach hmem hnot ?_ ?_ ?_, fun w => ?_, ?_, fun u w => (hu.linked hbuf u w).trans (h.linked u w)⟩
  · rintro c ⟨g', hg', t, hcopy', rfl⟩
    rcases mem_rest op hg' with hrest | ⟨j, hj, hlose | ⟨named', harr⟩⟩
    · exact .inl ⟨g', List.mem_append_right _ hrest, t, hcopy', rfl⟩
    · exact absurd hcopy' (hu.kept j g' t hlose hj)
    · cases hop.symm.trans harr
      obtain rfl := Option.some.inj (hi.symm.trans hj)
      exact .inr htarget
  · rintro c ⟨g', hg', t, hcopy', rfl⟩
    rcases List.mem_append.mp hg' with hs | hrest
    · exact .inr (hsent g' hs t hcopy').2
    · exact .inl ⟨g', mem_of_mem_rest hrest, t, hcopy', rfl⟩
  · intro hhops w hadj
    obtain ⟨peer, hpeer, hfar⟩ := (h.linked v w).mpr hadj
    by_cases hback : some peer = src
    · -- back to where the copy came from
      left
      have hpeer' : peer = L.back g.sender g.flight.peer := by
        rw [← hback, Hop.source] at hsource
        split_ifs at hsource
        exact (Option.some.inj hsource).symm
      have hfrom : w = g.sender := by
        rw [← hfar, ← htarget, hpeer', Hop.target, L.far_back]
      rw [hfrom]
      exact h.senders g hg ttl hcopy
    · right; right
      have htaken := hu.taken v src bytes ttl ⟨hb, hfresh⟩
      obtain ⟨t, hrel⟩ := exists_relayedTtl hhops
      have hwell := wellFormed_of_decode hb.copy
      obtain ⟨frame, hframe'⟩ := encode_ok (p := { p with ttl := t }) hwell.2
      obtain ⟨head, hevent⟩ := MeshNode.step_relays htaken.admitted hb.copy hrsr hsync htaken.passes hrel hframe' peer
        hpeer hback
      obtain ⟨g', hg', hs, hp, hf⟩ := exists_sends (k := k) hb.task (List.mem_filterMap.mpr ⟨_, hevent, rfl⟩)
      refine ⟨_, ⟨g', List.mem_append_left _ hg', t, ?_, rfl⟩, ?_⟩
      · rw [Hop.Copies, hf]
        exact decode_encode hwell.1 hframe'
      · rw [Hop.target, hs, hp]
        exact hfar
  · rw [hu.heard w, h.knows w, List.mem_append, List.mem_singleton]
    refine or_congr_right ⟨?_, ?_⟩
    · rintro ⟨src', bytes', ttl', hb'⟩
      cases hb.task.symm.trans hb'.task
      rfl
    · rintro rfl
      exact ⟨src, bytes, ttl, hb⟩
  · intro g' hg' t hcopy'
    rcases List.mem_append.mp hg' with hs | hrest
    · exact List.mem_append_right _ (List.mem_singleton.mpr (hsent g' hs t hcopy').1)
    · exact List.mem_append_left _ (h.senders g' (mem_of_mem_rest hrest) t hcopy')

/-- RUN: an undisturbed flood spreads, and every node that is reached was reached by a copy that was news to it. -/
theorem Launched.spreading_after {ops : ℕ → RadioOp ν} {a K : ℕ} (haK : a ≤ K)
    (h : (s.after L env ops a).Launched p o) (hbuf : (s.after L env ops a).mesh.Buffered)
    (hrsr : p.flags.isRsr = false) (hsync : p.msgType ≠ .requestSync)
    (hrun : ∀ k, a ≤ k → k < K → (s.after L env ops k).Undisturbed L env p k (ops k)) :
    (s.after L env ops K).mesh.Buffered ∧ ∃ reached,
      (s.after L env ops K).Spreading L p ((s.after L env ops a).Linked L) o reached ∧
      ∀ v ∈ reached, v = o ∨ ∃ k, a ≤ k ∧ k < K ∧
        ∃ src bytes ttl, (s.after L env ops k).Arrives L p (ops k) v src bytes ttl := by
  induction K, haK using Nat.le_induction with
  | base => exact ⟨hbuf, [o], h.spreading, fun v hv => .inl (List.mem_singleton.mp hv)⟩
  | succ K haK ih =>
    obtain ⟨hbuf', reached, hspread, hreached⟩ := ih fun k hak hk => hrun k hak (hk.trans (Nat.lt_succ_self K))
    have hu := hrun K haK (Nat.lt_succ_self K)
    have hold : ∀ v ∈ reached, v = o ∨ ∃ k, a ≤ k ∧ k < K + 1 ∧ ∃ src bytes ttl,
        (s.after L env ops k).Arrives L p (ops k) v src bytes ttl := by
      intro v hv
      refine (hreached v hv).imp_right ?_
      rintro ⟨k, hak, hk, ha⟩
      exact ⟨k, hak, hk.trans (Nat.lt_succ_self K), ha⟩
    refine ⟨buffered_next hbuf' K (ops K), ?_⟩
    by_cases hnews : ∃ v src bytes ttl, (s.after L env ops K).Arrives L p (ops K) v src bytes ttl
    · obtain ⟨v, src, bytes, ttl, ha⟩ := hnews
      refine ⟨reached ++ [v], hspread.arrive hbuf' hrsr hsync hu ha, fun w hw => ?_⟩
      rcases List.mem_append.mp hw with hw | hw
      · exact hold w hw
      · rw [List.mem_singleton.mp hw]
        exact .inr ⟨K, haK, Nat.lt_succ_self K, src, bytes, ttl, ha⟩
    · refine ⟨reached, hspread.idle hbuf' hrsr hsync hu fun v src bytes ttl ha => ?_, hold⟩
      exact hnews ⟨v, src, bytes, ttl, ha⟩

/-- RUN: for any number of nodes, however they are linked, and in whatever order the copies arrive: when a flood that
    nothing disturbs has ended, every node that is connected to the origin has taken the packet in, or at least eight
    nodes have it. -/
theorem flood_covers (L : Links ν) (env : ν → NodeEnv) {p : Packet} (hrsr : p.flags.isRsr = false)
    (hsync : p.msgType ≠ .requestSync) {o : ν} {s : RadioNet ν} (hbuf : s.mesh.Buffered) (hstart : s.Launched p o)
    (ops : ℕ → RadioOp ν) (K : ℕ) (hrun : ∀ k < K, (s.after L env ops k).Undisturbed L env p k (ops k))
    (hdone : ∀ h ∈ (s.after L env ops K).air, ∀ ttl, ¬ h.Copies p ttl) :
    ∃ reached : List ν, reached.Nodup ∧
      (∀ v ∈ reached, v = o ∨ ∃ k < K, ∃ job ttl, (s.after L env ops k).task L (ops k) = some (v, job) ∧
        .took { p with ttl } ∈ ((s.after L env ops k).nodes v).news (env v) job) ∧
      ((∀ v, Relation.ReflTransGen (s.Linked L) o v → v ∈ reached) ∨ 8 ≤ reached.length) := by
  obtain ⟨-, reached, hspread, hreached⟩ :=
    Launched.spreading_after (Nat.zero_le K) hstart hbuf hrsr hsync fun k _ hk => hrun k hk
  refine ⟨reached, hspread.inv.nodup, fun v hv => ?_, (copies_eq_empty (L := L) hdone ▸ hspread.inv).covers⟩
  refine (hreached v hv).imp_right ?_
  rintro ⟨k, -, hk, src, bytes, ttl, ha⟩
  have htaken := (hrun k hk).taken v src bytes ttl ha
  exact ⟨k, hk, _, ttl, ha.1.task, MeshNode.step_takes htaken.admitted ha.1.copy hrsr hsync ha.2⟩

end RadioNet

/-! ### Two nodes -/

namespace Sample

/-- Each sample node is at the far end of the other's only link. -/
def pairLinks : Links Bool where
  far v _ := !v
  back v _ := if v then "b" else "a"
  far_back v _ := Bool.not_not v

def sampleAddress : NimAddress := ByteArr.fill nimAddressLen 3

/-- One of them has asked for a balance. -/
def asking : RadioNet Bool :=
  (⟨pair.nodes, []⟩ : RadioNet Bool).next pairLinks pairEnv 0 (.work false (.balanceQuery sampleAddress))

/-- The question that is on the air. -/
def question : Packet := (meshNode.buildPacket .nimiqBalanceQuery (encodeBalanceQuery sampleAddress)).1

def questionArrives (_ : ℕ) : RadioOp Bool := .arrive 0 true

/-- What the question does to the pair. -/
structure AskRun : Prop where
  hops : (asking.air.map fun h => (h.sender, h.flight.cause, h.flight.peer, h.flight.frame, h.flight.kind)) =
    [(false, 0, "b", frame question, .own)]
  decodes : decode (frame question) = .ok question
  peers : (asking.nodes false).peers = ["b"]
  knows : ∀ v, (asking.nodes v).Knows question ↔ v = false
  taken : ((asking.nodes true).admitPeer (pairEnv true) (some "a")).1 = true ∧
    (asking.nodes true).willing (pairEnv true) question = true ∧ (asking.nodes true).Eager question.msgType
  known : ∀ v, ((asking.next pairLinks pairEnv 0 (.arrive 0 true)).nodes v).Knows question
  sends : asking.sends pairLinks pairEnv 0 (.arrive 0 true) = []
  closed : (asking.after pairLinks pairEnv questionArrives 1).air = []

theorem ask_run : AskRun where
  hops := by decide +kernel
  decodes := by decide +kernel
  peers := by decide +kernel
  knows := by
    unfold MeshNode.Knows
    decide +kernel
  taken := ⟨by decide +kernel, by decide +kernel, by decide +kernel⟩
  known := by
    unfold MeshNode.Knows
    decide +kernel
  sends := List.length_eq_zero_iff.mp (by decide +kernel)
  closed := List.length_eq_zero_iff.mp (by decide +kernel)

theorem asking_air : asking.air = [⟨false, ⟨0, "b", frame question, .own⟩⟩] := by
  obtain ⟨h, hh, heq⟩ := List.map_eq_singleton_iff.mp ask_run.hops
  rw [hh]
  rcases h with ⟨sender, cause, peer, frame, kind⟩
  simp only [Prod.mk.injEq] at heq
  obtain ⟨rfl, rfl, rfl, rfl, rfl⟩ := heq
  rfl

theorem question_copies {ttl : UInt8} (h : decode (frame question) = .ok { question with ttl }) : ttl = 7 :=
  (congrArg Packet.ttl (Except.ok.inj (ask_run.decodes.symm.trans h))).symm

theorem asking_launched : asking.Launched question false where
  knows := ask_run.knows
  copies := by
    intro h hh ttl hcopy
    rw [asking_air] at hh
    obtain rfl := List.mem_singleton.mp hh
    exact ⟨rfl, by rw [question_copies hcopy]; decide⟩
  sent := by
    rw [ask_run.peers, asking_air]
    intro peer hpeer
    obtain rfl := List.mem_singleton.mp hpeer
    exact ⟨_, List.mem_singleton_self _, rfl, rfl, 7, ask_run.decodes⟩

theorem question_task : asking.task pairLinks (.arrive 0 true) =
    some (true, .inbound (some "a") (frame question)) := by
  rw [RadioNet.task, asking_air]
  rfl

theorem asking_undisturbed : asking.Undisturbed pairLinks pairEnv question 0 (.arrive 0 true) where
  links := by
    intro v peer
    rw [question_task]
    exact ⟨by simp, by simp⟩
  kept := by
    intro i h ttl hop
    cases hop
  outside := by
    intro v src bytes ttl hop
    cases hop
  taken := by
    rintro v src bytes ttl ⟨⟨htask, hcopy⟩, -⟩
    cases question_task.symm.trans htask
    obtain rfl := question_copies hcopy
    obtain ⟨hadm, hwill, heager⟩ := ask_run.taken
    exact MeshNode.takesUp_of_eager hadm hwill heager fun hknows => by cases (ask_run.knows true).mp hknows
  heard := by
    refine fun v => ⟨fun _ => ?_, fun _ => ask_run.known v⟩
    cases v with
    | false => exact .inl ((ask_run.knows false).mpr rfl)
    | true => exact .inr ⟨_, _, 7, question_task, ask_run.decodes⟩
  again := by
    rw [ask_run.sends]
    intro h hh
    cases hh

theorem asking_buffered : asking.mesh.Buffered := by
  refine RadioNet.buffered_next (s := ⟨pair.nodes, []⟩) ?_ 0 _
  intro v w hw
  cases hw

end Sample

open Sample in
/-- The sample node's question reaches the other node. -/
theorem sample_flood_covers : ∃ reached : List Bool, reached.Nodup ∧
    (∀ v ∈ reached, v = false ∨ ∃ k < 1, ∃ job ttl,
      (asking.after pairLinks pairEnv questionArrives k).task pairLinks (questionArrives k) = some (v, job) ∧
      .took { question with ttl } ∈
        ((asking.after pairLinks pairEnv questionArrives k).nodes v).news (pairEnv v) job) ∧
    ((∀ v, Relation.ReflTransGen (asking.Linked pairLinks) false v → v ∈ reached) ∨ 8 ≤ reached.length) := by
  refine RadioNet.flood_covers pairLinks pairEnv (by decide) (by decide) asking_buffered asking_launched
    questionArrives 1 ?_ ?_
  · intro k hk
    obtain rfl : k = 0 := by omega
    exact asking_undisturbed
  · rw [ask_run.closed]
    intro h hh
    cases hh

end Nimmesh
