import Nimmesh.Mesh.RelayBlind

/-! @src engine.rs node.rs store_forward.rs | name:Two runs of a relay | layer:properties

    The jobs of a relay beside its frames (its own packets, its catch-up requests, its retries) keep two alike nodes
    alike as well, so two runs whose frames differ in sealed payloads only stay alike to their end: what the node
    remembers, counts and decides is the same, and each frame that goes out in one run has its counterpart in the
    other. -/

namespace Nimmesh
namespace Alike
open MeshNode
variable {In : Packet → Packet → Prop} {base : List MeshEvent} {n m : MeshNode} {env : NodeEnv}

/-! ### The worker's own jobs -/

theorem flood (h : Alike In base n m) (frame : Bytes) : Alike In base (n.flood env frame) (m.flood env frame) :=
  h.floodExcluding (fun peer head => .ownFrame peer frame head) none

theorem launch (h : Alike In base n m) (wire bytes : Bytes) (validUntil : Option UInt32) :
    Alike In base (n.launch env wire bytes validUntil) (m.launch env wire bytes validUntil) := by
  have hpeers := h.field peers fun _ _ _ => rfl
  have hentry : m.pendingEntry env wire bytes validUntil = n.pendingEntry env wire bytes validUntil := by
    simp only [pendingEntry, h.now_eq, hpeers]
  have hkept := h.ask.map (f := fun k => { k with
    pending := k.pending.remember (n.pendingEntry env wire bytes validUntil) }) fun _ _ _ => rfl
  simp only [MeshNode.launch, hentry, hpeers, h.now_eq]
  split_ifs
  · exact flood hkept bytes
  · exact flood (hkept.log (.offered _ _)) bytes

/-- The first half of the retry pass: what is dead is failed and dropped. -/
def retire (nowMs : UInt64) (n : MeshNode) : MeshNode := { n with
  pending := n.pending.retain fun e => !e.dead n.cachedHead nowMs
  ledger := (n.pending.entries.filter fun e => e.dead n.cachedHead nowMs).foldl failExpired n.ledger }

/-- The second half: what is due is offered again. -/
def offerDue (env : NodeEnv) (nowMs : UInt64) (n : MeshNode) : MeshNode :=
  if n.peers.isEmpty then n
  else (n.pending.entries.filter fun e => e.due nowMs).foldl (MeshNode.offerAgain env nowMs)
    { n with pending := n.pending.touch nowMs }

theorem retryTick_eq (env : NodeEnv) (n : MeshNode) :
    n.retryTick env = offerDue env (n.now env) (retire (n.now env) n.ask) := rfl

theorem offerDue_alike (h : Alike In base n m) (nowMs : UInt64) :
    Alike In base (offerDue env nowMs n) (offerDue env nowMs m) := by
  have hrun : ∀ (due : List PendingTx) (n m : MeshNode), Alike In base n m →
      Alike In base (due.foldl (MeshNode.offerAgain env nowMs) n) (due.foldl (MeshNode.offerAgain env nowMs) m) := by
    intro due
    induction due with
    | nil => exact fun n m h => h
    | cons e due ih => exact fun n m h => ih _ _ (flood (h.log (.offered e.txId nowMs)) e.bytes)
  have hpeers := h.field peers fun _ _ _ => rfl
  have hpending := h.field pending fun _ _ _ => rfl
  have hdue : m.pending.entries.filter (·.due nowMs) = n.pending.entries.filter (·.due nowMs) := by rw [hpending]
  by_cases hempty : n.peers.isEmpty
  · rw [offerDue, offerDue, if_pos hempty, if_pos (by rw [hpeers, hempty])]
    exact h
  · rw [offerDue, offerDue, if_neg hempty, if_neg (by rwa [hpeers]), hdue]
    exact hrun _ _ _ (h.map (f := fun k => { k with pending := k.pending.touch nowMs }) fun _ _ _ => rfl)

theorem retryTick (h : Alike In base n m) : Alike In base (n.retryTick env) (m.retryTick env) := by
  rw [retryTick_eq, retryTick_eq, h.now_eq]
  exact offerDue_alike (h.ask.map (f := retire (n.now env)) fun _ _ _ => rfl) _

theorem emitRequestSync (h : Alike In base n m) : Alike In base (n.emitRequestSync env) (m.emitRequestSync env) := by
  obtain ⟨r, io, rfl, hr, hio, hs⟩ := h.written
  obtain ⟨hids, hrecent⟩ := RecentCache.advertiseIds_alike hr (n.now env)
  have hasked : Alike In base { n.ask with recent := (n.recent.advertiseIds (n.now env)).2 }
      { (MeshNode.ask { n with recent := r, io := io }) with recent := (r.advertiseIds (n.now env)).2 } :=
    ⟨rfl, hrecent, hio.ask, hs⟩
  obtain ⟨hpacket, hbuilt⟩ := hasked.buildPacket .requestSync
    (GcsFilter.build (n.recent.advertiseIds (n.now env)).1).toBytes
  simp only [MeshNode.emitRequestSync, RecentCache.buildFilter, h.now_eq, hids, hpacket]
  exact hbuilt.floodPacket

theorem maintenanceTick (h : Alike In base n m) : Alike In base (n.maintenanceTick env) (m.maintenanceTick env) := by
  have hsync := h.field sync fun _ _ _ => rfl
  have hdue := h.ask.map (f := fun k => { k with sync := (n.sync.due (n.now env)).2 }) fun _ _ _ => rfl
  simp only [MeshNode.maintenanceTick, h.now_eq, hsync]
  split_ifs
  · exact retryTick (emitRequestSync hdue)
  · exact retryTick hdue

theorem gcTick (h : Alike In base n m) : Alike In base (n.gcTick env) (m.gcTick env) := by
  have hswap : m.swap = none := (h.field MeshNode.swap fun _ _ _ => rfl).trans h.swap
  simp only [MeshNode.gcTick, h.swap, hswap]
  exact h

theorem swapFastTick (h : Alike In base n m) : Alike In base (n.swapFastTick env) (m.swapFastTick env) := by
  have hswap : m.ask.swap = none := (h.ask.field MeshNode.swap fun _ _ _ => rfl).trans h.ask.swap
  simp only [MeshNode.swapFastTick, h.ask.swap, hswap]
  exact h.ask

section Own
variable (hIn : ∀ a b, In a b → a = b ∨ Reworded a b)
include hIn

theorem keepOwn (h : Alike In base n m) (env : NodeEnv) (p : Packet) :
    Alike In base ((n.markOwn p).remember env p) ((m.markOwn p).remember env p) :=
  h.markOwn.remember hIn env (.inl rfl)

theorem floodLocalTx (h : Alike In base n m) (wire : Bytes) :
    Alike In base (n.floodLocalTx env wire) (m.floodLocalTx env wire) := by
  have hlocal := h.field (fun n => n.localEnvelope wire) fun _ _ _ => rfl
  simp only [MeshNode.floodLocalTx, hlocal]
  cases encodeEnvelope (n.localEnvelope wire) with
  | error e => exact h
  | ok payload =>
    obtain ⟨hpacket, hbuilt⟩ := h.buildPacket .nimiqTx payload
    simp only [hpacket]
    have hkept := keepOwn hIn hbuilt env (n.buildPacket .nimiqTx payload).1
    have hrec := hkept.map (f := fun k => { k with ledger := k.ledger.record (mockTxId wire) .outgoing })
      fun _ _ _ => rfl
    cases encode (n.buildPacket .nimiqTx payload).1 with
    | error e => exact hrec
    | ok bytes => exact launch hrec wire bytes _

theorem floodLocalChat (h : Alike In base n m) (payload : Bytes) :
    Alike In base (n.floodLocalChat env payload) (m.floodLocalChat env payload) := by
  simp only [MeshNode.floodLocalChat]
  cases decodeChat payload with
  | none => exact h
  | some c =>
    obtain ⟨hpacket, hbuilt⟩ := h.buildPacket .chat payload
    simp only [hpacket]
    have hkept := keepOwn hIn hbuilt env (n.buildPacket .chat payload).1
    exact floodPacket (hkept.map (f := fun k => { k with
      chat := k.chat.push (chatEntry (n.buildPacket .chat payload).1 true c) }) fun _ _ _ => rfl)

end Own

/-! ### Any job -/

/-- The jobs that the two runs are given: the same one, or frames of the two packets of one input. -/
def JobAlike (In : Packet → Packet → Prop) (j j' : Job) : Prop :=
  j = j' ∧ (∀ src f p, j = .inbound src f → decode f = .ok p → In p p) ∨
    ∃ src f g p q, j = .inbound src f ∧ j' = .inbound src g ∧ decode f = .ok p ∧ decode g = .ok q ∧ In p q

/-- STEP: a job keeps two relays alike. -/
theorem step (hIn : ∀ a b, In a b → a = b ∨ Reworded a b) (hgw : env.gateway = none) {j j' : Job}
    (hj : JobAlike In j j') (h : Alike In base n m) : Alike In base (n.step env j) (m.step env j') := by
  rcases hj with ⟨rfl, hin⟩ | ⟨src, f, g, p, q, rfl, rfl, hf, hg, hpq⟩
  · cases j with
    | inbound src f =>
      exact swapFastTick (processInbound hIn hgw (.inl ⟨rfl, fun p hp => hin src f p rfl hp⟩) h)
    | localTx wire => exact floodLocalTx hIn h wire
    | requestSync => exact emitRequestSync h
    | syncTick => exact gcTick (maintenanceTick h)
    | beaconTick =>
      have hnone : ∀ k : MeshNode, k.emitHeadBeacon env = k := by
        intro k
        simp only [emitHeadBeacon, hgw]
      simp only [MeshNode.step, hnone]
      exact gcTick (maintenanceTick h)
    | swapFastTick => exact swapFastTick h
    | balanceQuery address => exact originate hIn h _ _
    | historyQuery address => exact originate hIn h _ _
    | chat payload => exact floodLocalChat hIn h payload
    | stopAdvertising => exact h.map (f := stopAdvertising) fun _ _ _ => rfl
    | peerConnected peer => exact h.map (f := fun k => k.step env (.peerConnected peer)) fun _ _ _ => rfl
    | peerDisconnected peer => exact h.map (f := fun k => k.step env (.peerDisconnected peer)) fun _ _ _ => rfl
    | watchIncoming txId => exact h.map (f := fun k => k.step env (.watchIncoming txId)) fun _ _ _ => rfl
    | setBattery level charging => exact h.map (f := fun k => k.step env (.setBattery level charging)) fun _ _ _ => rfl
    | sendResult ok => exact h.count _
  · exact swapFastTick (processInbound hIn hgw (.inr ⟨p, q, hf, hg, hpq⟩) h)

/-- RUN: so does any run of jobs. -/
theorem exec (hIn : ∀ a b, In a b → a = b ∨ Reworded a b) (hgw : env.gateway = none) {jobs jobs' : List Job}
    (hjobs : List.Forall₂ (JobAlike In) jobs jobs') (h : Alike In base n m) :
    Alike In base (n.exec env jobs) (m.exec env jobs') := by
  induction hjobs generalizing n m with
  | nil => exact h
  | cons hj _ ih => exact ih (step hIn hgw hj h)

end Alike

/-! ### What goes out -/

/-- A frame as it is sent: to whom, why, and its bytes. -/
structure Sending where
  peer : Link
  kind : SendKind
  frame : Bytes

def MeshEvent.sending : MeshEvent → Option Sending
  | .sent peer frame kind _ => some ⟨peer, kind, frame⟩
  | _ => none

/-- Frames of the same length under the same header that carry the payloads of the two packets of one input, which
    have new hop counts and flags and are otherwise as they came in. -/
structure Carried (In : Packet → Packet → Prop) (f g : Bytes) : Prop where
  length : f.length = g.length
  header : f.take (headerLen + peerIdLen) = g.take (headerLen + peerIdLen)
  packets : ∃ a b, In a b ∧ ∃ ttl flags, decode f = .ok { a with ttl, flags } ∧ decode g = .ok { b with ttl, flags }

/-- Two sendings to one peer for one reason. A relayed frame is always that of an input; a catch-up reply or an own
    packet may be one and the same frame. -/
structure SendAlike (In : Packet → Packet → Prop) (s t : Sending) : Prop where
  peer : s.peer = t.peer
  kind : s.kind = t.kind
  frame : Carried In s.frame t.frame ∨ s.kind ≠ .relay ∧ s.frame = t.frame

theorem length_applyPadding_congr {a b : Bytes} (h : a.length = b.length) :
    (applyPadding a).length = (applyPadding b).length := by
  rw [applyPadding, applyPadding, h]
  cases optimalBlockSize b.length with
  | none => exact h
  | some target =>
    dsimp only
    split_ifs
    · exact h
    · rw [List.length_append, List.length_append, h]

theorem take_encode {p : Packet} {f : Bytes} (h : encode p = .ok f) :
    f.take (headerLen + peerIdLen) = p.headBytes.take (headerLen + peerIdLen) := by
  rw [encode] at h
  split_ifs at h
  cases h
  obtain ⟨pad, hpad⟩ := exists_applyPadding (p.headBytes ++ p.payload ++ (p.signature.map (·.1)).getD [])
  have hlen : headerLen + peerIdLen ≤ p.headBytes.length := by
    have hid : p.senderId.1.length = 8 := p.senderId.2
    simp only [Packet.headBytes, List.length_append, hid, length_beBytes, length_beBytesOf, headerLen, peerIdLen]
    simp
  rw [hpad, List.append_assoc, List.append_assoc, List.take_append_of_le_length hlen]

/-- The frames of an input under new labels. -/
theorem carried_of_relabelled {In : Packet → Packet → Prop} (hIn : ∀ a b, In a b → a = b ∨ Reworded a b)
    (hver : ∀ a b, In a b → a.version = version) {p q : Packet} (h : Relabelled In p q) {f g : Bytes}
    (hf : encode p = .ok f) (hg : encode q = .ok g) : Carried In f g := by
  obtain ⟨payload, hq, hlen⟩ := Twin.shape hIn (.inr h)
  have hhead : q.headBytes = p.headBytes := by
    rw [hq]
    simp only [Packet.headBytes, hlen]
  refine ⟨?_, ?_, ?_⟩
  · have hf' := hf
    have hg' := hg
    rw [encode] at hf' hg'
    split_ifs at hf' hg'
    rw [← Except.ok.inj hf', ← Except.ok.inj hg']
    refine length_applyPadding_congr ?_
    rw [hhead, hq]
    simp only [List.length_append, hlen]
  · rw [take_encode hf, take_encode hg, hhead]
  · obtain ⟨a, b, hab, ttl, flags, rfl, rfl⟩ := h
    have hb : b.version = version := by
      rcases hIn a b hab with rfl | hre
      · exact hver a a hab
      · rw [hre.rest]
        exact hver a b hab
    exact ⟨a, b, hab, ttl, flags, decode_encode (hver a b hab) hf, decode_encode hb hg⟩

/-! ### Two runs -/

/-- Jobs that differ, if at all, in the bytes of the payload of a sealed packet. -/
def SameButSealed (j j' : Job) : Prop :=
  j = j' ∨ ∃ src f g p q, j = .inbound src f ∧ j' = .inbound src g ∧ decode f = .ok p ∧ decode g = .ok q ∧ Reworded p q

/-- The packets that came in at one place of the two runs. -/
def Inputs (jobs jobs' : List Job) (p q : Packet) : Prop :=
  ∃ src f g, (Job.inbound src f, Job.inbound src g) ∈ jobs.zip jobs' ∧ decode f = .ok p ∧ decode g = .ok q

section Inputs
variable {jobs jobs' : List Job} (h : List.Forall₂ SameButSealed jobs jobs')
include h

theorem reworded_of_inputs (a b : Packet) (hab : Inputs jobs jobs' a b) : a = b ∨ Reworded a b := by
  obtain ⟨src, f, g, hmem, hf, hg⟩ := hab
  rcases List.forall₂_zip h hmem with heq | ⟨_, _, _, p, q, heq, heq', hp, hq, hre⟩
  · obtain ⟨-, rfl⟩ := Job.inbound.inj heq
    rw [hf] at hg
    exact .inl (Except.ok.inj hg)
  · obtain ⟨-, rfl⟩ := Job.inbound.inj heq
    obtain ⟨-, rfl⟩ := Job.inbound.inj heq'
    rw [hf] at hp
    rw [hg] at hq
    obtain rfl := Except.ok.inj hp
    obtain rfl := Except.ok.inj hq
    exact .inr hre

theorem jobAlike_of_same : List.Forall₂ (Alike.JobAlike (Inputs jobs jobs')) jobs jobs' := by
  rw [List.forall₂_iff_zip]
  refine ⟨h.length_eq, ?_⟩
  intro j j' hmem
  rcases List.forall₂_zip h hmem with rfl | ⟨src, f, g, p, q, rfl, rfl, hp, hq, -⟩
  · refine .inl ⟨rfl, ?_⟩
    rintro src f p rfl hp
    exact ⟨src, f, f, hmem, hp, hp⟩
  · exact .inr ⟨src, f, g, p, q, rfl, rfl, hp, hq, src, f, g, hmem, hp, hq⟩

/-- The sendings among two alike lists of events. -/
theorem sendings_alike {new new' : List MeshEvent} (hnew : List.Forall₂ (EventAlike (Inputs jobs jobs')) new new') :
    List.Forall₂ (SendAlike (Inputs jobs jobs')) (new.filterMap MeshEvent.sending) (new'.filterMap MeshEvent.sending) := by
  have hIn := reworded_of_inputs h
  have hver : ∀ a b, Inputs jobs jobs' a b → a.version = version := by
    rintro a b ⟨_, f, _, _, hf, _⟩
    exact ((decode_eq_ok_iff f a).mp hf).1.1
  refine List.rel_filterMap ?_ hnew
  intro e e' he
  cases he with
  | relayed peer head hpq hf hg => exact .some ⟨rfl, rfl, .inl (carried_of_relabelled hIn hver hpq hf hg)⟩
  | @replied p q f g peer head hpq hf hg =>
    refine .some ⟨rfl, rfl, ?_⟩
    rcases hpq with rfl | hpq
    · rw [hf] at hg
      exact .inr ⟨by simp, Except.ok.inj hg⟩
    · exact .inl (carried_of_relabelled hIn hver hpq hf hg)
  | ownFrame peer f head => exact .some ⟨rfl, rfl, .inr ⟨by simp, rfl⟩⟩
  | took _ => exact .none
  | own _ => exact .none
  | offered _ _ => exact .none

end Inputs

/-- SAFETY: two runs of a relay from one state, whose jobs differ in the payloads of sealed packets only, end with the
    same counters, the same ids and times in the recent cache, and the same value in every other field; and since
    they began, they have sent to the same peers, in the same order, frames of the same length and header: those that
    were relayed carry the payloads of one and the same place of the two runs as they came in. -/
theorem relay_blind (env : NodeEnv) (hgw : env.gateway = none) (n : MeshNode) (hswap : n.swap = none)
    (jobs jobs' : List Job) (h : List.Forall₂ SameButSealed jobs jobs') :
    n.exec env jobs' = { n.exec env jobs with
      recent := (n.exec env jobs').recent, io := (n.exec env jobs').io } ∧
    (n.exec env jobs').recent.entries.map (fun e => (e.id, e.atMs)) =
      (n.exec env jobs).recent.entries.map (fun e => (e.id, e.atMs)) ∧
    (n.exec env jobs').io.counters = (n.exec env jobs).io.counters ∧
    (n.exec env jobs').io.asked = (n.exec env jobs).io.asked ∧
    ∃ new new', (n.exec env jobs).io.trace = new ++ n.io.trace ∧ (n.exec env jobs').io.trace = new' ++ n.io.trace ∧
      List.Forall₂ (SendAlike (Inputs jobs jobs')) (new.filterMap MeshEvent.sending)
        (new'.filterMap MeshEvent.sending) := by
  have hend := Alike.exec (reworded_of_inputs h) hgw (jobAlike_of_same h) (.refl (Inputs jobs jobs') hswap)
  obtain ⟨new, new', hnew, hnew', hall⟩ := hend.io.trace
  exact ⟨hend.same, RecentCache.index_alike hend.recent, hend.io.counters, hend.io.asked, new, new', hnew, hnew',
    sendings_alike h hall⟩

/-- A sealed packet of another node, with a payload of one byte. -/
def sealedFrame (b : UInt8) : Bytes := Sample.frame (Sample.meshPacket .swapPreimageReveal [b] 5)

/-- A node between two peers carries a revealed preimage onward, whatever it is. -/
theorem sample_relay_blind :
    let env := Sample.meshEnv (fun _ => 9000) none
    let n := { Sample.meshNode with peers := ["a", "b"] }
    (n.exec env [.inbound (some "a") (sealedFrame 8)]).io.counters =
      (n.exec env [.inbound (some "a") (sealedFrame 7)]).io.counters := by
  intro env n
  have hsame : List.Forall₂ SameButSealed [.inbound (some "a") (sealedFrame 7)]
      [.inbound (some "a") (sealedFrame 8)] := by
    refine .cons (.inr ⟨some "a", sealedFrame 7, sealedFrame 8, Sample.meshPacket .swapPreimageReveal [7] 5,
      Sample.meshPacket .swapPreimageReveal [8] 5, rfl, rfl, by decide +kernel, by decide +kernel, ?_⟩) .nil
    exact ⟨rfl, rfl, rfl⟩
  exact (relay_blind env rfl n rfl _ _ hsame).2.2.1

end Nimmesh
