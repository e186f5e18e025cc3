import Nimmesh.Mesh.Frame
import Nimmesh.Mesh.Handlers
import Mathlib.Data.List.Forall2

/-! @src engine.rs relay.rs store_forward.rs | name:Two runs of a relay side by side | layer:properties

    Two runs of a node get the same frames but for the payloads of some packets that a relay has no business
    reading. Side by side the two nodes are alike: the same in every field, except that their recent caches hold
    twins, the two packets of one input, and that their traces tell of twins. Each step that the handlers are made
    of keeps two nodes alike. -/

namespace Nimmesh

/-- The types whose payload is sealed to a relay: encrypted messages and the messages of a swap under way. -/
def MessageType.isSealed : MessageType → Bool
  | .noiseEncrypted | .swapPropose | .swapAccept | .swapFundingProof | .swapPreimageReveal | .swapAbort => true
  | _ => false

/-- Two packets of a sealed type that differ in the bytes of their payload only. -/
structure Reworded (p q : Packet) : Prop where
  isSealed : p.msgType.isSealed = true
  rest : q = { p with payload := q.payload }
  length : q.payload.length = p.payload.length

/-! ### Twins -/

section Twins
variable (In : Packet → Packet → Prop)

/-- The two packets of one input, under new labels. -/
def Relabelled (p q : Packet) : Prop :=
  ∃ a b, In a b ∧ ∃ ttl flags, p = { a with ttl, flags } ∧ q = { b with ttl, flags }

/-- One packet, or the two packets of one input under new labels. -/
def Twin (p q : Packet) : Prop := p = q ∨ Relabelled In p q

/-- What is dispatched in the two runs: the two packets of one input, or one packet that is not relayed. -/
def Given (p q : Packet) : Prop := Relabelled In p q ∨ p = q ∧ relayedTtl p.ttl = none

variable {In} {p q : Packet}

theorem Given.twin (h : Given In p q) : Twin In p q := by
  rcases h with h | ⟨h, -⟩
  · exact .inr h
  · exact .inl h

theorem Relabelled.ttl (h : Relabelled In p q) (ttl : UInt8) : Relabelled In { p with ttl } { q with ttl } := by
  obtain ⟨a, b, hab, _, flags, rfl, rfl⟩ := h
  exact ⟨a, b, hab, ttl, flags, rfl, rfl⟩

theorem Relabelled.rsr (h : Relabelled In p q) (isRsr : Bool) :
    Relabelled In { p with flags := { p.flags with isRsr } } { q with flags := { q.flags with isRsr } } := by
  obtain ⟨a, b, hab, ttl, flags, rfl, rfl⟩ := h
  exact ⟨a, b, hab, ttl, { flags with isRsr }, rfl, rfl⟩

theorem Twin.rsr (h : Twin In p q) (isRsr : Bool) :
    Twin In { p with flags := { p.flags with isRsr } } { q with flags := { q.flags with isRsr } } := by
  rcases h with rfl | h
  · exact .inl rfl
  · exact .inr (h.rsr isRsr)

section Shape
variable (hIn : ∀ a b, In a b → a = b ∨ Reworded a b)
include hIn

/-- Twins differ in the bytes of the payload at most. -/
theorem Twin.shape (h : Twin In p q) : ∃ payload, q = { p with payload } ∧ payload.length = p.payload.length := by
  rcases h with rfl | ⟨a, b, hab, ttl, flags, rfl, rfl⟩
  · exact ⟨p.payload, rfl, rfl⟩
  · rcases hIn a b hab with rfl | hre
    · exact ⟨a.payload, rfl, rfl⟩
    · refine ⟨b.payload, ?_, hre.length⟩
      rw [hre.rest]

/-- Twins of a type that is not sealed are one packet. -/
theorem Twin.eq_of_open (h : Twin In p q) (hty : p.msgType.isSealed = false) : p = q := by
  rcases h with rfl | ⟨a, b, hab, ttl, flags, rfl, rfl⟩
  · rfl
  · rcases hIn a b hab with rfl | hre
    · rfl
    · exact absurd hre.isSealed (by rw [show a.msgType.isSealed = false from hty]; decide)

theorem Twin.relayKey_eq (h : Twin In p q) : relayKey q = relayKey p := by
  obtain ⟨payload, rfl, -⟩ := h.shape hIn
  rfl

theorem Twin.packetId_eq (h : Twin In p q) : packetId q = packetId p := by
  obtain ⟨payload, rfl, -⟩ := h.shape hIn
  rfl

/-- Of two twins both can be encoded or neither. -/
theorem Twin.encode (h : Twin In p q) : (∃ e e', encode p = .error e ∧ encode q = .error e') ∨
    ∃ f g, encode p = .ok f ∧ encode q = .ok g := by
  obtain ⟨payload, rfl, hlen⟩ := h.shape hIn
  rw [Nimmesh.encode, Nimmesh.encode, hlen]
  split_ifs
  · exact .inl ⟨_, _, rfl, rfl⟩
  · exact .inr ⟨_, _, rfl, rfl⟩

end Shape
end Twins

/-! ### Recent caches -/

/-- Two entries of recent caches: the same id and time, and twins. -/
structure EntryAlike (In : Packet → Packet → Prop) (e e' : RecentEntry) : Prop where
  id : e'.id = e.id
  atMs : e'.atMs = e.atMs
  packet : Twin In e.packet e'.packet

namespace RecentCache
variable {In : Packet → Packet → Prop} {l l' : List RecentEntry} {c d : RecentCache}

theorem ids_alike (h : List.Forall₂ (EntryAlike In) l l') : l'.map (·.id) = l.map (·.id) := by
  induction h with
  | nil => rfl
  | cons he _ ih => rw [List.map_cons, List.map_cons, he.id, ih]

/-- The index of a cache: the ids and when they came in. -/
theorem index_alike (h : List.Forall₂ (EntryAlike In) l l') :
    l'.map (fun e => (e.id, e.atMs)) = l.map (fun e => (e.id, e.atMs)) := by
  induction h with
  | nil => rfl
  | cons he _ ih => rw [List.map_cons, List.map_cons, he.id, he.atMs, ih]

theorem gc_alike (h : List.Forall₂ (EntryAlike In) c.entries d.entries) (nowMs : UInt64) :
    List.Forall₂ (EntryAlike In) (c.gc nowMs).entries (d.gc nowMs).entries := by
  have hdrop : ∀ l l' : List RecentEntry, List.Forall₂ (EntryAlike In) l l' →
      List.Forall₂ (EntryAlike In) (l.dropWhile (expired nowMs)) (l'.dropWhile (expired nowMs)) := by
    intro l l' hl
    induction hl with
    | nil => exact .nil
    | @cons e e' l l' he hl ih =>
      have hsame : expired nowMs e' = expired nowMs e := by
        rw [expired, expired, he.atMs]
      rw [List.dropWhile_cons, List.dropWhile_cons, hsame]
      split_ifs
      · exact ih
      · exact .cons he hl
  exact hdrop _ _ h

theorem push_alike (h : List.Forall₂ (EntryAlike In) l l') {e e' : RecentEntry} (he : EntryAlike In e e') (cap : ℕ) :
    List.Forall₂ (EntryAlike In) (Fifo.push cap l e) (Fifo.push cap l' e') := by
  rw [Fifo.push, Fifo.push, ← h.length_eq]
  refine List.rel_append ?_ (.cons he .nil)
  split_ifs
  · rw [← List.drop_one, ← List.drop_one]
    exact List.forall₂_drop 1 h
  · exact h

theorem insert_alike (h : List.Forall₂ (EntryAlike In) c.entries d.entries) {p q : Packet} (hpq : Twin In p q)
    (id : PacketId) (nowMs : UInt64) : (d.insert id q nowMs).1 = (c.insert id p nowMs).1 ∧
      List.Forall₂ (EntryAlike In) (c.insert id p nowMs).2.entries (d.insert id q nowMs).2.entries := by
  have hgc := gc_alike h nowMs
  by_cases hin : id ∈ (c.gc nowMs).entries.map (·.id)
  · have hin' : id ∈ (d.gc nowMs).entries.map (·.id) := by rwa [ids_alike hgc]
    rw [insert, insert, dif_pos hin, dif_pos hin']
    exact ⟨rfl, hgc⟩
  · have hin' : id ∉ (d.gc nowMs).entries.map (·.id) := by rwa [ids_alike hgc]
    have hentry : EntryAlike In ⟨id, p, nowMs⟩ ⟨id, q, nowMs⟩ := ⟨rfl, rfl, hpq⟩
    rw [insert, insert, dif_neg hin, dif_neg hin']
    exact ⟨rfl, push_alike hgc hentry recentCacheCap⟩

/-- A filter does not cover the same entries of both. -/
theorem missing_alike (h : List.Forall₂ (EntryAlike In) c.entries d.entries) (filter : GcsFilter) (nowMs : UInt64) :
    List.Forall₂ (Twin In) (c.missing filter nowMs).1 (d.missing filter nowMs).1 ∧
      List.Forall₂ (EntryAlike In) (c.missing filter nowMs).2.entries (d.missing filter nowMs).2.entries := by
  have hgc := gc_alike h nowMs
  refine ⟨?_, hgc⟩
  refine List.rel_map (fun e e' he => he.packet) (List.rel_filter (fun e e' he => ?_) hgc)
  simp only [he.id]

theorem advertiseIds_alike (h : List.Forall₂ (EntryAlike In) c.entries d.entries) (nowMs : UInt64) :
    (d.advertiseIds nowMs).1 = (c.advertiseIds nowMs).1 ∧
      List.Forall₂ (EntryAlike In) (c.advertiseIds nowMs).2.entries (d.advertiseIds nowMs).2.entries := by
  have hgc := gc_alike h nowMs
  exact ⟨ids_alike (List.forall₂_take _ (List.forall₂_reverse_iff.mpr hgc)), hgc⟩

end RecentCache

/-! ### Traces -/

/-- What the two runs do: the same, but for the packets that are let in and the frames that go out. -/
inductive EventAlike (In : Packet → Packet → Prop) : MeshEvent → MeshEvent → Prop
  | relayed {p q f g} (peer head) (h : Relabelled In p q) (hf : encode p = .ok f) (hg : encode q = .ok g) :
      EventAlike In (.sent peer f .relay head) (.sent peer g .relay head)
  | replied {p q f g} (peer head) (h : Twin In p q) (hf : encode p = .ok f) (hg : encode q = .ok g) :
      EventAlike In (.sent peer f .reply head) (.sent peer g .reply head)
  | ownFrame (peer f head) : EventAlike In (.sent peer f .own head) (.sent peer f .own head)
  | took {p q} (h : Twin In p q) : EventAlike In (.took p) (.took q)
  | own (p) : EventAlike In (.own p) (.own p)
  | offered (txId atMs) : EventAlike In (.offered txId atMs) (.offered txId atMs)

/-- The same counters and consultations, and alike events since the trace was `base`. -/
structure IoAlike (In : Packet → Packet → Prop) (base : List MeshEvent) (io io' : NodeIo) : Prop where
  counters : io'.counters = io.counters
  asked : io'.asked = io.asked
  trace : ∃ new new', io.trace = new ++ base ∧ io'.trace = new' ++ base ∧ List.Forall₂ (EventAlike In) new new'

namespace IoAlike
variable {In : Packet → Packet → Prop} {base : List MeshEvent} {io io' : NodeIo}

theorem refl (In : Packet → Packet → Prop) (io : NodeIo) : IoAlike In io.trace io io := ⟨rfl, rfl, [], [], rfl, rfl, .nil⟩

theorem log (h : IoAlike In base io io') {e e' : MeshEvent} (he : EventAlike In e e') :
    IoAlike In base (io.log e) (io'.log e') := by
  obtain ⟨new, new', hnew, hnew', hall⟩ := h.trace
  refine ⟨h.counters, h.asked, e :: new, e' :: new', ?_, ?_, .cons he hall⟩
  · rw [NodeIo.log_trace, hnew, List.cons_append]
  · rw [NodeIo.log_trace, hnew', List.cons_append]

theorem count (h : IoAlike In base io io') (f : Counters → Counters) : IoAlike In base (io.count f) (io'.count f) :=
  ⟨congrArg f h.counters, h.asked, h.trace⟩

theorem ask (h : IoAlike In base io io') : IoAlike In base io.ask io'.ask :=
  ⟨h.counters, congrArg (· + 1) h.asked, h.trace⟩

theorem send (h : IoAlike In base io io') {peer : Link} {f g : Bytes} {kind : SendKind} {head : Option UInt32}
    (he : EventAlike In (.sent peer f kind head) (.sent peer g kind head)) :
    IoAlike In base (io.send peer f kind head) (io'.send peer g kind head) := (h.log he).count _

end IoAlike

/-! ### Nodes -/

/-- Two nodes without a swap side: the same but for twins in their recent caches and traces. -/
structure Alike (In : Packet → Packet → Prop) (base : List MeshEvent) (n m : MeshNode) : Prop where
  same : m = { n with recent := m.recent, io := m.io }
  recent : List.Forall₂ (EntryAlike In) n.recent.entries m.recent.entries
  io : IoAlike In base n.io m.io
  swap : n.swap = none

namespace Alike
open MeshNode
variable {In : Packet → Packet → Prop} {base : List MeshEvent} {n m : MeshNode} {p q : Packet} {env : NodeEnv}

theorem refl (In : Packet → Packet → Prop) (h : n.swap = none) : Alike In n.io.trace n n :=
  ⟨rfl, List.forall₂_same.mpr fun _ _ => ⟨rfl, rfl, .inl rfl⟩, .refl In n.io, h⟩

/-- The second node, written over the first. -/
theorem written (h : Alike In base n m) : ∃ r io, m = { n with recent := r, io := io } ∧
    List.Forall₂ (EntryAlike In) n.recent.entries r.entries ∧ IoAlike In base n.io io ∧ n.swap = none :=
  ⟨m.recent, m.io, h.same, h.recent, h.io, h.swap⟩

/-- What works on the other fields only. -/
theorem map {f : MeshNode → MeshNode} (h : Alike In base n m) (hf : ∀ (n : MeshNode) (r : RecentCache) (io : NodeIo),
    f { n with recent := r, io := io, swap := none } = { f n with recent := r, io := io, swap := none }) :
    Alike In base (f n) (f m) := by
  obtain ⟨r, io, rfl, hr, hio, hs⟩ := h.written
  have hn : f n = { f n with recent := n.recent, io := n.io, swap := none } := by
    rw [← hf, ← hs]
  have hm : f { n with recent := r, io := io } = { f n with recent := r, io := io, swap := none } := by
    rw [← hf, ← hs]
  rw [hm, hn]
  exact ⟨rfl, hr, hio, rfl⟩

theorem now_eq (h : Alike In base n m) (env : NodeEnv) : m.now env = n.now env := by
  rw [now, now, h.io.asked]

theorem ask (h : Alike In base n m) : Alike In base n.ask m.ask := by
  obtain ⟨r, io, rfl, hr, hio, hs⟩ := h.written
  exact ⟨rfl, hr, hio.ask, hs⟩

theorem count (h : Alike In base n m) (f : Counters → Counters) : Alike In base (n.count f) (m.count f) := by
  obtain ⟨r, io, rfl, hr, hio, hs⟩ := h.written
  exact ⟨rfl, hr, hio.count f, hs⟩

theorem log (h : Alike In base n m) {e e' : MeshEvent} (he : EventAlike In e e') :
    Alike In base (n.log e) (m.log e') := by
  obtain ⟨r, io, rfl, hr, hio, hs⟩ := h.written
  exact ⟨rfl, hr, hio.log he, hs⟩

/-- A frame to every peer but one. -/
theorem floodExcluding (h : Alike In base n m) {f g : Bytes} {kind : SendKind}
    (hsend : ∀ peer head, EventAlike In (.sent peer f kind head) (.sent peer g kind head)) (exclude : Option Link) :
    Alike In base (n.floodExcluding env f exclude kind) (m.floodExcluding env g exclude kind) := by
  obtain ⟨r, io, rfl, hr, hio, hs⟩ := h.written
  have hrun : ∀ (peers : List Link) (io io' : NodeIo), IoAlike In base io io' → IoAlike In base
      (peers.foldl (fun (io : NodeIo) peer =>
        if some peer = exclude then io else io.send peer f kind n.cachedHead) io)
      (peers.foldl (fun (io : NodeIo) peer =>
        if some peer = exclude then io else io.send peer g kind n.cachedHead) io') := by
    intro peers
    induction peers with
    | nil => exact fun io io' hio => hio
    | cons peer peers ih =>
      intro io io' hio
      refine ih _ _ ?_
      dsimp only
      split_ifs
      · exact hio
      · exact hio.send (hsend peer _)
  refine ⟨rfl, hr, ?_, hs⟩
  simp only [MeshNode.floodExcluding, hio.asked]
  exact hrun (env.peerOrder n.io.asked n.peers) n.io io hio

theorem floodPacket (h : Alike In base n m) : Alike In base (n.floodPacket env p) (m.floodPacket env p) := by
  rw [MeshNode.floodPacket, MeshNode.floodPacket]
  cases encode p with
  | error e => exact h
  | ok f => exact h.floodExcluding (fun peer head => .ownFrame peer f head) none

theorem markOwn (h : Alike In base n m) : Alike In base (n.markOwn p) (m.markOwn p) := by
  obtain ⟨r, io, rfl, hr, hio, hs⟩ := h.written
  refine ⟨rfl, hr, ?_, hs⟩
  simp only [MeshNode.markOwn]
  split_ifs
  · exact hio.log (.own p)
  · exact hio

theorem relayAllowed (h : Alike In base n m) (env : NodeEnv) (ty : MessageType) :
    (m.relayAllowed env ty).1 = (n.relayAllowed env ty).1 ∧
      Alike In base (n.relayAllowed env ty).2 (m.relayAllowed env ty).2 := by
  obtain ⟨r, io, rfl, hr, hio, hs⟩ := h.written
  simp only [MeshNode.relayAllowed, hio.asked]
  split_ifs
  · exact ⟨rfl, h⟩
  · exact ⟨rfl, h.ask⟩
  · exact ⟨rfl, h⟩

section Twins
variable (hIn : ∀ a b, In a b → a = b ∨ Reworded a b)
include hIn

/-- The first-seen gate: the same for twins. -/
theorem firstSeen (h : Alike In base n m) (hpq : Twin In p q) :
    (m.firstSeen q).1 = (n.firstSeen p).1 ∧ Alike In base (n.firstSeen p).2 (m.firstSeen q).2 := by
  obtain ⟨r, io, rfl, hr, hio, hs⟩ := h.written
  rw [MeshNode.firstSeen, MeshNode.firstSeen, hpq.relayKey_eq hIn]
  refine ⟨rfl, rfl, hr, ?_, hs⟩
  dsimp only
  split_ifs
  · exact hio.log (.took hpq)
  · exact hio

theorem remember (h : Alike In base n m) (env : NodeEnv) (hpq : Twin In p q) :
    Alike In base (n.remember env p) (m.remember env q) := by
  obtain ⟨r, io, rfl, hr, hio, hs⟩ := h.written
  have hnow : MeshNode.now env { n with recent := r, io := io } = n.now env := h.now_eq env
  obtain ⟨hfst, hins⟩ := RecentCache.insert_alike hr hpq (packetId p) (n.now env)
  rw [MeshNode.remember, MeshNode.remember, hnow, hpq.packetId_eq hIn]
  refine ⟨rfl, hins, ?_, hs⟩
  dsimp only
  rw [hfst]
  split_ifs
  · exact hio.ask.count _
  · exact hio.ask

/-- Relaying: the two frames carry the two packets, one hop less. -/
theorem relayOnward (h : Alike In base n m) (env : NodeEnv) (hpq : Given In p q) (src : Option Link) :
    Alike In base (n.relayOnward env p src) (m.relayOnward env q src) := by
  obtain ⟨payload, rfl, -⟩ := hpq.twin.shape hIn
  obtain ⟨hallowed, hroll⟩ := h.relayAllowed env p.msgType
  simp only [MeshNode.relayOnward, hallowed]
  split_ifs
  · exact hroll
  · cases hrelay : relayedTtl p.ttl with
    | none => exact hroll
    | some ttl =>
      rcases hpq with hpq | ⟨-, hnone⟩
      · have hlabel := hpq.ttl ttl
        rcases Twin.encode hIn (.inr hlabel) with ⟨e, e', he, he'⟩ | ⟨f, g, hf, hg⟩
        · dsimp only at he'
          simp only [he, he']
          exact hroll.ask
        · dsimp only at hg
          simp only [hf, hg]
          exact (hroll.ask.count _).floodExcluding (fun peer head => .relayed peer head hlabel hf hg) src
      · rw [hnone] at hrelay
        cases hrelay

end Twins
end Alike

end Nimmesh
