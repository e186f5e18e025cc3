import Nimmesh.Mesh.BitchatLink

/-! @src BitchatKit.swift | name:What others can do to a peer's messages | layer:properties

    The sender and timestamp of a frame are recorded before its signature is looked at, an announce replaces the one
    before it, and the record is dropped as a whole when it is full. Where none of the three comes in between, the link
    shows what a link with an unbounded record would show that gets the peers' own frames alone. -/

namespace Nimmesh
open BitchatWire

variable {Key : Type}

/-- The packet that a frame brings, unless it is the link's own. -/
def incoming (me f : Bytes) : Option BitchatPacket := (BitchatPacket.decode f).filter fun p => p.senderID ≠ me

/-- The senders and timestamps of the frames. -/
def dedupKeys (me : Bytes) (fs : List Bytes) : List Bytes :=
  fs.filterMap fun f => (incoming me f).map BitchatPacket.dedupKey

/-- The frame is signed under the key of the peer that it names; `keyOf` says which key that is. -/
def genuine (ck : CryptoKit Key) (keyOf : Bytes → Option Key) (f : Bytes) : Bool :=
  (BitchatPacket.decode f).any fun p => (keyOf p.senderID).any fun k => p.signedUnder ck k

/-- The frame brings a message. -/
def bringsMessage (f : Bytes) : Bool := (BitchatPacket.decode f).any fun p => p.type = typeMessage

/-- What is left of the senders and timestamps when all are thrown away with every 2001st different one. -/
def sinceDrop (keys : List Bytes) : List Bytes :=
  keys.foldl (fun kept key => if (key :: kept).toFinset.card ≤ seenBound then key :: kept else []) []

/-- None of the frames has a sender and timestamp that came before it and was thrown away since. -/
def Kept (which : Bytes → Bool) (me : Bytes) (fs : List Bytes) : Prop :=
  ∀ before f after, fs = before ++ f :: after → which f = true → ∀ p, incoming me f = some p →
    p.dedupKey ∈ dedupKeys me before → p.dedupKey ∈ sinceDrop (dedupKeys me before)

/-- Nothing comes in that gets in the way of the peers: no announce is accepted for a peer but under its own key, a
    frame that is not signed by a peer does not come before the first of the peer's own with the same timestamp, and
    none of the peer's own comes again after the record that has it was dropped. -/
structure Undisturbed (ck : CryptoKit Key) (keyOf : Bytes → Option Key) (me : Bytes) (fs : List Bytes) : Prop where
  bound : ∀ f ∈ fs, ∀ p, incoming me f = some p → p.type = typeAnnounce →
    ∀ peer, acceptAnnounce ck p = some peer → keyOf p.senderID = some peer.2
  first : ∀ before f after, fs = before ++ f :: after → genuine ck keyOf f = true → ∀ p, incoming me f = some p →
    p.dedupKey ∈ dedupKeys me before → p.dedupKey ∈ dedupKeys me (before.filter (genuine ck keyOf))
  kept : Kept (genuine ck keyOf) me fs

/-! ### One frame -/

section OneFrame
variable {ck : CryptoKit Key} {me f : Bytes} {fs : List Bytes} {p : BitchatPacket} {l m : BitchatLink Key}

theorem incoming_eq_some : incoming me f = some p ↔ BitchatPacket.decode f = some p ∧ p.senderID ≠ me := by
  rw [incoming, Option.filter_eq_some_iff, decide_eq_true_eq]

theorem dedupKeys_concat (me f : Bytes) (fs : List Bytes) :
    dedupKeys me (fs ++ [f]) = dedupKeys me fs ++ ((incoming me f).map BitchatPacket.dedupKey).toList := by
  rw [dedupKeys, List.filterMap_append]
  cases h : incoming me f with
  | none => simp [dedupKeys, h]
  | some p => simp [dedupKeys, h]

theorem handleInbound_of_none (h : incoming l.peerID f = none) : l.handleInbound ck f = l := by
  rw [BitchatLink.handleInbound]
  cases hd : BitchatPacket.decode f with
  | none => rfl
  | some p =>
    by_cases hown : p.senderID = l.peerID
    · exact if_pos hown
    · rw [incoming_eq_some.mpr ⟨hd, hown⟩] at h
      cases h

theorem handleInbound_of_some (h : incoming l.peerID f = some p) : l.handleInbound ck f =
    if p.dedupKey ∈ l.seen then l else (l.remember p.dedupKey).deliver ck p := by
  obtain ⟨hd, hother⟩ := incoming_eq_some.mp h
  rw [BitchatLink.handleInbound, hd]
  exact if_neg hother

/-- What a packet can do: nothing, bind a peer, or be shown. -/
theorem deliver_cases (ck : CryptoKit Key) (p : BitchatPacket) (l : BitchatLink Key) :
    l.deliver ck p = l ∨
    (∃ peer, p.type = typeAnnounce ∧ acceptAnnounce ck p = some peer ∧ l.deliver ck p = { l with
      peers := l.peers.insert p.senderID peer
      events := if (l.peers.lookup p.senderID).isNone then .peer peer.1 :: l.events else l.events }) ∨
    ∃ shown, p.type = typeMessage ∧ acceptMessage ck l.peers p = some shown ∧
      l.deliver ck p = { l with events := .message p shown.1 shown.2 :: l.events } := by
  rw [BitchatLink.deliver]
  by_cases hann : p.type = typeAnnounce
  · rw [if_pos hann]
    cases hacc : acceptAnnounce ck p with
    | none => exact .inl rfl
    | some peer => exact .inr (.inl ⟨peer, hann, rfl, rfl⟩)
  · rw [if_neg hann]
    by_cases hmsg : p.type = typeMessage
    · rw [if_pos hmsg]
      cases hacc : acceptMessage ck l.peers p with
      | none => exact .inl rfl
      | some shown => exact .inr (.inr ⟨shown, hmsg, rfl, rfl⟩)
    · exact .inl (if_neg hmsg)

@[simp] theorem deliver_seen (ck : CryptoKit Key) (p : BitchatPacket) (l : BitchatLink Key) :
    (l.deliver ck p).seen = l.seen := by
  rcases deliver_cases ck p l with h | ⟨_, _, _, h⟩ | ⟨_, _, _, h⟩ <;> rw [h]

@[simp] theorem deliver_peerID (ck : CryptoKit Key) (p : BitchatPacket) (l : BitchatLink Key) :
    (l.deliver ck p).peerID = l.peerID := by
  rcases deliver_cases ck p l with h | ⟨_, _, _, h⟩ | ⟨_, _, _, h⟩ <;> rw [h]

/-- What a packet does depends on the peers alone. -/
theorem deliver_congr (ck : CryptoKit Key) (p : BitchatPacket) (hpeers : l.peers = m.peers)
    (hevents : l.events = m.events) :
    (l.deliver ck p).peers = (m.deliver ck p).peers ∧ (l.deliver ck p).events = (m.deliver ck p).events := by
  simp only [BitchatLink.deliver, ← hpeers, ← hevents]
  by_cases hann : p.type = typeAnnounce
  · simp only [if_pos hann]
    cases acceptAnnounce ck p with
    | none => exact ⟨hpeers, hevents⟩
    | some peer => exact ⟨rfl, rfl⟩
  · simp only [if_neg hann]
    by_cases hmsg : p.type = typeMessage
    · simp only [if_pos hmsg]
      cases acceptMessage ck l.peers p with
      | none => exact ⟨hpeers, hevents⟩
      | some shown => exact ⟨rfl, rfl⟩
    · simp only [if_neg hmsg]
      exact ⟨hpeers, hevents⟩

theorem signed_of_acceptAnnounce {peer : String × Key} (h : acceptAnnounce ck p = some peer) :
    p.signedUnder ck peer.2 = true := by
  simp only [acceptAnnounce, Option.bind_eq_bind, Option.bind_eq_some_iff] at h
  obtain ⟨ann, -, h⟩ := h
  split_ifs at h
  simp only [Option.bind_eq_some_iff] at h
  obtain ⟨vk, -, h⟩ := h
  split_ifs at h with hsigned
  rw [← Option.some.inj h]
  exact hsigned

theorem signed_of_acceptMessage {peers : Table Bytes (String × Key)} {shown : String × String}
    (h : acceptMessage ck peers p = some shown) :
    ∃ peer, peers.lookup p.senderID = some peer ∧ p.signedUnder ck peer.2 = true ∧ shown.1 = peer.1 := by
  simp only [acceptMessage, Option.bind_eq_bind, Option.bind_eq_some_iff] at h
  obtain ⟨peer, hpeer, h⟩ := h
  split_ifs at h with hsigned
  simp only [Option.bind_eq_some_iff] at h
  obtain ⟨text, -, h⟩ := h
  exact ⟨peer, hpeer, hsigned, by rw [← Option.some.inj h]⟩

theorem handleInbound_peerID : (l.handleInbound ck f).peerID = l.peerID := by
  cases h : incoming l.peerID f with
  | none => rw [handleInbound_of_none h]
  | some p =>
    rw [handleInbound_of_some h]
    split_ifs
    · rfl
    · rw [deliver_peerID]
      rfl

end OneFrame

/-! ### A run -/

section Run
variable {ck : CryptoKit Key} {keyOf : Bytes → Option Key} {me f : Bytes} {fs : List Bytes}

theorem run_concat (ck : CryptoKit Key) (me f : Bytes) (fs : List Bytes) : BitchatLink.run ck me (fs ++ [f]) =
    (BitchatLink.run ck me fs).handleInbound ck f := by
  rw [BitchatLink.run, Run.exec_append]
  rfl

@[simp] theorem run_peerID (ck : CryptoKit Key) (me : Bytes) (fs : List Bytes) :
    (BitchatLink.run ck me fs).peerID = me := by
  induction fs using List.reverseRecOn with
  | nil => rfl
  | append_singleton fs f ih => rw [run_concat, handleInbound_peerID, ih]

theorem sinceDrop_concat (keys : List Bytes) (key : Bytes) : sinceDrop (keys ++ [key]) =
    if (key :: sinceDrop keys).toFinset.card ≤ seenBound then key :: sinceDrop keys else [] := by
  rw [sinceDrop, List.foldl_append]
  rfl

theorem card_sinceDrop (keys : List Bytes) : (sinceDrop keys).toFinset.card ≤ seenBound := by
  induction keys using List.reverseRecOn with
  | nil => exact Nat.zero_le _
  | append_singleton keys key ih =>
    rw [sinceDrop_concat]
    split_ifs with h
    · exact h
    · exact Nat.zero_le _

theorem sinceDrop_subset (keys : List Bytes) : sinceDrop keys ⊆ keys := by
  induction keys using List.reverseRecOn with
  | nil => exact List.Subset.refl _
  | append_singleton keys key ih =>
    rw [sinceDrop_concat]
    split_ifs
    · intro k hk
      rcases List.mem_cons.mp hk with rfl | hk
      · exact List.mem_append_right _ (List.mem_singleton_self _)
      · exact List.mem_append_left _ (ih hk)
    · exact List.nil_subset _

/-- INVARIANT: the record has what came since it was dropped. -/
theorem seen_run (ck : CryptoKit Key) (me : Bytes) (fs : List Bytes) :
    (BitchatLink.run ck me fs).seen = (sinceDrop (dedupKeys me fs)).toFinset := by
  induction fs using List.reverseRecOn with
  | nil => rfl
  | append_singleton fs f ih =>
    rw [run_concat, dedupKeys_concat]
    cases hin : incoming me f with
    | none =>
      rw [handleInbound_of_none (by rw [run_peerID, hin]), ih, Option.map_none, Option.toList_none, List.append_nil]
    | some p =>
      rw [handleInbound_of_some (by rw [run_peerID, hin]), ih, Option.map_some, Option.toList_some, sinceDrop_concat]
      split_ifs with hseen hfits hfits
      · rw [ih, List.toFinset_cons, Finset.insert_eq_of_mem hseen]
      · -- a pair that is there already does not fill the record
        rw [List.toFinset_cons, Finset.insert_eq_of_mem hseen] at hfits
        exact absurd (card_sinceDrop _) hfits
      · rw [List.toFinset_cons] at hfits ⊢
        rw [deliver_seen, BitchatLink.remember, ih]
        exact if_neg (Nat.not_lt.mpr hfits)
      · rw [List.toFinset_cons] at hfits
        rw [deliver_seen, BitchatLink.remember, ih]
        exact if_pos (Nat.not_le.mp hfits)

theorem run_concat_of_some (ck : CryptoKit Key) (fs : List Bytes) {p : BitchatPacket} (hin : incoming me f = some p) :
    BitchatLink.run ck me (fs ++ [f]) = if p.dedupKey ∈ sinceDrop (dedupKeys me fs) then BitchatLink.run ck me fs
      else ((BitchatLink.run ck me fs).remember p.dedupKey).deliver ck p := by
  rw [run_concat, handleInbound_of_some (by rw [run_peerID, hin]), seen_run]
  simp only [List.mem_toFinset]

theorem Kept.before {which : Bytes → Bool} (h : Kept which me (fs ++ [f])) : Kept which me fs := by
  rintro before g after rfl hg
  exact h before g (after ++ [f]) (by rw [List.append_assoc, List.cons_append]) hg

/-- A frame of the kind is looked at when its sender and timestamp are new. -/
theorem Kept.mem_sinceDrop_iff {which : Bytes → Bool} (h : Kept which me (fs ++ [f])) (hf : which f = true)
    {p : BitchatPacket} (hin : incoming me f = some p) :
    p.dedupKey ∈ sinceDrop (dedupKeys me fs) ↔ p.dedupKey ∈ dedupKeys me fs :=
  ⟨fun hmem => sinceDrop_subset _ hmem, h fs f [] rfl hf p hin⟩

/-- While all fit into the record, none is dropped. -/
theorem sinceDrop_of_card {keys : List Bytes} (h : keys.toFinset.card ≤ seenBound) : sinceDrop keys = keys.reverse := by
  induction keys using List.reverseRecOn with
  | nil => rfl
  | append_singleton keys key ih =>
    have hfits : (key :: keys.reverse).toFinset.card ≤ seenBound := by
      rwa [← List.reverse_concat', List.toFinset_reverse]
    have hkeys : keys.toFinset.card ≤ seenBound := by
      refine (Finset.card_le_card ?_).trans h
      rw [List.toFinset_append]
      exact Finset.subset_union_left
    rw [sinceDrop_concat, ih hkeys, if_pos hfits, List.reverse_concat']

theorem kept_of_card {which : Bytes → Bool} (h : (dedupKeys me fs).toFinset.card ≤ seenBound) : Kept which me fs := by
  rintro before f after rfl - p - hmem
  have hbefore : (dedupKeys me before).toFinset.card ≤ seenBound := by
    refine (Finset.card_le_card ?_).trans h
    rw [dedupKeys, dedupKeys, List.filterMap_append, List.toFinset_append]
    exact Finset.subset_union_left
  rw [sinceDrop_of_card hbefore]
  exact List.mem_reverse.mpr hmem

theorem run_concat_of_none (hin : incoming me f = none) :
    BitchatLink.run ck me (fs ++ [f]) = BitchatLink.run ck me fs := by
  rw [run_concat, handleInbound_of_none (by rw [run_peerID, hin])]

/-! ### Shown at most once -/

/-- At most the packet itself is shown, if it is a message and its peer's key says so. -/
theorem shown_deliver (ck : CryptoKit Key) (p : BitchatPacket) (l : BitchatLink Key) :
    (l.deliver ck p).shown = l.shown ∨ (l.deliver ck p).shown = p :: l.shown ∧ p.type = typeMessage ∧
      ∃ peer, l.peers.lookup p.senderID = some peer ∧ p.signedUnder ck peer.2 = true := by
  rcases deliver_cases ck p l with h | ⟨peer, _, _, h⟩ | ⟨shown, hty, hacc, h⟩
  · exact .inl (by rw [h])
  · refine .inl ?_
    rw [h, BitchatLink.shown, BitchatLink.shown]
    dsimp only
    split_ifs
    · rfl
    · rfl
  · obtain ⟨peer, hpeer, hsigned, -⟩ := signed_of_acceptMessage hacc
    refine .inr ⟨?_, hty, peer, hpeer, hsigned⟩
    rw [h]
    rfl

theorem bringsMessage_of_type {p : BitchatPacket} (hin : incoming me f = some p) (h : p.type = typeMessage) :
    bringsMessage f = true := by
  rw [bringsMessage, (incoming_eq_some.mp hin).1, Option.any_some, decide_eq_true_eq]
  exact h

/-- RUN: what was shown came in. -/
theorem shown_came (ck : CryptoKit Key) (me : Bytes) (fs : List Bytes) :
    ∀ p ∈ (BitchatLink.run ck me fs).shown, p.dedupKey ∈ dedupKeys me fs := by
  induction fs using List.reverseRecOn with
  | nil => exact fun p hp => absurd hp List.not_mem_nil
  | append_singleton fs f ih =>
    have hmore : ∀ p ∈ (BitchatLink.run ck me fs).shown, p.dedupKey ∈ dedupKeys me (fs ++ [f]) := by
      intro p hp
      rw [dedupKeys_concat]
      exact List.mem_append_left _ (ih p hp)
    cases hin : incoming me f with
    | none => rwa [run_concat_of_none hin]
    | some p =>
      rw [run_concat_of_some ck _ hin]
      split_ifs
      · exact hmore
      · rcases shown_deliver ck p ((BitchatLink.run ck me fs).remember p.dedupKey) with
          hshown | ⟨hshown, -⟩ <;> rw [hshown]
        · exact hmore
        · intro q hq
          rcases List.mem_cons.mp hq with rfl | hq
          · rw [dedupKeys_concat, hin]
            exact List.mem_append_right _ (List.mem_singleton_self _)
          · exact hmore q hq

/-- RUN: no two messages shown have the same sender and timestamp. -/
theorem nodup_shown (ck : CryptoKit Key) (h : Kept bringsMessage me fs) :
    ((BitchatLink.run ck me fs).shown.map BitchatPacket.dedupKey).Nodup := by
  induction fs using List.reverseRecOn with
  | nil => exact List.nodup_nil
  | append_singleton fs f ih =>
    have hnodup := ih h.before
    cases hin : incoming me f with
    | none => rwa [run_concat_of_none hin]
    | some p =>
      rw [run_concat_of_some ck _ hin]
      split_ifs with hseen
      · exact hnodup
      · rcases shown_deliver ck p ((BitchatLink.run ck me fs).remember p.dedupKey) with
          hshown | ⟨hshown, hty, -⟩ <;> rw [hshown]
        · exact hnodup
        · rw [List.map_cons, List.nodup_cons]
          refine ⟨?_, hnodup⟩
          intro hmem
          obtain ⟨q, hq, hkey⟩ := List.mem_map.mp hmem
          rw [h.mem_sinceDrop_iff (bringsMessage_of_type hin hty) hin, ← hkey] at hseen
          exact hseen (shown_came ck me fs q hq)

end Run

/-! ### A record without a bound -/

section Once
variable {ck : CryptoKit Key} {me f : Bytes} {fs : List Bytes} {p : BitchatPacket}

/-- A link that never drops its record. -/
def handleOnce (ck : CryptoKit Key) (l : BitchatLink Key) (f : Bytes) : BitchatLink Key :=
  match incoming l.peerID f with
  | none => l
  | some p =>
    if p.dedupKey ∈ l.seen then l
    else { l with seen := insert p.dedupKey l.seen }.deliver ck p

def runOnce (ck : CryptoKit Key) (me : Bytes) (fs : List Bytes) : BitchatLink Key :=
  Run.exec (handleOnce ck) { peerID := me } fs

theorem runOnce_concat (ck : CryptoKit Key) (me f : Bytes) (fs : List Bytes) :
    runOnce ck me (fs ++ [f]) = handleOnce ck (runOnce ck me fs) f := by
  rw [runOnce, Run.exec_append]
  rfl

theorem handleOnce_of_none {l : BitchatLink Key} (h : incoming l.peerID f = none) : handleOnce ck l f = l := by
  rw [handleOnce, h]

theorem handleOnce_of_some {l : BitchatLink Key} (h : incoming l.peerID f = some p) : handleOnce ck l f =
    if p.dedupKey ∈ l.seen then l else { l with seen := insert p.dedupKey l.seen }.deliver ck p := by
  rw [handleOnce, h]

/-- INVARIANT: the record has all that came in. -/
theorem runOnce_record (ck : CryptoKit Key) (me : Bytes) (fs : List Bytes) :
    (runOnce ck me fs).peerID = me ∧ (runOnce ck me fs).seen = (dedupKeys me fs).toFinset := by
  induction fs using List.reverseRecOn with
  | nil => exact ⟨rfl, rfl⟩
  | append_singleton fs f ih =>
    obtain ⟨hid, hseen⟩ := ih
    rw [runOnce_concat, dedupKeys_concat]
    cases hin : incoming me f with
    | none =>
      rw [handleOnce_of_none (by rw [hid, hin]), Option.map_none, Option.toList_none, List.append_nil]
      exact ⟨hid, hseen⟩
    | some p =>
      rw [handleOnce_of_some (by rw [hid, hin]), Option.map_some, Option.toList_some, List.toFinset_append,
        List.toFinset_cons, List.toFinset_nil, Finset.union_insert, Finset.union_empty]
      split_ifs with hmem
      · rw [hseen] at hmem
        exact ⟨hid, by rw [hseen, Finset.insert_eq_of_mem hmem]⟩
      · rw [deliver_peerID, deliver_seen]
        exact ⟨hid, by rw [← hseen]⟩

theorem runOnce_concat_of_none (hin : incoming me f = none) : runOnce ck me (fs ++ [f]) = runOnce ck me fs := by
  rw [runOnce_concat, handleOnce_of_none (by rw [(runOnce_record ck me fs).1, hin])]

/-- The first frame with its sender and timestamp is looked at, and no later one. -/
theorem runOnce_concat_of_some (ck : CryptoKit Key) (fs : List Bytes) (hin : incoming me f = some p) :
    (p.dedupKey ∈ dedupKeys me fs → runOnce ck me (fs ++ [f]) = runOnce ck me fs) ∧
    (p.dedupKey ∉ dedupKeys me fs → ∃ seen, runOnce ck me (fs ++ [f]) =
      { runOnce ck me fs with seen := seen }.deliver ck p) := by
  obtain ⟨hid, hseen⟩ := runOnce_record ck me fs
  rw [runOnce_concat, handleOnce_of_some (by rw [hid, hin]), hseen]
  refine ⟨?_, ?_⟩
  · intro h
    rw [if_pos (List.mem_toFinset.mpr h)]
  · intro h
    rw [if_neg (by rwa [List.mem_toFinset])]
    exact ⟨_, rfl⟩

end Once

/-! ### Frames of others -/

section Others
variable {ck : CryptoKit Key} {keyOf : Bytes → Option Key} {me f : Bytes} {fs gs : List Bytes} {p : BitchatPacket}
  {l : BitchatLink Key}

theorem genuine_of_signed {k : Key} (hin : incoming me f = some p) (hk : keyOf p.senderID = some k)
    (h : p.signedUnder ck k = true) : genuine ck keyOf f = true := by
  rw [genuine, (incoming_eq_some.mp hin).1, Option.any_some, hk, Option.any_some, h]

/-- The peers are bound to their own keys. -/
def PeersBound (keyOf : Bytes → Option Key) (peers : Table Bytes (String × Key)) : Prop :=
  ∀ x peer, peers.lookup x = some peer → keyOf x = some peer.2

/-- STEP: a frame that its peer did not sign changes neither peers nor what is shown. -/
theorem deliver_forged (hin : incoming me f = some p) (hforged : ¬ genuine ck keyOf f = true)
    (hbound : p.type = typeAnnounce → ∀ peer, acceptAnnounce ck p = some peer → keyOf p.senderID = some peer.2)
    (hpeers : PeersBound keyOf l.peers) : l.deliver ck p = l := by
  rcases deliver_cases ck p l with h | ⟨peer, hty, hacc, -⟩ | ⟨shown, -, hacc, -⟩
  · exact h
  · exact absurd (genuine_of_signed hin (hbound hty peer hacc) (signed_of_acceptAnnounce hacc)) hforged
  · obtain ⟨peer, hpeer, hsigned, -⟩ := signed_of_acceptMessage hacc
    exact absurd (genuine_of_signed hin (hpeers _ _ hpeer) hsigned) hforged

theorem peersBound_deliver (hbound : p.type = typeAnnounce → ∀ peer, acceptAnnounce ck p = some peer →
    keyOf p.senderID = some peer.2) (hpeers : PeersBound keyOf l.peers) : PeersBound keyOf (l.deliver ck p).peers := by
  rcases deliver_cases ck p l with h | ⟨peer, hty, hacc, h⟩ | ⟨shown, -, -, h⟩ <;> rw [h]
  · exact hpeers
  · intro x other hx
    dsimp only at hx
    rw [Table.lookup_insert_iff] at hx
    split_ifs at hx with heq
    · rw [heq, ← Option.some.inj hx]
      exact hbound hty peer hacc
    · exact hpeers x other hx
  · exact hpeers

theorem Undisturbed.before (h : Undisturbed ck keyOf me (fs ++ [f])) : Undisturbed ck keyOf me fs where
  bound := fun g hg => h.bound g (List.mem_append_left _ hg)
  first := by
    rintro before g after rfl hg
    exact h.first before g (after ++ [f]) (by rw [List.append_assoc, List.cons_append]) hg
  kept := h.kept.before

theorem dedupKeys_filter_subset (me : Bytes) (fs : List Bytes) (keep : Bytes → Bool) :
    dedupKeys me (fs.filter keep) ⊆ dedupKeys me fs := (List.filter_sublist.filterMap _).subset

/-- The frames that the peers signed are enough to know the peers and what is shown. -/
structure Agrees (ck : CryptoKit Key) (keyOf : Bytes → Option Key) (me : Bytes) (fs : List Bytes) : Prop where
  peers : (BitchatLink.run ck me fs).peers = (runOnce ck me (fs.filter (genuine ck keyOf))).peers
  events : (BitchatLink.run ck me fs).events = (runOnce ck me (fs.filter (genuine ck keyOf))).events
  bound : PeersBound keyOf (BitchatLink.run ck me fs).peers

theorem agrees_nil : Agrees ck keyOf me [] :=
  ⟨rfl, rfl, fun x peer hx => absurd hx (by simp [BitchatLink.run])⟩

theorem agrees_concat_none (hin : incoming me f = none) (h : Agrees ck keyOf me fs) :
    Agrees ck keyOf me (fs ++ [f]) := by
  have hsame : runOnce ck me ((fs ++ [f]).filter (genuine ck keyOf)) =
      runOnce ck me (fs.filter (genuine ck keyOf)) := by
    rw [List.filter_append, List.filter_singleton, Bool.cond_eq_ite]
    split_ifs
    · exact runOnce_concat_of_none hin
    · rw [List.append_nil]
  refine ⟨?_, ?_, ?_⟩ <;> rw [run_concat_of_none hin]
  · rw [hsame, h.peers]
  · rw [hsame, h.events]
  · exact h.bound

/-- STEP: a frame that its peer signed is looked at in both or in neither. -/
theorem agrees_concat_genuine (hd : Undisturbed ck keyOf me (fs ++ [f])) (hin : incoming me f = some p)
    (hg : genuine ck keyOf f = true) (h : Agrees ck keyOf me fs) : Agrees ck keyOf me (fs ++ [f]) := by
  have hrun := run_concat_of_some ck fs hin
  obtain ⟨honce, hfirst⟩ := runOnce_concat_of_some ck (fs.filter (genuine ck keyOf)) hin
  have hiff : p.dedupKey ∈ dedupKeys me fs ↔ p.dedupKey ∈ dedupKeys me (fs.filter (genuine ck keyOf)) :=
    ⟨hd.first fs f [] rfl hg p hin, fun hmem => dedupKeys_filter_subset me fs _ hmem⟩
  have hfilter : (fs ++ [f]).filter (genuine ck keyOf) = fs.filter (genuine ck keyOf) ++ [f] := by
    rw [List.filter_append, List.filter_singleton, hg]
    rfl
  rw [← hfilter, ← hiff] at honce hfirst
  simp only [hd.kept.mem_sinceDrop_iff hg hin] at hrun
  by_cases hseen : p.dedupKey ∈ dedupKeys me fs
  · rw [if_pos hseen] at hrun
    exact ⟨by rw [hrun, honce hseen, h.peers], by rw [hrun, honce hseen, h.events], by rw [hrun]; exact h.bound⟩
  · rw [if_neg hseen] at hrun
    obtain ⟨seen, honly⟩ := hfirst hseen
    have hboth := deliver_congr ck p (l := (BitchatLink.run ck me fs).remember p.dedupKey)
      (m := { runOnce ck me (fs.filter (genuine ck keyOf)) with seen := seen }) h.peers h.events
    refine ⟨by rw [hrun, honly, hboth.1], by rw [hrun, honly, hboth.2], ?_⟩
    rw [hrun]
    exact peersBound_deliver (hd.bound f (List.mem_append_right _ (List.mem_singleton_self f)) p hin) h.bound

/-- STEP: any other frame is recorded and no more. -/
theorem agrees_concat_forged (hd : Undisturbed ck keyOf me (fs ++ [f])) (hin : incoming me f = some p)
    (hg : ¬ genuine ck keyOf f = true) (h : Agrees ck keyOf me fs) : Agrees ck keyOf me (fs ++ [f]) := by
  have hown := hd.bound f (List.mem_append_right _ (List.mem_singleton_self f)) p hin
  have hbound : PeersBound keyOf ((BitchatLink.run ck me fs).remember p.dedupKey).peers := h.bound
  have hfilter : (fs ++ [f]).filter (genuine ck keyOf) = fs.filter (genuine ck keyOf) := by
    rw [List.filter_append, List.filter_singleton, Bool.cond_eq_ite, if_neg hg, List.append_nil]
  have hstill : (BitchatLink.run ck me (fs ++ [f])).peers = (BitchatLink.run ck me fs).peers ∧
      (BitchatLink.run ck me (fs ++ [f])).events = (BitchatLink.run ck me fs).events := by
    rw [run_concat_of_some ck _ hin]
    split_ifs
    · exact ⟨rfl, rfl⟩
    · rw [deliver_forged hin hg hown hbound]
      exact ⟨rfl, rfl⟩
  exact ⟨by rw [hstill.1, h.peers, hfilter], by rw [hstill.2, h.events, hfilter], by rw [hstill.1]; exact h.bound⟩

/-- INVARIANT: whatever else comes in, where nothing gets in the way. -/
theorem agrees_of_undisturbed (h : Undisturbed ck keyOf me fs) : Agrees ck keyOf me fs := by
  induction fs using List.reverseRecOn with
  | nil => exact agrees_nil
  | append_singleton fs f ih =>
    have hbefore := ih h.before
    cases hin : incoming me f with
    | none => exact agrees_concat_none hin hbefore
    | some p =>
      by_cases hg : genuine ck keyOf f = true
      · exact agrees_concat_genuine h hin hg hbefore
      · exact agrees_concat_forged h hin hg hbefore

/-! ### What is shown -/

/-- A message that is shown is one that its peer signed. -/
theorem shown_signed (h : Undisturbed ck keyOf me fs) :
    ∀ q ∈ (BitchatLink.run ck me fs).shown, ∃ k, keyOf q.senderID = some k ∧ q.signedUnder ck k = true := by
  induction fs using List.reverseRecOn with
  | nil => exact fun q hq => absurd hq List.not_mem_nil
  | append_singleton fs f ih =>
    have hbefore := ih h.before
    have hbound := (agrees_of_undisturbed h.before).bound
    cases hin : incoming me f with
    | none => rwa [run_concat_of_none hin]
    | some p =>
      rw [run_concat_of_some ck _ hin]
      split_ifs
      · exact hbefore
      · rcases shown_deliver ck p ((BitchatLink.run ck me fs).remember p.dedupKey) with
          hshown | ⟨hshown, -, peer, hpeer, hsigned⟩ <;> rw [hshown]
        · exact hbefore
        · intro q hq
          rcases List.mem_cons.mp hq with rfl | hq
          · exact ⟨peer.2, hbound _ _ hpeer, hsigned⟩
          · exact hbefore q hq

/-- SAFETY: frames that are not signed by the peers they name can be put in or left out anywhere, and the same messages
    are shown under the same names, each of them signed by its peer, as long as in both runs no announce is accepted
    for a peer under a key that is not its own, no such frame comes before a peer's own with its timestamp, and none
    of a peer's own comes again after the record was dropped. Whatever comes in, no sender and timestamp is shown twice
    unless a message comes again after the record was dropped. -/
theorem bitchat_inbound (ck : CryptoKit Key) (keyOf : Bytes → Option Key) (me : Bytes) (fs gs : List Bytes)
    (hsame : fs.filter (genuine ck keyOf) = gs.filter (genuine ck keyOf)) (hf : Undisturbed ck keyOf me fs)
    (hg : Undisturbed ck keyOf me gs) :
    (BitchatLink.run ck me fs).events = (BitchatLink.run ck me gs).events ∧
    (∀ q ∈ (BitchatLink.run ck me fs).shown, ∃ k, keyOf q.senderID = some k ∧ q.signedUnder ck k = true) ∧
    ∀ hs, Kept bringsMessage me hs →
      ((BitchatLink.run ck me hs).shown.map fun q => (q.senderID, q.timestampMs)).Nodup := by
  refine ⟨?_, shown_signed hf, ?_⟩
  · rw [(agrees_of_undisturbed hf).events, (agrees_of_undisturbed hg).events, hsame]
  · intro hs hkept
    have hnodup := nodup_shown ck hkept
    have hpair : (BitchatLink.run ck me hs).shown.map BitchatPacket.dedupKey =
        ((BitchatLink.run ck me hs).shown.map fun q => (q.senderID, q.timestampMs)).map
          fun x => x.1 ++ beBytes x.2 := by
      rw [List.map_map]
      rfl
    rw [hpair] at hnodup
    exact hnodup.of_map _

end Others

/-! ### How others get in the way -/

namespace Sample

/-- A platform whose digest of a key is its first bytes and whose signatures name the key and the sum of what is
    signed. -/
def chatKit : CryptoKit Bytes where
  sha256 := fun b => sliceArr hashLen (b ++ List.replicate hashLen 0) 0
  publicKey := fun b => if b.length = 32 then some b else none
  isValidSignature := fun k sig msg => decide (sig = k ++ List.replicate 32 (msg.foldl (· + ·) 0))

def signChat (k : Bytes) (p : BitchatPacket) : BitchatPacket :=
  { p with signature := some (k ++ List.replicate 32 (p.signingBytes.foldl (· + ·) 0)) }

def chatPacket (type : UInt8) (timestampMs : UInt64) (senderID payload : Bytes) : BitchatPacket :=
  { type, ttl := 7, timestampMs, senderID, recipientID := none, payload, signature := none }

def noiseKey : Bytes := List.replicate 32 1

def ownKey : Bytes := List.replicate 32 2

def otherKey : Bytes := List.replicate 32 3

/-- The id of the link itself. -/
def linkID : Bytes := List.replicate 8 7

/-- The id of a peer. -/
def chatPeer : Bytes := List.replicate 8 1

/-- The peer signs with its own key. -/
def chatKeyOf (x : Bytes) : Option Bytes := if x = chatPeer then some ownKey else none

/-- An announce of the peer's noise key with some signing key. -/
def announceFrame (k : Bytes) (timestampMs : UInt64) : Bytes :=
  (signChat k (chatPacket typeAnnounce timestampMs chatPeer (BitchatAnnounce.encode ⟨"a", noiseKey, k⟩))).encode true

/-- A message in the peer's name, signed with some key. -/
def messageFrame (k : Bytes) (timestampMs : UInt64) : Bytes :=
  (signChat k (chatPacket typeMessage timestampMs chatPeer [104, 105])).encode true

/-- A packet of a stranger, of a type that the link ignores. -/
def fillerPacket (i : ℕ) : BitchatPacket := chatPacket 0x99 i.toUInt64 (List.replicate 8 9) []

def filler (i : ℕ) : Bytes := (fillerPacket i).encode false

end Sample

open Sample

/-- The conditions for frames of which no two with the same sender and timestamp are signed by different parties. -/
theorem undisturbed_of_apart {ck : CryptoKit Key} {keyOf : Bytes → Option Key} {me : Bytes} {fs : List Bytes}
    (hbound : ∀ f ∈ fs, ∀ p ∈ incoming me f, p.type = typeAnnounce → ∀ peer ∈ acceptAnnounce ck p,
      keyOf p.senderID = some peer.2)
    (hapart : ∀ f ∈ fs, genuine ck keyOf f = false → ∀ g ∈ fs, genuine ck keyOf g = true → ∀ p ∈ incoming me f,
      ∀ q ∈ incoming me g, p.dedupKey ≠ q.dedupKey)
    (hfew : fs.length ≤ seenBound) : Undisturbed ck keyOf me fs := by
  refine ⟨hbound, ?_, kept_of_card (((List.toFinset_card_le _).trans (List.length_filterMap_le _ _)).trans hfew)⟩
  rintro before g after rfl hg q hq hmem
  obtain ⟨f, hf, hkey⟩ := List.mem_filterMap.mp hmem
  obtain ⟨p, hp, heq⟩ := Option.map_eq_some_iff.mp hkey
  refine List.mem_filterMap.mpr ⟨f, List.mem_filter.mpr ⟨hf, ?_⟩, hkey⟩
  rw [← Bool.not_eq_false]
  intro hforged
  exact hapart f (List.mem_append_left _ hf) hforged g (List.mem_append_right _ List.mem_cons_self) hg p hp q hq heq

/-- Beside the peer's own frames a message in its name under another timestamp, and something that is no packet; and
    the peer's message comes again. -/
theorem sample_bitchat_inbound :
    (BitchatLink.run chatKit linkID [announceFrame ownKey 1, messageFrame ownKey 5]).events =
      (BitchatLink.run chatKit linkID
        [[1, 2], announceFrame ownKey 1, messageFrame otherKey 4, messageFrame ownKey 5]).events ∧
    ((BitchatLink.run chatKit linkID [announceFrame ownKey 1, messageFrame ownKey 5, messageFrame ownKey 5]).shown.map
      fun q => (q.senderID, q.timestampMs)).Nodup := by
  have hsame : [announceFrame ownKey 1, messageFrame ownKey 5].filter (genuine chatKit chatKeyOf) =
      [[1, 2], announceFrame ownKey 1, messageFrame otherKey 4, messageFrame ownKey 5].filter
        (genuine chatKit chatKeyOf) := by
    decide +kernel
  have hf : Undisturbed chatKit chatKeyOf linkID [announceFrame ownKey 1, messageFrame ownKey 5] :=
    undisturbed_of_apart (by decide +kernel) (by decide +kernel) (by decide)
  have hg : Undisturbed chatKit chatKeyOf linkID
      [[1, 2], announceFrame ownKey 1, messageFrame otherKey 4, messageFrame ownKey 5] :=
    undisturbed_of_apart (by decide +kernel) (by decide +kernel) (by decide)
  obtain ⟨hevents, -, honce⟩ := bitchat_inbound chatKit chatKeyOf linkID _ _ hsame hf hg
  refine ⟨hevents, honce _ (kept_of_card ?_)⟩
  exact ((List.toFinset_card_le _).trans (List.length_filterMap_le _ _)).trans (by decide)

theorem decode_filler (i : ℕ) : BitchatPacket.decode (filler i) = some (fillerPacket i) := by
  refine BitchatPacket.decode_encode ⟨rfl, ?_, by simp [fillerPacket, chatPacket], ?_⟩ false
  · simp [fillerPacket, chatPacket]
  · simp [fillerPacket, chatPacket]

theorem incoming_filler (i : ℕ) : incoming linkID (filler i) = some (fillerPacket i) :=
  incoming_eq_some.mpr ⟨decode_filler i, by simp [fillerPacket, chatPacket, linkID]⟩

theorem deliver_filler (i : ℕ) (l : BitchatLink Bytes) : l.deliver chatKit (fillerPacket i) = l := by
  rcases deliver_cases chatKit (fillerPacket i) l with h | ⟨_, hty, _, _⟩ | ⟨_, hty, _, _⟩
  · exact h
  · exact absurd hty (show ¬ (0x99 : UInt8) = typeAnnounce by decide)
  · exact absurd hty (show ¬ (0x99 : UInt8) = typeMessage by decide)

/-- A filler leaves the peers and what is shown alone. -/
theorem handleInbound_filler (i : ℕ) {l : BitchatLink Bytes} (h : l.peerID = linkID) :
    (l.handleInbound chatKit (filler i)).peers = l.peers ∧ (l.handleInbound chatKit (filler i)).events = l.events := by
  rw [handleInbound_of_some (h ▸ incoming_filler i)]
  split_ifs
  · exact ⟨rfl, rfl⟩
  · rw [deliver_filler]
    exact ⟨rfl, rfl⟩

theorem run_fillers (fs : List Bytes) (k : ℕ) :
    (BitchatLink.run chatKit linkID (fs ++ (List.range k).map filler)).peers =
        (BitchatLink.run chatKit linkID fs).peers ∧
      (BitchatLink.run chatKit linkID (fs ++ (List.range k).map filler)).events =
        (BitchatLink.run chatKit linkID fs).events := by
  induction k with
  | zero => simp
  | succ k ih =>
    rw [List.range_succ, List.map_append, ← List.append_assoc, List.map_singleton, run_concat]
    obtain ⟨hpeers, hevents⟩ := handleInbound_filler k (run_peerID chatKit linkID (fs ++ (List.range k).map filler))
    rw [hpeers, hevents]
    exact ih

theorem dedupKeys_fillers (k : ℕ) :
    dedupKeys linkID ((List.range k).map filler) = (List.range k).map fun i => (fillerPacket i).dedupKey := by
  rw [dedupKeys, List.filterMap_map]
  simp [incoming_filler]

theorem fillerKey_inj {i j : ℕ} (hi : i < 2 ^ 64) (hj : j < 2 ^ 64)
    (h : (fillerPacket i).dedupKey = (fillerPacket j).dedupKey) : i = j := by
  have htime := congrArg u64OfBe (List.append_cancel_left h)
  rw [u64OfBe_beBytes, u64OfBe_beBytes] at htime
  have hnat := congrArg UInt64.toNat htime
  simp only [fillerPacket, chatPacket, Nat.toUInt64_eq, UInt64.toNat_ofNat'] at hnat
  rwa [Nat.mod_eq_of_lt hi, Nat.mod_eq_of_lt hj] at hnat

/-- The peer announces itself and sends a message, and strangers fill the record up to its bound. -/
def fullRecord : List Bytes := [announceFrame ownKey 1, messageFrame ownKey 5] ++ (List.range 1998).map filler

theorem card_fullRecord : (dedupKeys linkID fullRecord).toFinset.card ≤ seenBound := by
  refine (List.toFinset_card_le _).trans ?_
  refine (List.length_filterMap_le _ _).trans ?_
  rw [fullRecord, List.length_append, List.length_map, List.length_range]
  exact le_rfl

theorem dedupKeys_fullRecord : (dedupKeys linkID fullRecord).Nodup ∧ (dedupKeys linkID fullRecord).length = 2000 ∧
    (fillerPacket 1998).dedupKey ∉ dedupKeys linkID fullRecord := by
  have hfront : dedupKeys linkID [announceFrame ownKey 1, messageFrame ownKey 5] =
      [chatPeer ++ beBytes 1, chatPeer ++ beBytes 5] := by
    decide +kernel
  have hkeys : dedupKeys linkID fullRecord = [chatPeer ++ beBytes 1, chatPeer ++ beBytes 5] ++
      (List.range 1998).map fun i => (fillerPacket i).dedupKey := by
    rw [fullRecord, dedupKeys, List.filterMap_append, ← dedupKeys, hfront, ← dedupKeys, dedupKeys_fillers]
  have hother : ∀ (i : ℕ) (t : UInt64), chatPeer ++ beBytes t ≠ (fillerPacket i).dedupKey := by
    intro i t h
    have hfirst : some (1 : UInt8) = some 9 := congrArg List.head? h
    exact absurd hfirst (by decide)
  have hpeer : ∀ k ∈ [chatPeer ++ beBytes 1, chatPeer ++ beBytes 5], ∀ i, k ≠ (fillerPacket i).dedupKey := by
    intro k hk i
    rcases List.mem_cons.mp hk with rfl | hk
    · exact hother i 1
    · rw [List.mem_singleton.mp hk]
      exact hother i 5
  rw [hkeys]
  refine ⟨List.nodup_append.mpr ⟨by decide +kernel, ?_, ?_⟩, by simp, ?_⟩
  · refine List.nodup_range.map_on ?_
    intro i hi j hj h
    rw [List.mem_range] at hi hj
    exact fillerKey_inj (by omega) (by omega) h
  · intro k hk k' hk'
    obtain ⟨i, -, rfl⟩ := List.mem_map.mp hk'
    exact hpeer k hk i
  · intro h
    rcases List.mem_append.mp h with h | h
    · exact hpeer _ h 1998 rfl
    · obtain ⟨i, hi, heq⟩ := List.mem_map.mp h
      rw [List.mem_range] at hi
      exact absurd (fillerKey_inj (by omega) (by decide) heq) (by omega)

/-- One packet more, and the record is dropped. -/
theorem seen_overflow : (BitchatLink.run chatKit linkID (fullRecord ++ [filler 1998])).seen = ∅ := by
  obtain ⟨hnodup, hlen, hnew⟩ := dedupKeys_fullRecord
  have hover : seenBound < (insert (fillerPacket 1998).dedupKey (dedupKeys linkID fullRecord).toFinset).card := by
    rw [Finset.card_insert_of_notMem (by rwa [List.mem_toFinset]), List.toFinset_card_of_nodup hnodup, hlen]
    decide
  have hall := sinceDrop_of_card card_fullRecord
  rw [run_concat_of_some chatKit _ (incoming_filler 1998), hall, if_neg (by rwa [List.mem_reverse]), deliver_filler,
    BitchatLink.remember, seen_run, hall, List.toFinset_reverse]
  dsimp only
  rw [if_pos hover]

/-- A message that comes again is shown again if the record was dropped in between. -/
theorem shown_again {l : BitchatLink Bytes} (hid : l.peerID = linkID) (hseen : l.seen = ∅)
    (hpeers : l.peers = (BitchatLink.run chatKit linkID [announceFrame ownKey 1, messageFrame ownKey 5]).peers)
    (hevents : l.events = (BitchatLink.run chatKit linkID [announceFrame ownKey 1, messageFrame ownKey 5]).events) :
    (l.handleInbound chatKit (messageFrame ownKey 5)).shown.map (fun q => (q.senderID, q.timestampMs)) =
      [(chatPeer, 5), (chatPeer, 5)] := by
  have hin : incoming l.peerID (messageFrame ownKey 5) =
      some (signChat ownKey (chatPacket typeMessage 5 chatPeer [104, 105])) := by
    rw [hid]
    decide +kernel
  have hmessage : ((BitchatLink.run chatKit linkID [announceFrame ownKey 1, messageFrame ownKey 5]).deliver chatKit
      (signChat ownKey (chatPacket typeMessage 5 chatPeer [104, 105]))).shown.map
        (fun q => (q.senderID, q.timestampMs)) = [(chatPeer, 5), (chatPeer, 5)] := by
    decide +kernel
  rw [BitchatLink.shown] at hmessage
  rw [handleInbound_of_some hin, hseen, if_neg (Finset.notMem_empty _), BitchatLink.shown,
    (deliver_congr chatKit _ (l := l.remember _) hpeers hevents).2]
  exact hmessage

theorem fullRecord_overflow : fullRecord ++ [filler 1998] =
    [announceFrame ownKey 1, messageFrame ownKey 5] ++ (List.range 1999).map filler := by
  rw [fullRecord, List.append_assoc, List.range_succ (n := 1998), List.map_append, List.map_singleton]

/-- A message is shown, strangers send packets enough to have the record dropped, and the message is shown again when
    it is sent again. -/
theorem message_replayed : (BitchatLink.run chatKit linkID
    (fullRecord ++ [filler 1998] ++ [messageFrame ownKey 5])).shown.map (fun q => (q.senderID, q.timestampMs)) =
      [(chatPeer, 5), (chatPeer, 5)] := by
  have hfilled := run_fillers [announceFrame ownKey 1, messageFrame ownKey 5] 1999
  rw [← fullRecord_overflow] at hfilled
  rw [run_concat]
  exact shown_again (run_peerID _ _ _) seen_overflow hfilled.1 hfilled.2

/-- A frame of another's in a peer's name, or an announce of the peer's noise key with another signing key, and the
    peer's message is not shown; strangers' packets, and it is shown twice. None of these frames is signed by the
    peer. -/
theorem messages_interfered :
    (BitchatLink.run chatKit linkID [announceFrame ownKey 1, messageFrame ownKey 5]).shown.length = 1 ∧
      (BitchatLink.run chatKit linkID [announceFrame ownKey 1, messageFrame otherKey 5, messageFrame ownKey 5]).shown =
        [] ∧
      (BitchatLink.run chatKit linkID [announceFrame ownKey 1, announceFrame otherKey 2, messageFrame ownKey 5]).shown =
        [] ∧
      [messageFrame otherKey 5, announceFrame otherKey 2].filter (genuine chatKit chatKeyOf) = [] ∧
      (BitchatLink.run chatKit linkID (fullRecord ++ [filler 1998] ++ [messageFrame ownKey 5])).shown.map
        (fun q => (q.senderID, q.timestampMs)) = [(chatPeer, 5), (chatPeer, 5)] := by
  refine ⟨?_, ?_, ?_, ?_, message_replayed⟩ <;> decide +kernel

end Nimmesh
