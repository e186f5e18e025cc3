import Nimmesh.Mesh.Noise
import Nimmesh.Mesh.Wire
import Nimmesh.Swap.Wire

/-! @src noise.rs | name:A channel between two sessions | layer:properties

    The two sessions of a finished handshake, and between them somebody who loses, holds back, repeats, swaps and makes
    up blobs. Of the cipher it is used that one end opens what the other has sealed; that nobody else can seal is a
    condition on the run: a blob that authenticates was sealed by the other end. -/

namespace Nimmesh

namespace NoiseSession

variable (transport : NoiseTransport)

/-- Seal a targeted payload: its inner type in front of its bytes. -/
def sealPayload (s : NoiseSession) (innerType : NoisePayloadType) (inner : Bytes) :
    Except NoiseError Bytes × NoiseSession := s.encrypt transport (innerType.toU8 :: inner)

end NoiseSession

@[simp] theorem NoisePayloadType.fromU8_toU8 (t : NoisePayloadType) : fromU8 t.toU8 = some t := by
  cases t <;> rfl

/-- One end opens what the other has sealed, and a tag is added to each plaintext. -/
structure NoiseTransport.Opens (opener sealer : NoiseTransport) : Prop where
  readMessage : ∀ {counter plain cipher}, sealer.writeMessage counter plain = some cipher →
    opener.readMessage counter cipher = some plain
  length : ∀ {counter plain cipher}, sealer.writeMessage counter plain = some cipher →
    cipher.length = plain.length + noiseTagLen

/-! ### The channel -/

inductive ChannelEnd where | initiator | responder
  deriving DecidableEq, Repr

def ChannelEnd.other : ChannelEnd → ChannelEnd
  | .initiator => .responder
  | .responder => .initiator

@[simp] theorem ChannelEnd.other_other (e : ChannelEnd) : e.other.other = e := by cases e <;> rfl

theorem ChannelEnd.other_ne (e : ChannelEnd) : e.other ≠ e := by cases e <;> decide

/-- A message as an end has sealed it. -/
structure SealedMessage where
  counter : UInt64
  plain : Bytes
  blob : Bytes
  deriving DecidableEq

/-- An end of the channel: its session, the messages it has sealed, and the counter and plaintext of each one it has
    opened, the latest first. -/
structure ChannelSide where
  session : NoiseSession
  sent : List SealedMessage := []
  opened : List (UInt64 × Bytes) := []
  deriving DecidableEq

namespace ChannelSide

/-- Take down the outcome of a sealing call. -/
def sealing (s : ChannelSide) (plain : Bytes) (r : Except NoiseError Bytes × NoiseSession) : ChannelSide :=
  match r.1 with
  | .ok blob => { s with session := r.2, sent := ⟨r.2.sendCounter, plain, blob⟩ :: s.sent }
  | .error _ => { s with session := r.2 }

/-- A blob comes in. -/
def opening (transport : NoiseTransport) (s : ChannelSide) (blob : Bytes) : ChannelSide :=
  match s.session.decrypt transport blob with
  | (.ok plain, session) => { s with session, opened := (NoiseSession.counterOf blob, plain) :: s.opened }
  | (.error _, session) => { s with session }

end ChannelSide

/-- What happens at an end: it seals something, or somebody hands it a blob. -/
inductive ChannelOp where
  | encrypt (e : ChannelEnd) (plain : Bytes)
  | sealPayload (e : ChannelEnd) (innerType : NoisePayloadType) (inner : Bytes)
  | decrypt (e : ChannelEnd) (blob : Bytes)
  | openPayload (e : ChannelEnd) (blob : Bytes)

abbrev NoiseChannel := ChannelEnd → ChannelSide

namespace NoiseChannel

variable (transport : ChannelEnd → NoiseTransport)

/-- The channel after the handshake. -/
def fresh (fingerprint : ChannelEnd → Option (ByteArr 32)) : NoiseChannel := fun e => ⟨.ofHandshake (fingerprint e), [], []⟩

def step (c : NoiseChannel) : ChannelOp → NoiseChannel
  | .encrypt e plain =>
    Function.update c e ((c e).sealing plain ((c e).session.encrypt (transport e) plain))
  | .sealPayload e innerType inner =>
    Function.update c e ((c e).sealing (innerType.toU8 :: inner)
      ((c e).session.sealPayload (transport e) innerType inner))
  | .decrypt e blob => Function.update c e ((c e).opening (transport e) blob)
  | .openPayload e blob =>
    Function.update c e { (c e).opening (transport e) blob with
      session := ((c e).session.openPayload (transport e) blob).2 }

def exec (c : NoiseChannel) (ops : List ChannelOp) : NoiseChannel := Run.exec (step transport) c ops

/-- A counter is not used twice, and a blob that authenticates was sealed by the other end. -/
def Unforged (c : NoiseChannel) : ChannelOp → Prop
  | .encrypt e _ | .sealPayload e _ _ => (c e).session.sendCounter.toNat + 1 < 2 ^ 64
  | .decrypt e blob | .openPayload e blob => ∀ plain, NoiseSession.Authentic (transport e) blob plain →
    ∃ m ∈ (c e.other).sent, m.blob = blob

/-- The window of the end lets the message through: it has not been opened, and none 1024 or more ahead of it has. -/
def Admits (c : NoiseChannel) (e : ChannelEnd) (m : SealedMessage) : Prop :=
  m.counter ∉ (c e).opened.map Prod.fst ∧ ∀ d ∈ (c e).opened.map Prod.fst, d.toNat < m.counter.toNat + 1024

instance (c : NoiseChannel) (e : ChannelEnd) (m : SealedMessage) : Decidable (c.Admits e m) :=
  inferInstanceAs (Decidable (_ ∧ _))

/-! ### What an end holds -/

/-- The message is what the end's cipher makes of it, under a counter that the end has used. -/
structure Genuine (t : NoiseTransport) (used : UInt64) (m : SealedMessage) : Prop where
  positive : 0 < m.counter.toNat
  used : m.counter.toNat ≤ used.toNat
  cipher : ∃ cipher, t.writeMessage m.counter m.plain = some cipher ∧ m.blob = beBytes m.counter ++ cipher

/-- What holds of an end after any run. -/
structure Kept (c : NoiseChannel) (e : ChannelEnd) : Prop where
  window : (c e).session.replay.Represents ((c e).opened.map Prod.fst)
  genuine : ∀ m ∈ (c e).sent, Genuine (transport e) (c e).session.sendCounter m
  distinct : ((c e).sent.map SealedMessage.counter).Nodup
  sourced : ∀ o ∈ (c e).opened, ∃ m ∈ (c e.other).sent, o = (m.counter, m.plain)

variable {transport}

/-- A genuine message authenticates at the other end, as what was sealed, and under its own counter. -/
theorem Genuine.authentic {opener sealer : NoiseTransport} (hopens : opener.Opens sealer) {used : UInt64}
    {m : SealedMessage} (h : Genuine sealer used m) :
    NoiseSession.Authentic opener m.blob m.plain ∧ NoiseSession.counterOf m.blob = m.counter := by
  obtain ⟨cipher, hwrite, hblob⟩ := h.cipher
  have hlen : (beBytes m.counter).length = noncePrefixLen := rfl
  have hcounter : NoiseSession.counterOf m.blob = m.counter := by
    rw [NoiseSession.counterOf, hblob, List.take_left' hlen, u64OfBe_beBytes]
  refine ⟨⟨?_, ?_⟩, hcounter⟩
  · rw [hblob, List.length_append, hlen, hopens.length hwrite, minSealedLen]
    omega
  · rw [hcounter, hblob, List.drop_left' hlen]
    exact hopens.readMessage hwrite

theorem Genuine.later {t : NoiseTransport} {used used' : UInt64} {m : SealedMessage} (h : Genuine t used m)
    (hle : used.toNat ≤ used'.toNat) : Genuine t used' m := ⟨h.positive, h.used.trans hle, h.cipher⟩

theorem kept_fresh (fingerprint : ChannelEnd → Option (ByteArr 32)) (e : ChannelEnd) :
    Kept transport (fresh fingerprint) e where
  window := ReplayWindow.represents_empty
  genuine := fun _ h => absurd h List.not_mem_nil
  distinct := List.nodup_nil
  sourced := fun _ h => absurd h List.not_mem_nil

/-- STEP: sealing uses the next counter and leaves what was opened as it was. -/
theorem Kept.sealing {c : NoiseChannel} (h : ∀ e, Kept transport c e) {e : ChannelEnd}
    (hroom : (c e).session.sendCounter.toNat + 1 < 2 ^ 64) (plain : Bytes) (e' : ChannelEnd) :
    Kept transport (Function.update c e ((c e).sealing plain ((c e).session.encrypt (transport e) plain))) e' := by
  have hnext : ((c e).session.sendCounter + 1).toNat = (c e).session.sendCounter.toNat + 1 := by
    rw [UInt64.toNat_add, UInt64.toNat_one, Nat.mod_eq_of_lt hroom]
  have holder : ∀ m ∈ (c e).sent, Genuine (transport e) ((c e).session.sendCounter + 1) m := fun m hm =>
    ((h e).genuine m hm).later (by rw [hnext]; exact Nat.le_succ _)
  -- the end's new state, by the outcome of the call
  obtain ⟨side, hside, hopened, hreplay, hsent⟩ : ∃ side : ChannelSide,
      (c e).sealing plain ((c e).session.encrypt (transport e) plain) = side ∧ side.opened = (c e).opened ∧
      side.session.replay = (c e).session.replay ∧
      ((side.session.sendCounter = (c e).session.sendCounter + 1 ∧ side.sent = (c e).sent) ∨
        ∃ m, side.sent = m :: (c e).sent ∧ m.counter = (c e).session.sendCounter + 1 ∧
          side.session.sendCounter = (c e).session.sendCounter + 1 ∧
          Genuine (transport e) ((c e).session.sendCounter + 1) m) := by
    refine ⟨_, rfl, ?_⟩
    rw [NoiseSession.encrypt]
    cases hwrite : (transport e).writeMessage ((c e).session.sendCounter + 1) plain with
    | none =>
      simp only
      exact ⟨rfl, rfl, .inl ⟨rfl, rfl⟩⟩
    | some cipher =>
      simp only
      refine ⟨rfl, rfl, .inr ⟨_, rfl, rfl, rfl, ⟨?_, le_rfl, cipher, hwrite, rfl⟩⟩⟩
      dsimp only
      rw [hnext]
      exact Nat.succ_pos _
  have hmem : ∀ m ∈ (c e).sent, m ∈ side.sent := by
    intro m hm
    rcases hsent with ⟨-, hsent⟩ | ⟨m', hsent, -⟩
    · exact hsent ▸ hm
    · exact hsent ▸ List.mem_cons_of_mem _ hm
  rw [hside]
  by_cases he : e' = e
  · subst he
    have hother : Function.update c e' side e'.other = c e'.other := Function.update_of_ne e'.other_ne _ _
    refine ⟨?_, ?_, ?_, ?_⟩
    · rw [Function.update_self, hreplay, hopened]
      exact (h e').window
    · rw [Function.update_self]
      rcases hsent with ⟨hcount, hsent⟩ | ⟨m, hsent, -, hcount, hnew⟩
      · rw [hsent, hcount]
        exact holder
      · rw [hsent, hcount]
        exact List.forall_mem_cons.mpr ⟨hnew, holder⟩
    · rw [Function.update_self]
      rcases hsent with ⟨-, hsent⟩ | ⟨m, hsent, hcounter, -, -⟩
      · rw [hsent]
        exact (h e').distinct
      · rw [hsent, List.map_cons, List.nodup_cons]
        refine ⟨fun hold => ?_, (h e').distinct⟩
        obtain ⟨m', hm', heq⟩ := List.mem_map.mp hold
        have hused := ((h e').genuine m' hm').used
        rw [heq, hcounter, hnext] at hused
        omega
    · rw [Function.update_self, hother, hopened]
      exact (h e').sourced
  · have hsame : Function.update c e side e' = c e' := Function.update_of_ne he _ _
    refine ⟨hsame ▸ (h e').window, hsame ▸ (h e').genuine, hsame ▸ (h e').distinct, ?_⟩
    rw [hsame]
    intro o ho
    obtain ⟨m, hm, heq⟩ := (h e').sourced o ho
    refine ⟨m, ?_, heq⟩
    by_cases hother : e'.other = e
    · subst hother
      rw [Function.update_self]
      exact hmem m hm
    · rw [Function.update_of_ne hother]
      exact hm

/-- STEP: what an end opens, the other end has sealed; a blob that it does not open changes nothing. -/
theorem Kept.opening {c : NoiseChannel} (hopens : ∀ e, (transport e).Opens (transport e.other))
    (h : ∀ e, Kept transport c e) {e : ChannelEnd} {blob : Bytes}
    (hsource : ∀ plain, NoiseSession.Authentic (transport e) blob plain → ∃ m ∈ (c e.other).sent, m.blob = blob)
    (e' : ChannelEnd) : Kept transport (Function.update c e ((c e).opening (transport e) blob)) e' := by
  have hcases := NoiseSession.decrypt_cases (transport e) (c e).session blob
  generalize hside : (c e).opening (transport e) blob = side
  have hsent : side.sent = (c e).sent ∧ side.session.sendCounter = (c e).session.sendCounter := by
    rcases hcases with ⟨plain, -, -, hopen⟩ | ⟨-, err, hopen⟩
    · rw [← hside, ChannelSide.opening, hopen]
      exact ⟨rfl, rfl⟩
    · rw [← hside, ChannelSide.opening, hopen]
      exact ⟨rfl, rfl⟩
  have hkeep : ∀ d : ChannelEnd, (Function.update c e side d).sent = (c d).sent := by
    intro d
    by_cases hd : d = e
    · subst hd
      rw [Function.update_self, hsent.1]
    · rw [Function.update_of_ne hd]
  by_cases he : e' = e
  · subst he
    refine ⟨?_, ?_, ?_, ?_⟩
    · rw [Function.update_self]
      rcases hcases with ⟨plain, -, hok, hopen⟩ | ⟨-, err, hopen⟩
      · rw [← hside, ChannelSide.opening, hopen]
        rcases ReplayWindow.accept_cases (h e').window (NoiseSession.counterOf blob) with ⟨-, -, hrep⟩ | ⟨hno, -⟩
        · exact hrep
        · rw [hno] at hok
          cases hok
      · rw [← hside, ChannelSide.opening, hopen]
        exact (h e').window
    · rw [Function.update_self, hsent.1, hsent.2]
      exact (h e').genuine
    · rw [Function.update_self, hsent.1]
      exact (h e').distinct
    · rw [Function.update_self, hkeep]
      rcases hcases with ⟨plain, hauth, -, hopen⟩ | ⟨-, err, hopen⟩
      · rw [← hside, ChannelSide.opening, hopen]
        refine List.forall_mem_cons.mpr ⟨?_, (h e').sourced⟩
        obtain ⟨m, hm, rfl⟩ := hsource plain hauth
        obtain ⟨hauth', hcounter⟩ := ((h e'.other).genuine m hm).authentic (hopens e')
        exact ⟨m, hm, Prod.ext hcounter (Option.some.inj (hauth.2.symm.trans hauth'.2))⟩
      · rw [← hside, ChannelSide.opening, hopen]
        exact (h e').sourced
  · have hsame : Function.update c e side e' = c e' := Function.update_of_ne he _ _
    refine ⟨hsame ▸ (h e').window, hsame ▸ (h e').genuine, hsame ▸ (h e').distinct, ?_⟩
    rw [hsame, hkeep]
    exact (h e').sourced

/-- STEP: every end keeps what holds of it. -/
theorem Kept.step {c : NoiseChannel} (hopens : ∀ e, (transport e).Opens (transport e.other))
    (h : ∀ e, Kept transport c e) (op : ChannelOp) (hop : c.Unforged transport op) (e : ChannelEnd) :
    Kept transport (step transport c op) e := by
  cases op with
  | encrypt e' plain => exact Kept.sealing h hop plain e
  | sealPayload e' innerType inner => exact Kept.sealing h hop (innerType.toU8 :: inner) e
  | decrypt e' blob => exact Kept.opening hopens h hop e
  | openPayload e' blob =>
    have hsession : ((c e').session.openPayload (transport e') blob).2 = ((c e').opening (transport e') blob).session := by
      rw [NoiseSession.openPayload_session, ChannelSide.opening]
      rcases (c e').session.decrypt (transport e') blob with ⟨_ | plain, session⟩ <;> rfl
    rw [NoiseChannel.step, hsession]
    exact Kept.opening hopens h hop e

/-! ### What the channel gives -/

/-- A message that the window lets through is opened as it was sealed; another one is not, and changes nothing. -/
theorem Kept.decrypt_cases {c : NoiseChannel} (hopens : ∀ e, (transport e).Opens (transport e.other))
    (h : ∀ e, Kept transport c e) {e : ChannelEnd} {m : SealedMessage} (hm : m ∈ (c e.other).sent) :
    (c.Admits e m ∧ ((c e).session.decrypt (transport e) m.blob).1 = .ok m.plain) ∨
      (¬ c.Admits e m ∧ ∃ err, (c e).session.decrypt (transport e) m.blob = (.error err, (c e).session)) := by
  have hgenuine := (h e.other).genuine m hm
  obtain ⟨hauth, hcounter⟩ := hgenuine.authentic (hopens e)
  have hne : m.counter ≠ 0 := by
    intro hzero
    have hpos := hgenuine.positive
    rw [hzero] at hpos
    exact absurd hpos (Nat.lt_irrefl 0)
  have hadmits : ((c e).session.replay.accept (NoiseSession.counterOf m.blob)).1 = true ↔ c.Admits e m := by
    rw [hcounter]
    exact ((h e).window.admits_iff m.counter).trans (and_iff_right hne)
  rcases NoiseSession.decrypt_cases (transport e) (c e).session m.blob with ⟨plain, hauth', hok, hopen⟩ | ⟨hno, err, hopen⟩
  · refine .inl ⟨hadmits.mp hok, ?_⟩
    rw [hopen, Option.some.inj (hauth'.2.symm.trans hauth.2)]
  · refine .inr ⟨fun hin => ?_, err, hopen⟩
    rw [← hadmits, hno m.plain hauth] at hin
    cases hin

/-- RUN: between two sessions whose ciphers open what the other seals, whatever is lost, held back, repeated, swapped
    or made up in between: what an end has opened are messages that the other end has sealed, with their counters, each
    at most once; and a message that has been sealed is opened as it was sealed, and as the payload that was put in,
    exactly when it has not been opened yet and none that is 1024 or more ahead of it has. -/
theorem delivers_at_most_once (hopens : ∀ e, (transport e).Opens (transport e.other))
    (fingerprint : ChannelEnd → Option (ByteArr 32)) (ops : List ChannelOp)
    (hrun : Run.Along (step transport) (Unforged transport) (fresh fingerprint) ops) (e : ChannelEnd) :
    let c := (fresh fingerprint).exec transport ops
    ((c e.other).sent.map SealedMessage.counter).Nodup ∧
    (c e).opened.Subperm ((c e.other).sent.map fun m => (m.counter, m.plain)) ∧
    ∀ m ∈ (c e.other).sent,
      (((c e).session.decrypt (transport e) m.blob).1 = .ok m.plain ↔ c.Admits e m) ∧
      ∀ innerType inner, m.plain = innerType.toU8 :: inner →
        (((c e).session.openPayload (transport e) m.blob).1 = .ok (innerType, inner) ↔ c.Admits e m) := by
  have hkept : ∀ e, Kept transport ((fresh fingerprint).exec transport ops) e :=
    Run.exec_invariant (I := fun c => ∀ e, Kept transport c e) (step transport)
      (fun c op h hop => Kept.step hopens h op hop) ops _ (kept_fresh fingerprint) hrun
  generalize (fresh fingerprint).exec transport ops = c at hkept
  refine ⟨(hkept e.other).distinct, ?_, fun m hm => ?_⟩
  · refine List.subperm_of_subset ((hkept e).window.nodup.of_map _) fun o ho => ?_
    obtain ⟨m, hm, rfl⟩ := (hkept e).sourced o ho
    exact List.mem_map_of_mem hm
  · rcases Kept.decrypt_cases hopens hkept hm with ⟨hin, hopen⟩ | ⟨hout, err, hopen⟩
    · refine ⟨iff_of_true hopen hin, fun innerType inner hplain => iff_of_true ?_ hin⟩
      rw [hplain] at hopen
      rw [NoiseSession.openPayload]
      generalize (c e).session.decrypt (transport e) m.blob = r at hopen
      obtain ⟨r, session⟩ := r
      obtain rfl : r = .ok (innerType.toU8 :: inner) := hopen
      simp only [NoisePayloadType.fromU8_toU8]
    · refine ⟨iff_of_false ?_ hout, fun innerType inner _ => iff_of_false ?_ hout⟩
      · rw [hopen]
        exact fun heq => by cases heq
      · rw [NoiseSession.openPayload, hopen]
        exact fun heq => by cases heq

end NoiseChannel

namespace Sample

theorem taggingTransport_opens : taggingTransport.Opens taggingTransport where
  readMessage := by
    intro counter plain cipher h
    obtain rfl := Option.some.inj h
    have hlen : (plain ++ List.replicate noiseTagLen (0 : UInt8)).length - noiseTagLen = plain.length := by
      rw [List.length_append, List.length_replicate]
      omega
    simp only [taggingTransport, hlen, List.drop_left, List.take_left, if_true]
  length := by
    intro counter plain cipher h
    obtain rfl := Option.some.inj h
    rw [List.length_append, List.length_replicate]

/-- The first blob of the initiator. -/
def firstBlob : Bytes := beBytes 1 ++ [0x6f, 0x6b] ++ List.replicate noiseTagLen 0

/-- The channel of the sample after these steps. -/
def channelAfter (ops : List ChannelOp) : NoiseChannel :=
  (NoiseChannel.fresh fun _ => none).exec (fun _ => taggingTransport) ops

theorem sent_first : (channelAfter [.encrypt .initiator [0x6f, 0x6b]] .initiator).sent =
    [⟨1, [0x6f, 0x6b], firstBlob⟩] := by decide +kernel

end Sample

open Sample in
/-- The responder opens the first message of the initiator, and not again. -/
theorem sample_delivers_at_most_once :
    ((channelAfter [.encrypt .initiator [0x6f, 0x6b]] .responder).session.decrypt taggingTransport firstBlob).1 =
      .ok [0x6f, 0x6b] ∧
    (channelAfter [.encrypt .initiator [0x6f, 0x6b], .decrypt .responder firstBlob] .responder).opened.Subperm
      [(1, [0x6f, 0x6b])] ∧
    ((channelAfter [.encrypt .initiator [0x6f, 0x6b], .decrypt .responder firstBlob] .responder).session.decrypt
      taggingTransport firstBlob).1 ≠ .ok [0x6f, 0x6b] := by
  have hfirst : Run.Along (NoiseChannel.step fun _ => taggingTransport)
      (NoiseChannel.Unforged fun _ => taggingTransport) (NoiseChannel.fresh fun _ => none)
      [.encrypt .initiator [0x6f, 0x6b]] := ⟨(by decide : (0 : UInt64).toNat + 1 < 2 ^ 64), trivial⟩
  have hboth : Run.Along (NoiseChannel.step fun _ => taggingTransport)
      (NoiseChannel.Unforged fun _ => taggingTransport) (NoiseChannel.fresh fun _ => none)
      [.encrypt .initiator [0x6f, 0x6b], .decrypt .responder firstBlob] := by
    refine ⟨hfirst.1, fun _ _ => ⟨⟨1, [0x6f, 0x6b], firstBlob⟩, ?_, rfl⟩, trivial⟩
    change _ ∈ (channelAfter [.encrypt .initiator [0x6f, 0x6b]] .initiator).sent
    exact sent_first ▸ List.mem_singleton_self _
  have hsent : (channelAfter [.encrypt .initiator [0x6f, 0x6b], .decrypt .responder firstBlob] .initiator).sent =
      [⟨1, [0x6f, 0x6b], firstBlob⟩] := by decide +kernel
  obtain ⟨-, -, hopen⟩ := NoiseChannel.delivers_at_most_once (fun _ => taggingTransport_opens) (fun _ => none) _ hfirst
    .responder
  obtain ⟨-, honce, hagain⟩ := NoiseChannel.delivers_at_most_once (fun _ => taggingTransport_opens) (fun _ => none) _
    hboth .responder
  have hadmits : NoiseChannel.Admits (channelAfter [.encrypt .initiator [0x6f, 0x6b]]) .responder
      ⟨1, [0x6f, 0x6b], firstBlob⟩ := by
    have hnone : (channelAfter [.encrypt .initiator [0x6f, 0x6b]] .responder).opened = [] := by decide +kernel
    rw [NoiseChannel.Admits, hnone]
    exact ⟨List.not_mem_nil, fun d hd => absurd hd List.not_mem_nil⟩
  refine ⟨((hopen ⟨1, [0x6f, 0x6b], firstBlob⟩ (sent_first ▸ List.mem_singleton_self _)).1).mpr hadmits,
    ?_, fun heq => ?_⟩
  · change List.Subperm _ (List.map _ (channelAfter _ .initiator).sent) at honce
    rwa [hsent] at honce
  · have hin := ((hagain ⟨1, [0x6f, 0x6b], firstBlob⟩ (hsent ▸ List.mem_singleton_self _)).1).mp heq
    exact absurd hin (by decide +kernel)

end Nimmesh
