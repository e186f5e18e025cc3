import Nimmesh.Bytes
import Nimmesh.Lib.AntiReplay
import Nimmesh.Lib.Bitset
import Nimmesh.Lib.Run

/-! @src noise.rs | name:The replay window of a session | layer:model

    The receiving side of an encrypted session: the message is authenticated first, then its counter goes
    through a bitmap window. The cipher is a parameter; the window is shown to accept what a receiver with
    an unbounded memory and the same width would accept. -/

namespace Nimmesh

/-- The width of the window. -/
def replayWindow : UInt64 := 1024

def noncePrefixLen : ℕ := 8

def noiseTagLen : ℕ := 16

/-- The shortest blob that `decrypt` looks at. -/
def minSealedLen : ℕ := noncePrefixLen + noiseTagLen

inductive NoisePayloadType where | chat | nimiqTx | nimiqTxReceipt
  deriving DecidableEq, Repr

def NoisePayloadType.toU8 : NoisePayloadType → UInt8
  | .chat => 0x01
  | .nimiqTx => 0x04
  | .nimiqTxReceipt => 0x05

def NoisePayloadType.fromU8 (byte : UInt8) : Option NoisePayloadType :=
  if byte = 0x01 then some .chat
  else if byte = 0x04 then some .nimiqTx
  else if byte = 0x05 then some .nimiqTxReceipt
  else none

inductive NoiseError where
  | noise
  | tooShort (got : ℕ)
  | replay (counter : UInt64)
  | badPayloadType (found : Option UInt8)
  deriving DecidableEq, Repr

/-! ### The window -/

/-- The highest counter accepted so far, and a bit for each counter below it, by its residue. -/
structure ReplayWindow where
  highest : UInt64 := 0
  bitmap : Vector UInt64 16 := .replicate 16 0
  deriving DecidableEq

namespace ReplayWindow

/-- Where the bit of a counter is. -/
def slot (counter : UInt64) : ℕ := (counter % replayWindow).toNat

def set (w : ReplayWindow) (counter : UInt64) : ReplayWindow :=
  { w with bitmap := Bitset.set w.bitmap (slot counter) }

def clear (w : ReplayWindow) (counter : UInt64) : ReplayWindow :=
  { w with bitmap := Bitset.clear w.bitmap (slot counter) }

def isSet (w : ReplayWindow) (counter : UInt64) : Bool := Bitset.isSet w.bitmap (slot counter)

/-- The counters from `first` to `last`. -/
def counters (first last : UInt64) : List UInt64 :=
  (List.range' first.toNat (last.toNat + 1 - first.toNat)).map UInt64.ofNat

/-- Check and accept a counter; `false` for a replayed or stale one. -/
def accept (w : ReplayWindow) (counter : UInt64) : Bool × ReplayWindow :=
  if counter = 0 then (false, w)
  else if w.highest < counter then
    let firstNew := w.highest + 1
    let span := min (counter - w.highest) replayWindow
    let w' := (counters (max (counter - span + 1) firstNew) counter).foldl clear w
    let bitmap := if replayWindow ≤ counter - w.highest then .replicate 16 0 else w'.bitmap
    (true, { highest := counter, bitmap : ReplayWindow }.set counter)
  else if replayWindow ≤ w.highest - counter then (false, w)
  else if w.isSet counter then (false, w)
  else (true, w.set counter)

end ReplayWindow

/-! ### The session -/

/-- The cipher of one direction pair: sealing and opening under an explicit counter. -/
structure NoiseTransport where
  writeMessage : UInt64 → Bytes → Option Bytes
  readMessage : UInt64 → Bytes → Option Bytes

structure NoiseSession where
  sendCounter : UInt64 := 0
  replay : ReplayWindow := {}
  remoteFingerprint : Option (ByteArr 32) := none
  deriving DecidableEq

namespace NoiseSession

variable (transport : NoiseTransport)

/-- Seal a plaintext under the next counter. -/
def encrypt (s : NoiseSession) (plaintext : Bytes) : Except NoiseError Bytes × NoiseSession :=
  let s := { s with sendCounter := s.sendCounter + 1 }
  match transport.writeMessage s.sendCounter plaintext with
  | none => (.error .noise, s)
  | some cipher => (.ok (beBytes s.sendCounter ++ cipher), s)

/-- Open a sealed blob: authenticate, then run the replay guard. -/
def decrypt (s : NoiseSession) (blob : Bytes) : Except NoiseError Bytes × NoiseSession :=
  if blob.length < minSealedLen then (.error (.tooShort blob.length), s)
  else
    let counter := u64OfBe (blob.take noncePrefixLen)
    match transport.readMessage counter (blob.drop noncePrefixLen) with
    | none => (.error .noise, s)
    | some plain =>
      match s.replay.accept counter with
      | (false, replay) => (.error (.replay counter), { s with replay })
      | (true, replay) => (.ok plain, { s with replay })

/-- Open a targeted payload: its inner type and its bytes. -/
def openPayload (s : NoiseSession) (blob : Bytes) :
    Except NoiseError (NoisePayloadType × Bytes) × NoiseSession :=
  match s.decrypt transport blob with
  | (.error e, s) => (.error e, s)
  | (.ok [], s) => (.error (.badPayloadType none), s)
  | (.ok (typeByte :: inner), s) =>
    match NoisePayloadType.fromU8 typeByte with
    | none => (.error (.badPayloadType (some typeByte)), s)
    | some innerType => (.ok (innerType, inner), s)

end NoiseSession

/-! ### What the window stands for -/

namespace ReplayWindow

theorem slot_eq (counter : UInt64) : slot counter = counter.toNat % 1024 := by
  rw [slot, UInt64.toNat_mod]
  rfl

theorem slot_lt (counter : UInt64) : slot counter / 64 < 16 := by
  have h := slot_eq counter
  omega

theorem mem_counters {first last c : UInt64} :
    c ∈ counters first last ↔ first.toNat ≤ c.toNat ∧ c.toNat ≤ last.toNat := by
  have hlast := last.toNat_lt
  simp only [counters, List.mem_map, List.mem_range'_1]
  constructor
  · rintro ⟨n, ⟨hlo, hhi⟩, rfl⟩
    rw [UInt64.toNat_ofNat', Nat.mod_eq_of_lt (by omega)]
    omega
  · rintro ⟨hlo, hhi⟩
    exact ⟨c.toNat, ⟨hlo, by omega⟩, UInt64.ofNat_toNat⟩

theorem foldl_clear (cs : List UInt64) (w : ReplayWindow) :
    cs.foldl clear w = { w with bitmap := (cs.map slot).foldl Bitset.clear w.bitmap } := by
  induction cs generalizing w with
  | nil => rfl
  | cons c cs ih => rw [List.foldl_cons, ih, List.map_cons, List.foldl_cons, clear]

/-- The window stands for the counters accepted so far. -/
def Represents (w : ReplayWindow) (seen : List UInt64) : Prop :=
  AntiReplay.Tracks 1024 w.highest.toNat (Bitset.isSet w.bitmap) (seen.map UInt64.toNat)

theorem represents_empty : Represents {} [] := AntiReplay.Tracks.empty

theorem isSet_set_slot (w : ReplayWindow) (c : UInt64) (r : ℕ) :
    Bitset.isSet (w.set c).bitmap r = true ↔ r = c.toNat % 1024 ∨ Bitset.isSet w.bitmap r = true := by
  rw [set, Bitset.isSet_set _ (slot_lt c), slot_eq, Bool.or_eq_true, decide_eq_true_eq, eq_comm]

/-- Advancing clears the bits in between. -/
theorem isSet_cleared (w : ReplayWindow) {first c : UInt64} (r : ℕ) :
    Bitset.isSet ((counters first c).foldl clear w).bitmap r = true ↔
      Bitset.isSet w.bitmap r = true ∧ ∀ d, first.toNat ≤ d → d ≤ c.toNat → d % 1024 ≠ r := by
  have hlt := c.toNat_lt
  have hslots : ∀ s ∈ (counters first c).map slot, s / 64 < 16 := by
    intro s hs
    obtain ⟨d, -, rfl⟩ := List.mem_map.mp hs
    exact slot_lt d
  rw [foldl_clear, Bitset.isSet_foldl_clear _ _ hslots, Bool.and_eq_true, Bool.not_eq_true', decide_eq_false_iff_not,
    and_comm]
  refine and_congr_right fun _ => ?_
  rw [List.mem_map]
  constructor
  · intro hno d hlo hhi hmod
    have hd : (UInt64.ofNat d).toNat = d := by rw [UInt64.toNat_ofNat', Nat.mod_eq_of_lt (by omega)]
    refine hno ⟨UInt64.ofNat d, mem_counters.mpr ?_, ?_⟩
    · rw [hd]
      exact ⟨hlo, hhi⟩
    · rw [slot_eq, hd, hmod]
  · rintro hall ⟨d, hd, rfl⟩
    obtain ⟨hlo, hhi⟩ := mem_counters.mp hd
    exact hall d.toNat hlo hhi (slot_eq d).symm

/-- A counter the window lets through, if it remembers `seen`. -/
def Admits (seen : List UInt64) (c : UInt64) : Prop :=
  AntiReplay.Admits 1024 (seen.map UInt64.toNat) c.toNat

theorem mem_map_toNat {seen : List UInt64} {c : UInt64} : c.toNat ∈ seen.map UInt64.toNat ↔ c ∈ seen := by
  rw [List.mem_map]
  constructor
  · rintro ⟨d, hd, hdc⟩
    rwa [← UInt64.toNat_inj.mp hdc]
  · intro hc
    exact ⟨c, hc, rfl⟩

/-- A counter above the highest. -/
theorem represents_advance {w : ReplayWindow} {seen : List UInt64} (h : w.Represents seen) {c : UInt64}
    (hc : w.highest < c) : (w.accept c).1 = true ∧ (w.accept c).2.Represents (c :: seen) := by
  have hlt := UInt64.lt_iff_toNat_lt.mp hc
  have hcl := c.toNat_lt
  have hne : c ≠ 0 := by
    rintro rfl
    exact absurd hlt (Nat.not_lt_zero _)
  rw [accept, if_neg hne, if_pos hc]
  refine ⟨rfl, ?_⟩
  have hsub : (c - w.highest).toNat = c.toNat - w.highest.toNat := UInt64.toNat_sub_of_le _ _ hlt.le
  have hwidth : replayWindow.toNat = 1024 := rfl
  by_cases hfar : replayWindow ≤ c - w.highest
  · have hdist := UInt64.le_iff_toNat_le.mp hfar
    rw [hsub, hwidth] at hdist
    have hjump : w.highest.toNat + 1024 ≤ c.toNat := by omega
    refine AntiReplay.Tracks.jump (c := c.toNat) h (by decide) hjump ?_
    intro r
    simp only [if_pos hfar, isSet_set_slot, Bitset.isSet_replicate, Bool.false_eq_true, or_false]
  · have hdist : c.toNat - w.highest.toNat < 1024 := by
      rw [UInt64.le_iff_toNat_le, hsub, hwidth] at hfar
      omega
    -- below the width the loop starts right above the highest
    have hspan : min (c - w.highest) replayWindow = c - w.highest := by
      have hle : c - w.highest ≤ replayWindow := by
        rw [UInt64.le_iff_toNat_le, hsub, hwidth]
        omega
      exact if_pos hle
    have hfirst : max (c - (c - w.highest) + 1) (w.highest + 1) = w.highest + 1 := by
      have hback : c - (c - w.highest) = w.highest := by
        apply UInt64.toNat_inj.mp
        rw [UInt64.toNat_sub_of_le _ _ (UInt64.le_iff_toNat_le.mpr (by omega)), hsub]
        omega
      rw [hback]
      exact ite_self _
    have hnext : (w.highest + 1).toNat = w.highest.toNat + 1 := by
      rw [UInt64.toNat_add, UInt64.toNat_one]
      omega
    refine AntiReplay.Tracks.advance (c := c.toNat) h hlt ?_
    intro r
    simp only [if_neg hfar, isSet_set_slot, hspan, hfirst, isSet_cleared, hnext, Nat.succ_le_iff]

/-- A counter at or below the highest. -/
theorem accept_below {w : ReplayWindow} {seen : List UInt64} (h : w.Represents seen) {c : UInt64} (h0 : c ≠ 0)
    (hc : ¬ w.highest < c) :
    ((w.accept c).1 = true ∧ Admits seen c ∧ (w.accept c).2.Represents (c :: seen)) ∨
      (w.accept c = (false, w) ∧ ¬ Admits seen c) := by
  have hle : c.toNat ≤ w.highest.toNat := by
    rw [UInt64.lt_iff_toNat_lt] at hc
    omega
  have hsub : (w.highest - c).toNat = w.highest.toNat - c.toNat :=
    UInt64.toNat_sub_of_le _ _ (UInt64.le_iff_toNat_le.mpr hle)
  have hwidth : replayWindow.toNat = 1024 := rfl
  have hpos : 0 < c.toNat := by
    refine Nat.pos_of_ne_zero fun hz => ?_
    exact h0 (UInt64.toNat_inj.mp hz)
  have htop := h.top_eq
  rw [accept, if_neg h0, if_neg hc]
  by_cases hold : replayWindow ≤ w.highest - c
  · rw [if_pos hold]
    rw [UInt64.le_iff_toNat_le, hsub, hwidth] at hold
    refine .inr ⟨rfl, ?_⟩
    rintro ⟨-, -, hwin⟩
    omega
  · rw [if_neg hold]
    rw [UInt64.le_iff_toNat_le, hsub, hwidth] at hold
    have hbit := h.bit c.toNat hpos hle (by omega)
    rw [isSet, slot_eq]
    cases hs : Bitset.isSet w.bitmap (c.toNat % 1024) with
    | true =>
      refine .inr ⟨rfl, ?_⟩
      rintro ⟨-, hnew, -⟩
      exact hnew (hbit.mp hs)
    | false =>
      have hnew : c.toNat ∉ seen.map UInt64.toNat := by
        intro hm
        rw [hbit.mpr hm] at hs
        cases hs
      refine .inl ⟨rfl, ⟨hpos, hnew, by omega⟩, ?_⟩
      exact AntiReplay.Tracks.fill h hle (by omega) hnew fun r => isSet_set_slot w c r

/-- STEP: the window takes exactly what the full memory would take, and a refusal leaves it as it was. -/
theorem accept_cases {w : ReplayWindow} {seen : List UInt64} (h : w.Represents seen) (c : UInt64) :
    ((w.accept c).1 = true ∧ Admits seen c ∧ (w.accept c).2.Represents (c :: seen)) ∨
      (w.accept c = (false, w) ∧ ¬ Admits seen c) := by
  by_cases h0 : c = 0
  · subst h0
    refine .inr ⟨by rw [accept, if_pos rfl], ?_⟩
    rintro ⟨hpos, -⟩
    exact absurd hpos (Nat.lt_irrefl 0)
  · by_cases hc : w.highest < c
    · obtain ⟨hok, hrep⟩ := represents_advance h hc
      have hlt := UInt64.lt_iff_toNat_lt.mp hc
      refine .inl ⟨hok, ⟨by omega, h.not_mem_of_lt hlt, ?_⟩, hrep⟩
      have htop := h.top_eq
      omega
    · exact accept_below h h0 hc

theorem accept_false {w : ReplayWindow} {c : UInt64} (h : (w.accept c).1 = false) : w.accept c = (false, w) := by
  rw [accept] at h ⊢
  split_ifs at h ⊢ <;> rfl

theorem Represents.admits_iff {w : ReplayWindow} {seen : List UInt64} (h : w.Represents seen) (c : UInt64) :
    (w.accept c).1 = true ↔ c ≠ 0 ∧ c ∉ seen ∧ ∀ d ∈ seen, d.toNat < c.toNat + 1024 := by
  have hpos : 0 < c.toNat ↔ c ≠ 0 := by
    rw [Nat.pos_iff_ne_zero, ne_eq, ne_eq, ← UInt64.toNat_zero, UInt64.toNat_inj]
  have htop := AntiReplay.top_lt_iff (n := c.toNat + 1024) (by omega) (seen.map UInt64.toNat)
  rw [List.forall_mem_map] at htop
  have hadmits : Admits seen c ↔ c ≠ 0 ∧ c ∉ seen ∧ ∀ d ∈ seen, d.toNat < c.toNat + 1024 := by
    rw [Admits, AntiReplay.Admits, hpos, mem_map_toNat, htop]
  rw [← hadmits]
  rcases accept_cases h c with ⟨hok, ha, -⟩ | ⟨he, hn⟩
  · exact iff_of_true hok ha
  · rw [he]
    exact iff_of_false Bool.false_ne_true hn

theorem Represents.nodup {w : ReplayWindow} {seen : List UInt64} (h : w.Represents seen) : seen.Nodup :=
  List.Nodup.of_map _ (AntiReplay.Tracks.nodup h)

/-- A window with the counters it has accepted, the latest first. -/
structure Watched where
  window : ReplayWindow := {}
  accepted : List UInt64 := []

/-- One received counter. -/
def Watched.step (s : Watched) (c : UInt64) : Watched :=
  let r := s.window.accept c
  ⟨r.2, if r.1 then c :: s.accepted else s.accepted⟩

/-- RUN: after any counters the window stands for those it accepted. -/
theorem Watched.represents (cs : List UInt64) :
    (Run.exec Watched.step {} cs).window.Represents (Run.exec Watched.step {} cs).accepted := by
  refine Run.exec_preserves (I := fun s => s.window.Represents s.accepted) Watched.step ?_ cs {} represents_empty
  intro s c h
  rcases accept_cases h c with ⟨hok, -, hrep⟩ | ⟨he, -⟩
  · simpa only [Watched.step, hok, if_true] using hrep
  · simpa only [Watched.step, he, Bool.false_eq_true, if_false] using h

end ReplayWindow

/-! ### What a session opens -/

namespace NoiseSession

variable (transport : NoiseTransport)

/-- The counter that a blob names. -/
def counterOf (blob : Bytes) : UInt64 := u64OfBe (blob.take noncePrefixLen)

/-- The blob is long enough and authenticates under its counter. -/
def Authentic (blob plain : Bytes) : Prop :=
  minSealedLen ≤ blob.length ∧ transport.readMessage (counterOf blob) (blob.drop noncePrefixLen) = some plain

/-- STEP: a blob is opened if it authenticates and its counter is accepted, and changes nothing otherwise. -/
theorem decrypt_cases (s : NoiseSession) (blob : Bytes) :
    (∃ plain, Authentic transport blob plain ∧ (s.replay.accept (counterOf blob)).1 = true ∧
      s.decrypt transport blob = (.ok plain, { s with replay := (s.replay.accept (counterOf blob)).2 })) ∨
    ((∀ plain, Authentic transport blob plain → (s.replay.accept (counterOf blob)).1 = false) ∧
      ∃ e, s.decrypt transport blob = (.error e, s)) := by
  rw [decrypt]
  by_cases hlen : blob.length < minSealedLen
  · rw [if_pos hlen]
    refine .inr ⟨?_, _, rfl⟩
    rintro plain ⟨hmin, -⟩
    exact absurd hlen (Nat.not_lt.mpr hmin)
  · rw [if_neg hlen]
    cases hread : transport.readMessage (counterOf blob) (blob.drop noncePrefixLen) with
    | none =>
      refine .inr ⟨?_, .noise, by rw [counterOf] at hread; simp only [hread]⟩
      rintro plain ⟨-, hplain⟩
      rw [hread] at hplain
      cases hplain
    | some plain =>
      rcases hacc : s.replay.accept (counterOf blob) with ⟨ok, w⟩
      rw [counterOf] at hread hacc
      cases ok with
      | true => exact .inl ⟨plain, ⟨Nat.not_lt.mp hlen, hread⟩, rfl, by simp only [hread, hacc]⟩
      | false =>
        have hsame := ReplayWindow.accept_false (w := s.replay) (by rw [hacc])
        rw [hacc] at hsame
        obtain rfl : w = s.replay := congrArg Prod.snd hsame
        exact .inr ⟨fun _ _ => rfl, _, by simp only [hread, hacc]; rfl⟩

/-- A payload is opened as its blob is. -/
theorem openPayload_session (s : NoiseSession) (blob : Bytes) :
    (s.openPayload transport blob).2 = (s.decrypt transport blob).2 := by
  rw [openPayload]
  rcases s.decrypt transport blob with ⟨_ | ⟨_ | ⟨typeByte, inner⟩⟩, s'⟩
  · rfl
  · rfl
  · cases hty : NoisePayloadType.fromU8 typeByte <;> simp only [hty]

/-- What is done with an established session. -/
inductive Call where
  | encrypt (plaintext : Bytes)
  | decrypt (blob : Bytes)
  | openPayload (blob : Bytes)

/-- A session with the counters of the blobs it has opened, the latest first. -/
structure Watched where
  session : NoiseSession
  opened : List UInt64 := []

/-- A blob taken in, by `decrypt` or by `open_payload`. -/
def Watched.receive (s : Watched) (blob : Bytes) : Watched :=
  let r := s.session.decrypt transport blob
  ⟨r.2, if r.1.isOk then counterOf blob :: s.opened else s.opened⟩

def Watched.step (s : Watched) : Call → Watched
  | .encrypt plaintext => { s with session := (s.session.encrypt transport plaintext).2 }
  | .decrypt blob => s.receive transport blob
  | .openPayload blob =>
    { s.receive transport blob with session := (s.session.openPayload transport blob).2 }

/-- The session that the finished handshake yields. -/
def ofHandshake (remoteFingerprint : Option (ByteArr 32)) : NoiseSession := { remoteFingerprint }

theorem Watched.receive_represents {s : Watched} (h : s.session.replay.Represents s.opened) (blob : Bytes) :
    (s.receive transport blob).session.replay.Represents (s.receive transport blob).opened := by
  rcases decrypt_cases transport s.session blob with ⟨plain, -, hok, he⟩ | ⟨-, e, he⟩
  · rcases ReplayWindow.accept_cases h (counterOf blob) with ⟨-, -, hrep⟩ | ⟨hno, -⟩
    · simpa only [receive, he, Except.isOk, Except.toBool, if_true] using hrep
    · rw [hno] at hok
      cases hok
  · simpa only [receive, he, Except.isOk, Except.toBool, Bool.false_eq_true, if_false] using h

/-- RUN: after any calls the window stands for the counters of the blobs that were opened. -/
theorem Watched.represents (fp : Option (ByteArr 32)) (calls : List Call) :
    let s := Run.exec (Watched.step transport) ⟨ofHandshake fp, []⟩ calls
    s.session.replay.Represents s.opened := by
  refine Run.exec_preserves (I := fun s : Watched => s.session.replay.Represents s.opened)
    (Watched.step transport) ?_ calls _ ReplayWindow.represents_empty
  intro s call h
  cases call with
  | encrypt plaintext =>
    have hkeep : (s.session.encrypt transport plaintext).2.replay = s.session.replay := by
      rw [encrypt]
      cases transport.writeMessage (s.session.sendCounter + 1) plaintext <;> rfl
    simpa only [step, hkeep] using h
  | decrypt blob => exact receive_represents transport h blob
  | openPayload blob =>
    have hrec := receive_represents transport h blob
    simpa only [step, openPayload_session, receive] using hrec

end NoiseSession

/-- CORRECT: a counter is accepted at most once; it is accepted exactly when it is not zero, has not been
    accepted and is less than the width below the highest accepted one, or above it. The same holds of the
    blobs that a session opens; one that it does not open leaves the session as it was. -/
theorem noise_replay_window (transport : NoiseTransport) :
    (∀ cs : List UInt64, (Run.exec ReplayWindow.Watched.step {} cs).accepted.Nodup) ∧
    (∀ (cs : List UInt64) (c : UInt64),
      ((Run.exec ReplayWindow.Watched.step {} cs).window.accept c).1 = true ↔
        c ≠ 0 ∧ c ∉ (Run.exec ReplayWindow.Watched.step {} cs).accepted ∧
          ∀ d ∈ (Run.exec ReplayWindow.Watched.step {} cs).accepted, d.toNat < c.toNat + 1024) ∧
    (∀ (s : NoiseSession) (blob : Bytes) (e : NoiseError),
      (s.decrypt transport blob).1 = .error e → (s.decrypt transport blob).2 = s) ∧
    ∀ (fp : Option (ByteArr 32)) (calls : List NoiseSession.Call),
      let s := Run.exec (NoiseSession.Watched.step transport) ⟨.ofHandshake fp, []⟩ calls
      s.opened.Nodup ∧
      ∀ blob plain, (s.session.decrypt transport blob).1 = .ok plain ↔
        NoiseSession.Authentic transport blob plain ∧ NoiseSession.counterOf blob ≠ 0 ∧
          NoiseSession.counterOf blob ∉ s.opened ∧
          ∀ d ∈ s.opened, d.toNat < (NoiseSession.counterOf blob).toNat + 1024 := by
  refine ⟨?_, ?_, ?_, ?_⟩
  · intro cs
    exact (ReplayWindow.Watched.represents cs).nodup
  · intro cs c
    exact (ReplayWindow.Watched.represents cs).admits_iff c
  · intro s blob e he
    rcases NoiseSession.decrypt_cases transport s blob with ⟨plain, -, -, hd⟩ | ⟨-, e', hd⟩
    · rw [hd] at he
      cases he
    · rw [hd]
  · intro fp calls
    have hrep := NoiseSession.Watched.represents transport fp calls
    refine ⟨hrep.nodup, ?_⟩
    intro blob plain
    rw [← hrep.admits_iff]
    rcases NoiseSession.decrypt_cases transport (Run.exec (NoiseSession.Watched.step transport)
      ⟨.ofHandshake fp, []⟩ calls).session blob with ⟨plain', hauth, hok, hd⟩ | ⟨hno, e, hd⟩
    · rw [hd]
      constructor
      · rintro ⟨⟩
        exact ⟨hauth, hok⟩
      · rintro ⟨hauth', -⟩
        rw [Option.some.inj (hauth.2.symm.trans hauth'.2)]
    · rw [hd]
      refine iff_of_false ?_ ?_
      · intro h
        cases h
      · rintro ⟨hauth, hok⟩
        rw [hno plain hauth] at hok
        cases hok

/-- The edges of the window: zero is never a counter, and exactly 1024 below the highest is too old. -/
theorem replay_window_edges :
    (let s := Run.exec ReplayWindow.Watched.step {} [5]
     s.accepted = [5] ∧ (s.window.accept 0).1 = false) ∧
    (let s := Run.exec ReplayWindow.Watched.step {} [1025]
     s.accepted = [1025] ∧ (s.window.accept 1).1 = false ∧ (s.window.accept 2).1 = true) := by
  decide +kernel

namespace Sample

/-- A cipher that appends a tag of zeros. -/
def taggingTransport : NoiseTransport where
  writeMessage _ plain := some (plain ++ List.replicate noiseTagLen 0)
  readMessage _ cipher :=
    if cipher.drop (cipher.length - noiseTagLen) = List.replicate noiseTagLen 0 then
      some (cipher.take (cipher.length - noiseTagLen))
    else none

/-- The third blob of the peer. -/
def thirdBlob : Bytes := beBytes 3 ++ [0x6f, 0x6b] ++ List.replicate noiseTagLen 0

end Sample

/-- A blob is opened, its replay is refused, and a forged one changes nothing. -/
theorem sample_replay_window :
    (({} : NoiseSession).decrypt Sample.taggingTransport Sample.thirdBlob).1 = .ok [0x6f, 0x6b] ∧
    (let s := Run.exec (NoiseSession.Watched.step Sample.taggingTransport) ⟨.ofHandshake none, []⟩
      [.decrypt Sample.thirdBlob]
     s.opened.Nodup ∧ (s.session.decrypt Sample.taggingTransport Sample.thirdBlob).1 ≠ .ok [0x6f, 0x6b]) ∧
    (({} : NoiseSession).decrypt Sample.taggingTransport (Sample.thirdBlob ++ [1])).2 = {} := by
  obtain ⟨-, -, hkeep, hrun⟩ := noise_replay_window Sample.taggingTransport
  obtain ⟨hnodup, hopen⟩ := hrun none [.decrypt Sample.thirdBlob]
  refine ⟨((hrun none []).2 _ _).mpr ?_, ⟨hnodup, ?_⟩, hkeep {} _ .noise ?_⟩
  · exact ⟨⟨by decide, by decide +kernel⟩, by decide +kernel, List.not_mem_nil, List.forall_mem_nil _⟩
  · rw [ne_eq, hopen]
    rintro ⟨-, -, hnew, -⟩
    exact hnew (by decide +kernel)
  · decide +kernel

end Nimmesh
