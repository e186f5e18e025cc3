import Nimmesh.Lib.Codec
import Nimmesh.Swap.Worker

/-! @src swap_recovery.rs swap_coordinator.rs | name:Crash recovery | layer:model

    The session as bytes and back. A blob has three counted sections: the coordinators, the tombstones
    of every swap this node ever initiated, and the claims on the wire. A count is a length cast to
    16 bits, so a section of 65536 entries is written with the count 0. -/

namespace Nimmesh
open Codec

/-- The recoverable state of one coordinator. -/
structure CoordinatorSnapshot where
  role : SwapRole
  phase : SwapPhase
  ctx : SwapContext
  secret : Option Hash
  peerBtcPubkey : Option BtcPubkey
  claimTx : Option Hash
  deriving DecidableEq

namespace SwapCoordinator

def toSnapshot (c : SwapCoordinator) : CoordinatorSnapshot :=
  { role := c.role, phase := c.phase, ctx := c.ctx, secret := c.secret,
    peerBtcPubkey := c.peerBtcPubkey, claimTx := c.claimTx }

/-- Rebuild a coordinator at its captured phase, on the node's ladder. -/
def fromSnapshot (snap : CoordinatorSnapshot) (ladder : LadderParams) : SwapCoordinator :=
  { swap := ⟨snap.role, snap.ctx.terms, snap.phase⟩, ctx := snap.ctx, secret := snap.secret,
    peerBtcPubkey := snap.peerBtcPubkey, ladder, claimTx := snap.claimTx }

end SwapCoordinator

inductive SnapshotError where | truncated | malformed
  deriving DecidableEq, Repr

/-! ### The bounds-checked cursor -/

abbrev Reader (α : Type) := Decoder SnapshotError α

namespace Reader

def take (n : ℕ) : Reader Bytes := fun b =>
  if n ≤ b.length then .ok (b.take n, b.drop n) else .error .truncated

def arr (n : ℕ) : Reader (ByteArr n) := fun b =>
  match ByteArr.ofBytes? n (b.take n) with
  | some a => .ok (a, b.drop n)
  | none => .error .truncated

def u8 : Reader UInt8 := do return (← arr 1).head

def u16 : Reader ℕ := do return u16OfBe (← arr 2).1

def u64 : Reader UInt64 := do return u64OfBe (← arr 8).1

end Reader

/-! ### Tags -/

def roleTag : SwapRole → UInt8
  | .initiator => 0
  | .responder => 1

def roleFromTag (t : UInt8) : Except SnapshotError SwapRole :=
  if t = 0 then .ok .initiator
  else if t = 1 then .ok .responder
  else .error .malformed

def phaseTag : SwapPhase → UInt8
  | .proposed => 0
  | .accepted => 1
  | .initiatorFunded => 2
  | .selfFunded => 3
  | .bothFunded => 4
  | .revealed => 5
  | .settled => 6
  | .aborted => 7
  | .refunded => 8
  | .lost => 9

def phaseFromTag (t : UInt8) : Except SnapshotError SwapPhase :=
  if t = 0 then .ok .proposed
  else if t = 1 then .ok .accepted
  else if t = 2 then .ok .initiatorFunded
  else if t = 3 then .ok .selfFunded
  else if t = 4 then .ok .bothFunded
  else if t = 5 then .ok .revealed
  else if t = 6 then .ok .settled
  else if t = 7 then .ok .aborted
  else if t = 8 then .ok .refunded
  else if t = 9 then .ok .lost
  else .error .malformed

/-! ### The records -/

/-- An optional array: a marker byte, then the bytes if there are any. -/
def encodeOpt {n : ℕ} : Option (ByteArr n) → Bytes
  | some a => 1 :: a.1
  | none => [0]

/-- One record; the recorded claim is not part of it. -/
def encodeRecord (s : CoordinatorSnapshot) : Bytes :=
  [roleTag s.role] ++ ([phaseTag s.phase] ++ (s.ctx.swapId.1 ++ (beBytes s.ctx.terms.nimTimeout ++
  (beBytes s.ctx.terms.counterpartyTimeout ++ (s.ctx.hashlock.1 ++ (s.ctx.nimAddress.1 ++
  (s.ctx.btcPubkey.1 ++ (beBytes s.ctx.giveAmount ++ (beBytes s.ctx.takeAmount ++
  (beBytes s.ctx.termAnchor ++ ([s.ctx.networkId] ++ (beBytes16 s.ctx.btcAddress.length ++
  (s.ctx.btcAddress ++ (encodeOpt s.secret ++ encodeOpt s.peerBtcPubkey))))))))))))))

/-- The coordinator section: a 16-bit count, then the records. -/
def encodeSnapshot (snaps : List CoordinatorSnapshot) : Bytes :=
  beBytes16 snaps.length ++ snaps.flatMap encodeRecord

/-- Only the marker 1 announces a value. -/
def decodeOpt (n : ℕ) : Reader (Option (ByteArr n)) := do
  if (← Reader.u8) = 1 then return some (← Reader.arr n) else return none

def decodeRole : Reader SwapRole := do liftM (roleFromTag (← Reader.u8))

def decodePhase : Reader SwapPhase := do liftM (phaseFromTag (← Reader.u8))

def decodeOne : Reader CoordinatorSnapshot := do
  let role ← decodeRole
  let phase ← decodePhase
  let swapId ← Reader.arr swapIdLen
  let nimTimeout ← Reader.u64
  let counterpartyTimeout ← Reader.u64
  let hashlock ← Reader.arr hashLen
  let nimAddress ← Reader.arr nimAddressLen
  let btcPubkey ← Reader.arr btcPubkeyLen
  let giveAmount ← Reader.u64
  let takeAmount ← Reader.u64
  let termAnchor ← Reader.u64
  let networkId ← Reader.u8
  let addrLen ← Reader.u16
  let btcAddress ← Reader.take addrLen
  let secret ← decodeOpt hashLen
  let peerBtcPubkey ← decodeOpt btcPubkeyLen
  return { role, phase, secret, peerBtcPubkey, claimTx := none,
           ctx := { swapId, terms := ⟨nimTimeout, counterpartyTimeout⟩, hashlock, nimAddress,
                    btcAddress, btcPubkey, giveAmount, takeAmount, networkId, termAnchor } }

/-- A section: a 16-bit count and its entries. -/
def decodeSection {α : Type} (entry : Reader α) : Reader (List α) := do repeatN entry (← Reader.u16)

/-- A trailer: nothing at the end of the bytes, else a section. -/
def decodeTrailer {α : Type} (entry : Reader α) : Reader (List α) := fun b =>
  if b.isEmpty then .ok ([], b) else decodeSection entry b

def decodeClaim : Reader (SwapId × Hash) := do
  let id ← Reader.arr swapIdLen
  let tx ← Reader.arr hashLen
  return (id, tx)

/-- What a blob holds: the coordinators, the tombstones and the claims. -/
abbrev FullSnapshot := List CoordinatorSnapshot × List SwapId × List (SwapId × Hash)

def decodeSections : Reader FullSnapshot := do
  let snaps ← decodeSection decodeOne
  let tombstones ← decodeTrailer (Reader.arr swapIdLen)
  let claims ← decodeTrailer decodeClaim
  return (snaps, tombstones, claims)

/-- The three-section decode; bytes after the last section are ignored. -/
def decodeSnapshotFull (bytes : Bytes) : Except SnapshotError FullSnapshot := do
  return (← decodeSections bytes).1

namespace Session

/-- Every swap in flight. -/
def snapshot (s : Session) : List CoordinatorSnapshot := s.coordinators.entries.map fun e => e.2.toSnapshot

/-- Byte-wise order of ids. -/
def idLe (a b : SwapId) : Bool := !IntentMatcher.idLt b a

/-- The tombstones, in a fixed order. -/
def sortedTombstones (s : Session) : List SwapId := s.initiatedEver.keys.mergeSort idLe

/-- The claims on the wire, in a fixed order. -/
def sortedClaims (s : Session) : List (SwapId × Hash) :=
  (s.snapshot.filterMap fun snap => snap.claimTx.map fun tx => (snap.ctx.swapId, tx)).mergeSort
    fun a b => idLe a.1 b.1

/-- The whole recovery state as bytes. -/
def encodeSnapshot (s : Session) : Bytes :=
  Nimmesh.encodeSnapshot s.snapshot ++
  ((beBytes16 s.sortedTombstones.length ++ s.sortedTombstones.flatMap (·.1)) ++
   (beBytes16 s.sortedClaims.length ++ s.sortedClaims.flatMap fun c => c.1.1 ++ c.2.1))

/-- Put one snapshot back; an initiator's id is tombstoned. -/
def restoreOne (s : Session) (snap : CoordinatorSnapshot) : Session :=
  let s := if snap.role = .initiator then
    { s with initiatedEver := s.initiatedEver.insert snap.ctx.swapId () } else s
  s.setCoord snap.ctx.swapId (SwapCoordinator.fromSnapshot snap s.ladder)

/-- A session rebuilt from its snapshots; every policy is back to its default. -/
def restore (identity : NodeIdentity) (ladder : LadderParams) (snaps : List CoordinatorSnapshot) :
    Session := snaps.foldl restoreOne (new identity ladder)

/-- Re-arm one tombstone. -/
def rearm (s : Session) (id : SwapId) : Session :=
  { s with initiatedEver := s.initiatedEver.insert id () }

/-- Re-arm one claim. -/
def rearmClaim (s : Session) (claim : SwapId × Hash) : Session :=
  { s with coordinators := s.coordinators.adjust claim.1 fun c => c.noteClaimBroadcast claim.2 }

def restoreBytes (identity : NodeIdentity) (ladder : LadderParams) (bytes : Bytes) :
    Except SnapshotError Session := do
  let (snaps, tombstones, claims) ← decodeSnapshotFull bytes
  return claims.foldl rearmClaim (tombstones.foldl rearm (restore identity ladder snaps))

end Session

/-! ### Reading back -/

theorem reads_arr {n : ℕ} (a : ByteArr n) : Reads (Reader.arr n) a.1 a := by
  intro rest
  unfold Reader.arr
  rw [List.take_left' a.2, List.drop_left' a.2, ByteArr.ofBytes?_val]

theorem reads_u8 (b : UInt8) : Reads Reader.u8 [b] b := (reads_arr ⟨[b], rfl⟩).map

theorem reads_u64 (v : UInt64) : Reads Reader.u64 (beBytes v) v := by
  have h : Reads Reader.u64 (beBytes v) (u64OfBe (beBytes v)) := (reads_arr ⟨beBytes v, rfl⟩).map
  rwa [u64OfBe_beBytes] at h

theorem reads_u16_mod (n : ℕ) : Reads Reader.u16 (beBytes16 n) (n % 65536) := by
  have hr : Reads Reader.u16 (beBytes16 n) (u16OfBe (beBytes16 n)) := (reads_arr ⟨beBytes16 n, rfl⟩).map
  rwa [u16OfBe_beBytes16] at hr

theorem reads_u16 {n : ℕ} (h : n < 65536) : Reads Reader.u16 (beBytes16 n) n := by
  have hr := reads_u16_mod n
  rwa [Nat.mod_eq_of_lt h] at hr

theorem reads_take (b : Bytes) : Reads (Reader.take b.length) b b := by
  intro rest
  unfold Reader.take
  rw [if_pos (by rw [List.length_append]; omega), List.take_left' rfl, List.drop_left' rfl]

theorem reads_role (role : SwapRole) : Reads decodeRole [roleTag role] role := by
  have h : Reads decodeRole ([roleTag role] ++ []) role := by
    refine (reads_u8 (roleTag role)).bind fun rest => ?_
    cases role <;> rfl
  exact h

theorem reads_phase (phase : SwapPhase) : Reads decodePhase [phaseTag phase] phase := by
  have h : Reads decodePhase ([phaseTag phase] ++ []) phase := by
    refine (reads_u8 (phaseTag phase)).bind fun rest => ?_
    cases phase <;> rfl
  exact h

theorem reads_opt {n : ℕ} (a : Option (ByteArr n)) : Reads (decodeOpt n) (encodeOpt a) a := by
  cases a with
  | none => exact (reads_u8 0).bind (Reads.pure none)
  | some a => exact (reads_u8 1).bind (reads_arr a).map

/-- CORRECT: a record reads back, without its claim, if its address is shorter than `2 ^ 16`. -/
theorem reads_decodeOne (s : CoordinatorSnapshot) (h : s.ctx.btcAddress.length < 65536) :
    Reads decodeOne (encodeRecord s) { s with claimTx := none } := by
  unfold decodeOne encodeRecord
  refine (reads_role s.role).bind ?_
  refine (reads_phase s.phase).bind ?_
  refine (reads_arr s.ctx.swapId).bind ?_
  refine (reads_u64 s.ctx.terms.nimTimeout).bind ?_
  refine (reads_u64 s.ctx.terms.counterpartyTimeout).bind ?_
  refine (reads_arr s.ctx.hashlock).bind ?_
  refine (reads_arr s.ctx.nimAddress).bind ?_
  refine (reads_arr s.ctx.btcPubkey).bind ?_
  refine (reads_u64 s.ctx.giveAmount).bind ?_
  refine (reads_u64 s.ctx.takeAmount).bind ?_
  refine (reads_u64 s.ctx.termAnchor).bind ?_
  refine (reads_u8 s.ctx.networkId).bind ?_
  refine (reads_u16 h).bind ?_
  refine (reads_take s.ctx.btcAddress).bind ?_
  refine (reads_opt s.secret).bind ?_
  exact (reads_opt s.peerBtcPubkey).map

theorem reads_decodeClaim (c : SwapId × Hash) : Reads decodeClaim (c.1.1 ++ c.2.1) c :=
  (reads_arr c.1).bind (reads_arr c.2).map

theorem reads_section {α : Type} {entry : Reader α} {encode : α → Bytes} {items : List α}
    (h : ∀ a ∈ items, Reads entry (encode a) a) (hl : items.length < 65536) :
    Reads (decodeSection entry) (beBytes16 items.length ++ items.flatMap encode) items :=
  (reads_u16 hl).bind (Reads.repeatN h)

theorem reads_trailer {α : Type} {entry : Reader α} {encode : α → Bytes} {items : List α}
    (h : ∀ a ∈ items, Reads entry (encode a) a) (hl : items.length < 65536) :
    Reads (decodeTrailer entry) (beBytes16 items.length ++ items.flatMap encode) items := by
  intro rest
  have hne : (beBytes16 items.length ++ items.flatMap encode ++ rest).isEmpty = false := rfl
  unfold decodeTrailer
  rw [hne]
  exact reads_section h hl rest

namespace Session

/-- The sections of a session fit their counts, and its addresses their lengths. -/
structure Encodable (s : Session) : Prop where
  coordinators : s.coordinators.len ≤ 65535
  tombstones : s.initiatedEver.len ≤ 65535
  addresses : ∀ snap ∈ s.snapshot, snap.ctx.btcAddress.length ≤ 65535

theorem sortedTombstones_length (s : Session) : s.sortedTombstones.length = s.initiatedEver.len := by
  rw [sortedTombstones, List.length_mergeSort, AList.keys, List.keys, List.length_map]
  rfl

theorem sortedClaims_length_le (s : Session) : s.sortedClaims.length ≤ s.coordinators.len := by
  rw [sortedClaims, List.length_mergeSort]
  refine (List.length_filterMap_le _ _).trans ?_
  rw [snapshot, List.length_map]
  exact le_rfl

/-- CORRECT: the blob of a session that fits decodes to its coordinators, tombstones and claims. -/
theorem decodeSnapshotFull_encodeSnapshot {s : Session} (h : s.Encodable) :
    decodeSnapshotFull s.encodeSnapshot =
      .ok (s.snapshot.map fun snap => { snap with claimTx := none }, s.sortedTombstones, s.sortedClaims) := by
  have hlen : s.snapshot.length = s.coordinators.len := List.length_map ..
  have hrec : Reads (decodeSection decodeOne) (Nimmesh.encodeSnapshot s.snapshot)
      (s.snapshot.map fun snap => { snap with claimTx := none }) := by
    have hitems : ∀ a ∈ s.snapshot.map fun snap => { snap with claimTx := none },
        Reads decodeOne (encodeRecord a) a := by
      intro a ha
      obtain ⟨snap, hsnap, rfl⟩ := List.mem_map.mp ha
      exact reads_decodeOne _ (Nat.lt_succ_of_le (h.addresses snap hsnap))
    have hs := reads_section hitems (by rw [List.length_map, hlen]; exact Nat.lt_succ_of_le h.coordinators)
    rw [List.length_map, List.flatMap_map] at hs
    exact hs
  have htomb : Reads (decodeTrailer (Reader.arr swapIdLen))
      (beBytes16 s.sortedTombstones.length ++ s.sortedTombstones.flatMap (·.1)) s.sortedTombstones :=
    reads_trailer (fun id _ => reads_arr id)
      (by rw [sortedTombstones_length]; exact Nat.lt_succ_of_le h.tombstones)
  have hclaim : Reads (decodeTrailer decodeClaim)
      (beBytes16 s.sortedClaims.length ++ s.sortedClaims.flatMap fun c => c.1.1 ++ c.2.1) s.sortedClaims :=
    reads_trailer (fun c _ => reads_decodeClaim c)
      (Nat.lt_succ_of_le (s.sortedClaims_length_le.trans h.coordinators))
  have hall : Reads decodeSections s.encodeSnapshot _ := hrec.bind (htomb.bind hclaim.map)
  unfold decodeSnapshotFull
  rw [hall.run]
  rfl

/-- Whatever the counts, the coordinators that a blob decodes to are among those it was written from. -/
theorem decodeSnapshotFull_fst {s : Session}
    (haddr : ∀ snap ∈ s.snapshot, snap.ctx.btcAddress.length ≤ 65535) {full : FullSnapshot}
    (h : decodeSnapshotFull s.encodeSnapshot = .ok full) :
    full.1 = (s.snapshot.take (s.snapshot.length % 65536)).map fun snap => { snap with claimTx := none } := by
  generalize hn : s.snapshot.length % 65536 = n
  generalize hkept : (s.snapshot.take n).map (fun snap => { snap with claimTx := none }) = kept
  have hlen : kept.length = n := by
    rw [← hkept, List.length_map, List.length_take]
    have hle : n ≤ s.snapshot.length := by
      rw [← hn]
      exact Nat.mod_le _ _
    omega
  have hitems : ∀ a ∈ kept, Reads decodeOne (encodeRecord a) a := by
    intro a ha
    rw [← hkept] at ha
    obtain ⟨snap, hsnap, rfl⟩ := List.mem_map.mp ha
    exact reads_decodeOne _ (Nat.lt_succ_of_le (haddr snap (List.mem_of_mem_take hsnap)))
  have hread : Reads (decodeSection decodeOne)
      (beBytes16 s.snapshot.length ++ kept.flatMap encodeRecord) kept := by
    have hcount := reads_u16_mod s.snapshot.length
    rw [hn, ← hlen] at hcount
    exact hcount.bind (Reads.repeatN hitems)
  have hrecords : kept.flatMap encodeRecord = (s.snapshot.take n).flatMap encodeRecord := by
    rw [← hkept, List.flatMap_map]
    rfl
  have hbytes : s.encodeSnapshot = (beBytes16 s.snapshot.length ++ kept.flatMap encodeRecord) ++
      ((s.snapshot.drop n).flatMap encodeRecord ++
        ((beBytes16 s.sortedTombstones.length ++ s.sortedTombstones.flatMap (·.1)) ++
          (beBytes16 s.sortedClaims.length ++ s.sortedClaims.flatMap fun c => c.1.1 ++ c.2.1))) := by
    have hsplit : s.snapshot.flatMap encodeRecord =
        (s.snapshot.take n).flatMap encodeRecord ++ (s.snapshot.drop n).flatMap encodeRecord := by
      rw [← List.flatMap_append, List.take_append_drop]
    rw [Session.encodeSnapshot, Nimmesh.encodeSnapshot, hrecords, hsplit]
    simp only [List.append_assoc]
  rw [hbytes, decodeSnapshotFull, decodeSections, hread.bind_run] at h
  generalize (s.snapshot.drop n).flatMap encodeRecord ++ _ = rest at h
  change (decodeTrailer (Reader.arr swapIdLen) rest >>= fun r => _) >>= _ = _ at h
  cases ht : decodeTrailer (Reader.arr swapIdLen) rest with
  | error err =>
    rw [ht] at h
    cases h
  | ok r =>
    rw [ht] at h
    change (decodeTrailer decodeClaim r.2 >>= fun r => _) >>= _ = _ at h
    cases hc : decodeTrailer decodeClaim r.2 with
    | error err =>
      rw [hc] at h
      cases h
    | ok r' =>
      rw [hc] at h
      cases h
      rfl

end Session

end Nimmesh
