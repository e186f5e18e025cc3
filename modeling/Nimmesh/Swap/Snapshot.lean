import Nimmesh.Swap.Reissue

/-! @src swap_recovery.rs swap_session.rs | name:Nothing is lost in a snapshot | layer:properties

    A session written to disk and read back holds the same swaps and the same tombstones, each claim on
    the wire included. A blob that was cut short is refused, unless the cut is at the end of a section,
    where an older blob would have ended as well. -/

namespace Nimmesh
open Codec

/-! ### A field that was cut -/

theorem starves_arr {n : ℕ} (a : ByteArr n) : Starves (Reader.arr n) a.1 := by
  intro pre suf hsuf hcut
  have hlen : pre.length < n := by
    have hsum := congrArg List.length hcut
    have hpos := List.length_pos_iff.mpr hsuf
    rw [List.length_append, a.2] at hsum
    omega
  refine ⟨.truncated, ?_⟩
  have hno : ByteArr.ofBytes? n (pre.take n) = none := by
    rw [ByteArr.ofBytes?, dif_neg]
    rw [List.length_take]
    omega
  rw [Reader.arr, hno]

theorem starves_take (b : Bytes) : Starves (Reader.take b.length) b := by
  intro pre suf hsuf hcut
  have hlen : pre.length < b.length := by
    have hpos := List.length_pos_iff.mpr hsuf
    rw [← hcut, List.length_append]
    omega
  exact ⟨.truncated, if_neg (by omega)⟩

theorem starves_u8 (b : UInt8) : Starves Reader.u8 [b] := (starves_arr ⟨[b], rfl⟩).map

theorem starves_u16 (n : ℕ) : Starves Reader.u16 (beBytes16 n) := (starves_arr ⟨beBytes16 n, rfl⟩).map

theorem starves_u64 (v : UInt64) : Starves Reader.u64 (beBytes v) := (starves_arr ⟨beBytes v, rfl⟩).map

theorem starves_role (role : SwapRole) : Starves decodeRole [roleTag role] :=
  (starves_u8 (roleTag role)).bind (reads_u8 _) (Starves.nil _)

theorem starves_phase (phase : SwapPhase) : Starves decodePhase [phaseTag phase] :=
  (starves_u8 (phaseTag phase)).bind (reads_u8 _) (Starves.nil _)

theorem starves_opt {n : ℕ} (a : Option (ByteArr n)) : Starves (decodeOpt n) (encodeOpt a) := by
  cases a with
  | none => exact (starves_u8 0).bind (reads_u8 0) (Starves.nil _)
  | some a => exact (starves_u8 1).bind (reads_u8 1) (starves_arr a).map

/-- A record that was cut anywhere is refused. -/
theorem starves_decodeOne (s : CoordinatorSnapshot) (h : s.ctx.btcAddress.length < 65536) :
    Starves decodeOne (encodeRecord s) := by
  unfold decodeOne encodeRecord
  refine (starves_role s.role).bind (reads_role _) ?_
  refine (starves_phase s.phase).bind (reads_phase _) ?_
  refine (starves_arr s.ctx.swapId).bind (reads_arr _) ?_
  refine (starves_u64 s.ctx.terms.nimTimeout).bind (reads_u64 _) ?_
  refine (starves_u64 s.ctx.terms.counterpartyTimeout).bind (reads_u64 _) ?_
  refine (starves_arr s.ctx.hashlock).bind (reads_arr _) ?_
  refine (starves_arr s.ctx.nimAddress).bind (reads_arr _) ?_
  refine (starves_arr s.ctx.btcPubkey).bind (reads_arr _) ?_
  refine (starves_u64 s.ctx.giveAmount).bind (reads_u64 _) ?_
  refine (starves_u64 s.ctx.takeAmount).bind (reads_u64 _) ?_
  refine (starves_u64 s.ctx.termAnchor).bind (reads_u64 _) ?_
  refine (starves_u8 s.ctx.networkId).bind (reads_u8 _) ?_
  refine (starves_u16 s.ctx.btcAddress.length).bind (reads_u16 h) ?_
  refine (starves_take s.ctx.btcAddress).bind (reads_take _) ?_
  refine (starves_opt s.secret).bind (reads_opt _) ?_
  exact (starves_opt s.peerBtcPubkey).map

theorem starves_decodeClaim (c : SwapId × Hash) : Starves decodeClaim (c.1.1 ++ c.2.1) :=
  (starves_arr c.1).bind (reads_arr c.1) (starves_arr c.2).map

/-! ### A section that was cut -/

/-- A section as bytes: a 16-bit count, then the entries. -/
def encodeSection {α : Type} (encode : α → Bytes) (items : List α) : Bytes :=
  beBytes16 items.length ++ items.flatMap encode

variable {α : Type} {entry : Reader α} {encode : α → Bytes} {items : List α}

theorem starves_section (hr : ∀ a ∈ items, Reads entry (encode a) a)
    (hs : ∀ a ∈ items, Starves entry (encode a)) (hl : items.length < 65536) :
    Starves (decodeSection entry) (encodeSection encode items) :=
  (starves_u16 items.length).bind (reads_u16 hl) (Starves.repeatN hr hs)

/-- A trailer that was begun is read whole or refused. -/
theorem trailer_cut (hs : Starves (decodeSection entry) (encodeSection encode items)) {pre suf : Bytes}
    (hsuf : suf ≠ []) (hcut : pre ++ suf = encodeSection encode items) :
    pre = [] ∨ ∃ err, decodeTrailer entry pre = .error err := by
  cases pre with
  | nil => exact .inl rfl
  | cons b pre => exact .inr (hs (b :: pre) suf hsuf hcut)

namespace Session

/-- The records as the blob gives them back; the claims come in a section of their own. -/
def records (s : Session) : List CoordinatorSnapshot := s.snapshot.map fun snap => { snap with claimTx := none }

def recordSection (s : Session) : Bytes := Nimmesh.encodeSnapshot s.snapshot

def tombstoneSection (s : Session) : Bytes := encodeSection (·.1) s.sortedTombstones

def claimSection (s : Session) : Bytes := encodeSection (fun c => c.1.1 ++ c.2.1) s.sortedClaims

theorem encodeSnapshot_eq (s : Session) :
    s.encodeSnapshot = s.recordSection ++ (s.tombstoneSection ++ s.claimSection) := rfl

theorem recordSection_eq (s : Session) : s.recordSection = encodeSection encodeRecord s.records := by
  rw [recordSection, Nimmesh.encodeSnapshot, encodeSection, records, List.length_map, List.flatMap_map]
  rfl

variable {s : Session}

theorem length_records (s : Session) : s.records.length = s.coordinators.len := by
  rw [records, List.length_map]
  exact List.length_map ..

theorem address_of_mem_records (h : s.Encodable) {a : CoordinatorSnapshot} (ha : a ∈ s.records) :
    a.ctx.btcAddress.length < 65536 := by
  obtain ⟨snap, hsnap, rfl⟩ := List.mem_map.mp ha
  exact Nat.lt_succ_of_le (h.addresses snap hsnap)

theorem reads_of_mem_records (h : s.Encodable) {a : CoordinatorSnapshot} (ha : a ∈ s.records) :
    Reads decodeOne (encodeRecord a) a := by
  have hread := reads_decodeOne a (address_of_mem_records h ha)
  obtain ⟨snap, -, rfl⟩ := List.mem_map.mp ha
  exact hread

theorem reads_recordSection (h : s.Encodable) : Reads (decodeSection decodeOne) s.recordSection s.records := by
  rw [recordSection_eq]
  exact reads_section (fun a ha => reads_of_mem_records h ha)
    (by rw [length_records]; exact Nat.lt_succ_of_le h.coordinators)

theorem starves_recordSection (h : s.Encodable) : Starves (decodeSection decodeOne) s.recordSection := by
  rw [recordSection_eq]
  exact starves_section (fun a ha => reads_of_mem_records h ha)
    (fun a ha => starves_decodeOne a (address_of_mem_records h ha))
    (by rw [length_records]; exact Nat.lt_succ_of_le h.coordinators)

theorem tombstones_fit (h : s.Encodable) : s.sortedTombstones.length < 65536 := by
  rw [sortedTombstones_length]
  exact Nat.lt_succ_of_le h.tombstones

theorem claims_fit (h : s.Encodable) : s.sortedClaims.length < 65536 :=
  Nat.lt_succ_of_le (s.sortedClaims_length_le.trans h.coordinators)

theorem reads_tombstoneSection (h : s.Encodable) :
    Reads (decodeTrailer (Reader.arr swapIdLen)) s.tombstoneSection s.sortedTombstones :=
  reads_trailer (fun id _ => reads_arr id) (tombstones_fit h)

theorem starves_tombstoneSection (h : s.Encodable) :
    Starves (decodeSection (Reader.arr swapIdLen)) s.tombstoneSection :=
  starves_section (fun id _ => reads_arr id) (fun id _ => starves_arr id) (tombstones_fit h)

theorem starves_claimSection (h : s.Encodable) : Starves (decodeSection decodeClaim) s.claimSection :=
  starves_section (fun c _ => reads_decodeClaim c) (fun c _ => starves_decodeClaim c) (claims_fit h)

/-- Behind the records the two trailers are read one after the other. -/
theorem decodeSnapshotFull_records (h : s.Encodable) (rest : Bytes) :
    decodeSnapshotFull (s.recordSection ++ rest) =
      (decodeTrailer (Reader.arr swapIdLen) rest >>= fun r =>
        decodeTrailer decodeClaim r.2 >>= fun r' => .ok (s.records, r.1, r'.1)) := by
  rw [decodeSnapshotFull, decodeSections, (reads_recordSection h).bind_run]
  change (decodeTrailer (Reader.arr swapIdLen) rest >>= fun r => _) >>= _ = _
  cases decodeTrailer (Reader.arr swapIdLen) rest with
  | error err => rfl
  | ok r =>
    change (decodeTrailer decodeClaim r.2 >>= fun r' => _) >>= _ = decodeTrailer decodeClaim r.2 >>= _
    cases decodeTrailer decodeClaim r.2 with
    | error err => rfl
    | ok r' => rfl

/-- A blob that was cut is refused, or it ends with its records or with its tombstones and reads as a
    blob that never had the rest. -/
theorem decodeSnapshotFull_cut (h : s.Encodable) {pre suf : Bytes} (hsuf : suf ≠ [])
    (hcut : pre ++ suf = s.encodeSnapshot) :
    (∃ err, decodeSnapshotFull pre = .error err) ∨
    (pre = s.recordSection ∧ decodeSnapshotFull pre = .ok (s.records, [], [])) ∨
    (pre = s.recordSection ++ s.tombstoneSection ∧
      decodeSnapshotFull pre = .ok (s.records, s.sortedTombstones, [])) := by
  rw [encodeSnapshot_eq] at hcut
  rcases List.append_eq_append_iff.mp hcut with ⟨mid, hmid, htail⟩ | ⟨mid, hmid, htail⟩
  · by_cases hnil : mid = []
    · -- the cut is behind the last record
      subst hnil
      have hpre : pre = s.recordSection := by simpa using hmid.symm
      refine .inr (.inl ⟨hpre, ?_⟩)
      have hread := decodeSnapshotFull_records h []
      rw [List.append_nil] at hread
      rw [hpre, hread]
      rfl
    · obtain ⟨err, herr⟩ := starves_recordSection h pre mid hnil hmid.symm
      refine .inl ⟨err, ?_⟩
      rw [decodeSnapshotFull, decodeSections, bind_error herr]
      rfl
  · rw [hmid, decodeSnapshotFull_records h]
    rcases List.append_eq_append_iff.mp htail.symm with ⟨mid', hmid', htail'⟩ | ⟨mid', hmid', htail'⟩
    · by_cases hnil : mid' = []
      · -- the cut is behind the last tombstone
        subst hnil
        have hmid : mid = s.tombstoneSection := by simpa using hmid'.symm
        refine .inr (.inr ⟨by rw [hmid], ?_⟩)
        have hread := (reads_tombstoneSection h).run
        rw [hmid, hread]
        rfl
      · rcases trailer_cut (starves_tombstoneSection h) hnil hmid'.symm with hpre | ⟨err, herr⟩
        · refine .inr (.inl ⟨by rw [hpre, List.append_nil], ?_⟩)
          rw [hpre]
          rfl
        · exact .inl ⟨err, by rw [herr]; rfl⟩
    · rw [hmid', reads_tombstoneSection h]
      rcases trailer_cut (starves_claimSection h) hsuf htail'.symm with hpre | ⟨err, herr⟩
      · refine .inr (.inr ⟨by rw [hpre, List.append_nil], ?_⟩)
        rw [hpre]
        rfl
      · refine .inl ⟨err, ?_⟩
        change (decodeTrailer decodeClaim mid' >>= fun r' => _) = _
        rw [herr]
        rfl

/-! ### Putting the swaps back -/

/-- The swap that ends up under a key is the one the snapshots hold for it. -/
theorem restore_fold_lookup {k : SwapId} {snap : CoordinatorSnapshot} (hid : snap.ctx.swapId = k)
    (snaps : List CoordinatorSnapshot) (hone : ∀ a ∈ snaps, a.ctx.swapId = k → a = snap) (s : Session) :
    (snaps.foldl restoreOne s).coordinators.lookup k =
      if snap ∈ snaps then some (SwapCoordinator.fromSnapshot snap s.ladder)
      else s.coordinators.lookup k := by
  induction snaps generalizing s with
  | nil => rfl
  | cons a snaps ih =>
    rw [List.foldl_cons, ih (fun b hb => hone b (List.mem_cons_of_mem a hb)), restoreOne_ladder,
      lookup_restoreOne]
    by_cases hk : k = a.ctx.swapId
    · have ha := hone a List.mem_cons_self hk.symm
      simp [hk, ha]
    · have hne : snap ≠ a := by
        rintro rfl
        exact hk hid.symm
      simp [hk, hne]

/-- A key that no snapshot has stays empty. -/
theorem restore_fold_lookup_none {k : SwapId} (snaps : List CoordinatorSnapshot)
    (hno : ∀ a ∈ snaps, a.ctx.swapId ≠ k) (s : Session) :
    (snaps.foldl restoreOne s).coordinators.lookup k = s.coordinators.lookup k := by
  induction snaps generalizing s with
  | nil => rfl
  | cons a snaps ih =>
    have hk : k ≠ a.ctx.swapId := fun h => hno a List.mem_cons_self h.symm
    rw [List.foldl_cons, ih (fun b hb => hno b (List.mem_cons_of_mem a hb)), lookup_restoreOne, if_neg hk]

theorem restore_fold_hasInitiated {id : SwapId} (snaps : List CoordinatorSnapshot) (s : Session) :
    (snaps.foldl restoreOne s).hasInitiated id = true ↔
      (∃ snap ∈ snaps, snap.role = .initiator ∧ snap.ctx.swapId = id) ∨ s.hasInitiated id = true := by
  induction snaps generalizing s with
  | nil => simp
  | cons a snaps ih =>
    have hone : (s.restoreOne a).hasInitiated id = true ↔
        (a.role = .initiator ∧ a.ctx.swapId = id) ∨ s.hasInitiated id = true := by
      by_cases hr : a.role = .initiator
      · have hrearm := rearm_hasInitiated s a.ctx.swapId id
        simp only [restoreOne, if_pos hr, setCoord]
        rw [eq_comm (a := a.ctx.swapId)]
        simpa [hr, rearm, hasInitiated] using hrearm
      · simp [restoreOne, hr, setCoord, hasInitiated]
    rw [List.foldl_cons, ih, hone]
    rw [List.exists_mem_cons_iff, or_left_comm, or_assoc]

theorem rearm_fold_coordinators (ids : List SwapId) (s : Session) :
    (ids.foldl rearm s).coordinators = s.coordinators := by
  induction ids generalizing s with
  | nil => rfl
  | cons id ids ih => exact ih (s.rearm id)

/-- A swap gets the one claim recorded for it. -/
theorem rearmClaim_fold_lookup {k : SwapId} {tx : Hash} (claims : List (SwapId × Hash))
    (hone : ∀ c ∈ claims, c.1 = k → c.2 = tx) (s : Session) :
    (claims.foldl rearmClaim s).coordinators.lookup k =
      (s.coordinators.lookup k).map fun c => if (k, tx) ∈ claims then c.noteClaimBroadcast tx else c := by
  induction claims generalizing s with
  | nil => simp
  | cons a claims ih =>
    rw [List.foldl_cons, ih fun c hc => hone c (List.mem_cons_of_mem a hc), rearmClaim, Table.lookup_adjust]
    by_cases hk : k = a.1
    · have ha : a = (k, tx) := Prod.ext hk.symm (hone a List.mem_cons_self hk.symm)
      subst ha
      rw [if_pos rfl, Option.map_map]
      congr 1
      funext c
      simp only [Function.comp_apply, List.mem_cons_self, if_true]
      split_ifs <;> rfl
    · have hne : (k, tx) ≠ a := by
        rintro rfl
        exact hk rfl
      simp [hk, hne]

/-- A swap no claim was recorded for has none. -/
theorem rearmClaim_fold_lookup_none {k : SwapId} (claims : List (SwapId × Hash))
    (hno : ∀ c ∈ claims, c.1 ≠ k) (s : Session) :
    (claims.foldl rearmClaim s).coordinators.lookup k = s.coordinators.lookup k := by
  induction claims generalizing s with
  | nil => rfl
  | cons a claims ih =>
    have hk : k ≠ a.1 := fun h => hno a List.mem_cons_self h.symm
    rw [List.foldl_cons, ih fun c hc => hno c (List.mem_cons_of_mem a hc), rearmClaim, Table.lookup_adjust,
      if_neg hk]

/-! ### Sessions that a node can hold -/

/-- Every swap is filed under its own id, and what this node initiates is tombstoned. -/
structure Kept (s : Session) : Prop where
  filed : s.Filed
  tombstoned : ∀ k c, s.coordinators.lookup k = some c → c.role = .initiator → s.hasInitiated k = true

/-- A session the code can build: fresh, restored from any bytes or snapshots, or reached from one by a
    call or by a change of its policies. -/
inductive Built (env : Env) : Session → Prop
  | fresh {s : Session} : s.Fresh → Built env s
  | restored (identity : NodeIdentity) (ladder : LadderParams) (snaps : List CoordinatorSnapshot) :
      Built env (restore identity ladder snaps)
  | read {identity : NodeIdentity} {ladder : LadderParams} {bytes : Bytes} {s : Session} :
      restoreBytes identity ladder bytes = .ok s → Built env s
  | configured {s s' : Session} : Built env s → s'.coordinators = s.coordinators →
      s'.initiatedEver = s.initiatedEver → s'.ladder = s.ladder → Built env s'
  | called {s : Session} (op : Op) : Built env s → Built env (s.step env op)

theorem Kept.wf {s : Session} (h : s.Kept) (env : Env) : s.WF env := by
  intro k c hc
  obtain ⟨hid, ht, hl⟩ := h.filed k c hc
  exact ⟨hid, ht, hl⟩

theorem kept_of_coordinators {s s' : Session} (h : s.Kept) (hc : s'.coordinators = s.coordinators)
    (hi : ∀ id, s.hasInitiated id = true → s'.hasInitiated id = true) (hl : s'.ladder = s.ladder) : s'.Kept := by
  constructor
  · intro k c hk
    rw [hc] at hk
    rw [hl]
    exact h.filed k c hk
  · intro k c hk hr
    rw [hc] at hk
    exact hi k (h.tombstoned k c hk hr)

theorem kept_restoreOne {s : Session} (h : s.Kept) (snap : CoordinatorSnapshot) : (s.restoreOne snap).Kept := by
  refine ⟨filed_restoreOne s snap h.filed, fun k c hc hr => ?_⟩
  have hinit := @restore_fold_hasInitiated k [snap] s
  rw [List.foldl_cons, List.foldl_nil] at hinit
  rw [hinit]
  rw [lookup_restoreOne] at hc
  split_ifs at hc with hk
  · cases hc
    exact .inl ⟨snap, List.mem_singleton_self snap, hr, hk.symm⟩
  · exact .inr (h.tombstoned k c hc hr)

theorem kept_rearm {s : Session} (h : s.Kept) (id : SwapId) : (s.rearm id).Kept :=
  kept_of_coordinators h rfl (fun k hk => (rearm_hasInitiated s id k).mpr (.inr hk)) rfl

theorem kept_rearmClaim {s : Session} (h : s.Kept) (claim : SwapId × Hash) : (s.rearmClaim claim).Kept := by
  refine ⟨filed_rearmClaim s claim h.filed, fun k c hc hr => ?_⟩
  rw [rearmClaim, Table.lookup_adjust] at hc
  split_ifs at hc
  · obtain ⟨d, hd, rfl⟩ := Option.map_eq_some_iff.mp hc
    exact h.tombstoned k d hd hr
  · exact h.tombstoned k c hc hr

theorem kept_of_fresh {s : Session} (h : s.Fresh) : s.Kept := by
  constructor <;> intro k c hc <;> rw [h.coordinators, AList.lookup_empty] at hc <;> cases hc

theorem kept_restore (identity : NodeIdentity) (ladder : LadderParams) (snaps : List CoordinatorSnapshot) :
    (restore identity ladder snaps).Kept :=
  Run.exec_preserves (I := Kept) restoreOne (fun _ snap h => kept_restoreOne h snap) snaps _
    (kept_of_fresh (fresh_new identity ladder))

theorem kept_restoreBytes {identity : NodeIdentity} {ladder : LadderParams} {bytes : Bytes} {s : Session}
    (h : restoreBytes identity ladder bytes = .ok s) : s.Kept := by
  unfold restoreBytes at h
  cases hd : decodeSnapshotFull bytes with
  | error err =>
    rw [hd] at h
    cases h
  | ok full =>
    rw [hd] at h
    cases h
    have hrearmed := Run.exec_preserves (I := Kept) rearm (fun _ id hk => kept_rearm hk id) full.2.1 _
      (kept_restore identity ladder full.1)
    exact Run.exec_preserves (I := Kept) rearmClaim (fun _ claim hk => kept_rearmClaim hk claim) full.2.2 _
      hrearmed

theorem applyClaimObservation_role (c : SwapCoordinator) (need : UInt32) (obs : ClaimObservation)
    (hp : c.phase = .revealed) : (applyClaimObservation c need obs).role = c.role := by
  rcases applyClaimObservation_cases c need obs hp with ⟨d, -, -, he⟩ | ⟨-, he⟩ | he <;> rw [he] <;> rfl

/-- STEP: an initiator's swap is tombstoned when it is created, and stays so. -/
theorem tombstoned_invariant (cfg : Config) (now : Option UInt64) (k : SwapId) :
    SlotInvariant cfg now k fun sl => ∀ c, sl.coord = some c → c.role = .initiator → sl.tombstone = true := by
  refine ⟨fun a b hstep _ ha c hc hr => ?_, fun a _ c hc => by cases hc⟩
  cases hstep with
  | createInitiator => rfl
  | createResponder fresh =>
    cases hc
    rw [fresh.role] at hr
    cases hr
  | observeClaim obs _ phase _ =>
    cases hc
    rw [applyClaimObservation_role _ _ _ phase] at hr
    exact ha _ rfl hr
  | drop => cases hc
  | _ =>
    cases hc
    exact ha _ rfl hr

theorem kept_step {env : Env} {s : Session} (h : s.Kept) (op : Op) : (s.step env op).Kept := by
  obtain ⟨hconfig, hwf⟩ := step_config_wf (h.wf env) op
  constructor
  · intro k c hc
    obtain ⟨hid, ht, hl⟩ := hwf k c hc
    exact ⟨hid, ht, hl⟩
  · intro k c hc hr
    exact (tombstoned_invariant _ _ k).call (h.wf env) (fun d hd => h.tombstoned k d hd) c hc hr

/-- RUN: every session the code can build is kept. -/
theorem Built.kept {env : Env} {s : Session} (h : s.Built env) : s.Kept := by
  induction h with
  | fresh hf => exact kept_of_fresh hf
  | restored identity ladder snaps => exact kept_restore identity ladder snaps
  | read hr => exact kept_restoreBytes hr
  | configured _ hc hi hl ih =>
    exact kept_of_coordinators ih hc (fun id hid => by rwa [hasInitiated, hi]) hl
  | called op _ ih => exact kept_step ih op

/-! ### What comes back -/

theorem mem_records_iff {a : CoordinatorSnapshot} :
    a ∈ s.records ↔ ∃ k c, s.coordinators.lookup k = some c ∧ a = { c.toSnapshot with claimTx := none } := by
  simp only [records, snapshot, List.mem_map, exists_exists_and_eq_and, Table.lookup_eq_some_iff]
  constructor
  · rintro ⟨e, he, rfl⟩
    exact ⟨e.1, e.2, he, rfl⟩
  · rintro ⟨k, c, he, rfl⟩
    exact ⟨⟨k, c⟩, he, rfl⟩

/-- A record is that of the swap held under its id. -/
theorem lookup_of_mem_records (h : s.Kept) {a : CoordinatorSnapshot} (ha : a ∈ s.records) :
    ∃ c, s.coordinators.lookup a.ctx.swapId = some c ∧ a = { c.toSnapshot with claimTx := none } := by
  obtain ⟨k, c, hc, rfl⟩ := mem_records_iff.mp ha
  have hkey : c.ctx.swapId = k := (h.filed k c hc).1
  subst hkey
  exact ⟨c, hc, rfl⟩

theorem mem_sortedClaims_iff (h : s.Kept) {claim : SwapId × Hash} :
    claim ∈ s.sortedClaims ↔ ∃ c, s.coordinators.lookup claim.1 = some c ∧ c.claimTx = some claim.2 := by
  obtain ⟨k, tx⟩ := claim
  simp only [sortedClaims, List.mem_mergeSort, List.mem_filterMap, snapshot, List.mem_map,
    exists_exists_and_eq_and, Option.map_eq_some_iff, Prod.mk.injEq, Table.lookup_eq_some_iff]
  constructor
  · rintro ⟨e, he, tx', htx, hid, rfl⟩
    have hkey : e.2.ctx.swapId = e.1 := (h.filed e.1 e.2 ((Table.lookup_eq_some_iff _ _ _).mpr he)).1
    have hk : e.1 = k := hkey.symm.trans hid
    subst hk
    exact ⟨e.2, he, htx⟩
  · rintro ⟨c, he, htx⟩
    exact ⟨⟨k, c⟩, he, tx, htx, (h.filed k c ((Table.lookup_eq_some_iff _ _ _).mpr he)).1, rfl⟩

theorem restoreBytes_encodeSnapshot (h : s.Encodable) (identity : NodeIdentity) (ladder : LadderParams) :
    restoreBytes identity ladder s.encodeSnapshot =
      .ok (s.sortedClaims.foldl rearmClaim (s.sortedTombstones.foldl rearm
        (restore identity ladder s.records))) := by
  unfold restoreBytes
  rw [decodeSnapshotFull_encodeSnapshot h]
  rfl

/-- The records bring every swap back but for its claim. -/
theorem restore_records_lookup (h : s.Kept) (identity : NodeIdentity) (ladder : LadderParams) (k : SwapId) :
    (restore identity ladder s.records).coordinators.lookup k =
      (s.coordinators.lookup k).map fun c => { c with ladder, claimTx := none } := by
  cases hc : s.coordinators.lookup k with
  | none =>
    refine (restore_fold_lookup_none s.records ?_ _).trans rfl
    intro a ha hk
    obtain ⟨c, hc', -⟩ := lookup_of_mem_records h ha
    rw [hk, hc] at hc'
    cases hc'
  | some c =>
    obtain ⟨hid, hterms, -⟩ := h.filed k c hc
    have hmem : ({ c.toSnapshot with claimTx := none } : CoordinatorSnapshot) ∈ s.records :=
      mem_records_iff.mpr ⟨k, c, hc, rfl⟩
    have hone : ∀ a ∈ s.records, a.ctx.swapId = k → a = { c.toSnapshot with claimTx := none } := by
      intro a ha hk
      obtain ⟨d, hd, rfl⟩ := lookup_of_mem_records h ha
      rw [hk, hc] at hd
      cases hd
      rfl
    rw [restore, restore_fold_lookup (by exact hid) s.records hone, if_pos hmem]
    simp only [SwapCoordinator.fromSnapshot, SwapCoordinator.toSnapshot, SwapCoordinator.role,
      SwapCoordinator.phase, ← hterms, new, Option.map_some]

/-- The claims give every swap the one it had recorded. -/
theorem rearm_sortedClaims_lookup (h : s.Kept) {s₀ : Session} {ladder : LadderParams} (k : SwapId)
    (h₀ : s₀.coordinators.lookup k =
      (s.coordinators.lookup k).map fun c => { c with ladder, claimTx := none }) :
    (s.sortedClaims.foldl rearmClaim s₀).coordinators.lookup k =
      (s.coordinators.lookup k).map fun c => { c with ladder } := by
  have hclaim : ∀ a ∈ s.sortedClaims, a.1 = k →
      ∃ c, s.coordinators.lookup k = some c ∧ c.claimTx = some a.2 := by
    intro a ha hk
    have hheld := (mem_sortedClaims_iff h).mp ha
    rwa [hk] at hheld
  cases hc : s.coordinators.lookup k with
  | none =>
    rw [rearmClaim_fold_lookup_none, h₀, hc]
    · rfl
    · intro a ha hk
      obtain ⟨d, hd, -⟩ := hclaim a ha hk
      rw [hc] at hd
      cases hd
  | some c =>
    cases htx : c.claimTx with
    | none =>
      rw [rearmClaim_fold_lookup_none, h₀, hc]
      · simp [← htx]
      · intro a ha hk
        obtain ⟨d, hd, hdtx⟩ := hclaim a ha hk
        rw [hc] at hd
        cases hd
        rw [htx] at hdtx
        cases hdtx
    | some tx =>
      have hmem : (k, tx) ∈ s.sortedClaims := (mem_sortedClaims_iff h).mpr ⟨c, hc, htx⟩
      rw [@rearmClaim_fold_lookup k tx, h₀, hc]
      · simp [hmem, SwapCoordinator.noteClaimBroadcast, ← htx]
      · intro a ha hk
        obtain ⟨d, hd, hdtx⟩ := hclaim a ha hk
        rw [hc] at hd
        cases hd
        rw [htx] at hdtx
        exact (Option.some.inj hdtx).symm

/-- The tombstones are the old ones: the records add none that was not set. -/
theorem hasInitiated_restored (h : s.Kept) (identity : NodeIdentity) (ladder : LadderParams) (id : SwapId) :
    (s.sortedTombstones.foldl rearm (restore identity ladder s.records)).hasInitiated id =
      s.hasInitiated id := by
  rw [Bool.eq_iff_iff, rearm_fold_hasInitiated, mem_sortedTombstones, restore, restore_fold_hasInitiated]
  constructor
  · rintro (hid | ⟨a, ha, hr, hk⟩ | hnew)
    · exact hid
    · obtain ⟨c, hc, rfl⟩ := lookup_of_mem_records h ha
      rw [hk] at hc
      exact h.tombstoned id c hc hr
    · cases hnew
  · exact .inl

/-- CORRECT: every session that the code can build and that fits its counts comes back from its blob with
    the same swaps, on the ladder it is restored to, and the same tombstones. A blob that was cut short is
    refused, or ends exactly behind the records or behind the tombstones, and then reads as all of them. -/
theorem snapshot_fidelity {env : Env} {s : Session} (hs : s.Built env) (h : s.Encodable)
    (identity : NodeIdentity) (ladder : LadderParams) :
    (∃ s', restoreBytes identity ladder s.encodeSnapshot = .ok s' ∧
      (∀ k, s'.coordinators.lookup k = (s.coordinators.lookup k).map fun c => { c with ladder }) ∧
      ∀ id, s'.hasInitiated id = s.hasInitiated id) ∧
    ∀ pre suf, suf ≠ [] → pre ++ suf = s.encodeSnapshot →
      (∃ err, decodeSnapshotFull pre = .error err) ∨
      (pre = s.recordSection ∧ decodeSnapshotFull pre = .ok (s.records, [], [])) ∨
      (pre = s.recordSection ++ s.tombstoneSection ∧
        decodeSnapshotFull pre = .ok (s.records, s.sortedTombstones, [])) := by
  have hkept := hs.kept
  refine ⟨⟨_, restoreBytes_encodeSnapshot h identity ladder, fun k => ?_, fun id => ?_⟩,
    fun pre suf hsuf hcut => decodeSnapshotFull_cut h hsuf hcut⟩
  · refine rearm_sortedClaims_lookup hkept k ?_
    rw [rearm_fold_coordinators]
    exact restore_records_lookup hkept identity ladder k
  · rw [rearmClaim_fold_hasInitiated]
    exact hasInitiated_restored hkept identity ladder id

theorem sample_snapshot_fidelity :
    ∃ s', restoreBytes Sample.alice.identity {} (Sample.alice.step Sample.env (.initiate Sample.swapId 0)).encodeSnapshot
        = .ok s' ∧ s'.hasInitiated Sample.swapId = true := by
  have hs : (Sample.alice.step Sample.env (.initiate Sample.swapId 0)).Built Sample.env :=
    .called _ (.fresh Sample.alice_fresh)
  have hfit : (Sample.alice.step Sample.env (.initiate Sample.swapId 0)).Encodable :=
    ⟨by decide +kernel, by decide +kernel, by decide +kernel⟩
  obtain ⟨s', hread, -, htomb⟩ := (snapshot_fidelity hs hfit Sample.alice.identity {}).1
  exact ⟨s', hread, (htomb Sample.swapId).trans (by decide +kernel)⟩

end Session

end Nimmesh
