import Nimmesh.Swap.Recovery

/-! @src swap_recovery.rs swap_session.rs swap_node.rs | name:No swap is reissued | layer:properties

    A node over its restarts: a worker, and the state of its session when it was last written to disk.
    The trace goes on over a restart, so what was initiated before it still counts. A tombstone
    survives everything but a blob that is older than the initiation or whose counts wrapped. -/

namespace Nimmesh

namespace Session

/-! ### What a restart keeps -/

theorem rearm_hasInitiated (s : Session) (k id : SwapId) :
    (s.rearm k).hasInitiated id = true ↔ id = k ∨ s.hasInitiated id = true := by
  simp only [rearm, hasInitiated, Table.lookup_insert_iff]
  split_ifs with h <;> simp [h]

/-- Every re-armed tombstone is there. -/
theorem rearm_fold_hasInitiated {id : SwapId} : ∀ (ids : List SwapId) (s : Session),
    (ids.foldl rearm s).hasInitiated id = true ↔ id ∈ ids ∨ s.hasInitiated id = true
  | [], s => by simp
  | k :: ids, s => by
      rw [List.foldl_cons, rearm_fold_hasInitiated ids, rearm_hasInitiated, List.mem_cons]
      tauto

theorem rearmClaim_fold_hasInitiated {id : SwapId} : ∀ (claims : List (SwapId × Hash)) (s : Session),
    (claims.foldl rearmClaim s).hasInitiated id = s.hasInitiated id
  | [], _ => rfl
  | claim :: claims, s => rearmClaim_fold_hasInitiated claims (s.rearmClaim claim)

theorem mem_sortedTombstones {s : Session} {id : SwapId} :
    id ∈ s.sortedTombstones ↔ s.hasInitiated id = true := by
  rw [sortedTombstones, List.mem_mergeSort, ← AList.mem_keys, hasInitiated, AList.lookup_isSome]

/-- The session a node starts with after a crash: a blob that does not decode is as good as none. -/
def restartFrom (identity : NodeIdentity) (ladder : LadderParams) (disk : Session) : Session :=
  match restoreBytes identity ladder disk.encodeSnapshot with
  | .ok s => s
  | .error _ => new identity ladder

/-- A blob that fits brings every tombstone back. -/
theorem restartFrom_hasInitiated {identity : NodeIdentity} {ladder : LadderParams} {disk : Session}
    (hfit : disk.Encodable) {id : SwapId} (h : disk.hasInitiated id = true) :
    (restartFrom identity ladder disk).hasInitiated id = true := by
  have hrestore : restoreBytes identity ladder disk.encodeSnapshot =
      .ok (disk.sortedClaims.foldl rearmClaim (disk.sortedTombstones.foldl rearm
        (restore identity ladder (disk.snapshot.map fun snap => { snap with claimTx := none })))) := by
    unfold restoreBytes
    rw [decodeSnapshotFull_encodeSnapshot hfit]
    rfl
  rw [restartFrom, hrestore]
  dsimp only
  rw [rearmClaim_fold_hasInitiated]
  exact (rearm_fold_hasInitiated _ _).mpr (.inl (mem_sortedTombstones.mpr h))

/-- Every coordinator is filed under its own id and runs on its agreed terms and the session's ladder. -/
def Filed (s : Session) : Prop :=
  ∀ k c, s.coordinators.lookup k = some c →
    c.ctx.swapId = k ∧ c.swap.terms = c.ctx.terms ∧ c.ladder = s.ladder

theorem restoreOne_ladder (s : Session) (snap : CoordinatorSnapshot) :
    (s.restoreOne snap).ladder = s.ladder := by
  simp only [restoreOne]
  split_ifs <;> rfl

theorem lookup_restoreOne (s : Session) (snap : CoordinatorSnapshot) (k : SwapId) :
    (s.restoreOne snap).coordinators.lookup k =
      if k = snap.ctx.swapId then some (SwapCoordinator.fromSnapshot snap s.ladder)
      else s.coordinators.lookup k := by
  simp only [restoreOne]
  split_ifs <;> simp [setCoord, *]

theorem filed_restoreOne (s : Session) (snap : CoordinatorSnapshot) (h : s.Filed) :
    (s.restoreOne snap).Filed := by
  intro k c hc
  rw [lookup_restoreOne] at hc
  rw [restoreOne_ladder]
  split_ifs at hc with hk
  · cases hc
    exact ⟨hk.symm, rfl, rfl⟩
  · exact h k c hc

theorem filed_rearm (s : Session) (id : SwapId) (h : s.Filed) : (s.rearm id).Filed := h

theorem filed_rearmClaim (s : Session) (claim : SwapId × Hash) (h : s.Filed) :
    (s.rearmClaim claim).Filed := by
  intro k c hc
  rw [rearmClaim, Table.lookup_adjust] at hc
  split_ifs at hc
  · obtain ⟨c', hc', rfl⟩ := Option.map_eq_some_iff.mp hc
    exact h k c' hc'
  · exact h k c hc

theorem filed_new (identity : NodeIdentity) (ladder : LadderParams) : (new identity ladder).Filed := by
  intro k c hc
  rw [show (new identity ladder).coordinators = ∅ from rfl, AList.lookup_empty] at hc
  cases hc

/-- Whatever the blob, the session it gives is well formed. -/
theorem restartFrom_wf (env : Env) (identity : NodeIdentity) (ladder : LadderParams) (disk : Session) :
    (restartFrom identity ladder disk).WF env := by
  have hfiled : (restartFrom identity ladder disk).Filed := by
    unfold restartFrom restoreBytes
    cases decodeSnapshotFull disk.encodeSnapshot with
    | error err => exact filed_new identity ladder
    | ok full =>
      have hrestored := Run.exec_preserves (I := Filed) restoreOne filed_restoreOne full.1 _
        (filed_new identity ladder)
      have hrearmed := Run.exec_preserves (I := Filed) rearm filed_rearm full.2.1 _ hrestored
      exact Run.exec_preserves (I := Filed) rearmClaim filed_rearmClaim full.2.2 _ hrearmed
  intro k c hc
  obtain ⟨hid, ht, hl⟩ := hfiled k c hc
  exact ⟨hid, ht, hl⟩

end Session

/-! ### The host -/

/-- A node over its restarts. -/
structure Host where
  worker : Worker
  disk : Session

inductive HostOp where
  | work (op : WorkerOp)
  | call (op : Op)
  | save
  | restart (identity : NodeIdentity) (ladder : LadderParams)

namespace Host

abbrev session (h : Host) : Session := h.worker.session

/-- A handler, a direct call on the session, a snapshot to disk, or a crash and a restart. -/
def step (env : Env) (h : Host) : HostOp → Host
  | .work op => { h with worker := h.worker.step env op }
  | .call op => { h with worker := { h.worker with session := h.session.step env op } }
  | .save => { h with disk := h.session }
  | .restart identity ladder =>
    { h with worker := { live := h.worker.live
                         session := { Session.restartFrom identity ladder h.disk with
                                      trace := h.session.trace } } }

def exec (env : Env) (h : Host) (ops : List HostOp) : Host := Run.exec (step env) h ops

/-- A restart finds a blob that is not older than the last initiation and that fits its counts. -/
def RestartsIntact (h : Host) : HostOp → Prop
  | .restart _ _ => h.disk.Encodable ∧
      ∀ id, h.session.hasInitiated id = true → h.disk.hasInitiated id = true
  | _ => True

end Host

/-! ### At most one initiation -/

/-- An event that initiates a swap. -/
def initiates : Event → Bool
  | .created _ .initiator _ => true
  | _ => false

/-- A swap was initiated at most once, and not at all without its tombstone. -/
def InitiatedOnce (sl : Slot) : Prop := sl.hist.countP initiates ≤ if sl.tombstone then 1 else 0

theorem initiatedOnce_step {cfg : Config} {now : Option UInt64} {id : SwapId} (a b : Slot)
    (hs : SlotStep cfg now id a b)
    (ha : InitiatedOnce a) : InitiatedOnce b := by
  unfold InitiatedOnce at ha ⊢
  cases hs with
  | createInitiator fresh =>
    rw [List.countP_cons_of_pos rfl]
    simpa using ha
  | learnSecret | refund | forfeit | drop => exact ha
  | _ =>
    rw [List.countP_cons_of_neg (by simp [initiates])]
    exact ha

theorem initiatedOnce_invariant (cfg : Config) (now : Option UInt64) (k : SwapId) :
    Session.SlotInvariant cfg now k InitiatedOnce :=
  ⟨fun a b hs _ ha => initiatedOnce_step a b hs ha, fun _ ha => ha⟩

/-- A tombstone that is set keeps the count, whatever happened to the coordinator. -/
theorem InitiatedOnce.tombstone_mono {a b : Slot} (ha : InitiatedOnce a) (hh : b.hist = a.hist)
    (ht : a.tombstone = true → b.tombstone = true) : InitiatedOnce b := by
  unfold InitiatedOnce at ha ⊢
  rw [hh]
  cases hta : a.tombstone with
  | true =>
    rw [ht hta]
    simpa [hta] using ha
  | false =>
    rw [hta] at ha
    exact ha.trans (Nat.zero_le _)

namespace Host

/-- What holds of a host at every point of a run. -/
structure NeverReissued (env : Env) (h : Host) : Prop where
  wf : h.session.WF env
  once : ∀ k, InitiatedOnce (h.session.slot k)

theorem neverReissued_of_fresh (env : Env) {h : Host} (hf : h.session.Fresh) : NeverReissued env h := by
  refine ⟨hf.wf env, fun k => ?_⟩
  rw [hf.slot k]
  exact le_rfl

theorem wf_of_trace {env : Env} {s : Session} (hs : s.WF env) (tr : List Event) :
    ({ s with trace := tr } : Session).WF env := fun k c hc => hs k c hc

/-- Every step keeps it: the calls by the slot automaton, a restart by the blob it finds. -/
theorem neverReissued_step {env : Env} (h : Host) (op : HostOp) (hi : NeverReissued env h)
    (hok : h.RestartsIntact op) : NeverReissued env (h.step env op) := by
  cases op with
  | work op =>
    refine ⟨?_, fun k => ?_⟩
    · show ((h.worker.step env op).session).WF env
      rw [Worker.step_session]
      exact (Session.exec_config_wf hi.wf _).2
    · show InitiatedOnce ((h.worker.step env op).session.slot k)
      rw [Worker.step_session]
      exact Session.SlotInvariant.run (fun now => initiatedOnce_invariant _ now k) hi.wf (hi.once k) _
  | call op =>
    exact ⟨(Session.step_config_wf hi.wf op).2,
      fun k => (initiatedOnce_invariant _ _ k).call hi.wf (hi.once k)⟩
  | save => exact ⟨hi.wf, hi.once⟩
  | restart identity ladder =>
    refine ⟨wf_of_trace (Session.restartFrom_wf env identity ladder h.disk) _, fun k => ?_⟩
    refine (hi.once k).tombstone_mono rfl fun ht => ?_
    exact Session.restartFrom_hasInitiated hok.1 (hok.2 k ht)

/-- A step keeps every tombstone. -/
theorem hasInitiated_step {env : Env} {h : Host} (hi : NeverReissued env h) {op : HostOp}
    (hok : h.RestartsIntact op) {id : SwapId} (ht : h.session.hasInitiated id = true) :
    (h.step env op).session.hasInitiated id = true := by
  cases op with
  | work op =>
    show ((h.worker.step env op).session).hasInitiated id = true
    rw [Worker.step_session]
    exact Session.hasInitiated_exec hi.wf ht _
  | call op => exact Session.hasInitiated_step hi.wf ht op
  | save => exact ht
  | restart identity ladder => exact Session.restartFrom_hasInitiated hok.1 (hok.2 id ht)

/-- An initiation that is refused builds no `Propose` and changes nothing. -/
theorem initiateFromIntent_of_tombstone (env : Env) {s : Session} {id : SwapId}
    (h : s.hasInitiated id = true) (head : UInt64) : s.initiateFromIntent env id head = ([], s) := by
  unfold Session.initiateFromIntent
  split
  · rfl
  · rename_i standing _
    have hno : s.mayInitiate standing id = false := by
      simp [Session.mayInitiate, h]
    rw [hno]
    rfl

/-- CORRECT: in every run whose restarts find their blob intact, each swap is initiated at most once;
    what was initiated stays tombstoned through every further step, and no `Propose` is ever built for it
    again. -/
theorem initiator_never_reissues (env : Env) (h₀ : Host) (hf : h₀.session.Fresh) (ops : List HostOp)
    (hok : Run.Along (step env) RestartsIntact h₀ ops) :
    (∀ id, ((h₀.exec env ops).session.trace.filter fun e => e.swapId = id).countP initiates ≤ 1) ∧
    (∀ id peer, .created id .initiator peer ∈ (h₀.exec env ops).session.trace →
      (h₀.exec env ops).session.hasInitiated id = true) ∧
    (∀ op id, (h₀.exec env ops).RestartsIntact op → (h₀.exec env ops).session.hasInitiated id = true →
      ((h₀.exec env ops).step env op).session.hasInitiated id = true) ∧
    ∀ id head, (h₀.exec env ops).session.hasInitiated id = true →
      (h₀.exec env ops).session.initiateFromIntent env id head = ([], (h₀.exec env ops).session) := by
  have hi : NeverReissued env (h₀.exec env ops) :=
    Run.exec_invariant (step env) neverReissued_step ops h₀ (neverReissued_of_fresh env hf) hok
  refine ⟨fun id => ?_, fun id peer hm => ?_, fun op id hop ht => hasInitiated_step hi hop ht,
    fun id head ht => initiateFromIntent_of_tombstone env ht head⟩
  · refine (hi.once id).trans ?_
    split_ifs <;> omega
  · have honce := hi.once id
    have hpos : 0 < ((h₀.exec env ops).session.slot id).hist.countP initiates :=
      List.countP_pos_iff.mpr ⟨.created id .initiator peer,
        List.mem_filter.mpr ⟨hm, by simp [Event.swapId]⟩, rfl⟩
    by_contra hno
    have htomb : ((h₀.exec env ops).session.slot id).tombstone = false := Bool.eq_false_iff.mpr hno
    unfold InitiatedOnce at honce
    rw [htomb] at honce
    exact absurd hpos (not_lt.mpr honce)

/-- The sample initiator initiates its swap, is saved and restarted, and is asked to initiate again. -/
theorem sample_never_reissues :
    ((exec Sample.env ⟨Sample.aliceWorker, Sample.alice⟩ [.call (.initiate Sample.swapId 0), .save,
        .restart Sample.alice.identity {}, .call (.initiate Sample.swapId 0)]).session.trace.filter
      fun e => e.swapId = Sample.swapId).countP initiates ≤ 1 := by
  have hok : Run.Along (step Sample.env) RestartsIntact ⟨Sample.aliceWorker, Sample.alice⟩
      [.call (.initiate Sample.swapId 0), .save, .restart Sample.alice.identity {},
        .call (.initiate Sample.swapId 0)] := by
    refine ⟨trivial, trivial, ⟨⟨by decide +kernel, by decide +kernel, by decide +kernel⟩, fun id h => h⟩,
      trivial, trivial⟩
  revert hok
  generalize [HostOp.call (.initiate Sample.swapId 0), .save, .restart Sample.alice.identity {},
    .call (.initiate Sample.swapId 0)] = ops
  intro hok
  exact (initiator_never_reissues Sample.env ⟨Sample.aliceWorker, Sample.alice⟩ Sample.alice_fresh ops
    hok).1 Sample.swapId

/-! ### The count that wraps -/

/-- The `i`-th of `2 ^ 16` ids. -/
def idOf (i : ℕ) : SwapId := ⟨beBytes16 i ++ List.replicate 14 0, rfl⟩

theorem idOf_injective {i j : ℕ} (hi : i < 65536) (hj : j < 65536) (h : idOf i = idOf j) : i = j := by
  have htake : beBytes16 i = beBytes16 j := congrArg (fun x : SwapId => x.1.take 2) h
  have hval := congrArg u16OfBe htake
  rw [u16OfBe_beBytes16, u16OfBe_beBytes16] at hval
  omega

/-- Initiate and cancel the first `n` ids. -/
def burn (n : ℕ) : List Op := (List.range n).flatMap fun i => [.initiate (idOf i) 0, .cancel (idOf i)]

/-- After `n` rounds no swap is held, and there are `n` tombstones. -/
structure Burnt (n : ℕ) (s : Session) : Prop where
  identity : s.identity = Sample.alice.identity
  caps : s.caps = none
  coordinators : s.coordinators = ∅
  count : s.initiatedEver.len = n
  ids : ∀ id, s.hasInitiated id = true → ∃ i < n, id = idOf i
  started : 0 < n → .created (idOf 0) .initiator none ∈ s.trace

theorem mayInitiate_of_burnt {n : ℕ} {s : Session} (h : Burnt n s) {id : SwapId}
    (hid : s.hasInitiated id = false) : s.mayInitiate Sample.intent id = true := by
  refine (Session.mayInitiate_iff s Sample.intent id).mpr ⟨?_, hid, ?_, ?_⟩
  · rw [h.coordinators]
    exact AList.notMem_empty id
  · rw [h.coordinators, h.identity]
    decide
  · rw [Session.withinCaps, h.caps]

/-- The initiator that an initiation at head 0 builds. -/
def freshInitiator (s : Session) (id : SwapId) : SwapCoordinator :=
  (SwapCoordinator.newInitiator (Session.initiatorContext Sample.intent id
    (Sample.env.sha256 (Sample.env.secretSource s.trace id).1) 0)
    (Sample.env.secretSource s.trace id) s.ladder).1

theorem initiate_of_burnt {n : ℕ} {s : Session} (h : Burnt n s) {id : SwapId}
    (hid : s.hasInitiated id = false) :
    s.step Sample.env (.initiate id 0) = s.addInitiator id (freshInitiator s id) := by
  have hstanding : s.identity.standingIntent = some Sample.intent := by
    rw [h.identity]
    rfl
  simp only [Session.step, Session.initiateFromIntent, hstanding, mayInitiate_of_burnt h hid, if_true]
  rfl

theorem cancel_of_initiated (s : Session) (id : SwapId) :
    (s.addInitiator id (freshInitiator s id)).step Sample.env (.cancel id) =
      (s.addInitiator id (freshInitiator s id)).tearDown id := by
  have hlookup : (s.addInitiator id (freshInitiator s id)).coordinators.lookup id =
      some (freshInitiator s id) := by
    simp [Session.addInitiator, Session.setCoord, Session.log]
  have hlocked : (freshInitiator s id).phase.hasFundsLocked = false := rfl
  simp only [Session.step, Session.cancel, hlookup, hlocked, Bool.false_eq_true, if_false]

/-- One round. -/
theorem burnt_round {n : ℕ} (hn : n < 65536) {s : Session} (h : Burnt n s) :
    Burnt (n + 1) (s.exec Sample.env [.initiate (idOf n) 0, .cancel (idOf n)]) := by
  have hnew : s.hasInitiated (idOf n) = false := by
    rw [Bool.eq_false_iff]
    intro ht
    obtain ⟨i, hi, he⟩ := h.ids _ ht
    have heq := idOf_injective hn (by omega) he
    omega
  have hmem : idOf n ∉ s.initiatedEver := by
    rw [← AList.lookup_isSome]
    exact Bool.eq_false_iff.mp hnew
  rw [Session.exec_cons, Session.exec_cons, initiate_of_burnt h hnew, cancel_of_initiated]
  refine ⟨h.identity, h.caps, ?_, ?_, fun id ht => ?_, fun _ => ?_⟩
  · show (s.coordinators.insert (idOf n) _).erase (idOf n) = ∅
    rw [h.coordinators]
    exact Table.erase_insert_empty _ _
  · show Table.len (s.initiatedEver.insert (idOf n) ()) = n + 1
    rw [Table.len_insert_of_notMem hmem, h.count]
  · rcases (Session.rearm_hasInitiated s (idOf n) id).mp ht with rfl | hold
    · exact ⟨n, Nat.lt_succ_self n, rfl⟩
    · obtain ⟨i, hi, rfl⟩ := h.ids id hold
      exact ⟨i, Nat.lt_succ_of_lt hi, rfl⟩
  · show _ ∈ .created (idOf n) .initiator none :: s.trace
    rcases Nat.eq_zero_or_pos n with rfl | hpos
    · exact List.mem_cons_self
    · exact List.mem_cons_of_mem _ (h.started hpos)

theorem burnt_zero (tr : List Event) : Burnt 0 { Sample.alice with trace := tr } := by
  refine ⟨rfl, rfl, rfl, rfl, fun id ht => ?_, fun h => absurd h (lt_irrefl 0)⟩
  cases ht

theorem burnt_run : ∀ n ≤ 65536, Burnt n (Sample.alice.exec Sample.env (burn n))
  | 0, _ => burnt_zero []
  | n + 1, hn => by
      have hprev := burnt_run n (by omega)
      rw [burn, List.range_succ, List.flatMap_append, Session.exec_append]
      exact burnt_round (by omega) hprev

/-- The blob of no coordinator and `2 ^ 16` tombstones reads as no coordinator and no tombstone: the
    tombstones themselves are taken for claims. -/
theorem decode_of_burnt {s : Session} (h : Burnt 65536 s) {full : FullSnapshot}
    (hd : decodeSnapshotFull s.encodeSnapshot = .ok full) : full.1 = [] ∧ full.2.1 = [] := by
  have hsnap : s.snapshot = [] := by
    rw [Session.snapshot, h.coordinators]
    rfl
  have hcount : s.sortedTombstones.length = 65536 := by rw [Session.sortedTombstones_length, h.count]
  have hsection : Codec.Reads (decodeSection decodeOne) (beBytes16 0) [] :=
    @reads_section _ decodeOne encodeRecord [] (by simp) (by simp)
  have htrailer : Codec.Reads (decodeTrailer (Reader.arr swapIdLen)) (beBytes16 0) [] :=
    @reads_trailer _ (Reader.arr swapIdLen) (·.1) [] (by simp) (by simp)
  have hbytes : s.encodeSnapshot = beBytes16 0 ++ (beBytes16 0 ++ (s.sortedTombstones.flatMap (·.1) ++
      (beBytes16 s.sortedClaims.length ++ s.sortedClaims.flatMap fun c => c.1.1 ++ c.2.1))) := by
    have hzero : beBytes16 65536 = beBytes16 0 := by decide
    rw [Session.encodeSnapshot, hsnap, hcount, hzero]
    simp [encodeSnapshot]
  rw [hbytes, decodeSnapshotFull, decodeSections, hsection.bind_run, htrailer.bind_run] at hd
  generalize s.sortedTombstones.flatMap (·.1) ++ _ = rest at hd
  change (decodeTrailer decodeClaim rest >>= fun r => _) >>= _ = _ at hd
  cases hc : decodeTrailer decodeClaim rest with
  | error err =>
    rw [hc] at hd
    cases hd
  | ok r =>
    rw [hc] at hd
    cases hd
    exact ⟨rfl, rfl⟩

theorem rearmClaim_of_empty {s : Session} (h : s.coordinators = ∅) (claim : SwapId × Hash) :
    s.rearmClaim claim = s := by
  have hadjust : ∀ f : SwapCoordinator → SwapCoordinator, s.coordinators.adjust claim.1 f = s.coordinators := by
    intro f
    rw [h]
    exact AList.ext rfl
  rw [Session.rearmClaim, hadjust]

theorem rearmClaim_fold_of_empty : ∀ (claims : List (SwapId × Hash)) {s : Session},
    s.coordinators = ∅ → claims.foldl Session.rearmClaim s = s
  | [], _, _ => rfl
  | claim :: claims, s, h => by
      rw [List.foldl_cons, rearmClaim_of_empty h]
      exact rearmClaim_fold_of_empty claims h

/-- Such a blob gives a node that has forgotten everything. -/
theorem restartFrom_of_burnt {s : Session} (h : Burnt 65536 s) :
    Session.restartFrom Sample.alice.identity {} s = Sample.alice := by
  unfold Session.restartFrom Session.restoreBytes
  cases hd : decodeSnapshotFull s.encodeSnapshot with
  | error err => rfl
  | ok full =>
    obtain ⟨snaps, tombstones, claims⟩ := full
    obtain ⟨rfl, rfl⟩ : snaps = [] ∧ tombstones = [] := decode_of_burnt h hd
    exact rearmClaim_fold_of_empty claims rfl

theorem exec_calls (env : Env) : ∀ (ops : List Op) (h : Host),
    h.exec env (ops.map .call) =
      { h with worker := { h.worker with session := h.session.exec env ops } }
  | [], _ => rfl
  | op :: ops, h => exec_calls env ops (h.step env (.call op))

theorem exec_append (env : Env) (h : Host) (ops ops' : List HostOp) :
    h.exec env (ops ++ ops') = (h.exec env ops).exec env ops' := Run.exec_append (step env) h ops ops'

/-- The session that a saved and restarted node makes its next call on. -/
theorem restarted_session (env : Env) (h : Host) (identity : NodeIdentity) (ladder : LadderParams)
    (op : Op) : (h.exec env [.save, .restart identity ladder, .call op]).session =
      ({ Session.restartFrom identity ladder h.session with trace := h.session.trace } : Session).step env
        op := rfl

/-- A node that is saved with `2 ^ 16` tombstones and restarted initiates the first swap again. -/
theorem reissues_of_burnt {ops : List Op} (h : Burnt 65536 (Sample.alice.exec Sample.env ops)) :
    2 ≤ ((exec Sample.env ⟨Sample.aliceWorker, Sample.alice⟩ (ops.map .call ++
        [.save, .restart Sample.alice.identity {}, .call (.initiate (idOf 0) 0)])).session.trace.filter
      fun e => e.swapId = idOf 0).countP initiates := by
  have hrun : (exec Sample.env ⟨Sample.aliceWorker, Sample.alice⟩ (ops.map .call ++
      [.save, .restart Sample.alice.identity {}, .call (.initiate (idOf 0) 0)])).session =
      ({ Sample.alice with trace := (Sample.alice.exec Sample.env ops).trace } : Session).step Sample.env
        (.initiate (idOf 0) 0) := by
    rw [exec_append, exec_calls, restarted_session]
    dsimp only [session, Sample.aliceWorker]
    rw [restartFrom_of_burnt h]
  have hself : (Event.created (idOf 0) .initiator none).swapId = idOf 0 := rfl
  have hold : 0 < ((Sample.alice.exec Sample.env ops).trace.filter
      fun e => e.swapId = idOf 0).countP initiates :=
    List.countP_pos_iff.mpr ⟨_, List.mem_filter.mpr ⟨h.started (by omega), by simp [hself]⟩, rfl⟩
  rw [hrun, initiate_of_burnt (burnt_zero _) rfl]
  show 2 ≤ ((.created (idOf 0) .initiator none :: (Sample.alice.exec Sample.env ops).trace).filter
    _).countP initiates
  rw [List.filter_cons_of_pos (by simp [hself]), List.countP_cons_of_pos rfl]
  omega

/-- The node initiates and cancels `2 ^ 16` swaps, is saved and restarted, and the first of them
    matches again: the count of the tombstones has wrapped, and it initiates the same swap twice. -/
theorem wrapped_count_reissues :
    2 ≤ ((exec Sample.env ⟨Sample.aliceWorker, Sample.alice⟩ ((burn 65536).map .call ++
        [.save, .restart Sample.alice.identity {}, .call (.initiate (idOf 0) 0)])).session.trace.filter
      fun e => e.swapId = idOf 0).countP initiates :=
  reissues_of_burnt (burnt_run 65536 le_rfl)

end Host

end Nimmesh
