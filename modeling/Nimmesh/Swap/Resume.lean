import Nimmesh.Swap.FundingGate
import Nimmesh.Swap.Replay

/-! @src swap_session.rs swap_recovery.rs | name:Re-verification over a restart | layer:properties

    A swap that awaits its counterparty's funding is re-verified on the clock from the moment a
    `FundingProof` for it was seen. That mark is kept in memory only: no section of the blob carries it,
    so a restored session re-verifies nothing until another proof arrives. -/

namespace Nimmesh

namespace Session

/-- On its next tick the session consults the verifier about the counterparty funding of `id`. -/
def Reverifies (env : Env) (s : Session) (id : SwapId) : Prop :=
  ∃ new expect obs, (s.reverifyAwaitedFunding env).2.trace = new ++ s.trace ∧
    .observed id expect obs ∈ new

/-- On its next tick the session advances `id` past the funding gate. -/
def Advances (env : Env) (s : Session) (id : SwapId) : Prop := id ∈ (s.reverifyAwaitedFunding env).1

/-- The session that a node works with after a crash, restored from the blob of `s`. The trace goes on,
    so the verifier answers it what it would have answered `s`. -/
def restarted (identity : NodeIdentity) (ladder : LadderParams) (s : Session) : Session :=
  { restartFrom identity ladder s with trace := s.trace }

/-- A restart loses no re-verification: what `s` would re-verify, and so advance, on its next tick, the
    restored session does too. -/
def RestartTransparent (env : Env) (identity : NodeIdentity) (ladder : LadderParams) (s : Session) :
    Prop :=
  ∀ id, Reverifies env s id → Reverifies env (restarted identity ladder s) id ∧
    (Advances env s id → Advances env (restarted identity ladder s) id)

theorem mem_awaitingIds (s : Session) (id : SwapId) :
    id ∈ s.awaitingIds ↔ ∃ c, s.coordinators.lookup id = some c ∧ id ∈ s.fundingProofSeen ∧
      c.awaitsCounterpartyFunding = true := by
  simp [awaitingIds, Table.mem_keysWhere]

/-! ### What a re-verification consults -/

theorem reverifyOne_trace {env : Env} (acc : List SwapId × Session) {id : SwapId} {c : SwapCoordinator}
    (hc : acc.2.coordinators.lookup id = some c) :
    (reverifyOne env acc id).2.trace = .observed id c.counterpartyExpectation
      (env.observe acc.2.trace c.counterpartyExpectation) :: acc.2.trace := by
  have htrace : (acc.2.verifyCounterpartyFunding env id c).2.trace = .observed id c.counterpartyExpectation
      (env.observe acc.2.trace c.counterpartyExpectation) :: acc.2.trace := rfl
  simp only [reverifyOne, hc]
  split <;> rename_i heq <;> rw [heq] at htrace <;> exact htrace

theorem reverifyOne_onward {env : Env} (acc : List SwapId × Session) (id : SwapId) :
    OnwardAll acc.2 (reverifyOne env acc id).2 := by
  cases hc : acc.2.coordinators.lookup id with
  | none =>
    simp only [reverifyOne, hc]
    exact OnwardAll.of_eq rfl
  | some c =>
    have hver := verifyCounterpartyFunding_onward env hc
    simp only [reverifyOne, hc]
    split <;> rename_i heq <;> rw [heq] at hver <;> exact hver

/-- The loop consults the verifier about exactly the ids it is given, as far as they are held. -/
theorem reverifyFold_trace (env : Env) (ids : List SwapId) (acc : List SwapId × Session)
    (hheld : ∀ id ∈ ids, ∃ c, acc.2.coordinators.lookup id = some c) :
    ∃ new, (ids.foldl (reverifyOne env) acc).2.trace = new ++ acc.2.trace ∧
      ∀ id, (∃ expect obs, .observed id expect obs ∈ new) ↔ id ∈ ids := by
  induction ids generalizing acc with
  | nil => exact ⟨[], rfl, by simp⟩
  | cons k ids ih =>
    obtain ⟨c, hc⟩ := hheld k List.mem_cons_self
    have hheld' : ∀ id ∈ ids, ∃ c, (reverifyOne env acc k).2.coordinators.lookup id = some c := by
      intro id hid
      obtain ⟨d, hd⟩ := hheld id (List.mem_cons_of_mem _ hid)
      obtain ⟨d', hd', -⟩ := reverifyOne_onward acc k id d hd
      exact ⟨d', hd'⟩
    obtain ⟨new, he, hnew⟩ := ih (reverifyOne env acc k) hheld'
    refine ⟨new ++ [.observed k c.counterpartyExpectation
      (env.observe acc.2.trace c.counterpartyExpectation)], ?_, fun id => ?_⟩
    · rw [List.foldl_cons, he, reverifyOne_trace acc hc, List.append_assoc]
      rfl
    · constructor
      · rintro ⟨expect, obs, hm⟩
        rcases List.mem_append.mp hm with hm | hm
        · exact List.mem_cons_of_mem _ ((hnew id).mp ⟨expect, obs, hm⟩)
        · obtain ⟨rfl, -, -⟩ := Event.observed.inj (List.mem_singleton.mp hm)
          exact List.mem_cons_self
      · intro hid
        rcases List.mem_cons.mp hid with rfl | hid
        · exact ⟨_, _, List.mem_append_right _ (List.mem_singleton.mpr rfl)⟩
        · obtain ⟨expect, obs, hm⟩ := (hnew id).mpr hid
          exact ⟨expect, obs, List.mem_append_left _ hm⟩

/-- A tick re-verifies exactly the awaiting swaps whose proof was seen. -/
theorem reverifies_iff (env : Env) (s : Session) (id : SwapId) :
    Reverifies env s id ↔ id ∈ s.awaitingIds := by
  have hheld : ∀ k ∈ s.awaitingIds, ∃ c, s.coordinators.lookup k = some c := by
    intro k hk
    obtain ⟨c, hc, -⟩ := (mem_awaitingIds s k).mp hk
    exact ⟨c, hc⟩
  obtain ⟨new, he, hnew⟩ := reverifyFold_trace env s.awaitingIds ([], s) hheld
  rw [← hnew id]
  constructor
  · rintro ⟨new', expect, obs, he', hm⟩
    obtain rfl : new' = new := List.append_cancel_right (he'.symm.trans he)
    exact ⟨expect, obs, hm⟩
  · rintro ⟨expect, obs, hm⟩
    exact ⟨new, expect, obs, he, hm⟩

/-! ### What a restart forgets -/

theorem restartFrom_fundingProofSeen (identity : NodeIdentity) (ladder : LadderParams) (disk : Session) :
    (restartFrom identity ladder disk).fundingProofSeen = ∅ := by
  simp only [restartFrom, restoreBytes]
  cases hd : decodeSnapshotFull disk.encodeSnapshot with
  | error err => rfl
  | ok full =>
    have hone : ∀ s snap, s.fundingProofSeen = ∅ → (restoreOne s snap).fundingProofSeen = ∅ := by
      intro s snap hs
      simp only [restoreOne]
      split_ifs <;> exact hs
    have hrestore : (restore identity ladder full.1).fundingProofSeen = ∅ :=
      Run.exec_preserves restoreOne hone full.1 _ rfl
    have hrearm : (full.2.1.foldl rearm (restore identity ladder full.1)).fundingProofSeen = ∅ :=
      Run.exec_preserves (I := fun s => s.fundingProofSeen = ∅) rearm (fun _ _ hs => hs) full.2.1 _ hrestore
    exact Run.exec_preserves (I := fun s => s.fundingProofSeen = ∅) rearmClaim (fun _ _ hs => hs) full.2.2 _
      hrearm

/-- Whatever the session was, its restored one re-verifies nothing. -/
theorem awaitingIds_restarted (identity : NodeIdentity) (ladder : LadderParams) (s : Session) (id : SwapId) :
    id ∉ (restarted identity ladder s).awaitingIds := by
  intro hid
  obtain ⟨c, -, hseen, -⟩ := (mem_awaitingIds _ id).mp hid
  have hnone : (restarted identity ladder s).fundingProofSeen = ∅ :=
    restartFrom_fundingProofSeen identity ladder s
  rw [hnone] at hseen
  exact AList.notMem_empty id hseen

/-- EXACT: a restart is transparent to re-verification if and only if there is nothing to re-verify: no
    swap that awaits its counterparty's funding has had its proof seen. -/
theorem restart_transparent_iff (env : Env) (identity : NodeIdentity) (ladder : LadderParams)
    (s : Session) :
    RestartTransparent env identity ladder s ↔
      ∀ id c, s.coordinators.lookup id = some c → c.awaitsCounterpartyFunding = true →
        id ∉ s.fundingProofSeen := by
  constructor
  · intro h id c hc haw hseen
    have hre : Reverifies env s id := (reverifies_iff env s id).mpr
      ((mem_awaitingIds s id).mpr ⟨c, hc, hseen, haw⟩)
    exact awaitingIds_restarted identity ladder s id ((reverifies_iff env _ id).mp (h id hre).1)
  · intro h id hre
    obtain ⟨c, hc, hseen, haw⟩ := (mem_awaitingIds s id).mp ((reverifies_iff env s id).mp hre)
    exact absurd hseen (h id c hc haw)

/-! ### A proof that came too early -/

/-- The responder accepts, and sees a proof whose HTLC is not buried yet. -/
def earlyProof : List Op :=
  Sample.packet .propose Sample.propose 0 ++ Sample.packet .fundingProof (Sample.fundingProof .nim) 0

/-- The responder would advance on its next tick; restored from its own blob it does not look. -/
theorem restart_loses_reverification :
    (Sample.bob.exec slowChain earlyProof).Reachable slowChain ∧
    Advances slowChain (Sample.bob.exec slowChain earlyProof) Sample.swapId ∧
    ¬ RestartTransparent slowChain Sample.bob.identity Sample.bob.ladder (Sample.bob.exec slowChain earlyProof) := by
  have hadv : Sample.swapId ∈ ((Sample.bob.exec slowChain earlyProof).reverifyAwaitedFunding slowChain).1 := by
    decide +kernel
  have hawait : Sample.swapId ∈ (Sample.bob.exec slowChain earlyProof).awaitingIds := by decide +kernel
  revert hadv hawait
  generalize earlyProof = ops
  intro hadv hawait
  refine ⟨reachable_exec slowChain Sample.bob_fresh ⟨by decide, nofun⟩ ops, hadv, fun h => ?_⟩
  have hre := (h Sample.swapId ((reverifies_iff _ _ _).mpr hawait)).1
  exact awaitingIds_restarted _ _ _ _ ((reverifies_iff _ _ _).mp hre)

end Session

end Nimmesh
