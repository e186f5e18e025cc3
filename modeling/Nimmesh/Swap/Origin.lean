import Mathlib.Data.List.Induction
import Nimmesh.Swap.Ops

/-! @src swap_session.rs swap_node.rs | name:Where a context comes from | layer:refinement

    A coordinator never changes its role or its context, and a session never changes its identity. So
    the context of a held coordinator is the one it was created with: that of an admitted `Propose` for
    a responder, that of the standing intent for an initiator. -/

namespace Nimmesh

/-- An event that creates a coordinator. -/
def isCreated : Event → Bool
  | .created .. => true
  | _ => false

/-- The coordinator of a slot is the one that `a` held, unless one was created since. -/
def SameSwapAs (a sl : Slot) : Prop :=
  a.hist.countP isCreated ≤ sl.hist.countP isCreated ∧
  (sl.hist.countP isCreated = a.hist.countP isCreated →
    ∀ c', sl.coord = some c' → ∃ c, a.coord = some c ∧ c'.role = c.role ∧ c'.ctx = c.ctx)

theorem sameSwapAs_step {cfg : Config} {now : Option UInt64} {id : SwapId} {a : Slot} (x y : Slot)
    (hs : SlotStep cfg now id x y) (hx : SameSwapAs a x) : SameSwapAs a y := by
  obtain ⟨hle, hsame⟩ := hx
  rcases hs.kinds with ⟨c, peer, -, -, hh, -⟩ | ⟨c, c', new, hxc, hyc, hh, hin⟩ | ⟨c, -, hyc, hh, -⟩
  · have hcount : y.hist.countP isCreated = x.hist.countP isCreated + 1 := by
      rw [hh, List.countP_cons_of_pos rfl]
    exact ⟨by omega, fun h => by omega⟩
  · have hcount : y.hist.countP isCreated = x.hist.countP isCreated := by
      rw [hh, List.countP_append]
      have hnew : new.countP isCreated = 0 := by
        rw [List.countP_eq_zero]
        intro e he hcr
        cases e with
        | created i r peer => exact hin.creates i r peer he
        | _ => cases hcr
      omega
    refine ⟨by omega, fun h d hd => ?_⟩
    rw [hyc] at hd
    cases hd
    obtain ⟨c₀, hc₀, hr, hx⟩ := hsame (by omega) c hxc
    exact ⟨c₀, hc₀, hin.role.trans hr, hin.ctx.trans hx⟩
  · refine ⟨by rw [hh]; exact hle, fun _ d hd => ?_⟩
    rw [hyc] at hd
    cases hd

namespace Session

/-- A function that creates nothing leaves only coordinators that were held before, with their role and
    context. -/
theorem Moves.origin {env : Env} {n : Option UInt64} {P : Event → Prop} {s s' : Session}
    (h : Moves env n P s s') (hP : ∀ i r peer, ¬ P (.created i r peer)) {k : SwapId}
    {c' : SwapCoordinator} (hc' : s'.coordinators.lookup k = some c') :
    ∃ c, s.coordinators.lookup k = some c ∧ c'.role = c.role ∧ c'.ctx = c.ctx := by
  have hsteps : SameSwapAs (s.slot k) (s'.slot k) :=
    SlotSteps.preserves sameSwapAs_step (h.slots k) ⟨le_rfl, fun _ c hc => ⟨c, hc, rfl, rfl⟩⟩
  refine hsteps.2 ?_ c' hc'
  obtain ⟨new, he, hp⟩ := h.grows
  show (s'.trace.filter _).countP isCreated = (s.trace.filter _).countP isCreated
  rw [he, List.filter_append, List.countP_append]
  have hnew : (new.filter fun e => e.swapId = k).countP isCreated = 0 := by
    rw [List.countP_eq_zero]
    intro e hm hcr
    cases e with
    | created i r peer => exact hP i r peer (hp _ (List.mem_filter.mp hm).1)
    | _ => cases hcr
  omega

/-! ### The identity of a session -/

theorem verifyCounterpartyFunding_identity (env : Env) (s : Session) (id : SwapId) (c : SwapCoordinator) :
    (s.verifyCounterpartyFunding env id c).2.identity = s.identity := rfl

theorem onPropose_identity (env : Env) (s : Session) (e : SwapEnvelope) (head : UInt64) :
    (s.onPropose env e head).2.identity = s.identity := by
  rcases onPropose_cases env s e head with ⟨-, -, p, c, -, -, he⟩ | ⟨-, he⟩ <;> rw [he]
  rfl

theorem onAccept_identity (s : Session) (e : SwapEnvelope) (head : UInt64) :
    (s.onAccept e head).2.identity = s.identity := by
  simp only [onAccept]
  split
  · rfl
  · split
    · rfl
    · split <;> rfl

theorem noteFundingWire_identity (s : Session) (e : SwapEnvelope) :
    (s.noteFundingWire e).identity = s.identity := by
  simp only [noteFundingWire]
  split <;> rfl

theorem onFundingProof_identity (env : Env) (s : Session) (e : SwapEnvelope) :
    (s.onFundingProof env e).2.identity = s.identity := by
  simp only [onFundingProof]
  split
  · rfl
  · split <;> exact noteFundingWire_identity s e

theorem onAbort_identity (s : Session) (e : SwapEnvelope) : (s.onAbort e).identity = s.identity := by
  simp only [onAbort]
  split
  · split_ifs <;> rfl
  · rfl

theorem onMessage_identity (env : Env) (s : Session) (kind : SwapKind) (payload : Bytes)
    (head : UInt64) : (s.onMessage env kind payload head).2.identity = s.identity := by
  simp only [onMessage]
  split
  · rfl
  · rename_i e he
    cases kind with
    | propose => exact onPropose_identity env s e head
    | accept => exact onAccept_identity s e head
    | fundingProof => exact onFundingProof_identity env s e
    | preimageReveal => dsimp only; split <;> rfl
    | abort => exact onAbort_identity s e

theorem reverifyFold_identity (env : Env) (ids : List SwapId) (acc : List SwapId × Session) :
    (ids.foldl (reverifyOne env) acc).2.identity = acc.2.identity := by
  induction ids generalizing acc with
  | nil => rfl
  | cons id ids ih =>
    rw [List.foldl_cons, ih]
    simp only [reverifyOne]
    split
    · rfl
    · rename_i c hc
      have hver := verifyCounterpartyFunding_identity env acc.2 id c
      split <;> rename_i heq <;> rw [heq] at hver <;> exact hver

theorem confirmClaim_identity (env : Env) (s : Session) (id : SwapId) :
    (s.confirmClaim env id).2.identity = s.identity := by
  simp only [confirmClaim]
  split
  · rfl
  · split_ifs
    · rfl
    · split <;> rfl

theorem confirmPendingClaims_identity (env : Env) (s : Session) :
    (s.confirmPendingClaims env).identity = s.identity := by
  simp only [confirmPendingClaims]
  generalize s.coordinators.keysWhere _ = ids
  induction ids generalizing s with
  | nil => rfl
  | cons id ids ih => rw [List.foldl_cons, ih, confirmClaim_identity]

theorem foreclose_identity (env : Env) (head : UInt64) (s : Session) (id : SwapId) :
    (foreclose env head s id).identity = s.identity := by
  have hcon := confirmClaim_identity env s id
  simp only [foreclose]
  split <;> rename_i heq <;> rw [heq] at hcon
  · exact hcon
  · split <;> exact hcon

theorem tick_identity (env : Env) (s : Session) (head : UInt64) :
    (s.tick env head).2.identity = s.identity := by
  have hfold : ∀ (ids : List SwapId) (s : Session),
      (ids.foldl (foreclose env head) s).identity = s.identity := by
    intro ids
    induction ids with
    | nil => intro s; rfl
    | cons id ids ih => intro s; rw [List.foldl_cons, ih, foreclose_identity]
  exact hfold _ _

theorem broadcastClaim_identity (env : Env) (s : Session) (id : SwapId) (c : SwapCoordinator)
    (head : UInt64) : (s.broadcastClaim env id c head).identity = s.identity := by
  simp only [broadcastClaim]
  split
  · split <;> rfl
  · rfl

theorem drivePhaseAction_identity (env : Env) (s : Session) (id : SwapId) (head : UInt64) :
    (s.drivePhaseAction env id head).2.identity = s.identity := by
  have hfund : ∀ c leg, (s.driveFund env id c head leg).2.identity = s.identity := by
    intro c leg
    simp only [driveFund]
    split
    · rfl
    · split <;> rfl
  have hreveal : ∀ c, (s.driveReveal env id c head).2.identity = s.identity := by
    intro c
    simp only [driveReveal]
    split_ifs
    · rfl
    · split
      · rfl
      · split
        · rfl
        · split <;> rfl
  simp only [drivePhaseAction]
  split
  · rfl
  · split
    · exact hfund _ _
    · exact hfund _ _
    · exact hreveal _
    · exact (confirmClaim_identity env _ id).trans (broadcastClaim_identity env s id _ head)
    · rfl

theorem notePeer_identity (s : Session) (kind : SwapKind) (e : SwapEnvelope) :
    (s.notePeer kind e).identity = s.identity := by
  rcases notePeer_cases s kind e with ⟨peer, -, -, he⟩ | ⟨-, he⟩ <;> rw [he]
  rfl

theorem learnSecret_identity (env : Env) (s : Session) (kind : SwapKind) (e : SwapEnvelope) :
    (s.learnSecret env kind e).identity = s.identity := by
  simp only [learnSecret]
  split
  · split <;> rfl
  · rfl

theorem driveSwap_identity (env : Env) (s : Session) (kind : SwapKind) (payload : Bytes)
    (head : UInt64) : (s.driveSwap env kind payload head).2.identity = s.identity := by
  simp only [driveSwap]
  split
  · rfl
  · rw [drivePhaseAction_identity, learnSecret_identity, notePeer_identity]

theorem initiateFromIntent_identity (env : Env) (s : Session) (id : SwapId) (head : UInt64) :
    (s.initiateFromIntent env id head).2.identity = s.identity := by
  simp only [initiateFromIntent]
  split
  · rfl
  · split_ifs <;> rfl

/-- No call changes the identity. -/
theorem step_identity (env : Env) (s : Session) (op : Op) : (s.step env op).identity = s.identity := by
  cases op with
  | message kind payload head => exact onMessage_identity env s kind payload head
  | driveSwap kind payload head => exact driveSwap_identity env s kind payload head
  | drive id head => exact drivePhaseAction_identity env s id head
  | reverify => exact reverifyFold_identity env s.awaitingIds ([], s)
  | tick head => exact tick_identity env s head
  | confirmClaims => exact confirmPendingClaims_identity env s
  | initiate id head => exact initiateFromIntent_identity env s id head
  | cancel id =>
    simp only [step, cancel]
    split
    · rfl
    · split_ifs <;> rfl
  | fastDue nowMs =>
    simp only [step, fastDue]
    split_ifs <;> rfl
  | _ => rfl

/-- RUN: nor does a run. -/
theorem exec_identity (env : Env) (s : Session) (ops : List Op) :
    (s.exec env ops).identity = s.identity :=
  Run.exec_preserves (step env) (I := fun s' => s'.identity = s.identity)
    (fun s' op h => (step_identity env s' op).trans h) ops s rfl

/-! ### The origin of a context -/

/-- The call that creates a coordinator of a context: an admitted `Propose`, or an initiation. -/
def CreatedBy (env : Env) (s : Session) (k : SwapId) (c : SwapCoordinator) : Op → Prop
  | .message kind payload head => kind = .propose ∧ c.role = .responder ∧ ∃ e p,
      decodeSwap .propose payload = .ok e ∧ k = e.swapId ∧ k ∉ s.coordinators ∧
      SwapProposal.fromEnvelope e = some p ∧ Admits env s e head ∧
      c.ctx = s.responderContext p head
  | .initiate id head => k = id ∧ c.role = .initiator ∧ ∃ standing secret,
      s.identity.standingIntent = some standing ∧
      c.ctx = initiatorContext standing id (env.sha256 secret) head
  | _ => False

theorem onPropose_ctx {env : Env} {s : Session} {e : SwapEnvelope} {head : UInt64}
    (hmem : e.swapId ∉ s.coordinators) {c : SwapCoordinator}
    (hc : (s.onPropose env e head).2.coordinators.lookup e.swapId = some c) :
    ∃ p, SwapProposal.fromEnvelope e = some p ∧ c.role = .responder ∧
      c.ctx = s.responderContext p head := by
  have hnone : s.coordinators.lookup e.swapId = none := AList.lookup_eq_none.mpr hmem
  simp only [onPropose, if_neg hmem] at hc
  split_ifs at hc
  · rw [hnone] at hc
    cases hc
  · split at hc
    · rw [hnone] at hc
      cases hc
    · rename_i p hp
      split_ifs at hc
      · rw [hnone] at hc
        cases hc
      · rw [hnone] at hc
        cases hc
      · refine ⟨p, hp, ?_⟩
        rcases (SwapCoordinator.newResponder (s.responderContext p head) s.ladder).recvPropose_cases
            env.toCrypto e head hp rfl rfl with ⟨-, -, -, he⟩ | ⟨-, err, he⟩
        · rw [he] at hc
          dsimp only at hc
          have hlook : some { (SwapCoordinator.newResponder (s.responderContext p head)
              s.ladder).withPhase .accepted with peerBtcPubkey := some p.btcPubkey } = some c := by
            split at hc <;> simpa [setCoord, log] using hc
          cases hlook
          exact ⟨rfl, rfl⟩
        · rw [he] at hc
          dsimp only at hc
          rw [hnone] at hc
          cases hc

/-- After a call, a held coordinator has the role and the context that its id had before, or the call
    created it. -/
theorem step_origin {env : Env} {s : Session} (hs : s.WF env) (op : Op) {k : SwapId}
    {c' : SwapCoordinator} (hc' : (s.step env op).coordinators.lookup k = some c') :
    (∃ c, s.coordinators.lookup k = some c ∧ c'.role = c.role ∧ c'.ctx = c.ctx) ∨
      CreatedBy env s k c' op := by
  cases op with
  | message kind payload head =>
    cases he : decodeSwap kind payload with
    | error err =>
      simp only [step, onMessage, he] at hc'
      exact .inl ⟨c', hc', rfl, rfl⟩
    | ok e =>
      by_cases hprop : kind = .propose ∧ k = e.swapId ∧ k ∉ s.coordinators
      · obtain ⟨rfl, rfl, hmem⟩ := hprop
        simp only [step, onMessage, he] at hc'
        obtain ⟨p, hp, hr, hx⟩ := onPropose_ctx hmem hc'
        refine .inr ⟨rfl, hr, e, p, he, rfl, hmem, hp, ?_, hx⟩
        rcases onPropose_cases env s e head with ⟨-, had, -⟩ | ⟨-, hsame⟩
        · exact had
        · rw [hsame, AList.lookup_eq_none.mpr hmem] at hc'
          cases hc'
      · refine .inl ?_
        by_cases hkind : kind = .propose
        · subst hkind
          simp only [step, onMessage, he] at hc'
          rcases onPropose_cases env s e head with ⟨hmem, -, p, c, -, -, hnew⟩ | ⟨-, hsame⟩
          · rw [hnew] at hc'
            by_cases hk : k = e.swapId
            · exact absurd ⟨rfl, hk, hk ▸ hmem⟩ hprop
            · simp only [log, setCoord, Table.lookup_insert_iff, if_neg hk] at hc'
              exact ⟨c', hc', rfl, rfl⟩
          · rw [hsame] at hc'
            exact ⟨c', hc', rfl, rfl⟩
        · exact (onMessage_moves (n := none) hs he).origin (fun i r peer h => hkind h.1) hc'
  | initiate id head =>
    simp only [step, initiateFromIntent] at hc'
    split at hc'
    · exact .inl ⟨c', hc', rfl, rfl⟩
    · rename_i standing hst
      split_ifs at hc'
      · by_cases hk : k = id
        · subst hk
          simp only [addInitiator, setCoord, log, Table.lookup_insert_iff, if_true] at hc'
          cases hc'
          exact .inr ⟨rfl, rfl, standing, _, hst, rfl⟩
        · simp only [addInitiator, setCoord, log, Table.lookup_insert_iff, if_neg hk] at hc'
          exact .inl ⟨c', hc', rfl, rfl⟩
      · exact .inl ⟨c', hc', rfl, rfl⟩
  | remove id =>
    simp only [step, remove, Table.lookup_erase_iff] at hc'
    split_ifs at hc'
    exact .inl ⟨c', hc', rfl, rfl⟩
  | driveSwap kind payload head =>
    refine .inl ((step_moves hs (.driveSwap kind payload head) (by simp)).origin ?_ hc')
    rintro i r peer ⟨e, -, h⟩
    exact h
  | drive id head =>
    exact .inl ((step_moves hs (.drive id head) (by simp)).origin (fun _ _ _ h => h) hc')
  | reverify => exact .inl ((step_moves hs .reverify (by simp)).origin (fun _ _ _ h => h) hc')
  | tick head => exact .inl ((step_moves hs (.tick head) (by simp)).origin (fun _ _ _ h => h) hc')
  | confirmClaims => exact .inl ((step_moves hs .confirmClaims (by simp)).origin (fun _ _ _ h => h) hc')
  | cancel id => exact .inl ((step_moves hs (.cancel id) (by simp)).origin (fun _ _ _ h => h) hc')
  | reap => exact .inl ((step_moves hs .reap (by simp)).origin (fun _ _ _ h => h) hc')
  | record id mt payload => exact .inl ⟨c', hc', rfl, rfl⟩
  | retransmit => exact .inl ⟨c', hc', rfl, rfl⟩
  | fastDue nowMs => exact .inl ((step_moves hs (.fastDue nowMs) (by simp)).origin (fun _ _ _ h => h) hc')

/-- The run admits a `Propose` with these contents, for an id that is not held then. -/
def ProposedIn (env : Env) (s : Session) (ops : List Op) (k : SwapId) (p : SwapProposal) (head : UInt64) :
    Prop :=
  ∃ pre payload post e, ops = pre ++ .message .propose payload head :: post ∧
    decodeSwap .propose payload = .ok e ∧ k = e.swapId ∧ k ∉ (s.exec env pre).coordinators ∧
    SwapProposal.fromEnvelope e = some p ∧ Admits env (s.exec env pre) e head

theorem ProposedIn.snoc {env : Env} {s : Session} {ops : List Op} {k : SwapId} {p : SwapProposal}
    {head : UInt64} (h : ProposedIn env s ops k p head) (op : Op) : ProposedIn env s (ops ++ [op]) k p head := by
  obtain ⟨pre, payload, post, e, rfl, h⟩ := h
  exact ⟨pre, payload, post ++ [op], e, by simp, h⟩

/-- RUN: the context of a held responder is that of a `Propose` that the run admitted. -/
theorem exec_origin {env : Env} {s : Session} (hs : s.Fresh) (ops : List Op) {k : SwapId}
    {c : SwapCoordinator} (hc : (s.exec env ops).coordinators.lookup k = some c)
    (hrole : c.role = .responder) :
    ∃ p head, ProposedIn env s ops k p head ∧ c.ctx = s.responderContext p head := by
  induction ops using List.reverseRecOn generalizing c with
  | nil =>
    rw [exec, Run.exec_nil, hs.coordinators] at hc
    cases hc
  | append_singleton ops op ih =>
    rw [exec_snoc] at hc
    rcases step_origin (exec_config_wf (hs.wf env) ops).2 op hc with ⟨c₀, hc₀, hr, hx⟩ | hcr
    · obtain ⟨p, head, hp, hctx⟩ := ih hc₀ (hr.symm.trans hrole)
      exact ⟨p, head, hp.snoc op, hx.trans hctx⟩
    · cases op with
      | message kind payload head =>
        obtain ⟨rfl, -, e, p, he, hk, hmem, hp, had, hx⟩ := hcr
        refine ⟨p, head, ⟨ops, payload, [], e, rfl, he, hk, hmem, hp, had⟩, ?_⟩
        rw [hx, responderContext, exec_identity, responderContext]
      | initiate id head =>
        obtain ⟨-, hi, -⟩ := hcr
        rw [hi] at hrole
        cases hrole
      | _ => exact hcr.elim

/-- The signer is asked to fund a held coordinator, with its role and its context. -/
theorem held_of_builtFunding {env : Env} {s : Session} {op : Op} {id : SwapId} {role : SwapRole}
    {ctx : SwapContext} {head : UInt64} {answer : Option (Bytes × Hash)}
    (h : Emits env s op (.builtFunding id role ctx head answer)) :
    ∃ c, s.coordinators.lookup id = some c ∧ c.role = role ∧ c.ctx = ctx := by
  obtain ⟨-, c, hc, -, hr, hx⟩ := driven_of_builtFunding h
  exact ⟨c, hc, hr, hx⟩

end Session

end Nimmesh
