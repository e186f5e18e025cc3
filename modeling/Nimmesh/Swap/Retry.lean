import Nimmesh.Swap.Resume
import Nimmesh.Swap.Settlement

/-! @src swap_node.rs swap_claim.rs swap_session.rs | name:Owed actions on the clock |
    layer:properties

    Which chain actions a maintenance tick asks the signer for. A tick drives the swaps that it has just
    re-verified and the revealed responders that have no claim on the wire; a swap whose funding or
    reveal the signer refused before the tick is in neither list, and waits for a message. -/

namespace Nimmesh

/-- The next chain action of the swap is this node's, and may be taken at `head`. -/
def Owes (head : UInt64) (c : SwapCoordinator) : Prop :=
  (c.role = .initiator ∧ c.phase = .accepted) ∨
  (c.role = .responder ∧ c.phase = .initiatorFunded) ∨
  (c.role = .initiator ∧ c.phase = .bothFunded ∧ c.revealDeadlineOk head = true) ∨
  (c.role = .responder ∧ c.phase = .revealed ∧ c.claimTx = none)

/-- The signer is asked for the action that the swap owes: its funding, or its claim. -/
def AsksOwed (id : SwapId) (c : SwapCoordinator) : Event → Prop
  | .builtFunding id' role ctx _ _ => id' = id ∧ role = c.role ∧ ctx = c.ctx ∧ c.swap.fundable
  | .builtClaim id' role ctx secret _ _ => id' = id ∧ role = c.role ∧ ctx = c.ctx ∧
      c.secret = some secret ∧ ¬ c.swap.fundable
  | _ => False

/-- The signer is asked for some action of the swap. -/
def AsksFor (id : SwapId) : Event → Prop
  | .builtFunding id' .. | .builtClaim id' .. => id' = id
  | _ => False

theorem AsksOwed.asksFor {id : SwapId} {c : SwapCoordinator} {ev : Event} (h : AsksOwed id c ev) :
    AsksFor id ev := by
  cases ev with
  | builtFunding | builtClaim => exact h.1
  | _ => exact h

namespace Session

/-! ### Frames -/

theorem setCoord_lookup_ne (s : Session) {id k : SwapId} (h : k ≠ id) (c : SwapCoordinator) :
    (s.setCoord id c).coordinators.lookup k = s.coordinators.lookup k := by
  simp only [setCoord, Table.lookup_insert_iff, if_neg h]

theorem broadcastClaim_lookup_ne (env : Env) (s : Session) {id k : SwapId} (h : k ≠ id)
    (c : SwapCoordinator) (head : UInt64) :
    (s.broadcastClaim env id c head).coordinators.lookup k = s.coordinators.lookup k := by
  simp only [broadcastClaim]
  split
  · split
    · rfl
    · exact setCoord_lookup_ne _ h _
  · rfl

/-- A chain action touches no other swap. -/
theorem drivePhaseAction_lookup_ne (env : Env) (s : Session) {id k : SwapId} (h : k ≠ id)
    (head : UInt64) :
    (s.drivePhaseAction env id head).2.coordinators.lookup k = s.coordinators.lookup k := by
  have hfund : ∀ c leg, (s.driveFund env id c head leg).2.coordinators.lookup k =
      s.coordinators.lookup k := by
    intro c leg
    simp only [driveFund]
    split
    · rfl
    · split <;> exact setCoord_lookup_ne _ h _
  have hreveal : ∀ c, (s.driveReveal env id c head).2.coordinators.lookup k =
      s.coordinators.lookup k := by
    intro c
    simp only [driveReveal]
    split_ifs
    · rfl
    · split
      · rfl
      · split
        · rfl
        · split <;> exact setCoord_lookup_ne _ h _
  simp only [drivePhaseAction]
  split
  · rfl
  · split
    · exact hfund _ _
    · exact hfund _ _
    · exact hreveal _
    · exact (confirmClaim_lookup_ne env _ h).trans (broadcastClaim_lookup_ne env s h _ head)
    · rfl

theorem drives_lookup_ne (env : Env) (head : UInt64) {k : SwapId} (ids : List SwapId) (s : Session)
    (h : k ∉ ids) : (s.exec env (driveCalls env head s ids)).coordinators.lookup k =
      s.coordinators.lookup k := by
  induction ids generalizing s with
  | nil => rfl
  | cons id ids ih =>
    simp only [List.mem_cons, not_or] at h
    rw [driveCalls, exec_cons, exec_append, exec_recordCalls]
    refine (ih _ h.2).trans ?_
    have hrec : ∀ (s : Session) (replies : List (MessageType × Bytes)),
        (s.recordLast id replies).coordinators = s.coordinators := by
      intro s replies
      simp only [recordLast]
      split <;> rfl
    show ((s.drivePhaseAction env id head).2.recordLast id _).coordinators.lookup k = _
    rw [hrec, drivePhaseAction_lookup_ne env s h.1]

theorem reverifyFold_frame (env : Env) {k : SwapId} (ids : List SwapId) (acc : List SwapId × Session)
    (h : k ∉ ids) : (ids.foldl (reverifyOne env) acc).2.coordinators.lookup k =
        acc.2.coordinators.lookup k ∧ (k ∈ (ids.foldl (reverifyOne env) acc).1 → k ∈ acc.1) := by
  induction ids generalizing acc with
  | nil => exact ⟨rfl, fun h => h⟩
  | cons id ids ih =>
    simp only [List.mem_cons, not_or] at h
    obtain ⟨hlook, hadv⟩ := ih (reverifyOne env acc id) h.2
    have hone : (reverifyOne env acc id).2.coordinators.lookup k = acc.2.coordinators.lookup k ∧
        (k ∈ (reverifyOne env acc id).1 → k ∈ acc.1) := by
      simp only [reverifyOne]
      split
      · exact ⟨rfl, fun h => h⟩
      · rename_i c hc
        have hset : (acc.2.verifyCounterpartyFunding env id c).2.coordinators.lookup k =
            acc.2.coordinators.lookup k := setCoord_lookup_ne _ h.1 _
        split <;> rename_i heq <;> rw [heq] at hset
        · refine ⟨hset, fun hm => ?_⟩
          rcases List.mem_append.mp hm with hm | hm
          · exact hm
          · exact absurd (List.mem_singleton.mp hm) h.1
        · exact ⟨hset, fun h => h⟩
    exact ⟨hlook.trans hone.1, fun hm => hone.2 (hadv hm)⟩

/-- A swap that is not awaiting is neither touched nor reported by the re-verification. -/
theorem reverify_frame (env : Env) {s : Session} {k : SwapId} (h : k ∉ s.awaitingIds) :
    (s.reverifyAwaitedFunding env).2.coordinators.lookup k = s.coordinators.lookup k ∧
      k ∉ (s.reverifyAwaitedFunding env).1 := by
  obtain ⟨hlook, hadv⟩ := reverifyFold_frame env s.awaitingIds ([], s) h
  exact ⟨hlook, fun hm => by cases hadv hm⟩

theorem not_awaiting_of_owes {head : UInt64} {c : SwapCoordinator} (h : Owes head c) :
    c.awaitsCounterpartyFunding = false := by
  rcases h with ⟨hr, hp⟩ | ⟨hr, hp⟩ | ⟨hr, hp, -⟩ | ⟨hr, hp, -⟩ <;>
    simp [SwapCoordinator.awaitsCounterpartyFunding, hr, hp]

theorem foreclose_fold_lookup_ne {env : Env} {head : UInt64} {k : SwapId} (ids : List SwapId)
    (s : Session) (h : k ∉ ids) :
    (ids.foldl (foreclose env head) s).coordinators.lookup k = s.coordinators.lookup k := by
  induction ids generalizing s with
  | nil => rfl
  | cons id ids ih =>
    simp only [List.mem_cons, not_or] at h
    rw [List.foldl_cons, ih _ h.2, foreclose_lookup_ne env head s h.1]

/-- Past the sweep a tick touches only the responders whose claim window has closed. -/
theorem tick_lookup (env : Env) {s : Session} {k : SwapId} {head : UInt64}
    (h : k ∉ (s.sweep head).2.expiredIds head) :
    (s.tick env head).2.coordinators.lookup k = (s.sweep head).2.coordinators.lookup k :=
  foreclose_fold_lookup_ne _ _ h

theorem confirmFold_lookup_ne {env : Env} {k : SwapId} (ids : List SwapId) (s : Session) (h : k ∉ ids) :
    (ids.foldl (fun s id => (s.confirmClaim env id).2) s).coordinators.lookup k =
      s.coordinators.lookup k := by
  induction ids generalizing s with
  | nil => rfl
  | cons id ids ih =>
    simp only [List.mem_cons, not_or] at h
    rw [List.foldl_cons, ih _ h.2, confirmClaim_lookup_ne env s h.1]

/-- A swap with no claim on the wire is not touched by the confirmation consults. -/
theorem confirmPendingClaims_lookup (env : Env) {s : Session} {k : SwapId}
    (h : ∀ c, s.coordinators.lookup k = some c → hasClaim c = false ∨ c.claimTx = none) :
    (s.confirmPendingClaims env).coordinators.lookup k = s.coordinators.lookup k := by
  refine confirmFold_lookup_ne _ _ fun hk => ?_
  obtain ⟨c, hc, hcl⟩ := (Table.mem_keysWhere _ _ _).mp hk
  rcases h c hc with hn | hn <;> simp [hn, SwapCoordinator.claimBroadcast] at hcl

/-! ### What is asked, and by which call -/

/-- RUN: every event that a run adds was emitted by one of its calls. -/
theorem exec_emits {env : Env} (ops : List Op) {s : Session} (hs : s.WF env) :
    ∃ new, (s.exec env ops).trace = new ++ s.trace ∧
      ∀ ev ∈ new, ∃ s' op, op ∈ ops ∧ Emits env s' op ev := by
  induction ops generalizing s with
  | nil => exact ⟨[], rfl, by simp⟩
  | cons op ops ih =>
    obtain ⟨new, he, hnew⟩ := step_trace hs op
    obtain ⟨new', he', hnew'⟩ := ih (step_config_wf hs op).2
    refine ⟨new' ++ new, by rw [exec_cons, he', he, List.append_assoc], fun ev hm => ?_⟩
    rcases List.mem_append.mp hm with hm | hm
    · obtain ⟨s', o, ho, hem⟩ := hnew' ev hm
      exact ⟨s', o, List.mem_cons_of_mem _ ho, hem⟩
    · exact ⟨s, op, List.mem_cons_self, hnew ev hm⟩

/-- Only a drive of the swap itself asks the signer, as far as no message is handled. -/
theorem drive_of_asksFor {env : Env} {s : Session} {op : Op} {now : Option UInt64}
    {chosen : Option SwapId} (hin : Worker.innerCall now chosen op) {id : SwapId} {ev : Event}
    (hem : Emits env s op ev) (hask : AsksFor id ev) : ∃ head, op = .drive id head := by
  cases op with
  | message | driveSwap => exact hin.elim
  | drive k head =>
    cases ev with
    | builtFunding | builtClaim =>
      obtain rfl : _ = id := hask
      exact ⟨head, by rw [hem.1]⟩
    | _ => exact hask.elim
  | initiate k head =>
    rw [hem.1] at hask
    exact hask.elim
  | _ =>
    cases ev with
    | builtFunding | builtClaim => exact hem.elim
    | _ => exact hask.elim

theorem mem_driveCalls {env : Env} {head h : UInt64} {k : SwapId} (ids : List SwapId) (s : Session)
    (hm : .drive k h ∈ driveCalls env head s ids) : k ∈ ids := by
  induction ids generalizing s with
  | nil => cases hm
  | cons id ids ih =>
    rcases List.mem_cons.mp hm with he | hm
    · cases he
      exact List.mem_cons_self
    · rcases List.mem_append.mp hm with hm | hm
      · obtain ⟨mt, payload, he⟩ := mem_recordCalls hm
        cases he
      · exact List.mem_cons_of_mem _ (ih _ hm)

theorem mem_claimCalls {env : Env} {head h : UInt64} {k : SwapId} {s : Session}
    (hm : .drive k h ∈ claimCalls env s head) :
    ∃ c, (s.confirmPendingClaims env).coordinators.lookup k = some c ∧ c.role = .responder ∧
      c.phase = .revealed := by
  simp only [claimCalls] at hm
  split_ifs at hm
  · cases hm
  · rcases List.mem_cons.mp hm with he | hm
    · cases he
    · obtain ⟨id, hid, he⟩ := List.mem_map.mp hm
      cases he
      obtain ⟨c, hc, hcl⟩ := (Table.mem_keysWhere _ _ _).mp hid
      rw [Bool.and_eq_true] at hcl
      exact ⟨c, hc, (hasClaim_iff c).mp hcl.1⟩

/-- A drive of a revealed responder with no claim on the wire asks the signer for the claim. -/
theorem drive_asks_claim (env : Env) {s : Session} {k : SwapId} {c : SwapCoordinator}
    {secret : Hash} (head : UInt64) (hc : s.coordinators.lookup k = some c) (hr : c.role = .responder)
    (hp : c.phase = .revealed) (hu : c.claimTx = none) (hk : c.secret = some secret) :
    ∃ new answer, (s.step env (.drive k head)).trace = new ++ s.trace ∧
      .builtClaim k c.role c.ctx secret head answer ∈ new := by
  have hdrive : s.step env (.drive k head) = s.attemptResponderClaim env k c head := by
    simp only [step, drivePhaseAction, hc, hr, hp]
  have hcast : (s.broadcastClaim env k c head).trace =
      .builtClaim k c.role c.ctx secret head (env.buildClaim s.trace c.ctx secret) :: s.trace := by
    simp only [broadcastClaim, SwapCoordinator.claimBroadcast, hu, hk]
    cases ha : env.buildClaim s.trace c.ctx secret <;> rfl
  obtain ⟨new, he, -⟩ := (confirmClaim_moves (n := none) env (s.broadcastClaim env k c head) k).grows
  refine ⟨new ++ [.builtClaim k c.role c.ctx secret head (env.buildClaim s.trace c.ctx secret)], _, ?_,
    List.mem_append_right _ (List.mem_singleton.mpr rfl)⟩
  rw [hdrive, attemptResponderClaim, he, hcast, List.append_assoc]
  rfl

theorem drives_ask_claim {env : Env} {k : SwapId} {c : SwapCoordinator} {secret : Hash} (head : UInt64)
    (hr : c.role = .responder) (hp : c.phase = .revealed) (hu : c.claimTx = none)
    (hk : c.secret = some secret) (ids : List SwapId) {s : Session} (hs : s.WF env)
    (hc : s.coordinators.lookup k = some c) (hm : k ∈ ids) :
    ∃ new answer, (s.exec env (ids.map fun id => .drive id head)).trace = new ++ s.trace ∧
      .builtClaim k c.role c.ctx secret head answer ∈ new := by
  induction ids generalizing s with
  | nil => cases hm
  | cons id ids ih =>
    have hs' := (step_config_wf hs (.drive id head)).2
    rw [List.map_cons, exec_cons]
    by_cases hid : k = id
    · subst hid
      obtain ⟨new, answer, he, hask⟩ := drive_asks_claim env head hc hr hp hu hk
      obtain ⟨new', he'⟩ := exec_trace_grows hs' (ids.map fun id => .drive id head)
      exact ⟨new' ++ new, answer, by rw [he', he, List.append_assoc], List.mem_append_right _ hask⟩
    · have hc' : (s.step env (.drive id head)).coordinators.lookup k = some c :=
        (drivePhaseAction_lookup_ne env s hid head).trans hc
      obtain ⟨new, answer, he, hask⟩ := ih hs' hc' ((List.mem_cons.mp hm).resolve_left hid)
      obtain ⟨new', he', -⟩ := step_trace hs (.drive id head)
      exact ⟨new ++ new', answer, by rw [he, he', List.append_assoc], List.mem_append_left _ hask⟩

end Session

/-! ### The maintenance tick -/

namespace Worker

/-- During its maintenance tick the worker asks its signer for the action that the swap owes. -/
def RequestsOnTick (env : Env) (w : Worker) (id : SwapId) (c : SwapCoordinator) : Prop :=
  ∃ new ev, (w.step env .gcTick).session.trace = new ++ w.session.trace ∧ ev ∈ new ∧ AsksOwed id c ev

/-- The session before the retransmission budget is charged, re-verified and driven. -/
def advanced (env : Env) (w : Worker) : Session :=
  w.session.pendingRetransmits.2.exec env (w.advanceCalls env w.session.pendingRetransmits.2)

theorem gcTick_exec (env : Env) (w : Worker) :
    (w.step env .gcTick).session =
      (((w.advanced env).step env (.tick w.head)).exec env
        (claimCalls env ((w.advanced env).step env (.tick w.head)) w.head)).exec env
        (w.windowCalls env (((w.advanced env).step env (.tick w.head)).exec env
          (claimCalls env ((w.advanced env).step env (.tick w.head)) w.head))) := by
  rw [step_session]
  show w.session.exec env (w.gcCalls env) = _
  rw [gcCalls, Session.exec_cons, Session.exec_append, Session.exec_cons, Session.exec_append]
  rfl

/-- A swap that owes an action is not touched until the session ticks. -/
theorem advanced_lookup (env : Env) {w : Worker} {k : SwapId} {c : SwapCoordinator}
    (hc : w.session.coordinators.lookup k = some c) (ho : Owes w.head c) :
    (w.advanced env).coordinators.lookup k = some c ∧
      ∀ h, .drive k h ∉ w.advanceCalls env w.session.pendingRetransmits.2 := by
  have hnot : k ∉ w.session.pendingRetransmits.2.awaitingIds := by
    intro hk
    obtain ⟨d, hd, -, haw⟩ := (Session.mem_awaitingIds _ _).mp hk
    obtain rfl : c = d := Option.some.inj (hc.symm.trans hd)
    rw [Session.not_awaiting_of_owes ho] at haw
    cases haw
  obtain ⟨hlook, hadv⟩ := Session.reverify_frame env hnot
  refine ⟨?_, fun h hm => ?_⟩
  · rw [advanced, advanceCalls, Session.exec_cons]
    exact ((Session.drives_lookup_ne env w.head _ _ hadv).trans hlook).trans hc
  · rcases List.mem_cons.mp hm with he | hm
    · cases he
    · exact hadv (Session.mem_driveCalls _ _ hm)

theorem advanced_wf (env : Env) {w : Worker} (hw : w.session.WF env) : (w.advanced env).WF env :=
  (Session.exec_config_wf (Session.step_config_wf hw .retransmit).2 _).2

/-- After the tick of the session, the confirmation consults find a revealed responder only if it was one
    before, with its window open. -/
theorem revealed_of_claimable {env : Env} {w : Worker} (hw : w.session.WF env) {k : SwapId}
    {c c' : SwapCoordinator} (hc : w.session.coordinators.lookup k = some c) (ho : Owes w.head c)
    (hc' : (((w.advanced env).step env (.tick w.head)).confirmPendingClaims env).coordinators.lookup k =
      some c') (hr' : c'.role = .responder) (hp' : c'.phase = .revealed) :
    c.role = .responder ∧ c.phase = .revealed ∧ w.head ≤ c.ctx.terms.nimTimeout := by
  obtain ⟨hadv, -⟩ := advanced_lookup env hc ho
  have hwf := advanced_wf env hw
  have hwf' := (Session.step_config_wf hwf (.tick w.head)).2
  have hrole : c.role = .responder := by
    obtain ⟨c₁, hc₁, hr₁, -⟩ := (Session.step_origin hwf' .confirmClaims hc').resolve_right (fun h => h)
    obtain ⟨c₂, hc₂, hr₂, -⟩ := (Session.step_origin hwf (.tick w.head) hc₁).resolve_right (fun h => h)
    rw [hadv] at hc₂
    cases hc₂
    rw [← hr₂, ← hr₁, hr']
  rcases ho with ⟨hr, -⟩ | ⟨-, hp⟩ | ⟨hr, -⟩ | ⟨hr, hp, hu⟩
  · rw [hr] at hrole
    cases hrole
  · -- A responder that has not funded is kept as it is or dropped as stale.
    exfalso
    have hsame : (c.refundAfterTimeout w.head).2 = c := by
      rcases c.refundAfterTimeout_cases w.head with ⟨⟨hl, -⟩, -⟩ | ⟨-, he⟩
      · rw [show c.swap.phase = .initiatorFunded from hp] at hl
        cases hl
      · exact he
    have hswept : ((w.advanced env).sweep w.head).2.coordinators.lookup k =
        (some c).filter (Session.tickKeeps w.head) := by
      rw [Session.sweep_lookup, hadv, Option.map_some, hsame]
    have hkept : ∀ d, ((w.advanced env).sweep w.head).2.coordinators.lookup k = some d → d = c := by
      intro d hd
      rw [hswept] at hd
      exact (Option.some.inj (Option.filter_eq_some_iff.mp hd).1).symm
    have htick : ((w.advanced env).step env (.tick w.head)).coordinators.lookup k =
        ((w.advanced env).sweep w.head).2.coordinators.lookup k := by
      refine Session.tick_lookup env fun hm => ?_
      obtain ⟨d, hd, hex⟩ := (Table.mem_keysWhere _ _ _).mp hm
      rw [hkept d hd] at hex
      simp [hp] at hex
    rw [Session.confirmPendingClaims_lookup env (fun d hd => .inl ?_), htick] at hc'
    · rw [hkept c' hc', hp] at hp'
      cases hp'
    · rw [htick] at hd
      rw [hkept d hd]
      simp [Session.hasClaim, hp]
  · rw [hr] at hrole
    cases hrole
  · refine ⟨hr, hp, UInt64.not_lt.mp fun hpast => ?_⟩
    obtain ⟨d, hd, -, hend⟩ := Session.tick_forecloses hwf hadv hr hp hpast
    have hnot : Session.hasClaim d = false := by
      rcases hend with h | h <;> simp [Session.hasClaim, h]
    have hlook : ((w.advanced env).step env (.tick w.head)).coordinators.lookup k = some d := hd
    rw [Session.confirmPendingClaims_lookup env (fun d' hd' => .inl ?_), hlook] at hc'
    · cases hc'
      rw [hp'] at hend
      rcases hend with h | h <;> cases h
    · rw [hlook] at hd'
      cases hd'
      exact hnot

/-- A revealed responder with no claim on the wire and its window open is still there when the claims are
    driven. -/
theorem claimable_of_revealed (env : Env) {w : Worker} {k : SwapId} {c : SwapCoordinator}
    (hc : w.session.coordinators.lookup k = some c) (hr : c.role = .responder) (hp : c.phase = .revealed)
    (hu : c.claimTx = none) (hopen : w.head ≤ c.ctx.terms.nimTimeout) :
    ((w.advanced env).step env (.tick w.head)).coordinators.lookup k = some c ∧
    (((w.advanced env).step env (.tick w.head)).confirmPendingClaims env).coordinators.lookup k = some c := by
  obtain ⟨hadv, -⟩ := advanced_lookup env hc (.inr (.inr (.inr ⟨hr, hp, hu⟩)))
  have hswept := Session.sweep_keeps_revealed w.head hadv hr hp
  have htick : ((w.advanced env).step env (.tick w.head)).coordinators.lookup k = some c := by
    refine (Session.tick_lookup env fun hm => ?_).trans hswept
    obtain ⟨d, hd, hex⟩ := (Table.mem_keysWhere _ _ _).mp hm
    rw [hswept] at hd
    cases hd
    simp only [Bool.and_eq_true, decide_eq_true_eq] at hex
    exact absurd hex.2 (UInt64.not_lt.mpr hopen)
  refine ⟨htick, ?_⟩
  rw [Session.confirmPendingClaims_lookup env (fun d hd => .inr ?_), htick]
  rw [htick] at hd
  cases hd
  exact hu

/-- The only action that a maintenance tick asks the signer for is a claim. -/
theorem claim_of_requested (env : Env) (w : Worker) (hwf : w.session.WF env) {id : SwapId} {c : SwapCoordinator}
    (hc : w.session.coordinators.lookup id = some c) (ho : Owes w.head c) (h : w.RequestsOnTick env id c) :
    c.role = .responder ∧ c.phase = .revealed ∧ w.head ≤ c.ctx.terms.nimTimeout := by
  obtain ⟨new, ev, he, hm, hask⟩ := h
  obtain ⟨new', he', hnew'⟩ := Session.exec_emits (w.calls env .gcTick) hwf
  rw [← step_session] at he'
  obtain rfl : new = new' := List.append_cancel_right (he.symm.trans he')
  obtain ⟨s', op, hop, hem⟩ := hnew' ev hm
  have hin := @innerCall_calls env w .gcTick (by simp) op hop
  obtain ⟨head, rfl⟩ := Session.drive_of_asksFor hin hem hask.asksFor
  rcases List.mem_cons.mp hop with hop | hop
  · cases hop
  rcases List.mem_append.mp hop with hop | hop
  · exact absurd hop ((advanced_lookup env hc ho).2 head)
  rcases List.mem_cons.mp hop with hop | hop
  · cases hop
  rcases List.mem_append.mp hop with hop | hop
  · obtain ⟨c', hc', hr', hp'⟩ := Session.mem_claimCalls hop
    exact revealed_of_claimable hwf hc ho hc' hr' hp'
  · simp only [windowCalls] at hop
    split_ifs at hop
    · cases hop
    · split at hop
      · cases hop
      · rcases List.mem_cons.mp hop with hop | hop
        · cases hop
        · obtain ⟨mt, payload, hrec⟩ := mem_recordCalls hop
          cases hrec

/-- A claim that is owed and whose window is open is asked for by the next maintenance tick. -/
theorem requested_of_claim (env : Env) (w : Worker) (hwf : w.session.WF env) {id : SwapId} {c : SwapCoordinator}
    (hc : w.session.coordinators.lookup id = some c) (ho : Owes w.head c) (hsecret : c.secret ≠ none)
    (hr : c.role = .responder) (hp : c.phase = .revealed) (hopen : w.head ≤ c.ctx.terms.nimTimeout) :
    w.RequestsOnTick env id c := by
  have hu : c.claimTx = none := by
    rcases ho with ⟨hr', -⟩ | ⟨-, hp'⟩ | ⟨hr', -⟩ | ⟨-, -, hu⟩
    · rw [hr] at hr'
      cases hr'
    · rw [hp] at hp'
      cases hp'
    · rw [hr] at hr'
      cases hr'
    · exact hu
  obtain ⟨secret, hk⟩ := Option.ne_none_iff_exists'.mp hsecret
  have hclaim : Session.hasClaim c = true := (Session.hasClaim_iff c).mpr ⟨hr, hp⟩
  obtain ⟨htick, hconf⟩ := claimable_of_revealed env hc hr hp hu hopen
  have hwf₂ := advanced_wf env hwf
  generalize hs₃ : (w.advanced env).step env (.tick w.head) = s₃ at htick hconf
  have hwf₃ : s₃.WF env := hs₃ ▸ (Session.step_config_wf hwf₂ (.tick w.head)).2
  have hwork : s₃.hasClaimWork = true := by
    have hmem : id ∈ s₃.coordinators.keysWhere fun _ c => Session.hasClaim c :=
      (Table.mem_keysWhere _ _ _).mpr ⟨c, htick, hclaim⟩
    simp only [Session.hasClaimWork, Bool.not_eq_true', List.isEmpty_eq_false_iff]
    exact List.ne_nil_of_mem hmem
  have hcalls : claimCalls env s₃ w.head = .confirmClaims ::
      (s₃.confirmPendingClaims env).claimsAwaitingBroadcast.map fun id => .drive id w.head := by
    simp only [claimCalls, hwork, Bool.not_true, Bool.false_eq_true, if_false]
  have hlist : id ∈ (s₃.confirmPendingClaims env).claimsAwaitingBroadcast := by
    refine (Table.mem_keysWhere _ _ _).mpr ⟨c, hconf, ?_⟩
    simp [hclaim, SwapCoordinator.claimBroadcast, hu]
  obtain ⟨new₃, he₃⟩ := Session.exec_trace_grows hwf (.retransmit ::
    (w.advanceCalls env w.session.pendingRetransmits.2 ++ [.tick w.head]))
  have hbefore : w.session.exec env (.retransmit ::
      (w.advanceCalls env w.session.pendingRetransmits.2 ++ [.tick w.head])) = s₃ := by
    rw [Session.exec_cons, Session.exec_snoc]
    exact hs₃
  obtain ⟨new₄, he₄, -⟩ := Session.step_trace hwf₃ .confirmClaims
  obtain ⟨new₅, answer, he₅, hask⟩ := Session.drives_ask_claim w.head hr hp hu hk _
    (Session.step_config_wf hwf₃ .confirmClaims).2 hconf hlist
  have hclaims : (s₃.exec env (claimCalls env s₃ w.head)).trace = new₅ ++ (new₄ ++ s₃.trace) := by
    rw [hcalls, Session.exec_cons, ← he₄]
    exact he₅
  obtain ⟨new₆, he₆⟩ := Session.exec_trace_grows (Session.exec_config_wf hwf₃ (claimCalls env s₃ w.head)).2
    (w.windowCalls env (s₃.exec env (claimCalls env s₃ w.head)))
  refine ⟨new₆ ++ (new₅ ++ (new₄ ++ new₃)), .builtClaim id c.role c.ctx secret w.head answer, ?_, ?_,
    rfl, rfl, rfl, hk, fun hf => ?_⟩
  · rw [gcTick_exec, hs₃, he₆, hclaims, ← hbefore, he₃]
    simp only [List.append_assoc]
  · exact List.mem_append_right _ (List.mem_append_left _ hask)
  · rcases hf with ⟨-, hp'⟩ | ⟨-, hp'⟩ <;> rw [show c.swap.phase = .revealed from hp] at hp' <;> cases hp'

/-- EXACT: in every reachable worker, a maintenance tick asks the signer for the action a swap owes if and
    only if that action is a responder's claim whose window is open. An owed funding or reveal is asked by
    no tick. -/
theorem owed_requested_iff (env : Env) (w : Worker) (h : w.session.Reachable env) (id : SwapId)
    (c : SwapCoordinator) (hc : w.session.coordinators.lookup id = some c) (ho : Owes w.head c) :
    w.RequestsOnTick env id c ↔
      c.role = .responder ∧ c.phase = .revealed ∧ w.head ≤ c.ctx.terms.nimTimeout := by
  obtain ⟨hwf, hsound⟩ := h.sound
  constructor
  · exact claim_of_requested env w hwf hc ho
  · rintro ⟨hr, hp, hopen⟩
    exact requested_of_claim env w hwf hc ho ((hsound id c hc).secret hr hp) hr hp hopen

/-! ### A signer that fails once -/

/-- The sample mesh with a signer that refuses its first funding and its first claim. -/
def flakySigner : Env :=
  let funded : Event → Bool := fun e => match e with | .builtFunding .. => true | _ => false
  let claimed : Event → Bool := fun e => match e with | .builtClaim .. => true | _ => false
  { Sample.env with
    buildFunding := fun tr ctx leg => if tr.any funded then MockSigner.buildFunding ctx leg else none
    buildClaim := fun tr ctx secret => if tr.any claimed then MockSigner.buildClaim ctx secret else none }

/-- The responder has funded, hears the secret, and its first claim is refused. -/
def refusedClaim : List Op :=
  Sample.packet .propose Sample.propose 0 ++ Sample.packet .fundingProof (Sample.fundingProof .nim) 0 ++
    .drive Sample.swapId 0 :: Sample.packet .preimageReveal Sample.reveal 0

/-- Its next tick asks for the claim again. -/
theorem sample_claim_retried :
    ∃ c, (Sample.bob.exec flakySigner refusedClaim).coordinators.lookup Sample.swapId = some c ∧
      Owes 0 c ∧
      RequestsOnTick flakySigner { session := Sample.bob.exec flakySigner refusedClaim } Sample.swapId c := by
  have hheld : ((Sample.bob.exec flakySigner refusedClaim).coordinators.lookup Sample.swapId).map
      (fun c => (c.role, c.phase, c.claimTx)) = some (.responder, .revealed, none) := by decide +kernel
  revert hheld
  generalize refusedClaim = ops
  intro hheld
  have hreach := Session.reachable_exec flakySigner Sample.bob_fresh ⟨by decide, nofun⟩ ops
  obtain ⟨c, hc, he⟩ := Option.map_eq_some_iff.mp hheld
  simp only [Prod.mk.injEq] at he
  obtain ⟨hr, hp, hu⟩ := he
  have ho : Owes 0 c := .inr (.inr (.inr ⟨hr, hp, hu⟩))
  refine ⟨c, hc, ho, ?_⟩
  exact (owed_requested_iff flakySigner { session := Sample.bob.exec flakySigner ops } hreach Sample.swapId c
    hc ho).mpr ⟨hr, hp, UInt64.zero_le⟩

/-- The responder has seen the other leg funded, and its own first funding is refused. -/
def refusedFunding : List Op :=
  Sample.packet .propose Sample.propose 0 ++ Sample.packet .fundingProof (Sample.fundingProof .nim) 0

/-- Its next tick, at a head where the swap is neither stale nor due for a refund, asks for nothing. -/
theorem refused_funding_not_retried :
    (Sample.bob.exec flakySigner refusedFunding).Reachable flakySigner ∧
    ∃ c, (Sample.bob.exec flakySigner refusedFunding).coordinators.lookup Sample.swapId = some c ∧
      Owes 0 c ∧ c.isStale 0 = false ∧ ¬ (c.swap.refundable ∧ c.swap.ownTimeout < 0) ∧
      ¬ RequestsOnTick flakySigner { session := Sample.bob.exec flakySigner refusedFunding }
        Sample.swapId c := by
  have hheld : ((Sample.bob.exec flakySigner refusedFunding).coordinators.lookup Sample.swapId).map
      (fun c => (c.role, c.phase, c.isStale 0)) = some (.responder, .initiatorFunded, false) := by
    decide +kernel
  have hquiet : (step flakySigner { session := Sample.bob.exec flakySigner refusedFunding }
      .gcTick).session.trace = (Sample.bob.exec flakySigner refusedFunding).trace := by decide +kernel
  revert hheld hquiet
  generalize refusedFunding = ops
  intro hheld hquiet
  obtain ⟨c, hc, he⟩ := Option.map_eq_some_iff.mp hheld
  simp only [Prod.mk.injEq] at he
  obtain ⟨hr, hp, hst⟩ := he
  refine ⟨Session.reachable_exec flakySigner Sample.bob_fresh ⟨by decide, nofun⟩ ops, c, hc,
    .inr (.inl ⟨hr, hp⟩), hst, ?_, ?_⟩
  · rintro ⟨-, hlt⟩
    exact absurd hlt (UInt64.not_lt.mpr UInt64.zero_le)
  · rintro ⟨new, ev, hnew, hm, -⟩
    rw [hquiet] at hnew
    obtain rfl : new = [] := List.append_left_eq_self.mp hnew.symm
    cases hm

end Worker

end Nimmesh
