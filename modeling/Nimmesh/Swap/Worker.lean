import Nimmesh.Swap.Signer

/-! @src swap_node.rs swap_fast_tick.rs swap_claim.rs | name:Runs of a worker | layer:refinement

    The worker's handlers are sequences of calls on its session, all at the head the worker has heard.
    `Worker.calls` writes the sequence down and `Worker.step_session` says that the handler does just
    that, so what holds of every run of a session holds of every run of a worker. -/

namespace Nimmesh

/-- Buffer the last of a list of replies. -/
def recordCalls (id : SwapId) (replies : List (MessageType × Bytes)) : List Op :=
  match replies.getLast? with
  | some (mt, payload) => [.record id mt payload]
  | none => []

/-- Drive each swap that a re-verification advanced, buffering its reply. -/
def driveCalls (env : Env) (head : UInt64) : Session → List SwapId → List Op
  | _, [] => []
  | s, id :: ids =>
    let r := s.drivePhaseAction env id head
    .drive id head :: (recordCalls id r.1 ++ driveCalls env head (r.2.recordLast id r.1) ids)

/-- The responder-claim step: confirm what is broadcast, then broadcast what is missing. -/
def claimCalls (env : Env) (s : Session) (head : UInt64) : List Op :=
  if !s.hasClaimWork then []
  else .confirmClaims :: (s.confirmPendingClaims env).claimsAwaitingBroadcast.map fun id => .drive id head

theorem exec_recordCalls (env : Env) (s : Session) (id : SwapId) (replies : List (MessageType × Bytes)) :
    s.exec env (recordCalls id replies) = s.recordLast id replies := by
  unfold recordCalls Session.recordLast
  cases replies.getLast? <;> rfl

theorem mem_recordCalls {id : SwapId} {replies : List (MessageType × Bytes)} {o : Op}
    (ho : o ∈ recordCalls id replies) : ∃ mt payload, o = .record id mt payload := by
  unfold recordCalls at ho
  split at ho
  · exact ⟨_, _, List.mem_singleton.mp ho⟩
  · cases ho

theorem exec_driveCalls (env : Env) (head : UInt64) : ∀ (ids : List SwapId)
    (acc : List (MessageType × Bytes)) (s : Session),
    (ids.foldl (Session.driveAdvanced env head) (acc, s)).2 = s.exec env (driveCalls env head s ids)
  | [], _, _ => rfl
  | id :: ids, acc, s => by
      rw [List.foldl_cons, driveCalls, Session.exec_cons, Session.exec_append]
      have hrec := exec_recordCalls env (s.drivePhaseAction env id head).2 id
        (s.drivePhaseAction env id head).1
      rw [show s.step env (.drive id head) = (s.drivePhaseAction env id head).2 from rfl, hrec]
      exact exec_driveCalls env head ids _ _

theorem exec_retryClaims (env : Env) (head : UInt64) : ∀ (ids : List SwapId)
    (acc : List (MessageType × Bytes)) (s : Session),
    (ids.foldl (Session.retryClaims env head) (acc, s)).2 =
      s.exec env (ids.map fun id => .drive id head)
  | [], _, _ => rfl
  | id :: ids, acc, s => by
      rw [List.foldl_cons, List.map_cons, Session.exec_cons]
      exact exec_retryClaims env head ids _ _

theorem exec_claimCalls (env : Env) (s : Session) (head : UInt64) :
    (s.driveResponderClaims env head).2 = s.exec env (claimCalls env s head) := by
  unfold Session.driveResponderClaims claimCalls
  split_ifs
  · rfl
  · rw [Session.exec_cons]
    exact exec_retryClaims env head _ _ _

/-- One thing that happens to a worker. -/
inductive WorkerOp where
  | packet (mt : MessageType) (sender : PeerId) (payload : Bytes)
  | beacon (height : UInt32)
  | gcTick
  | fastTick (nowMs : UInt64)
  | cancel (id : SwapId)

namespace Worker

/-- The worker after it. -/
def step (env : Env) (w : Worker) : WorkerOp → Worker
  | .packet mt sender payload => (w.handleSwapPacket env mt sender payload).2
  | .beacon height => w.hearBeacon height
  | .gcTick => (w.gcTick env).2
  | .fastTick nowMs => (w.fastTick env nowMs).2
  | .cancel id => { w with session := (w.session.cancel id).2 }

/-- The worker after a run. -/
def exec (env : Env) (w : Worker) (ops : List WorkerOp) : Worker := Run.exec (step env) w ops

/-- A packet the handler routes: its kind, unless it is an intent or a `Propose` for a live node that
    has heard no head. -/
def routes (w : Worker) (mt : MessageType) : Option SwapKind :=
  if mt = .swapIntent then none
  else match SwapKind.fromMessageType mt with
    | none => none
    | some kind => if kind = .propose && w.liveHeadless then none else some kind

/-- The calls of the match window. -/
def windowCalls (env : Env) (w : Worker) (s : Session) : List Op :=
  if w.liveHeadless then []
  else match w.matcher.tick.1 with
    | none => []
    | some id => .initiate id w.head :: recordCalls id (s.initiateFromIntent env id w.head).1

/-- The calls of the two ticks up to the maintenance: re-verify and drive what advanced. -/
def advanceCalls (env : Env) (w : Worker) (s : Session) : List Op :=
  .reverify :: driveCalls env w.head (s.reverifyAwaitedFunding env).2 (s.reverifyAwaitedFunding env).1

/-- The calls of a packet that is routed. -/
def packetCalls (env : Env) (w : Worker) (kind : SwapKind) (payload : Bytes) : List Op :=
  let r := w.session.onMessage env kind payload w.head
  let d := r.2.driveSwap env kind payload w.head
  let replies := (match r.1 with | .ok out => out | .error _ => []) ++ d.1
  .message kind payload w.head :: .driveSwap kind payload w.head ::
    (match decodeSwap kind payload with
      | .ok e => recordCalls e.swapId replies
      | .error _ => [])

/-- The calls of a maintenance tick. -/
def gcCalls (env : Env) (w : Worker) : List Op :=
  let s := w.session.pendingRetransmits.2
  let s1 := s.exec env (w.advanceCalls env s)
  let s2 := s1.step env (.tick w.head)
  let s3 := s2.exec env (claimCalls env s2 w.head)
  .retransmit :: (w.advanceCalls env s ++ .tick w.head :: (claimCalls env s2 w.head ++
    w.windowCalls env s3))

/-- The calls of a fast tick. -/
def fastCalls (env : Env) (w : Worker) (nowMs : UInt64) : List Op :=
  let r := w.session.fastDue nowMs
  let s1 := r.2.exec env (w.advanceCalls env r.2)
  .fastDue nowMs :: if !r.1 then [] else w.advanceCalls env r.2 ++ claimCalls env s1 w.head

/-- The calls a handler makes on its session. -/
def calls (env : Env) (w : Worker) : WorkerOp → List Op
  | .packet mt _ payload => (w.routes mt).elim [] fun kind => w.packetCalls env kind payload
  | .beacon _ => []
  | .gcTick => w.gcCalls env
  | .fastTick nowMs => w.fastCalls env nowMs
  | .cancel id => [.cancel id]

theorem exec_advanceCalls (env : Env) (w : Worker) (s : Session) (acc : List (MessageType × Bytes)) :
    ((s.reverifyAwaitedFunding env).1.foldl (Session.driveAdvanced env w.head)
      (acc, (s.reverifyAwaitedFunding env).2)).2 = s.exec env (w.advanceCalls env s) := by
  rw [advanceCalls, Session.exec_cons, exec_driveCalls]
  rfl

theorem exec_windowCalls (env : Env) (w : Worker) (s : Session) :
    (({ w with session := s } : Worker).closeMatchWindow env).2.session =
      s.exec env (w.windowCalls env s) := by
  unfold closeMatchWindow windowCalls
  have hhead : ({ w with session := s } : Worker).liveHeadless = w.liveHeadless := rfl
  rw [hhead]
  split_ifs
  · rfl
  · rcases hm : w.matcher.tick with ⟨_ | id, matcher⟩
    · rfl
    · dsimp only
      rw [Session.exec_cons, exec_recordCalls]
      rfl

/-- An intent touches the discovery layer only. -/
theorem handleIntent_cases (env : Env) (w : Worker) (sender : PeerId) (payload : Bytes) :
    ∃ throttle matcher, w.handleIntent env sender payload = { w with throttle, matcher } := by
  unfold handleIntent
  split
  · split_ifs
    · exact ⟨_, _, rfl⟩
    · exact ⟨_, _, rfl⟩
    · exact ⟨_, _, rfl⟩
    · dsimp only
      split_ifs
      · exact ⟨_, _, rfl⟩
      · exact ⟨_, _, rfl⟩
      · exact ⟨_, _, rfl⟩
  · exact ⟨_, _, rfl⟩

theorem handleIntent_session (env : Env) (w : Worker) (sender : PeerId) (payload : Bytes) :
    (w.handleIntent env sender payload).session = w.session := by
  obtain ⟨throttle, matcher, he⟩ := handleIntent_cases env w sender payload
  rw [he]

/-- A packet that is not routed leaves the session alone; one that is routed is driven next. -/
theorem handleSwapPacket_session (env : Env) (w : Worker) (mt : MessageType) (sender : PeerId)
    (payload : Bytes) : (w.handleSwapPacket env mt sender payload).2.session =
      w.session.exec env ((w.routes mt).elim [] fun kind => w.packetCalls env kind payload) := by
  unfold handleSwapPacket routes
  by_cases hint : mt = .swapIntent
  · rw [if_pos hint, if_pos hint]
    split
    · split_ifs
      · exact handleIntent_session env w sender payload
      · rfl
    · exact handleIntent_session env w sender payload
  · rw [if_neg hint, if_neg hint]
    cases hk : SwapKind.fromMessageType mt with
    | none => rfl
    | some kind =>
      dsimp only
      by_cases hgate : (decide (kind = .propose) && w.liveHeadless) = true
      · rw [if_pos hgate, if_pos hgate]
        rfl
      · rw [if_neg hgate, if_neg hgate, Option.elim_some, packetCalls]
        dsimp only
        rw [Session.exec_cons, Session.exec_cons]
        cases hd : decodeSwap kind payload with
        | error err => rfl
        | ok e => exact (exec_recordCalls env _ e.swapId _).symm

theorem gcTick_session (env : Env) (w : Worker) :
    (w.gcTick env).2.session = w.session.exec env (w.gcCalls env) := by
  have hresend : w.session.step env .retransmit = w.session.pendingRetransmits.2 := rfl
  have htick : ∀ s : Session, (s.tick env w.head).2 = s.step env (.tick w.head) := fun _ => rfl
  unfold gcTick gcCalls
  dsimp only
  rw [exec_windowCalls, Session.exec_cons, Session.exec_append, Session.exec_cons, Session.exec_append,
    hresend, exec_advanceCalls env w _ [], htick, exec_claimCalls]

theorem fastTick_session (env : Env) (w : Worker) (nowMs : UInt64) :
    (w.fastTick env nowMs).2.session = w.session.exec env (w.fastCalls env nowMs) := by
  have hdue : w.session.step env (.fastDue nowMs) = (w.session.fastDue nowMs).2 := rfl
  unfold fastTick fastCalls
  dsimp only
  rw [Session.exec_cons, hdue]
  split_ifs
  · rfl
  · dsimp only
    rw [Session.exec_append, exec_advanceCalls env w _ [], exec_claimCalls]

/-- SIMULATION: a handler makes its calls, and nothing else happens to the session. -/
theorem step_session (env : Env) (w : Worker) (op : WorkerOp) :
    (w.step env op).session = w.session.exec env (w.calls env op) := by
  cases op with
  | packet mt sender payload => exact handleSwapPacket_session env w mt sender payload
  | beacon height =>
    simp only [step, hearBeacon, calls]
    split
    · split_ifs <;> rfl
    · rfl
  | gcTick => exact gcTick_session env w
  | fastTick nowMs => exact fastTick_session env w nowMs
  | cancel id => rfl

/-- The calls of a whole run. -/
def runCalls (env : Env) : Worker → List WorkerOp → List Op
  | _, [] => []
  | w, op :: ops => w.calls env op ++ runCalls env (w.step env op) ops

/-- SIMULATION: a run of a worker is a run of its session. -/
theorem exec_session (env : Env) : ∀ (ops : List WorkerOp) (w : Worker),
    (w.exec env ops).session = w.session.exec env (w.runCalls env ops)
  | [], _ => rfl
  | op :: ops, w => by
      rw [runCalls, Session.exec_append, ← step_session]
      exact exec_session env ops (w.step env op)

/-! ### What the ticks call -/

/-- A call of a handler other than the packet handler: no message is routed or driven, the session ticks
    at `now` only, and only the swap that the match window chose is initiated. -/
def innerCall (now : Option UInt64) (chosen : Option SwapId) : Op → Prop
  | .message .. | .driveSwap .. | .remove _ => False
  | .tick head => now = some head
  | .initiate id _ => chosen = some id
  | _ => True

theorem innerCall_recordCalls {now : Option UInt64} {chosen : Option SwapId} {id : SwapId}
    {replies : List (MessageType × Bytes)} : ∀ o ∈ recordCalls id replies, innerCall now chosen o := by
  intro o ho
  obtain ⟨mt, payload, rfl⟩ := mem_recordCalls ho
  trivial

theorem innerCall_driveCalls {env : Env} {head : UInt64} {now : Option UInt64}
    {chosen : Option SwapId} : ∀ (ids : List SwapId) (s : Session),
    ∀ o ∈ driveCalls env head s ids, innerCall now chosen o := by
  intro ids
  induction ids with
  | nil =>
    intro s o ho
    cases ho
  | cons id ids ih =>
    intro s o ho
    rcases List.mem_cons.mp ho with rfl | ho
    · trivial
    · rcases List.mem_append.mp ho with ho | ho
      · exact innerCall_recordCalls o ho
      · exact ih _ o ho

theorem innerCall_advanceCalls {env : Env} {w : Worker} {s : Session} {now : Option UInt64}
    {chosen : Option SwapId} : ∀ o ∈ w.advanceCalls env s, innerCall now chosen o := by
  intro o ho
  rcases List.mem_cons.mp ho with rfl | ho
  · trivial
  · exact innerCall_driveCalls _ _ o ho

theorem innerCall_claimCalls {env : Env} {s : Session} {head : UInt64} {now : Option UInt64}
    {chosen : Option SwapId} : ∀ o ∈ claimCalls env s head, innerCall now chosen o := by
  intro o ho
  unfold claimCalls at ho
  split_ifs at ho
  · cases ho
  · rcases List.mem_cons.mp ho with rfl | ho
    · trivial
    · obtain ⟨id, -, rfl⟩ := List.mem_map.mp ho
      trivial

theorem innerCall_windowCalls {env : Env} {w : Worker} {s : Session} {now : Option UInt64} :
    ∀ o ∈ w.windowCalls env s, innerCall now w.matcher.tick.1 o := by
  intro o ho
  unfold windowCalls at ho
  split_ifs at ho
  · cases ho
  · cases hm : w.matcher.tick.1 with
    | none =>
      rw [hm] at ho
      cases ho
    | some id =>
      rw [hm] at ho
      rcases List.mem_cons.mp ho with rfl | ho
      · rfl
      · exact innerCall_recordCalls o ho

/-- The swap that a handler may initiate: the one the match window chose. -/
def chosenBy (w : Worker) : WorkerOp → Option SwapId
  | .gcTick => w.matcher.tick.1
  | _ => none

/-- The head at which a handler ticks its session: only the maintenance tick does. -/
def ticksAt (w : Worker) : WorkerOp → Option UInt64
  | .gcTick => some w.head
  | _ => none

/-- Every handler but the packet handler makes inner calls only. -/
theorem innerCall_calls {env : Env} {w : Worker} {op : WorkerOp}
    (hop : ∀ mt sender payload, op ≠ .packet mt sender payload) :
    ∀ o ∈ w.calls env op, innerCall (w.ticksAt op) (w.chosenBy op) o := by
  intro o ho
  cases op with
  | packet mt sender payload => exact absurd rfl (hop mt sender payload)
  | beacon height => cases ho
  | gcTick =>
    rcases List.mem_cons.mp ho with rfl | ho
    · trivial
    · rcases List.mem_append.mp ho with ho | ho
      · exact innerCall_advanceCalls o ho
      · rcases List.mem_cons.mp ho with rfl | ho
        · rfl
        · rcases List.mem_append.mp ho with ho | ho
          · exact innerCall_claimCalls o ho
          · exact innerCall_windowCalls o ho
  | fastTick nowMs =>
    rcases List.mem_cons.mp ho with rfl | ho
    · trivial
    · split_ifs at ho
      · cases ho
      · rcases List.mem_append.mp ho with ho | ho
        · exact innerCall_advanceCalls o ho
        · exact innerCall_claimCalls o ho
  | cancel id =>
    rw [List.mem_singleton.mp ho]
    trivial

/-- No handler removes a coordinator by hand, and the time-driven exits run at the maintenance tick only,
    at the head the worker has heard. -/
theorem now_of_mem_calls {env : Env} {w : Worker} {op : WorkerOp} {o : Op} (ho : o ∈ w.calls env op) :
    (∀ id, o ≠ .remove id) ∧ ∀ head, o.now = some head → w.ticksAt op = some head := by
  by_cases hp : ∃ mt sender payload, op = .packet mt sender payload
  · obtain ⟨mt, sender, payload, rfl⟩ := hp
    have hnow : (∀ id, o ≠ .remove id) ∧ o.now = none := by
      cases hr : w.routes mt with
      | none =>
        rw [calls, hr] at ho
        cases ho
      | some kind =>
        rw [calls, hr] at ho
        rcases List.mem_cons.mp ho with rfl | ho
        · exact ⟨by simp, rfl⟩
        · rcases List.mem_cons.mp ho with rfl | ho
          · exact ⟨by simp, rfl⟩
          · cases hd : decodeSwap kind payload with
            | error err =>
              rw [hd] at ho
              cases ho
            | ok e =>
              rw [hd] at ho
              obtain ⟨mt', payload', rfl⟩ := mem_recordCalls ho
              exact ⟨by simp, rfl⟩
    refine ⟨hnow.1, fun head h => ?_⟩
    rw [hnow.2] at h
    cases h
  · have hinner := innerCall_calls (fun mt sender payload h => hp ⟨mt, sender, payload, h⟩) o ho
    cases o with
    | tick head =>
      refine ⟨by simp, fun head' h => ?_⟩
      cases h
      exact hinner
    | remove id => exact hinner.elim
    | _ => exact ⟨by simp, fun head h => by cases h⟩

/-! ### The head of a worker -/

theorem handleIntent_cachedHead (env : Env) (w : Worker) (sender : PeerId) (payload : Bytes) :
    (w.handleIntent env sender payload).cachedHead = w.cachedHead := by
  obtain ⟨throttle, matcher, he⟩ := handleIntent_cases env w sender payload
  rw [he]

theorem handleSwapPacket_cachedHead (env : Env) (w : Worker) (mt : MessageType) (sender : PeerId)
    (payload : Bytes) : (w.handleSwapPacket env mt sender payload).2.cachedHead = w.cachedHead := by
  have hintent := handleIntent_cachedHead env w sender payload
  unfold handleSwapPacket
  split_ifs
  · split
    · split_ifs
      · exact hintent
      · rfl
    · exact hintent
  · split
    · rfl
    · split_ifs <;> rfl

theorem closeMatchWindow_cachedHead (env : Env) (w : Worker) :
    (w.closeMatchWindow env).2.cachedHead = w.cachedHead := by
  unfold closeMatchWindow
  split_ifs
  · rfl
  · dsimp only
    split <;> rfl

theorem head_le_hearBeacon (w : Worker) (height : UInt32) : w.head ≤ (w.hearBeacon height).head := by
  unfold hearBeacon head
  cases hh : w.cachedHead with
  | none => simp
  | some h =>
    dsimp only
    split_ifs with hle
    · rw [hh]
      exact UInt64.le_refl _
    · have hlt : h < height := UInt32.not_le.mp hle
      rw [UInt64.le_iff_toNat_le]
      simpa using (UInt32.lt_iff_toNat_lt.mp hlt).le

/-- The head a worker works with never moves back. -/
theorem head_le_step (env : Env) (w : Worker) (op : WorkerOp) : w.head ≤ (w.step env op).head := by
  have hsame : ∀ w' : Worker, w'.cachedHead = w.cachedHead → w.head ≤ w'.head := by
    intro w' h
    unfold head
    rw [h]
    exact UInt64.le_refl _
  cases op with
  | packet mt sender payload => exact hsame _ (handleSwapPacket_cachedHead env w mt sender payload)
  | beacon height => exact head_le_hearBeacon w height
  | gcTick => exact hsame _ (closeMatchWindow_cachedHead env _)
  | fastTick nowMs =>
    refine hsame _ ?_
    simp only [step, fastTick]
    split_ifs <;> rfl
  | cancel id => exact hsame _ rfl

end Worker

/-! ### The sample workers -/

namespace Sample

def aliceWorker : Worker := { session := alice, live := true }

def bobWorker : Worker := { session := bob, live := true }

def bobPeer : PeerId := ByteArr.fill 8 0xB0

/-- The initiator hears a head and the responder's intent, and the match window closes on it. -/
def matched : List WorkerOp :=
  [.beacon 0, .packet .swapIntent bobPeer (encodeIntent bobIntent), .gcTick, .gcTick]

end Sample

end Nimmesh
