import Nimmesh.Swap.Node

/-! @src swap_node.rs swap_session.rs | name:What the swap code floods | layer:model

    Every envelope that the swap code gives its node to flood is a swap message: what a handler builds is
    one, and the retransmit buffer holds nothing but what a handler built. -/

namespace Nimmesh

/-- One of the five messages of a swap. -/
def SwapTyped (mt : MessageType) : Prop := (SwapKind.fromMessageType mt).isSome

/-- Swap messages only. -/
def SwapReplies (replies : List (MessageType × Bytes)) : Prop := ∀ r ∈ replies, SwapTyped r.1

theorem swapReplies_nil : SwapReplies [] := fun _ h => absurd h List.not_mem_nil

theorem SwapReplies.append {l l' : List (MessageType × Bytes)} (h : SwapReplies l) (h' : SwapReplies l') :
    SwapReplies (l ++ l') := fun r hr => (List.mem_append.mp hr).elim (h r) (h' r)

namespace Session

/-- The retransmit buffer holds swap messages only. -/
def Buffered (s : Session) : Prop := ∀ id a, s.pending.lookup id = some a → SwapTyped a.msgType

theorem Buffered.of_eq {s s' : Session} (h : s.Buffered) (he : s'.pending = s.pending) : s'.Buffered :=
  fun id a ha => h id a (he ▸ ha)

theorem swapReplies_pushEnv {mt : MessageType} (h : SwapTyped mt) (e : SwapEnvelope) :
    SwapReplies (pushEnv mt e) := by
  unfold pushEnv
  split
  · intro r hr
    rw [List.mem_singleton.mp hr]
    exact h
  · exact swapReplies_nil

/-! ### What leaves the buffer alone -/

theorem broadcastClaim_pending (env : Env) (s : Session) (id : SwapId) (c : SwapCoordinator)
    (head : UInt64) : (s.broadcastClaim env id c head).pending = s.pending := by
  unfold broadcastClaim
  split
  · dsimp only
    split
    · rfl
    · rfl
  · rfl

theorem confirmClaim_pending (env : Env) (s : Session) (id : SwapId) :
    (s.confirmClaim env id).2.pending = s.pending := by
  unfold confirmClaim
  split
  · rfl
  · split_ifs
    · rfl
    · split
      · rfl
      · rfl

theorem reverifyOne_pending (env : Env) (acc : List SwapId × Session) (id : SwapId) :
    (reverifyOne env acc id).2.pending = acc.2.pending := by
  have hgate : ∀ c, (acc.2.verifyCounterpartyFunding env id c).2.pending = acc.2.pending := fun _ => rfl
  unfold reverifyOne
  split
  · rfl
  · next c _ =>
    split
    · next s h => exact (congrArg (·.2.pending) h).symm.trans (hgate c)
    · next s h => exact (congrArg (·.2.pending) h).symm.trans (hgate c)

theorem reverifyAwaitedFunding_pending (env : Env) (s : Session) :
    (s.reverifyAwaitedFunding env).2.pending = s.pending := by
  have hfold : ∀ (ids : List SwapId) (acc : List SwapId × Session),
      (ids.foldl (reverifyOne env) acc).2.pending = acc.2.pending := by
    intro ids
    induction ids with
    | nil => exact fun _ => rfl
    | cons id ids ih => exact fun acc => (ih _).trans (reverifyOne_pending env acc id)
  exact hfold s.awaitingIds ([], s)

theorem confirmPendingClaims_pending (env : Env) (s : Session) :
    (s.confirmPendingClaims env).pending = s.pending := by
  unfold confirmPendingClaims
  generalize s.coordinators.keysWhere (fun _ c => hasClaim c && c.claimBroadcast.isSome) = ids
  induction ids generalizing s with
  | nil => rfl
  | cons id ids ih => exact (ih _).trans (confirmClaim_pending env s id)

theorem notePeer_pending (s : Session) (kind : SwapKind) (e : SwapEnvelope) :
    (s.notePeer kind e).pending = s.pending := by
  unfold notePeer
  split_ifs
  · split
    · split
      · rfl
      · rfl
    · split
      · rfl
      · rfl
    · rfl
  · rfl

theorem learnSecret_pending (env : Env) (s : Session) (kind : SwapKind) (e : SwapEnvelope) :
    (s.learnSecret env kind e).pending = s.pending := by
  unfold learnSecret
  split
  · split
    · rfl
    · rfl
  · rfl

theorem fastDue_pending (s : Session) (nowMs : UInt64) : (s.fastDue nowMs).2.pending = s.pending := by
  unfold fastDue
  split_ifs
  · rfl
  · rfl

/-! ### The chain actions -/

/-- A chain action floods swap messages and leaves the buffer alone. -/
theorem drivePhaseAction_spec (env : Env) (s : Session) (id : SwapId) (head : UInt64) :
    SwapReplies (s.drivePhaseAction env id head).1 ∧
      (s.drivePhaseAction env id head).2.pending = s.pending := by
  have hfund : ∀ c leg, SwapReplies (s.driveFund env id c head leg).1 ∧
      (s.driveFund env id c head leg).2.pending = s.pending := by
    intro c leg
    unfold driveFund
    dsimp only
    split
    · exact ⟨swapReplies_nil, rfl⟩
    · split
      · exact ⟨swapReplies_pushEnv (show SwapTyped .swapFundingProof from rfl) _, rfl⟩
      · exact ⟨swapReplies_nil, rfl⟩
  unfold drivePhaseAction
  split
  · exact ⟨swapReplies_nil, rfl⟩
  · next c _ =>
    split
    · exact hfund c .nim
    · exact hfund c .counterparty
    · unfold driveReveal
      split_ifs
      · exact ⟨swapReplies_nil, rfl⟩
      · split
        · exact ⟨swapReplies_nil, rfl⟩
        · dsimp only
          split
          · exact ⟨swapReplies_nil, rfl⟩
          · split
            · exact ⟨swapReplies_pushEnv (show SwapTyped .swapPreimageReveal from rfl) _, rfl⟩
            · exact ⟨swapReplies_nil, rfl⟩
    · exact ⟨swapReplies_nil,
        (confirmClaim_pending env _ id).trans (broadcastClaim_pending env s id c head)⟩
    · exact ⟨swapReplies_nil, rfl⟩

theorem driveSwap_spec (env : Env) (s : Session) (kind : SwapKind) (payload : Bytes) (head : UInt64) :
    SwapReplies (s.driveSwap env kind payload head).1 ∧
      (s.driveSwap env kind payload head).2.pending = s.pending := by
  unfold driveSwap
  split
  · exact ⟨swapReplies_nil, rfl⟩
  · next e _ =>
    obtain ⟨hr, hp⟩ := drivePhaseAction_spec env ((s.notePeer kind e).learnSecret env kind e) e.swapId head
    exact ⟨hr, hp.trans ((learnSecret_pending env _ kind e).trans (notePeer_pending s kind e))⟩

theorem initiateFromIntent_spec (env : Env) (s : Session) (id : SwapId) (head : UInt64) :
    SwapReplies (s.initiateFromIntent env id head).1 ∧
      (s.initiateFromIntent env id head).2.pending = s.pending := by
  unfold initiateFromIntent
  split
  · exact ⟨swapReplies_nil, rfl⟩
  · split_ifs
    · exact ⟨swapReplies_pushEnv (show SwapTyped .swapPropose from rfl) _, rfl⟩
    · exact ⟨swapReplies_nil, rfl⟩

/-! ### The buffer -/

theorem Buffered.recordLast {s : Session} (h : s.Buffered) (id : SwapId)
    {replies : List (MessageType × Bytes)} (hr : SwapReplies replies) : (s.recordLast id replies).Buffered := by
  unfold Session.recordLast
  split
  · next mt payload hlast =>
    intro k a ha
    rw [recordAction, Table.lookup_insert_iff] at ha
    split_ifs at ha with hk
    · rw [← Option.some.inj ha]
      exact hr _ (List.mem_of_getLast? hlast)
    · exact h k a ha
  · exact h

theorem Buffered.tearDown {s : Session} (h : s.Buffered) (id : SwapId) : (s.tearDown id).Buffered := by
  intro k a ha
  rw [Session.tearDown, Table.lookup_erase_iff] at ha
  split_ifs at ha
  exact h k a ha

theorem Buffered.pendingRetransmits {s : Session} (h : s.Buffered) :
    SwapReplies s.pendingRetransmits.1 ∧ s.pendingRetransmits.2.Buffered := by
  constructor
  · intro r hr
    obtain ⟨e, he, rfl⟩ := List.mem_map.mp hr
    exact h e.1 e.2 ((Table.lookup_eq_some_iff _ _ _).mpr he)
  · intro k a ha
    rw [Session.pendingRetransmits, Table.lookup_retain, Table.lookup_mapVals] at ha
    cases hk : s.pending.lookup k with
    | none => simp [hk] at ha
    | some a' =>
      simp only [hk, Option.map_some, Option.filter_some] at ha
      split_ifs at ha
      rw [← Option.some.inj ha]
      exact h k a' hk

theorem Buffered.tick {s : Session} (h : s.Buffered) (env : Env) (head : UInt64) :
    (s.tick env head).2.Buffered := by
  have hsweep : (s.sweep head).2.Buffered := by
    have herase : ∀ (ids : List SwapId) (t : Table SwapId PendingAction),
        (∀ id a, t.lookup id = some a → SwapTyped a.msgType) →
        ∀ id a, (ids.foldl (fun t id => t.erase id) t).lookup id = some a → SwapTyped a.msgType := by
      intro ids
      induction ids with
      | nil => exact fun _ ht => ht
      | cons i ids ih =>
        refine fun t ht => ih _ fun id a ha => ?_
        rw [Table.lookup_erase_iff] at ha
        split_ifs at ha
        exact ht id a ha
    exact herase _ s.pending h
  have hforeclose : ∀ (s : Session) (id : SwapId), (foreclose env head s id).pending = s.pending := by
    intro s id
    have hconfirm := confirmClaim_pending env s id
    unfold foreclose
    generalize s.confirmClaim env id = r at hconfirm ⊢
    rcases r with ⟨_ | _, s'⟩
    · dsimp only
      split
      · exact hconfirm
      · exact hconfirm
    · exact hconfirm
  have hfold : ∀ (ids : List SwapId) (s : Session), (ids.foldl (foreclose env head) s).pending = s.pending := by
    intro ids
    induction ids with
    | nil => exact fun _ => rfl
    | cons i ids ih => exact fun s => (ih _).trans (hforeclose s i)
  exact hsweep.of_eq (hfold _ _)

theorem Buffered.onMessage {s : Session} (h : s.Buffered) (env : Env) (kind : SwapKind) (payload : Bytes)
    (head : UInt64) : (s.onMessage env kind payload head).2.Buffered ∧
      ∀ out, (s.onMessage env kind payload head).1 = .ok out → SwapReplies out := by
  have hnil : ∀ out : List (MessageType × Bytes),
      (Except.ok [] : Except SessionError _) = .ok out → SwapReplies out := by
    rintro out ⟨⟩
    exact swapReplies_nil
  have herr : ∀ (err : SessionError) (out : List (MessageType × Bytes)),
      Except.error err = .ok out → SwapReplies out := fun _ _ h => nomatch h
  unfold Session.onMessage
  split
  · exact ⟨h, herr _⟩
  · next e _ =>
    split
    · unfold onPropose
      split_ifs
      · exact ⟨h, hnil⟩
      · exact ⟨h, hnil⟩
      · split
        · exact ⟨h, herr _⟩
        · split_ifs
          · exact ⟨h, hnil⟩
          · exact ⟨h, hnil⟩
          · dsimp only
            split
            · exact ⟨h, herr _⟩
            · split
              · refine ⟨h, fun out hout => ?_⟩
                cases hout
                intro r hr
                rw [List.mem_singleton.mp hr]
                exact rfl
              · exact ⟨h, herr _⟩
    · unfold onAccept
      split
      · exact ⟨h, herr _⟩
      · split
        · exact ⟨h, herr _⟩
        · dsimp only
          split
          · exact ⟨h, hnil⟩
          · exact ⟨h, hnil⟩
    · unfold onFundingProof
      have hnote : (s.noteFundingWire e).pending = s.pending := by
        unfold noteFundingWire
        split
        · rfl
        · rfl
      split
      · exact ⟨h, herr _⟩
      · next c _ =>
        have hgate : (((s.noteFundingWire e).markProofSeen e.swapId).verifyCounterpartyFunding env e.swapId
            c).2.Buffered := h.of_eq hnote
        dsimp only
        split
        · exact ⟨hgate, herr _⟩
        · exact ⟨hgate, hnil⟩
    · split
      · exact ⟨h, herr _⟩
      · exact ⟨h, hnil⟩
    · refine ⟨?_, hnil⟩
      unfold onAbort
      split
      · split_ifs
        · exact h
        · exact h.tearDown _
      · exact h

/-! ### The ticks -/

/-- Driving the swaps that a re-verification advanced. -/
theorem Buffered.driveAdvanced (env : Env) (head : UInt64) (ids : List SwapId)
    (acc : List (MessageType × Bytes) × Session) (hr : SwapReplies acc.1) (h : acc.2.Buffered) :
    SwapReplies (ids.foldl (Session.driveAdvanced env head) acc).1 ∧
      (ids.foldl (Session.driveAdvanced env head) acc).2.Buffered := by
  induction ids generalizing acc with
  | nil => exact ⟨hr, h⟩
  | cons id ids ih =>
    obtain ⟨hd, hp⟩ := drivePhaseAction_spec env acc.2 id head
    exact ih _ (hr.append hd) ((h.of_eq hp).recordLast id hd)

theorem driveResponderClaims_spec (env : Env) (s : Session) (head : UInt64) :
    SwapReplies (s.driveResponderClaims env head).1 ∧
      (s.driveResponderClaims env head).2.pending = s.pending := by
  have hfold : ∀ (ids : List SwapId) (acc : List (MessageType × Bytes) × Session), SwapReplies acc.1 →
      SwapReplies (ids.foldl (retryClaims env head) acc).1 ∧
        (ids.foldl (retryClaims env head) acc).2.pending = acc.2.pending := by
    intro ids
    induction ids with
    | nil => exact fun acc hr => ⟨hr, rfl⟩
    | cons id ids ih =>
      intro acc hr
      obtain ⟨hd, hp⟩ := drivePhaseAction_spec env acc.2 id head
      obtain ⟨hr', hp'⟩ := ih (retryClaims env head acc id) (hr.append hd)
      exact ⟨hr', hp'.trans hp⟩
  unfold driveResponderClaims
  split_ifs
  · exact ⟨swapReplies_nil, rfl⟩
  · obtain ⟨hr, hp⟩ := hfold (s.confirmPendingClaims env).claimsAwaitingBroadcast ([], _) swapReplies_nil
    exact ⟨hr, hp.trans (confirmPendingClaims_pending env s)⟩

end Session

namespace Worker

theorem handleSwapPacket_spec {w : Worker} (h : w.session.Buffered) (env : Env) (mt : MessageType)
    (sender : PeerId) (payload : Bytes) : SwapReplies (w.handleSwapPacket env mt sender payload).1 ∧
      (w.handleSwapPacket env mt sender payload).2.session.Buffered := by
  have hintent : (w.handleIntent env sender payload).session = w.session := by
    unfold handleIntent
    split
    · split_ifs
      · rfl
      · rfl
      · rfl
      · dsimp only
        split_ifs
        · rfl
        · rfl
        · rfl
    · rfl
  unfold handleSwapPacket
  split_ifs
  · split
    · split_ifs
      · exact ⟨swapReplies_nil, hintent ▸ h⟩
      · exact ⟨swapReplies_nil, h⟩
    · exact ⟨swapReplies_nil, hintent ▸ h⟩
  · split
    · exact ⟨swapReplies_nil, h⟩
    · next kind _ =>
      split_ifs
      · exact ⟨swapReplies_nil, h⟩
      · obtain ⟨hs, hout⟩ := h.onMessage env kind payload w.head
        obtain ⟨hd, hp⟩ := Session.driveSwap_spec env (w.session.onMessage env kind payload w.head).2 kind
          payload w.head
        have hbuf := hs.of_eq hp
        refine have hreplies := SwapReplies.append ?_ hd; ⟨hreplies, ?_⟩
        · split
          · next out heq => exact hout out heq
          · exact swapReplies_nil
        · dsimp only
          split
          · exact hbuf.recordLast _ hreplies
          · exact hbuf

theorem closeMatchWindow_spec {w : Worker} (h : w.session.Buffered) (env : Env) :
    SwapReplies (w.closeMatchWindow env).1 ∧ (w.closeMatchWindow env).2.session.Buffered := by
  unfold closeMatchWindow
  split_ifs
  · exact ⟨swapReplies_nil, h⟩
  · dsimp only
    split
    · exact ⟨swapReplies_nil, h⟩
    · next id _ =>
      obtain ⟨hr, hp⟩ := Session.initiateFromIntent_spec env w.session id w.head
      exact ⟨hr, (h.of_eq hp).recordLast id hr⟩

theorem swapReplies_abortReplies (ids : List SwapId) : SwapReplies (abortReplies ids) := by
  intro r hr
  obtain ⟨id, -, hr⟩ := List.mem_flatMap.mp hr
  exact Session.swapReplies_pushEnv (show SwapTyped .swapAbort from rfl) _ r hr

theorem gcTick_spec {w : Worker} (h : w.session.Buffered) (env : Env) :
    SwapReplies (w.gcTick env).1 ∧ (w.gcTick env).2.session.Buffered := by
  have hresent := h.pendingRetransmits
  unfold gcTick
  generalize w.session.pendingRetransmits = r at hresent ⊢
  obtain ⟨resent, s⟩ := r
  dsimp only at hresent ⊢
  have hverify := hresent.2.of_eq (Session.reverifyAwaitedFunding_pending env s)
  generalize s.reverifyAwaitedFunding env = r at hverify ⊢
  obtain ⟨advanced, s⟩ := r
  dsimp only at hverify ⊢
  have hdrive := Session.Buffered.driveAdvanced env w.head advanced ([], s)
    swapReplies_nil hverify
  generalize advanced.foldl (Session.driveAdvanced env w.head) ([], s) = r at hdrive ⊢
  obtain ⟨driven, s⟩ := r
  dsimp only at hdrive ⊢
  have htick := hdrive.2.tick env w.head
  generalize s.tick env w.head = r at htick ⊢
  obtain ⟨stale, s⟩ := r
  dsimp only at htick ⊢
  have hclaim := Session.driveResponderClaims_spec env s w.head
  generalize s.driveResponderClaims env w.head = r at hclaim ⊢
  obtain ⟨claimed, s'⟩ := r
  dsimp only at hclaim ⊢
  have hclose := closeMatchWindow_spec (w := { w with session := s' }) (htick.of_eq hclaim.2) env
  generalize closeMatchWindow env { w with session := s' } = r at hclose ⊢
  obtain ⟨proposed, w'⟩ := r
  exact ⟨(((hresent.1.append hdrive.1).append (swapReplies_abortReplies stale)).append hclaim.1).append
    hclose.1, hclose.2⟩

theorem fastTick_spec {w : Worker} (h : w.session.Buffered) (env : Env) (nowMs : UInt64) :
    SwapReplies (w.fastTick env nowMs).1 ∧ (w.fastTick env nowMs).2.session.Buffered := by
  have hdue := h.of_eq (Session.fastDue_pending w.session nowMs)
  unfold fastTick
  generalize w.session.fastDue nowMs = r at hdue ⊢
  obtain ⟨due, s⟩ := r
  dsimp only at hdue ⊢
  split_ifs
  · exact ⟨swapReplies_nil, hdue⟩
  · have hverify := hdue.of_eq (Session.reverifyAwaitedFunding_pending env s)
    generalize s.reverifyAwaitedFunding env = r at hverify ⊢
    obtain ⟨advanced, s⟩ := r
    dsimp only at hverify ⊢
    have hdrive := Session.Buffered.driveAdvanced env w.head advanced ([], s)
      swapReplies_nil hverify
    generalize advanced.foldl (Session.driveAdvanced env w.head) ([], s) = r at hdrive ⊢
    obtain ⟨driven, s⟩ := r
    dsimp only at hdrive ⊢
    have hclaim := Session.driveResponderClaims_spec env s w.head
    exact ⟨hdrive.1.append hclaim.1, hdrive.2.of_eq hclaim.2⟩

end Worker

end Nimmesh
