import Nimmesh.Swap.Net
import Nimmesh.Swap.Replies

/-! @src swap_node.rs swap_session.rs swap_claim.rs swap_fast_tick.rs | name:What circulates | layer:properties

    A message that a node floods is one that it kept for retransmit, an `Accept`, a `Propose`, or one that is driven
    by the phase of a swap. So what is to hold of every message in circulation need only be shown where an `Accept`
    or a `Propose` is built, and of the driven ones. -/

namespace Nimmesh

/-- A message that a phase drives. -/
def Driven (mt : MessageType) : Prop := mt = .swapFundingProof ∨ mt = .swapPreimageReveal ∨ mt = .swapAbort

theorem SwapKind.fromMessageType_propose {mt : MessageType} (h : SwapKind.fromMessageType mt = some .propose) :
    mt = .swapPropose := by
  cases mt with
  | swapPropose => rfl
  | _ => cases h

theorem SwapKind.fromMessageType_accept {mt : MessageType} (h : SwapKind.fromMessageType mt = some .accept) :
    mt = .swapAccept := by
  cases mt with
  | swapAccept => rfl
  | _ => cases h

variable {Q : MessageType × Bytes → Prop}

theorem forall_mem_pushEnv {mt : MessageType} {e : SwapEnvelope} (h : ∀ payload, Q (mt, payload)) :
    ∀ m ∈ Session.pushEnv mt e, Q m := by
  unfold Session.pushEnv
  split
  · intro m hm
    rw [List.mem_singleton.mp hm]
    exact h _
  · exact fun _ hm => absurd hm List.not_mem_nil

namespace Session

/-- The property holds of every message that is kept for retransmit. -/
def Stores (Q : MessageType × Bytes → Prop) (s : Session) : Prop :=
  ∀ id a, s.pending.lookup id = some a → Q (a.msgType, a.payload)

theorem Stores.of_eq {s s' : Session} (h : s.Stores Q) (he : s'.pending = s.pending) : s'.Stores Q :=
  fun id a ha => h id a (he ▸ ha)

theorem Stores.recordLast {s : Session} (h : s.Stores Q) (id : SwapId) {replies : List (MessageType × Bytes)}
    (hr : ∀ m ∈ replies, Q m) : (s.recordLast id replies).Stores Q := by
  unfold Session.recordLast
  split
  · next mt payload hlast =>
    intro k a ha
    rw [recordAction, Table.lookup_insert_iff] at ha
    split_ifs at ha with hk
    · rw [← Option.some.inj ha]
      exact hr _ (List.mem_of_getLast? hlast)
    · exact h k a ha
  · exact h

theorem Stores.erase {s s' : Session} (h : s.Stores Q) {id : SwapId} (he : s'.pending = s.pending.erase id) :
    s'.Stores Q := by
  intro k a ha
  rw [he, Table.lookup_erase_iff] at ha
  split_ifs at ha
  exact h k a ha

/-- What is resent was kept, and what is still kept after that was kept before. -/
theorem Stores.pendingRetransmits {s : Session} (h : s.Stores Q) :
    (∀ m ∈ s.pendingRetransmits.1, Q m) ∧ s.pendingRetransmits.2.Stores Q := by
  constructor
  · intro m hm
    obtain ⟨e, he, rfl⟩ := List.mem_map.mp hm
    exact h e.1 e.2 ((Table.lookup_eq_some_iff _ _ _).mpr he)
  · intro k a ha
    rw [Session.pendingRetransmits, Table.lookup_retain, Table.lookup_mapVals] at ha
    cases hk : s.pending.lookup k with
    | none => simp [hk] at ha
    | some a' =>
      simp only [hk, Option.map_some, Option.filter_some] at ha
      split_ifs at ha
      rw [← Option.some.inj ha]
      exact h k a' hk

/-! ### What a phase drives -/

section
variable (hQ : ∀ m, Driven m.1 → Q m)
include hQ

theorem forall_mem_drivePhaseAction (env : Env) (s : Session) (id : SwapId) (head : UInt64) :
    ∀ m ∈ (s.drivePhaseAction env id head).1, Q m := by
  have hnil : ∀ m ∈ ([] : List (MessageType × Bytes)), Q m := fun _ hm => absurd hm List.not_mem_nil
  have hfund : ∀ c leg, ∀ m ∈ (s.driveFund env id c head leg).1, Q m := by
    intro c leg
    unfold driveFund
    dsimp only
    split
    · exact hnil
    · split
      · exact forall_mem_pushEnv fun _ => hQ _ (.inl rfl)
      · exact hnil
  unfold drivePhaseAction
  split
  · exact hnil
  · next c _ =>
    split
    · exact hfund c .nim
    · exact hfund c .counterparty
    · unfold driveReveal
      split_ifs
      · exact hnil
      · split
        · exact hnil
        · dsimp only
          split
          · exact hnil
          · split
            · exact forall_mem_pushEnv fun _ => hQ _ (.inr (.inl rfl))
            · exact hnil
    · exact hnil
    · exact hnil

theorem forall_mem_driveSwap (env : Env) (s : Session) (kind : SwapKind) (payload : Bytes) (head : UInt64) :
    ∀ m ∈ (s.driveSwap env kind payload head).1, Q m := by
  unfold driveSwap
  split
  · exact fun _ hm => absurd hm List.not_mem_nil
  · exact forall_mem_drivePhaseAction hQ env _ _ head

theorem Stores.driveAdvanced (env : Env) (head : UInt64) (ids : List SwapId)
    (acc : List (MessageType × Bytes) × Session) (hr : ∀ m ∈ acc.1, Q m) (h : acc.2.Stores Q) :
    (∀ m ∈ (ids.foldl (Session.driveAdvanced env head) acc).1, Q m) ∧
      (ids.foldl (Session.driveAdvanced env head) acc).2.Stores Q := by
  induction ids generalizing acc with
  | nil => exact ⟨hr, h⟩
  | cons id ids ih =>
    have hd := forall_mem_drivePhaseAction hQ env acc.2 id head
    have hp := (drivePhaseAction_spec env acc.2 id head).2
    exact ih _ (List.forall_mem_append.mpr ⟨hr, hd⟩) ((h.of_eq hp).recordLast id hd)

theorem forall_mem_driveResponderClaims (env : Env) (s : Session) (head : UInt64) :
    ∀ m ∈ (s.driveResponderClaims env head).1, Q m := by
  have hfold : ∀ (ids : List SwapId) (acc : List (MessageType × Bytes) × Session), (∀ m ∈ acc.1, Q m) →
      ∀ m ∈ (ids.foldl (retryClaims env head) acc).1, Q m := by
    intro ids
    induction ids with
    | nil => exact fun acc hr => hr
    | cons id ids ih =>
      exact fun acc hr => ih _ (List.forall_mem_append.mpr ⟨hr, forall_mem_drivePhaseAction hQ env acc.2 id head⟩)
  unfold driveResponderClaims
  split_ifs
  · exact fun _ hm => absurd hm List.not_mem_nil
  · exact hfold _ ([], _) fun _ hm => absurd hm List.not_mem_nil

end

/-! ### Messages and ticks -/

/-- A routed message is answered when it is a `Propose` only, and an `Abort` may empty the buffer. -/
theorem Stores.onMessage {s : Session} (h : s.Stores Q) (env : Env) (kind : SwapKind) (payload : Bytes)
    (head : UInt64) : (s.onMessage env kind payload head).2.Stores Q ∧
      ∀ out, (s.onMessage env kind payload head).1 = .ok out → kind ≠ .propose → out = [] := by
  have hnil : ∀ out : List (MessageType × Bytes), (Except.ok [] : Except SessionError _) = .ok out →
      kind ≠ .propose → out = [] := by
    rintro out ⟨⟩ -
    rfl
  have herr : ∀ (err : SessionError) (out : List (MessageType × Bytes)), Except.error err = .ok out →
      kind ≠ .propose → out = [] := by
    intro err out hout
    cases hout
  unfold Session.onMessage
  split
  · exact ⟨h, herr _⟩
  · next e _ =>
    cases kind with
    | propose =>
      refine ⟨h.of_eq ?_, fun _ _ hk => absurd rfl hk⟩
      rcases onPropose_cases env s e head with ⟨-, -, p, c, -, -, he⟩ | ⟨-, he⟩
      · rw [he]
        rfl
      · rw [he]
    | accept =>
      dsimp only
      unfold onAccept
      split
      · exact ⟨h, herr _⟩
      · split
        · exact ⟨h, herr _⟩
        · dsimp only
          split
          · exact ⟨h, hnil⟩
          · exact ⟨h, hnil⟩
    | fundingProof =>
      have hnote : (s.noteFundingWire e).pending = s.pending := by
        unfold noteFundingWire
        split
        · rfl
        · rfl
      dsimp only
      unfold onFundingProof
      split
      · exact ⟨h, herr _⟩
      · dsimp only
        split
        · exact ⟨h.of_eq hnote, herr _⟩
        · exact ⟨h.of_eq hnote, hnil⟩
    | preimageReveal =>
      dsimp only
      split
      · exact ⟨h, herr _⟩
      · exact ⟨h, hnil⟩
    | abort =>
      refine ⟨?_, hnil⟩
      dsimp only
      unfold onAbort
      split
      · split_ifs
        · exact h
        · exact h.erase rfl
      · exact h

theorem Stores.tick {s : Session} (h : s.Stores Q) (env : Env) (head : UInt64) : (s.tick env head).2.Stores Q := by
  have hsweep : (s.sweep head).2.Stores Q := by
    have herase : ∀ (ids : List SwapId) (t : Table SwapId PendingAction),
        (∀ id a, t.lookup id = some a → Q (a.msgType, a.payload)) →
        ∀ id a, (ids.foldl (fun t id => t.erase id) t).lookup id = some a → Q (a.msgType, a.payload) := by
      intro ids
      induction ids with
      | nil => exact fun _ ht => ht
      | cons i ids ih =>
        refine fun t ht => ih _ fun id a ha => ?_
        rw [Table.lookup_erase_iff] at ha
        split_ifs at ha
        exact ht id a ha
    exact herase _ s.pending h
  have hforeclose : ∀ (s : Session) (id : SwapId), (foreclose env head s id).pending = s.pending := by
    intro s id
    have hconfirm := confirmClaim_pending env s id
    unfold foreclose
    generalize s.confirmClaim env id = r at hconfirm ⊢
    rcases r with ⟨_ | _, s'⟩
    · dsimp only
      split
      · exact hconfirm
      · exact hconfirm
    · exact hconfirm
  have hfold : ∀ (ids : List SwapId) (s : Session), (ids.foldl (foreclose env head) s).pending = s.pending := by
    intro ids
    induction ids with
    | nil => exact fun _ => rfl
    | cons i ids ih => exact fun s => (ih _).trans (hforeclose s i)
  exact hsweep.of_eq (hfold _ _)

end Session

namespace Worker

/-- What the match window of a tick initiates, it initiates in a session that the tick has reached by calls. -/
def Initiates (env : Env) (w : Worker) (id : SwapId) (s : Session) : Prop :=
  (∃ calls, s = w.session.exec env calls) ∧ (w.gcTick env).2.session =
    (s.initiateFromIntent env id w.head).2.recordLast id (s.initiateFromIntent env id w.head).1

/-- The same of the maintenance tick. -/
theorem gcTick_circulates (hQ : ∀ m, Driven m.1 → Q m) {w : Worker} (h : w.session.Stores Q) (env : Env)
    (hpropose : ∀ id s, w.Initiates env id s → ∀ m ∈ (s.initiateFromIntent env id w.head).1, Q m) :
    (∀ m ∈ (w.gcTick env).1, Q m) ∧ (w.gcTick env).2.session.Stores Q := by
  have hnil : ∀ m ∈ ([] : List (MessageType × Bytes)), Q m := fun _ hm => absurd hm List.not_mem_nil
  obtain ⟨hresent, hkept⟩ := h.pendingRetransmits
  generalize hs₀ : w.session.pendingRetransmits.2 = s₀ at hkept
  have hverify := hkept.of_eq (Session.reverifyAwaitedFunding_pending env s₀)
  generalize hr₁ : s₀.reverifyAwaitedFunding env = r₁ at hverify
  obtain ⟨hdriven, hdrive⟩ := Session.Stores.driveAdvanced hQ env w.head r₁.1 ([], r₁.2) hnil hverify
  generalize hr₂ : r₁.1.foldl (Session.driveAdvanced env w.head) ([], r₁.2) = r₂ at hdriven hdrive
  have htick := hdrive.tick env w.head
  generalize hr₃ : r₂.2.tick env w.head = r₃ at htick
  have hclaimed := Session.forall_mem_driveResponderClaims hQ env r₃.2 w.head
  have hclaim := htick.of_eq (Session.driveResponderClaims_spec env r₃.2 w.head).2
  generalize hr₄ : r₃.2.driveResponderClaims env w.head = r₄ at hclaimed hclaim
  have habort : ∀ m ∈ abortReplies r₃.1, Q m := by
    intro m hm
    obtain ⟨id, -, hm⟩ := List.mem_flatMap.mp hm
    exact forall_mem_pushEnv (fun _ => hQ _ (.inr (.inr rfl))) m hm
  have hgc : w.gcTick env = (w.session.pendingRetransmits.1 ++ r₂.1 ++ abortReplies r₃.1 ++ r₄.1 ++
      (closeMatchWindow env { w with session := r₄.2 }).1, (closeMatchWindow env { w with session := r₄.2 }).2) := by
    rw [← hr₄, ← hr₃, ← hr₂, ← hr₁, ← hs₀]
    rfl
  have hcalls : ∃ calls, r₄.2 = w.session.exec env calls := by
    refine ⟨.retransmit :: (w.advanceCalls env s₀ ++ .tick w.head :: claimCalls env r₃.2 w.head), ?_⟩
    have hadvanced : r₂.2 = s₀.exec env (w.advanceCalls env s₀) := by
      rw [← hr₂, ← hr₁]
      exact exec_advanceCalls env w s₀ []
    have hticked : r₃.2 = r₂.2.step env (.tick w.head) := by
      rw [← hr₃]
      rfl
    rw [Session.exec_cons, show w.session.step env .retransmit = s₀ from hs₀, Session.exec_append, ← hadvanced,
      Session.exec_cons, ← hticked, ← exec_claimCalls, hr₄]
  have hclose : (∀ m ∈ (closeMatchWindow env { w with session := r₄.2 }).1, Q m) ∧
      (closeMatchWindow env { w with session := r₄.2 }).2.session.Stores Q := by
    have hsession : (w.gcTick env).2.session = (closeMatchWindow env { w with session := r₄.2 }).2.session := by
      rw [hgc]
    unfold closeMatchWindow at hsession ⊢
    split_ifs at hsession ⊢
    · exact ⟨hnil, hclaim⟩
    · dsimp only at hsession ⊢
      split at hsession
      · exact ⟨hnil, hclaim⟩
      · next id _ =>
        have hm := hpropose id r₄.2 ⟨hcalls, hsession⟩
        exact ⟨hm, (hclaim.of_eq (Session.initiateFromIntent_spec env r₄.2 id w.head).2).recordLast id hm⟩
  rw [hgc]
  refine ⟨?_, hclose.2⟩
  simp only [List.forall_mem_append]
  exact ⟨⟨⟨⟨hresent, hdriven⟩, habort⟩, hclaimed⟩, hclose.1⟩

/-- STEP: what a handler floods and what it keeps has the property, if what it answers to a `Propose` and what it
    proposes has it. -/
theorem step_circulates (hQ : ∀ m, Driven m.1 → Q m) {w : Worker} (h : w.session.Stores Q) (env : Env) (op : WorkerOp)
    (haccept : ∀ sender payload out, op = .packet .swapPropose sender payload →
      (w.session.onMessage env .propose payload w.head).1 = .ok out →
      (∃ calls, (w.step env op).session = (w.session.onMessage env .propose payload w.head).2.exec env calls) →
      ∀ m ∈ out, Q m)
    (hpropose : ∀ id s, op = .gcTick → w.Initiates env id s → ∀ m ∈ (s.initiateFromIntent env id w.head).1, Q m) :
    (∀ m ∈ w.floods env op, Q m) ∧ (w.step env op).session.Stores Q := by
  have hnil : ∀ m ∈ ([] : List (MessageType × Bytes)), Q m := fun _ hm => absurd hm List.not_mem_nil
  cases op with
  | packet mt sender payload =>
    have hrouted : ∀ kind, mt ≠ .swapIntent → SwapKind.fromMessageType mt = some kind →
        ¬ (kind = .propose && w.liveHeadless) = true → ∃ calls, (w.step env (.packet mt sender payload)).session =
          (w.session.onMessage env kind payload w.head).2.exec env calls := by
      intro kind hmt hkind hlive
      rw [step_session, calls, routes, if_neg hmt, hkind]
      dsimp only
      rw [if_neg hlive]
      exact ⟨_, rfl⟩
    change (∀ m ∈ (w.handleSwapPacket env mt sender payload).1, Q m) ∧
      (w.handleSwapPacket env mt sender payload).2.session.Stores Q
    unfold handleSwapPacket
    split_ifs with hmt
    · split
      · split_ifs
        · exact ⟨hnil, handleIntent_session env w sender payload ▸ h⟩
        · exact ⟨hnil, h⟩
      · exact ⟨hnil, handleIntent_session env w sender payload ▸ h⟩
    · split
      · exact ⟨hnil, h⟩
      · next kind hkind =>
        split_ifs with hlive
        · exact ⟨hnil, h⟩
        · obtain ⟨hs, hout⟩ := h.onMessage env kind payload w.head
          have hd := Session.forall_mem_driveSwap hQ env (w.session.onMessage env kind payload w.head).2 kind payload
            w.head
          have hp := (Session.driveSwap_spec env (w.session.onMessage env kind payload w.head).2 kind payload
            w.head).2
          refine have hreplies := List.forall_mem_append.mpr ⟨?_, hd⟩; ⟨hreplies, ?_⟩
          · split
            · next out heq =>
              by_cases hk : kind = .propose
              · subst hk
                obtain rfl := SwapKind.fromMessageType_propose hkind
                exact haccept sender payload out rfl heq (hrouted _ hmt hkind hlive)
              · rw [hout out heq hk]
                exact hnil
            · exact hnil
          · dsimp only
            split
            · exact (hs.of_eq hp).recordLast _ hreplies
            · exact hs.of_eq hp
  | beacon height =>
    refine ⟨hnil, h.of_eq ?_⟩
    simp only [step, hearBeacon]
    split
    · split_ifs
      · rfl
      · rfl
    · rfl
  | gcTick => exact gcTick_circulates hQ h env fun id s => hpropose id s rfl
  | fastTick nowMs =>
    have hdue := h.of_eq (Session.fastDue_pending w.session nowMs)
    change (∀ m ∈ (w.fastTick env nowMs).1, Q m) ∧ (w.fastTick env nowMs).2.session.Stores Q
    unfold fastTick
    generalize w.session.fastDue nowMs = r at hdue ⊢
    obtain ⟨due, s⟩ := r
    dsimp only at hdue ⊢
    split_ifs
    · exact ⟨hnil, hdue⟩
    · have hverify := hdue.of_eq (Session.reverifyAwaitedFunding_pending env s)
      generalize s.reverifyAwaitedFunding env = r at hverify ⊢
      obtain ⟨advanced, s⟩ := r
      dsimp only at hverify ⊢
      have hdrive := Session.Stores.driveAdvanced hQ env w.head advanced ([], s) hnil hverify
      generalize advanced.foldl (Session.driveAdvanced env w.head) ([], s) = r at hdrive ⊢
      obtain ⟨driven, s⟩ := r
      dsimp only at hdrive ⊢
      exact ⟨List.forall_mem_append.mpr ⟨hdrive.1, Session.forall_mem_driveResponderClaims hQ env s w.head⟩,
        hdrive.2.of_eq (Session.driveResponderClaims_spec env s w.head).2⟩
  | cancel id =>
    change (∀ m ∈ (w.session.cancel id).1.elim [] (Session.pushEnv .swapAbort), Q m) ∧
      (w.session.cancel id).2.Stores Q
    unfold Session.cancel
    split
    · exact ⟨hnil, h⟩
    · split_ifs
      · exact ⟨hnil, h⟩
      · exact ⟨forall_mem_pushEnv fun _ => hQ _ (.inr (.inr rfl)), h.erase rfl⟩

end Worker

end Nimmesh
