import Nimmesh.Lib.Backlog
import Nimmesh.Lib.TableOrder
import Nimmesh.Mesh.Carriage
import Nimmesh.Mesh.Paired
import Nimmesh.Swap.Net
import Nimmesh.Swap.Origin
import Nimmesh.Swap.Removal
import Nimmesh.Swap.Replies

/-! @src swap_session.rs swap_node.rs swap_claim.rs swap_fast_tick.rs engine.rs |
    name:What a participant holds | layer:properties

    Anyone may send a participant proposals, funding proofs and intents, and settle swaps with it as fast as it can. What
    it holds of them is bounded by the number of swaps that it runs at a time: its notes are about swaps that it holds,
    and the last message of a swap that has settled is kept for retransmit until its budget is spent. -/

namespace Nimmesh

namespace Session

/-! ### Calls that take up no swap and give none up -/

/-- The same swaps are held, and what is noted is about them. -/
structure Tidy (s s' : Session) : Prop where
  held : ∀ k, k ∈ s'.coordinators ↔ k ∈ s.coordinators
  pending : s'.pending = s.pending
  identity : s'.identity = s.identity
  seen : ∀ k ∈ s'.fundingProofSeen, k ∈ s.fundingProofSeen ∨ k ∈ s'.coordinators
  notes : ∀ k ∈ s'.verifyNotes, k ∈ s.verifyNotes ∨ k ∈ s'.coordinators

namespace Tidy

theorem of_eq {s s' : Session} (hc : s'.coordinators = s.coordinators) (hp : s'.pending = s.pending)
    (hi : s'.identity = s.identity) (hs : s'.fundingProofSeen = s.fundingProofSeen)
    (hn : s'.verifyNotes = s.verifyNotes) : Tidy s s' :=
  ⟨fun k => by rw [hc], hp, hi, fun k hk => .inl (hs ▸ hk), fun k hk => .inl (hn ▸ hk)⟩

theorem refl (s : Session) : Tidy s s := .of_eq rfl rfl rfl rfl rfl

theorem trans {s s' s'' : Session} (h : Tidy s s') (h' : Tidy s' s'') : Tidy s s'' where
  held k := (h'.held k).trans (h.held k)
  pending := h'.pending.trans h.pending
  identity := h'.identity.trans h.identity
  seen k hk := (h'.seen k hk).elim (fun hk => (h.seen k hk).imp_right (h'.held k).mpr) .inr
  notes k hk := (h'.notes k hk).elim (fun hk => (h.notes k hk).imp_right (h'.held k).mpr) .inr

theorem foldl {α : Type*} {f : Session → α → Session} (hf : ∀ s a, Tidy s (f s a)) (l : List α) (s : Session) :
    Tidy s (l.foldl f s) := by
  induction l generalizing s with
  | nil => exact refl s
  | cons a l ih => exact (hf s a).trans (ih (f s a))

theorem log (s : Session) (e : Event) : Tidy s (s.log e) := .of_eq rfl rfl rfl rfl rfl

theorem setCoord {s : Session} {id : SwapId} (h : id ∈ s.coordinators) (c : SwapCoordinator) :
    Tidy s (s.setCoord id c) where
  held k := by
    rw [Session.setCoord, AList.mem_insert]
    exact ⟨fun hk => hk.elim (fun he => he ▸ h) fun hk => hk, .inr⟩
  pending := rfl
  identity := rfl
  seen _ hk := .inl hk
  notes _ hk := .inl hk

theorem noteVerify {s : Session} {id : SwapId} (h : id ∈ s.coordinators) (env : Env) (text : String) :
    Tidy s (s.noteVerify env id text) where
  held _ := Iff.rfl
  pending := rfl
  identity := rfl
  seen _ hk := .inl hk
  notes k hk := by
    rw [Session.noteVerify, AList.mem_insert] at hk
    exact hk.elim (fun he => .inr (he ▸ h)) .inl

end Tidy

theorem mem_of_lookup {s : Session} {id : SwapId} {c : SwapCoordinator} (h : s.coordinators.lookup id = some c) :
    id ∈ s.coordinators := (Table.mem_iff_lookup _ _).mpr ⟨c, h⟩

theorem verifyCounterpartyFunding_tidy {s : Session} {id : SwapId} (h : id ∈ s.coordinators) (env : Env)
    (c : SwapCoordinator) : Tidy s (s.verifyCounterpartyFunding env id c).2 := by
  have hset := (Tidy.setCoord h (c.verifyAndObserveFunding (env.observe s.trace)
    (s.requiredDepth c.counterpartyExpectation.leg)).2).trans (.log _ (.observed id c.counterpartyExpectation
      (env.observe s.trace c.counterpartyExpectation)))
  exact hset.trans (.noteVerify ((hset.held id).mpr h) env _)

theorem reverifyOne_tidy (env : Env) (acc : List SwapId × Session) (id : SwapId) :
    Tidy acc.2 (reverifyOne env acc id).2 := by
  unfold reverifyOne
  split
  · exact .refl _
  · next c hc =>
    have hgate := verifyCounterpartyFunding_tidy (mem_of_lookup hc) env c
    split
    · next s h => exact (congrArg Prod.snd h : _ = s) ▸ hgate
    · next s h => exact (congrArg Prod.snd h : _ = s) ▸ hgate

theorem reverifyAwaitedFunding_tidy (env : Env) (s : Session) : Tidy s (s.reverifyAwaitedFunding env).2 := by
  have hfold : ∀ (ids : List SwapId) (acc : List SwapId × Session), Tidy acc.2 (ids.foldl (reverifyOne env) acc).2 := by
    intro ids
    induction ids with
    | nil => exact fun acc => .refl acc.2
    | cons id ids ih => exact fun acc => (reverifyOne_tidy env acc id).trans (ih _)
  refine (hfold s.awaitingIds ([], s)).trans ⟨fun _ => Iff.rfl, rfl, rfl, fun k hk => .inl ?_, fun _ hk => .inl hk⟩
  obtain ⟨v, hv, -⟩ := (Table.mem_retain _ _ k).mp hk
  exact (Table.mem_iff_lookup _ _).mpr ⟨v, hv⟩

theorem confirmClaim_tidy (env : Env) (s : Session) (id : SwapId) : Tidy s (s.confirmClaim env id).2 := by
  unfold confirmClaim
  split
  · exact .refl s
  · next c hc =>
    split_ifs
    · exact .refl s
    · split
      · exact .refl s
      · next txId _ =>
        have hset := (Tidy.setCoord (mem_of_lookup hc) (applyClaimObservation c (s.requiredDepth .nim)
          (env.observeClaim s.trace .nim txId))).trans
            (.log _ (.observedClaim id txId (env.observeClaim s.trace .nim txId)))
        exact hset.trans (.noteVerify ((hset.held id).mpr (mem_of_lookup hc)) env _)

theorem confirmPendingClaims_tidy (env : Env) (s : Session) : Tidy s (s.confirmPendingClaims env) :=
  .foldl (fun s id => confirmClaim_tidy env s id) _ s

theorem foreclose_tidy (env : Env) (head : UInt64) (s : Session) (id : SwapId) : Tidy s (foreclose env head s id) := by
  have hconfirm := confirmClaim_tidy env s id
  unfold foreclose
  generalize s.confirmClaim env id = r at hconfirm ⊢
  rcases r with ⟨_ | _, s'⟩
  · dsimp only
    split
    · next c hc => exact hconfirm.trans (.setCoord (mem_of_lookup hc) _)
    · exact hconfirm
  · exact hconfirm

theorem drivePhaseAction_tidy (env : Env) (s : Session) (id : SwapId) (head : UInt64) :
    Tidy s (s.drivePhaseAction env id head).2 := by
  unfold drivePhaseAction
  split
  · exact .refl s
  · next c hc =>
    have hid := mem_of_lookup hc
    have hset : ∀ e c', Tidy s ((s.log e).setCoord id c') := fun e c' =>
      (Tidy.log s e).trans (.setCoord (s := s.log e) hid c')
    have hfund : ∀ leg, Tidy s (s.driveFund env id c head leg).2 := by
      intro leg
      unfold driveFund
      dsimp only
      split
      · exact .log s _
      · split
        · exact hset _ _
        · exact hset _ _
    split
    · exact hfund .nim
    · exact hfund .counterparty
    · unfold driveReveal
      split_ifs
      · exact .refl s
      · split
        · exact .refl s
        · dsimp only
          split
          · exact .log s _
          · split
            · exact hset _ _
            · exact hset _ _
    · refine Tidy.trans ?_ (confirmClaim_tidy env _ id)
      unfold broadcastClaim
      split
      · dsimp only
        split
        · exact .log s _
        · exact hset _ _
      · exact .refl s
    · exact .refl s

theorem notePeer_tidy (s : Session) (kind : SwapKind) (e : SwapEnvelope) : Tidy s (s.notePeer kind e) := by
  rcases notePeer_cases s kind e with ⟨peer, -, -, he⟩ | ⟨-, he⟩
  · rw [he]
    exact .log s _
  · rw [he]
    exact .refl s

theorem driveSwap_tidy (env : Env) (s : Session) (kind : SwapKind) (payload : Bytes) (head : UInt64) :
    Tidy s (s.driveSwap env kind payload head).2 := by
  unfold driveSwap
  split
  · exact .refl s
  · next e _ =>
    refine (notePeer_tidy s kind e).trans (Tidy.trans ?_ (drivePhaseAction_tidy env _ e.swapId head))
    unfold learnSecret
    split
    · split
      · next c hc => exact .setCoord (mem_of_lookup hc) _
      · exact .refl _
    · exact .refl _

theorem driveResponderClaims_tidy (env : Env) (s : Session) (head : UInt64) :
    Tidy s (s.driveResponderClaims env head).2 := by
  have hfold : ∀ (ids : List SwapId) (acc : List (MessageType × Bytes) × Session),
      Tidy acc.2 (ids.foldl (retryClaims env head) acc).2 := by
    intro ids
    induction ids with
    | nil => exact fun acc => .refl acc.2
    | cons id ids ih =>
      exact fun acc => (drivePhaseAction_tidy env acc.2 id head).trans (ih (retryClaims env head acc id))
  unfold driveResponderClaims
  split_ifs
  · exact .refl s
  · exact (confirmPendingClaims_tidy env s).trans (hfold _ ([], _))

theorem fastDue_tidy (s : Session) (nowMs : UInt64) : Tidy s (s.fastDue nowMs).2 := by
  unfold fastDue
  split_ifs
  · exact .of_eq rfl rfl rfl rfl rfl
  · exact .refl s

theorem onAccept_tidy (s : Session) (e : SwapEnvelope) (head : UInt64) : Tidy s (s.onAccept e head).2 := by
  unfold onAccept
  split
  · exact .refl s
  · next c hc =>
    split
    · exact .setCoord (mem_of_lookup hc) _
    · dsimp only
      split
      · exact (Tidy.setCoord (mem_of_lookup hc) _).trans (.log _ _)
      · exact .setCoord (mem_of_lookup hc) _

theorem onFundingProof_tidy (env : Env) (s : Session) (e : SwapEnvelope) : Tidy s (s.onFundingProof env e).2 := by
  unfold onFundingProof
  split
  · exact .refl s
  · next c hc =>
    have hwire : Tidy s (s.noteFundingWire e) := by
      unfold noteFundingWire
      split
      · exact .log s _
      · exact .refl s
    have hid := (hwire.held e.swapId).mpr (mem_of_lookup hc)
    have hmark : Tidy (s.noteFundingWire e) ((s.noteFundingWire e).markProofSeen e.swapId) := by
      refine ⟨fun _ => Iff.rfl, rfl, rfl, fun k hk => ?_, fun _ hk => .inl hk⟩
      rw [markProofSeen, AList.mem_insert] at hk
      exact hk.elim (fun he => .inr (he ▸ hid)) .inl
    have hgate := (hwire.trans hmark).trans (verifyCounterpartyFunding_tidy
      ((hmark.held e.swapId).mpr hid) env c)
    dsimp only
    split
    · exact hgate
    · exact hgate

/-! ### Who gets a reply -/

/-- Only a swap that is held drives anything. -/
theorem drivePhaseAction_silent {s : Session} {id : SwapId} (h : id ∉ s.coordinators) (env : Env) (head : UInt64) :
    (s.drivePhaseAction env id head).1 = [] := by
  rw [drivePhaseAction, AList.lookup_eq_none.mpr h]

theorem driveSwap_silent {s : Session} {kind : SwapKind} {payload : Bytes} {e : SwapEnvelope}
    (he : decodeSwap kind payload = .ok e) (h : e.swapId ∉ s.coordinators) (env : Env) (head : UInt64) :
    (s.driveSwap env kind payload head).1 = [] := by
  have hlearn : ∀ s' : Session, e.swapId ∉ s'.coordinators → s'.learnSecret env kind e = s' := by
    intro s' h'
    unfold learnSecret
    rw [AList.lookup_eq_none.mpr h']
    split
    · split
      · next heq => cases heq
      · rfl
    · rfl
  have hpeer : e.swapId ∉ (s.notePeer kind e).coordinators := by
    rw [((notePeer_tidy s kind e).held e.swapId)]
    exact h
  unfold driveSwap
  rw [he]
  dsimp only
  rw [hlearn _ hpeer]
  exact drivePhaseAction_silent hpeer env head

/-- A message takes up a swap if there is room for it, gives one up, or does neither. -/
inductive Turn (s s' : Session) : Prop
  | tidy (h : Tidy s s')
  | takes (id : SwapId) (c : SwapCoordinator) (hroom : s.coordinators.len < s.identity.maxConcurrentSwaps)
      (hc : s'.coordinators = s.coordinators.insert id c) (hp : s'.pending = s.pending)
      (hi : s'.identity = s.identity) (hs : s'.fundingProofSeen = s.fundingProofSeen)
      (hn : s'.verifyNotes = s.verifyNotes)
  | drops (id : SwapId) (h : s' = s.tearDown id)

theorem onMessage_turn (env : Env) (s : Session) (kind : SwapKind) (payload : Bytes) (head : UInt64) :
    Turn s (s.onMessage env kind payload head).2 := by
  unfold onMessage
  split
  · exact .tidy (.refl s)
  · next e _ =>
    split
    · rcases onPropose_exact env s e head with ⟨p, -, hadm, -, he⟩ | ⟨-, he⟩
      · rw [he]
        exact .takes e.swapId _ hadm.1 rfl rfl rfl rfl rfl
      · rw [he]
        exact .tidy (.refl s)
    · exact .tidy (onAccept_tidy s e head)
    · exact .tidy (onFundingProof_tidy env s e)
    · split
      · exact .tidy (.refl s)
      · exact .tidy (.refl s)
    · dsimp only
      unfold onAbort
      split
      · split_ifs
        · exact .tidy (.refl s)
        · exact .drops e.swapId rfl
      · exact .tidy (.refl s)

/-- A message is answered, with one reply, only if its swap is held then. -/
theorem onMessage_reply {kind : SwapKind} {payload : Bytes} {e : SwapEnvelope} (he : decodeSwap kind payload = .ok e)
    (env : Env) (s : Session) (head : UInt64) {out : List (MessageType × Bytes)} :
    (s.onMessage env kind payload head).1 = .ok out →
      out = [] ∨ out.length = 1 ∧ e.swapId ∈ (s.onMessage env kind payload head).2.coordinators := by
  have hnil : ∀ {P : Prop}, (Except.ok [] : Except SessionError (List (MessageType × Bytes))) = .ok out →
      out = [] ∨ out.length = 1 ∧ P := by
    intro P hok
    cases hok
    exact .inl rfl
  have herr : ∀ {P : Prop} {err : SessionError}, Except.error err = .ok out → out = [] ∨ out.length = 1 ∧ P := by
    intro P err hok
    cases hok
  unfold onMessage
  rw [he]
  cases kind with
  | propose =>
    dsimp only
    unfold onPropose
    split_ifs
    · exact hnil
    · exact hnil
    · split
      · exact herr
      · split_ifs
        · exact hnil
        · exact hnil
        · dsimp only
          split
          · exact herr
          · split
            · intro hok
              cases hok
              exact .inr ⟨rfl, (AList.mem_insert _).mpr (.inl rfl)⟩
            · exact herr
  | accept =>
    dsimp only
    unfold onAccept
    split
    · exact herr
    · split
      · exact herr
      · dsimp only
        split
        · exact hnil
        · exact hnil
  | fundingProof =>
    dsimp only
    unfold onFundingProof
    split
    · exact herr
    · dsimp only
      split
      · exact herr
      · exact hnil
  | preimageReveal =>
    dsimp only
    split
    · exact herr
    · exact hnil
  | abort => exact hnil

theorem initiateFromIntent_turn (env : Env) (s : Session) (id : SwapId) (head : UInt64) :
    ((s.initiateFromIntent env id head).1 = [] ∧ (s.initiateFromIntent env id head).2 = s) ∨
      (Turn s (s.initiateFromIntent env id head).2 ∧ id ∈ (s.initiateFromIntent env id head).2.coordinators) := by
  unfold initiateFromIntent
  split
  · exact .inl ⟨rfl, rfl⟩
  · next standing _ =>
    split_ifs with hmay
    · simp only [mayInitiate, Bool.and_eq_true, decide_eq_true_eq] at hmay
      refine .inr ⟨.takes id _ hmay.1.2 rfl rfl rfl rfl rfl, ?_⟩
      exact (AList.mem_insert _).mpr (.inl rfl)
    · exact .inl ⟨rfl, rfl⟩

/-! ### How much is sent -/

theorem length_pushEnv_le (mt : MessageType) (e : SwapEnvelope) : (pushEnv mt e).length ≤ 1 := by
  unfold pushEnv
  split
  · exact le_rfl
  · exact Nat.zero_le 1

/-- A chain action sends one message at most. -/
theorem length_drivePhaseAction_le (env : Env) (s : Session) (id : SwapId) (head : UInt64) :
    (s.drivePhaseAction env id head).1.length ≤ 1 := by
  have hnil : ([] : List (MessageType × Bytes)).length ≤ 1 := Nat.zero_le 1
  have hfund : ∀ c leg, (s.driveFund env id c head leg).1.length ≤ 1 := by
    intro c leg
    unfold driveFund
    dsimp only
    split
    · exact hnil
    · split
      · exact length_pushEnv_le _ _
      · exact hnil
  unfold drivePhaseAction
  split
  · exact hnil
  · next c _ =>
    split
    · exact hfund c .nim
    · exact hfund c .counterparty
    · unfold driveReveal
      split_ifs
      · exact hnil
      · split
        · exact hnil
        · dsimp only
          split
          · exact hnil
          · split
            · exact length_pushEnv_le _ _
            · exact hnil
    · exact hnil
    · exact hnil

theorem length_driveSwap_le (env : Env) (s : Session) (kind : SwapKind) (payload : Bytes) (head : UInt64) :
    (s.driveSwap env kind payload head).1.length ≤ 1 := by
  unfold driveSwap
  split
  · exact Nat.zero_le 1
  · exact length_drivePhaseAction_le env _ _ head

/-- A pass over swaps that adds one thing at most for each. -/
theorem length_foldl_le {α β σ : Type*} {f : List β × σ → α → List β × σ}
    (hf : ∀ acc a, (f acc a).1.length ≤ acc.1.length + 1) (l : List α) (acc : List β × σ) :
    (l.foldl f acc).1.length ≤ acc.1.length + l.length := by
  induction l generalizing acc with
  | nil => exact le_rfl
  | cons a l ih =>
    have hrest := ih (f acc a)
    have hfirst := hf acc a
    rw [List.foldl_cons, List.length_cons]
    omega

theorem length_reverifyAwaitedFunding_le (env : Env) (s : Session) :
    (s.reverifyAwaitedFunding env).1.length ≤ s.coordinators.len := by
  have hone : ∀ (acc : List SwapId × Session) id, (reverifyOne env acc id).1.length ≤ acc.1.length + 1 := by
    intro acc id
    unfold reverifyOne
    split
    · exact Nat.le_succ _
    · split
      · rw [List.length_append, List.length_singleton]
      · exact Nat.le_succ _
  have hfold := length_foldl_le hone s.awaitingIds ([], s)
  rw [List.length_nil, Nat.zero_add] at hfold
  exact hfold.trans (Table.length_keysWhere_le _ _)

theorem length_driveAdvanced_le (env : Env) (head : UInt64) (ids : List SwapId) (s : Session) :
    (ids.foldl (driveAdvanced env head) ([], s)).1.length ≤ ids.length := by
  have hfold := length_foldl_le (f := driveAdvanced env head) (fun acc id => by
    rw [driveAdvanced, List.length_append]
    exact Nat.add_le_add_left (length_drivePhaseAction_le env acc.2 id head) _) ids ([], s)
  rwa [List.length_nil, Nat.zero_add] at hfold

theorem length_driveResponderClaims_le (env : Env) (s : Session) (head : UInt64) :
    (s.driveResponderClaims env head).1.length ≤ s.coordinators.len := by
  unfold driveResponderClaims
  split_ifs
  · exact Nat.zero_le _
  · have hfold := length_foldl_le (f := retryClaims env head) (fun acc id => by
      rw [retryClaims, List.length_append]
      exact Nat.add_le_add_left (length_drivePhaseAction_le env acc.2 id head) _)
      (s.confirmPendingClaims env).claimsAwaitingBroadcast ([], s.confirmPendingClaims env)
    rw [List.length_nil, Nat.zero_add] at hfold
    refine hfold.trans ((Table.length_keysWhere_le _ _).trans (Table.len_le_of_subset fun k hk => ?_))
    exact ((confirmPendingClaims_tidy env s).held k).mp hk

theorem length_stale_le (env : Env) (s : Session) (head : UInt64) : (s.tick env head).1.length ≤ s.coordinators.len :=
  (Table.length_keysWhere_le _ _).trans (Table.len_mapVals _ _).le

theorem length_initiateFromIntent_le (env : Env) (s : Session) (id : SwapId) (head : UInt64) :
    (s.initiateFromIntent env id head).1.length ≤ 1 := by
  unfold initiateFromIntent
  split
  · exact Nat.zero_le 1
  · split_ifs
    · exact length_pushEnv_le _ _
    · exact Nat.zero_le 1

/-! ### What is held -/

/-- The swaps that are not held any more, and whose last message is still kept for retransmit. -/
def abandoned (s : Session) : Finset SwapId := (Table.keySet s.pending).filter fun k => k ∉ s.coordinators

/-- How often the last message of a swap is still to be sent again. -/
def budget (s : Session) (k : SwapId) : ℕ := (s.pending.lookup k).elim 0 fun a => a.ttl.toNat

theorem mem_abandoned {s : Session} {k : SwapId} : k ∈ s.abandoned ↔ k ∈ s.pending ∧ k ∉ s.coordinators := by
  rw [abandoned, Finset.mem_filter, Table.mem_keySet]

theorem budget_eq {s : Session} {k : SwapId} {a : PendingAction} (h : s.pending.lookup k = some a) :
    s.budget k = a.ttl.toNat := by
  rw [budget, h, Option.elim_some]

/-- INVARIANT: no more swaps than allowed are held, what is noted is about them, what is kept for retransmit is sent at
    most 32 times again, and of the abandoned messages no more are kept than `L` rounds can abandon. -/
structure Housed (K L : ℕ) (s : Session) : Prop where
  cap : s.identity.maxConcurrentSwaps = K
  held : s.coordinators.len ≤ K
  seen : ∀ k ∈ s.fundingProofSeen, k ∈ s.coordinators
  notes : ∀ k ∈ s.verifyNotes, k ∈ s.coordinators
  budget : ∀ k a, s.pending.lookup k = some a → 0 < a.ttl.toNat ∧ a.ttl.toNat ≤ 32
  backlog : Backlog.Within K L s.abandoned s.budget

variable {K L : ℕ}

theorem Housed.tidy {s s' : Session} (h : s.Housed K L) (ht : Tidy s s') : s'.Housed K L where
  cap := ht.identity ▸ h.cap
  held := (Table.len_le_of_subset fun k hk => (ht.held k).mp hk).trans h.held
  seen k hk := (ht.seen k hk).elim (fun hk => (ht.held k).mpr (h.seen k hk)) id
  notes k hk := (ht.notes k hk).elim (fun hk => (ht.held k).mpr (h.notes k hk)) id
  budget := ht.pending ▸ h.budget
  backlog := by
    refine h.backlog.mono fun k hk => ?_
    obtain ⟨hp, hout⟩ := mem_abandoned.mp hk
    refine ⟨mem_abandoned.mpr ⟨ht.pending ▸ hp, fun hc => hout ((ht.held k).mpr hc)⟩, ?_⟩
    rw [Session.budget, Session.budget, ht.pending]

theorem Housed.tearDown {s : Session} (h : s.Housed K L) (id : SwapId) : (s.tearDown id).Housed K L where
  cap := h.cap
  held := (Table.len_erase_le _ _).trans h.held
  seen k hk := by
    obtain ⟨hne, hk⟩ := AList.mem_erase.mp hk
    exact AList.mem_erase.mpr ⟨hne, h.seen k hk⟩
  notes k hk := by
    obtain ⟨hne, hk⟩ := AList.mem_erase.mp hk
    exact AList.mem_erase.mpr ⟨hne, h.notes k hk⟩
  budget k a ha := by
    rw [Session.tearDown, Table.lookup_erase_iff] at ha
    split_ifs at ha
    exact h.budget k a ha
  backlog := by
    refine h.backlog.mono fun k hk => ?_
    obtain ⟨hp, hout⟩ := mem_abandoned.mp hk
    obtain ⟨hne, hp⟩ := AList.mem_erase.mp hp
    refine ⟨mem_abandoned.mpr ⟨hp, fun hc => hout (AList.mem_erase.mpr ⟨hne, hc⟩)⟩, ?_⟩
    rw [Session.budget, Session.budget, Session.tearDown, Table.lookup_erase_iff, if_neg hne]

theorem Housed.turn {s s' : Session} (h : s.Housed K L) (ht : Turn s s') : s'.Housed K L := by
  cases ht with
  | tidy ht => exact h.tidy ht
  | drops id he =>
    rw [he]
    exact h.tearDown id
  | takes id c hroom hc hp hi hs hn =>
    have hmem : ∀ k ∈ s.coordinators, k ∈ s'.coordinators := by
      intro k hk
      rw [hc, AList.mem_insert]
      exact .inr hk
    refine ⟨hi ▸ h.cap, ?_, fun k hk => hmem k (h.seen k (hs ▸ hk)), fun k hk => hmem k (h.notes k (hn ▸ hk)),
      hp ▸ h.budget, h.backlog.mono fun k hk => ?_⟩
    · rw [hc]
      exact (Table.len_insert_le _ _ _).trans (h.cap ▸ hroom)
    · obtain ⟨hk, hout⟩ := mem_abandoned.mp hk
      refine ⟨mem_abandoned.mpr ⟨hp ▸ hk, fun hin => hout (hmem k hin)⟩, ?_⟩
      rw [Session.budget, Session.budget, hp]

/-- The last reply of a swap that is held is kept. -/
theorem Housed.recordLast {s : Session} (h : s.Housed K L) {id : SwapId} {replies : List (MessageType × Bytes)}
    (hid : replies ≠ [] → id ∈ s.coordinators) : (s.recordLast id replies).Housed K L := by
  unfold Session.recordLast
  split
  · next mt payload hlast =>
    have hheld : id ∈ s.coordinators := hid fun hnil => by rw [hnil] at hlast; cases hlast
    refine ⟨h.cap, h.held, h.seen, h.notes, fun k a ha => ?_, h.backlog.mono fun k hk => ?_⟩
    · rw [recordAction, Table.lookup_insert_iff] at ha
      split_ifs at ha
      · cases ha
        show 0 < retransmitTtl.toNat ∧ retransmitTtl.toNat ≤ 32
        decide
      · exact h.budget k a ha
    · obtain ⟨hp, hout⟩ := mem_abandoned.mp hk
      have hne : k ≠ id := fun he => hout (he ▸ hheld)
      refine ⟨mem_abandoned.mpr ⟨((AList.mem_insert _).mp hp).resolve_left hne, hout⟩, ?_⟩
      rw [Session.budget, Session.budget, recordAction, Table.lookup_insert_iff, if_neg hne]
  · exact h

/-- A retransmit takes one from every budget, and forgets what has none left. -/
theorem lookup_pendingRetransmits {s : Session} {k : SwapId} {a : PendingAction}
    (h : s.pendingRetransmits.2.pending.lookup k = some a) :
    ∃ a₀, s.pending.lookup k = some a₀ ∧ a.ttl = a₀.ttl - 1 ∧ 0 < a.ttl := by
  rw [pendingRetransmits, Table.lookup_retain, Table.lookup_mapVals, Option.filter_eq_some_iff,
    Option.map_eq_some_iff] at h
  obtain ⟨⟨a₀, h₀, rfl⟩, hpos⟩ := h
  exact ⟨a₀, h₀, rfl, of_decide_eq_true hpos⟩

theorem Housed.retransmits {s : Session} (h : s.Housed K (L + 1)) : s.pendingRetransmits.2.Housed K L := by
  have hless : ∀ k a, s.pendingRetransmits.2.pending.lookup k = some a →
      ∃ a₀, s.pending.lookup k = some a₀ ∧ 0 < a.ttl.toNat ∧ a.ttl.toNat + 1 = a₀.ttl.toNat := by
    intro k a ha
    obtain ⟨a₀, h₀, httl, hpos⟩ := lookup_pendingRetransmits ha
    have hone : (1 : UInt8) ≤ a₀.ttl := UInt8.le_iff_toNat_le.mpr (h.budget k a₀ h₀).1
    have hsub : a.ttl.toNat = a₀.ttl.toNat - 1 := httl ▸ UInt8.toNat_sub_of_le _ _ hone
    have hbudget := h.budget k a₀ h₀
    exact ⟨a₀, h₀, UInt8.lt_iff_toNat_lt.mp hpos, by omega⟩
  refine ⟨h.cap, h.held, h.seen, h.notes, fun k a ha => ?_, h.backlog.age fun k hk => ?_⟩
  · obtain ⟨a₀, h₀, hpos, hone⟩ := hless k a ha
    have hbudget := h.budget k a₀ h₀
    omega
  · obtain ⟨hp, hout⟩ := mem_abandoned.mp hk
    obtain ⟨a, ha⟩ := (Table.mem_iff_lookup _ _).mp hp
    obtain ⟨a₀, h₀, -, hone⟩ := hless k a ha
    refine ⟨mem_abandoned.mpr ⟨(Table.mem_iff_lookup _ _).mpr ⟨a₀, h₀⟩, hout⟩, ?_⟩
    rw [budget_eq ha, budget_eq h₀]
    omega

/-- A sweep abandons the messages of swaps that were held, so no more than were allowed. -/
theorem Housed.sweep {s : Session} (h : s.Housed K 31) (head : UInt64) : (s.sweep head).2.Housed K 32 := by
  have hheld : ∀ k ∈ (s.sweep head).2.coordinators, k ∈ s.coordinators := by
    intro k hk
    obtain ⟨c, hc⟩ := (Table.mem_iff_lookup _ _).mp hk
    rw [sweep_lookup, Option.filter_eq_some_iff, Option.map_eq_some_iff] at hc
    obtain ⟨⟨c₀, hc₀, -⟩, -⟩ := hc
    exact mem_of_lookup hc₀
  have hpending : ∀ k a, (s.sweep head).2.pending.lookup k = some a → s.pending.lookup k = some a :=
    fun k a ha => Table.lookup_of_foldl_erase ha
  have hnoted : ∀ {ν : Type} (t : Table SwapId ν) (cs : Table SwapId SwapCoordinator),
      ∀ k ∈ t.retain fun id _ => decide (id ∈ cs), k ∈ cs := by
    intro ν t cs k hk
    obtain ⟨v, -, hv⟩ := (Table.mem_retain _ _ k).mp hk
    exact of_decide_eq_true hv
  refine ⟨h.cap, (Table.len_le_of_subset hheld).trans h.held, hnoted _ _, hnoted _ _,
    fun k a ha => h.budget k a (hpending k a ha), ?_⟩
  refine h.backlog.abandon (Table.keySet s.coordinators) ((Table.card_keySet _).trans_le h.held) (fun k hk => ?_)
    fun k hk hnew => ?_
  · obtain ⟨a, ha⟩ := (Table.mem_iff_lookup _ _).mp (mem_abandoned.mp hk).1
    rw [budget_eq ha]
    exact (h.budget k a (hpending k a ha)).2
  · obtain ⟨a, ha⟩ := (Table.mem_iff_lookup _ _).mp (mem_abandoned.mp hk).1
    have ha' := hpending k a ha
    refine ⟨mem_abandoned.mpr ⟨(Table.mem_iff_lookup _ _).mpr ⟨a, ha'⟩, fun hc => hnew (Table.mem_keySet.mpr hc)⟩, ?_⟩
    rw [budget_eq ha, budget_eq ha']

theorem Housed.tick {s : Session} (h : s.Housed K 31) (env : Env) (head : UInt64) : (s.tick env head).2.Housed K 32 :=
  (h.sweep head).tidy (.foldl (foreclose_tidy env head) _ _)

/-- Driving the swaps that a re-verification advanced. -/
theorem Housed.driveAdvanced (env : Env) (head : UInt64) (ids : List SwapId)
    (acc : List (MessageType × Bytes) × Session) (h : acc.2.Housed K L) :
    (ids.foldl (Session.driveAdvanced env head) acc).2.Housed K L := by
  induction ids generalizing acc with
  | nil => exact h
  | cons id ids ih =>
    have htidy := drivePhaseAction_tidy env acc.2 id head
    refine ih _ ((h.tidy htidy).recordLast fun hne => (htidy.held id).mpr ?_)
    by_contra hout
    exact hne (drivePhaseAction_silent hout env head)

/-- BOUND: one message for each swap that is held, and 32 for each that could have been. -/
theorem Housed.len_pending {s : Session} (h : s.Housed K 32) : s.pending.len ≤ 33 * K := by
  have hsplit := Finset.card_filter_add_card_filter_not (s := Table.keySet s.pending) (fun k => k ∈ s.coordinators)
  have hin : ((Table.keySet s.pending).filter fun k => k ∈ s.coordinators).card ≤ K := by
    refine (Finset.card_le_card fun k hk => ?_).trans ((Table.card_keySet s.coordinators).trans_le h.held)
    exact Table.mem_keySet.mpr (Finset.mem_filter.mp hk).2
  have hout : s.abandoned.card ≤ K * 32 := by
    refine h.backlog.card_le fun k hk => ?_
    obtain ⟨a, ha⟩ := (Table.mem_iff_lookup _ _).mp (mem_abandoned.mp hk).1
    rw [budget_eq ha]
    exact (h.budget k a ha).1
  rw [Table.card_keySet] at hsplit
  rw [abandoned] at hout
  omega

end Session

namespace Worker

open Session

/-- INVARIANT: of the worker, its session and the discovery layer. -/
structure Housed (K : ℕ) (w : Worker) : Prop where
  session : w.session.Housed K 32
  throttle : Paired.IntentThrottle.Bounded intentMatchCapPerSender maxTrackedIntentSenders
    { counts := w.throttle.counts, order := w.throttle.order }
  candidates : w.matcher.candidates.length ≤ maxIntentCandidates

variable {K : ℕ} {w : Worker}

theorem bounded_admitSender {t : IntentThrottle}
    (h : Paired.IntentThrottle.Bounded intentMatchCapPerSender maxTrackedIntentSenders
      { counts := t.counts, order := t.order }) (sender : PeerId) :
    Paired.IntentThrottle.Bounded intentMatchCapPerSender maxTrackedIntentSenders
      { counts := (t.admitSender sender).2.counts, order := (t.admitSender sender).2.order } := by
  have hnext := (Paired.IntentThrottle.bounded_step h sender).1
  have hsame : _ = (t.admitSender sender).2 :=
    congrArg Prod.snd (Paired.IntentThrottle.admit_eq_admitSender t.counts t.order sender)
  rw [← hsame]
  have hcaps : ∀ r : Paired.IntentThrottle, r.Bounded intentMatchCapPerSender maxTrackedIntentSenders →
      Paired.IntentThrottle.Bounded intentMatchCapPerSender maxTrackedIntentSenders
        { counts := r.counts, order := r.order } := by
    rintro ⟨counts, order, cap, most⟩ hr
    obtain rfl : cap = _ := hr.perSender
    obtain rfl : most = _ := hr.tracked
    exact hr
  exact hcaps _ hnext

theorem length_addCandidate_le {m : IntentMatcher} (h : m.candidates.length ≤ maxIntentCandidates) (id : SwapId)
    (intent : SwapIntent) : (m.addCandidate id intent).candidates.length ≤ maxIntentCandidates := by
  by_cases hfull : maxIntentCandidates ≤ m.candidates.length
  · rw [IntentMatcher.addCandidate, if_pos hfull]
    exact h
  · rw [IntentMatcher.addCandidate, if_neg hfull]
    show (m.candidates ++ [(id, intent)]).length ≤ maxIntentCandidates
    rw [List.length_append, List.length_singleton]
    omega

theorem Housed.withSession (h : w.Housed K) {s : Session} (hs : s.Housed K 32) :
    ({ w with session := s } : Worker).Housed K := ⟨hs, h.throttle, h.candidates⟩

theorem Housed.handleIntent (h : w.Housed K) (env : Env) (sender : PeerId) (payload : Bytes) :
    (w.handleIntent env sender payload).Housed K := by
  unfold Worker.handleIntent
  split
  · split_ifs
    · exact h
    · exact h
    · exact h
    · dsimp only
      split_ifs
      · exact h
      · exact ⟨h.session, bounded_admitSender h.throttle sender, h.candidates⟩
      · exact ⟨h.session, bounded_admitSender h.throttle sender, length_addCandidate_le h.candidates _ _⟩
  · exact h

theorem Housed.handleSwapPacket (h : w.Housed K) (env : Env) (mt : MessageType) (sender : PeerId) (payload : Bytes) :
    (w.handleSwapPacket env mt sender payload).2.Housed K := by
  unfold Worker.handleSwapPacket
  split_ifs
  · split
    · split_ifs
      · exact h.handleIntent env sender payload
      · exact h
    · exact h.handleIntent env sender payload
  · split
    · exact h
    · next kind _ =>
      split_ifs
      · exact h
      · refine h.withSession ?_
        have hmsg := h.session.turn (onMessage_turn env w.session kind payload w.head)
        have htidy := driveSwap_tidy env (w.session.onMessage env kind payload w.head).2 kind payload w.head
        split
        · next e he =>
          refine (hmsg.tidy htidy).recordLast fun hne => (htidy.held e.swapId).mpr ?_
          by_contra hout
          refine hne ?_
          rw [driveSwap_silent he hout, List.append_nil]
          split
          · next out hok => exact (onMessage_reply he env w.session w.head hok).resolve_right fun h => hout h.2
          · rfl
        · exact hmsg.tidy htidy

theorem Housed.closeMatchWindow (h : w.Housed K) (env : Env) : (w.closeMatchWindow env).2.Housed K := by
  unfold Worker.closeMatchWindow
  split_ifs
  · exact h
  · have hwindow : w.matcher.tick.2.candidates.length ≤ maxIntentCandidates := by
      unfold IntentMatcher.tick
      split_ifs
      · exact h.candidates
      · exact Nat.zero_le _
      · exact h.candidates
    dsimp only
    split
    · exact ⟨h.session, h.throttle, hwindow⟩
    · next id _ =>
      refine ⟨?_, h.throttle, hwindow⟩
      rcases initiateFromIntent_turn env w.session id w.head with ⟨hsilent, hsame⟩ | ⟨hturn, hid⟩
      · rw [hsilent, hsame]
        exact h.session
      · exact (h.session.turn hturn).recordLast fun _ => hid

theorem Housed.gcTick (h : w.Housed K) (env : Env) : (w.gcTick env).2.Housed K := by
  unfold Worker.gcTick
  dsimp only
  refine (h.withSession ?_).closeMatchWindow env
  refine Session.Housed.tidy ?_ (driveResponderClaims_tidy env _ _)
  refine Session.Housed.tick ?_ env _
  exact (h.session.retransmits.tidy (reverifyAwaitedFunding_tidy env _)).driveAdvanced env _ _ ([], _)

theorem Housed.fastTick (h : w.Housed K) (env : Env) (nowMs : UInt64) : (w.fastTick env nowMs).2.Housed K := by
  have hdue := h.session.tidy (fastDue_tidy w.session nowMs)
  unfold Worker.fastTick
  dsimp only
  split_ifs
  · exact h.withSession hdue
  · refine h.withSession (Session.Housed.tidy ?_ (driveResponderClaims_tidy env _ _))
    exact (hdue.tidy (reverifyAwaitedFunding_tidy env _)).driveAdvanced env _ _ ([], _)

/-- STEP: whatever happens to a worker, what it holds stays within its bounds. -/
theorem Housed.step (h : w.Housed K) (env : Env) (op : WorkerOp) : (w.step env op).Housed K := by
  cases op with
  | packet mt sender payload => exact h.handleSwapPacket env mt sender payload
  | beacon height =>
    simp only [Worker.step, hearBeacon]
    split
    · split_ifs
      · exact h
      · exact ⟨h.session, h.throttle, h.candidates⟩
    · exact ⟨h.session, h.throttle, h.candidates⟩
  | gcTick => exact h.gcTick env
  | fastTick nowMs => exact h.fastTick env nowMs
  | cancel id =>
    refine h.withSession ?_
    unfold Session.cancel
    split
    · exact h.session
    · split_ifs
      · exact h.session
      · exact h.session.tearDown id

/-! ### What is sent -/

theorem length_handleSwapPacket_le (env : Env) (w : Worker) (mt : MessageType) (sender : PeerId) (payload : Bytes) :
    (w.handleSwapPacket env mt sender payload).1.length ≤ 2 := by
  unfold Worker.handleSwapPacket
  split_ifs
  · split
    · split_ifs
      · exact Nat.zero_le 2
      · exact Nat.zero_le 2
    · exact Nat.zero_le 2
  · split
    · exact Nat.zero_le 2
    · next kind _ =>
      split_ifs
      · exact Nat.zero_le 2
      · have hdrive := length_driveSwap_le env (w.session.onMessage env kind payload w.head).2 kind payload w.head
        dsimp only
        rw [List.length_append]
        refine Nat.add_le_add ?_ hdrive
        split
        · next out hok =>
          cases he : decodeSwap kind payload with
          | error err =>
            rw [onMessage, he] at hok
            cases hok
          | ok e =>
            rcases onMessage_reply he env w.session w.head hok with hnil | ⟨hone, -⟩
            · rw [hnil]
              exact Nat.zero_le 1
            · exact hone.le
        · exact Nat.zero_le 1

theorem length_abortReplies_le (ids : List SwapId) : (abortReplies ids).length ≤ ids.length := by
  induction ids with
  | nil => exact le_rfl
  | cons id ids ih =>
    have hone := length_pushEnv_le .swapAbort (abortEnvelope id 0)
    rw [abortReplies, List.flatMap_cons, List.length_append, List.length_cons, ← abortReplies]
    omega

/-- The room that is left for the standing intent: it is advertised while no swap is held. -/
def idle (w : Worker) : ℕ := if w.session.coordinators.len = 0 then 1 else 0

theorem idle_le (w : Worker) : w.idle ≤ 1 := by
  unfold idle
  split_ifs
  · exact le_rfl
  · exact Nat.zero_le 1

theorem idle_of_mem {w : Worker} (id : SwapId) (h : id ∈ w.session.coordinators) : w.idle = 0 := by
  refine if_neg fun hzero => ?_
  have hnil : w.session.coordinators.entries = [] := List.length_eq_zero_iff.mp hzero
  have hkey : id ∈ w.session.coordinators.entries.map Sigma.fst := h
  rw [hnil] at hkey
  cases hkey

/-- A proposal is sent for a swap that is held then. -/
theorem length_closeMatchWindow_le (env : Env) (w : Worker) :
    (w.closeMatchWindow env).1.length + (w.closeMatchWindow env).2.idle ≤ 1 := by
  have hsilent : ∀ w' : Worker, 0 + w'.idle ≤ 1 := fun w' => (Nat.zero_add _).trans_le w'.idle_le
  unfold Worker.closeMatchWindow
  split_ifs
  · exact hsilent w
  · dsimp only
    split
    · exact hsilent _
    · next id _ =>
      have hone := length_initiateFromIntent_le env w.session id w.head
      rcases initiateFromIntent_turn env w.session id w.head with ⟨hnil, -⟩ | ⟨-, hid⟩
      · rw [hnil]
        exact hsilent _
      · rw [idle_of_mem id]
        · exact hone
        · dsimp only
          rw [Session.recordLast]
          split
          · exact hid
          · exact hid

/-- A maintenance tick: what is kept, for each swap that is held a chain action, an abort and a claim, and a proposal
    or the standing intent. -/
theorem Housed.length_gcTick_le (h : w.Housed K) (env : Env) :
    (w.gcTick env).1.length + (w.gcTick env).2.idle ≤ 36 * K + 1 := by
  have hresent : w.session.pendingRetransmits.1.length ≤ 33 * K := by
    rw [pendingRetransmits, List.length_map]
    exact h.session.len_pending
  have h1 := h.session.retransmits
  unfold Worker.gcTick
  generalize w.session.pendingRetransmits = r at hresent h1
  have hadvanced := (length_reverifyAwaitedFunding_le env r.2).trans h1.held
  have h2 := h1.tidy (reverifyAwaitedFunding_tidy env r.2)
  dsimp only
  generalize r.2.reverifyAwaitedFunding env = r' at hadvanced h2
  have hdriven := (length_driveAdvanced_le env w.head r'.1 r'.2).trans hadvanced
  have h3 := h2.driveAdvanced env w.head r'.1 ([], r'.2)
  generalize r'.1.foldl (driveAdvanced env w.head) ([], r'.2) = d at hdriven h3
  have hstale := (length_abortReplies_le _).trans ((length_stale_le env d.2 w.head).trans h3.held)
  have hclaimed := (length_driveResponderClaims_le env (d.2.tick env w.head).2 w.head).trans (h3.tick env w.head).held
  have hproposed := length_closeMatchWindow_le env
    { w with session := ((d.2.tick env w.head).2.driveResponderClaims env w.head).2 }
  have hall := Nat.add_le_add (Nat.add_le_add (Nat.add_le_add (Nat.add_le_add hresent hdriven) hstale) hclaimed) hproposed
  rw [List.length_append, List.length_append, List.length_append, List.length_append, Nat.add_assoc]
  exact hall.trans (by omega)

theorem Housed.length_fastTick_le (h : w.Housed K) (env : Env) (nowMs : UInt64) :
    (w.fastTick env nowMs).1.length ≤ 2 * K := by
  have h1 := h.session.tidy (fastDue_tidy w.session nowMs)
  have h3 := (h1.tidy (reverifyAwaitedFunding_tidy env _)).driveAdvanced env w.head
    ((w.session.fastDue nowMs).2.reverifyAwaitedFunding env).1 ([], _)
  have hdriven := (length_driveAdvanced_le env w.head ((w.session.fastDue nowMs).2.reverifyAwaitedFunding env).1
    ((w.session.fastDue nowMs).2.reverifyAwaitedFunding env).2).trans
      ((length_reverifyAwaitedFunding_le env _).trans h1.held)
  have hclaimed := (length_driveResponderClaims_le env _ w.head).trans h3.held
  unfold Worker.fastTick
  dsimp only
  split_ifs
  · exact Nat.zero_le _
  · dsimp only
    rw [List.length_append]
    exact (Nat.add_le_add hdriven hclaimed).trans_eq (Nat.two_mul K).symm

theorem housed_fresh (h : w.session.Fresh) (hnotes : w.session.verifyNotes = ∅) (hthrottle : w.throttle = {})
    (hmatcher : w.matcher = {}) : w.Housed w.session.identity.maxConcurrentSwaps where
  session := by
    have hnothing : w.session.abandoned = ∅ := by
      rw [abandoned, h.pending]
      rfl
    refine ⟨rfl, ?_, ?_, ?_, ?_, hnothing ▸ Backlog.within_empty⟩
    · rw [h.coordinators]
      exact Nat.zero_le _
    · rw [h.fundingProofSeen]
      exact fun k hk => absurd hk (AList.notMem_empty k)
    · rw [hnotes]
      exact fun k hk => absurd hk (AList.notMem_empty k)
    · rw [h.pending]
      intro k a ha
      cases ha
  throttle := by
    rw [hthrottle]
    exact Paired.IntentThrottle.bounded_new _ _
  candidates := by
    rw [hmatcher]
    exact Nat.zero_le _

end Worker

/-! ### At the node -/

namespace MeshNode

section Attempts
variable (env : NodeEnv) (n : MeshNode)

theorem attempts_floodExcluding (frame : Bytes) (exclude : Option Link) (kind : SendKind) :
    (n.floodExcluding env frame exclude kind).io.counters.sendAttempts ≤
      n.io.counters.sendAttempts + n.peers.length := by
  have hrun : ∀ (peers : List Link) (io : NodeIo), (peers.foldl (fun (io : NodeIo) peer =>
      if some peer = exclude then io else io.send peer frame kind n.cachedHead) io).counters.sendAttempts ≤
        io.counters.sendAttempts + peers.length := by
    intro peers
    induction peers with
    | nil => exact fun io => le_rfl
    | cons peer peers ih =>
      intro io
      have hone : (if some peer = exclude then io else io.send peer frame kind n.cachedHead).counters.sendAttempts ≤
          io.counters.sendAttempts + 1 := by
        split_ifs
        · exact Nat.le_succ _
        · exact le_rfl
      have hrest := ih (if some peer = exclude then io else io.send peer frame kind n.cachedHead)
      rw [List.foldl_cons, List.length_cons]
      omega
  have hall := hrun (env.peerOrder n.io.asked n.peers) n.io
  rw [(env.peerOrder_perm n.io.asked n.peers).length_eq] at hall
  exact hall

/-- A message of the node's own goes once to every peer. -/
theorem attempts_originate (ty : MessageType) (payload : Bytes) :
    (n.originate env ty payload).io.counters.sendAttempts ≤ n.io.counters.sendAttempts + n.peers.length := by
  have hmark : ∀ (m : MeshNode) (p : Packet), (m.markOwn p).io.counters.sendAttempts = m.io.counters.sendAttempts := by
    intro m p
    simp only [markOwn]
    split_ifs
    · rfl
    · rfl
  have hkeep : ∀ (m : MeshNode) (p : Packet), (m.remember env p).io.counters.sendAttempts =
      m.io.counters.sendAttempts := by
    intro m p
    simp only [remember]
    split_ifs
    · rfl
    · rfl
  have hbefore : ∀ (m : MeshNode) (p : Packet), ((m.markOwn p).remember env p).io.counters.sendAttempts =
      m.io.counters.sendAttempts := fun m p => (hkeep _ p).trans (hmark m p)
  simp only [originate, floodPacket]
  split
  · exact (attempts_floodExcluding env _ _ none .own).trans_eq (congrArg (· + n.peers.length) (hbefore _ _))
  · exact (hbefore _ _).trans_le (Nat.le_add_right _ _)

theorem attempts_floodReplies (replies : List (MessageType × Bytes)) :
    (n.floodReplies env replies).io.counters.sendAttempts ≤
      n.io.counters.sendAttempts + replies.length * n.peers.length := by
  induction replies generalizing n with
  | nil => exact Nat.le_add_right _ _
  | cons reply replies ih =>
    have hone := attempts_originate env n reply.1 reply.2
    have hrest := ih (n.floodSwapReply env reply)
    have hpeers : (n.floodSwapReply env reply).peers = n.peers := (poised_originate env n reply.1 reply.2).peers
    rw [hpeers] at hrest
    rw [List.length_cons, Nat.add_mul, Nat.one_mul]
    refine hrest.trans ?_
    rw [floodSwapReply]
    omega

theorem attempts_readvertiseIntent (w : Worker) : (n.readvertiseIntent env w).io.counters.sendAttempts ≤
    n.io.counters.sendAttempts + w.idle * n.peers.length := by
  have hzero := Nat.le_add_right n.io.counters.sendAttempts (w.idle * n.peers.length)
  unfold readvertiseIntent
  extract_lets m
  split_ifs with hheld
  · exact hzero
  · rw [Worker.idle, if_pos (not_not.mp hheld), Nat.one_mul] at hzero ⊢
    split
    · exact hzero
    · split_ifs
      · exact hzero
      · dsimp only
        split_ifs
        · exact hzero
        · exact attempts_originate env _ _ _

end Attempts

/-- On each link, a maintenance tick of the swap code sends its messages and perhaps the standing intent. -/
theorem attempts_gcTick (env : NodeEnv) {n : MeshNode} {w : Worker} (hw : n.swap = some w) {K : ℕ}
    (h : w.Housed K) : (n.gcTick env).io.counters.sendAttempts ≤
      n.io.counters.sendAttempts + (36 * K + 1) * n.peers.length := by
  have hhoused : (n.swapWorker w).Housed K := ⟨h.session, h.throttle, h.candidates⟩
  have hbound := Nat.mul_le_mul_right n.peers.length (hhoused.length_gcTick_le env.toEnv)
  rw [Nat.add_mul] at hbound
  simp only [gcTick, hw]
  generalize (n.swapWorker w).gcTick env.toEnv = r at hbound ⊢
  have hreplies := attempts_floodReplies env { n with swap := some r.2 } r.1
  have hintent := attempts_readvertiseIntent env ({ n with swap := some r.2 }.floodReplies env r.1) r.2
  rw [(poised_floodReplies env { n with swap := some r.2 } r.1).peers] at hintent
  dsimp only at hreplies hintent
  omega

end MeshNode

namespace Worker

/-- RUN: whatever a participant is sent, and however often its swaps settle: it runs no more swaps than it may, it has
    notes about no others, it keeps at most 33 messages for each of them to send again, it tracks at most 256 senders of
    intents and has admitted none of them more than four times, and at most 64 intents wait for the match window. A
    packet makes it send at most two messages, and a maintenance tick of its node at most 36 for each swap that it may
    run and one more, on each link. -/
theorem participant_bounded (env : Env) (w : Worker) (h : w.session.Fresh) (hnotes : w.session.verifyNotes = ∅)
    (hthrottle : w.throttle = {}) (hmatcher : w.matcher = {}) (ops : List WorkerOp) :
    let w' := w.exec env ops
    let K := w.session.identity.maxConcurrentSwaps
    (w'.session.coordinators.len ≤ K ∧ (∀ id ∈ w'.session.fundingProofSeen, id ∈ w'.session.coordinators) ∧
      (∀ id ∈ w'.session.verifyNotes, id ∈ w'.session.coordinators) ∧ w'.session.pending.len ≤ 33 * K) ∧
    (w'.throttle.order.length ≤ 256 ∧ w'.throttle.counts.len = w'.throttle.order.length ∧
      (∀ sender count, w'.throttle.counts.lookup sender = some count → count ≤ 4) ∧
      w'.matcher.candidates.length ≤ 64) ∧
    (∀ mt sender payload, (w'.floods env (.packet mt sender payload)).length ≤ 2) ∧
    (w'.floods env .gcTick).length ≤ 36 * K + 1 ∧ (∀ nowMs, (w'.floods env (.fastTick nowMs)).length ≤ 2 * K) ∧
    ∀ (node : NodeEnv) (n : MeshNode), node.toEnv = env → n.swap = some w' →
      (n.gcTick node).io.counters.sendAttempts ≤ n.io.counters.sendAttempts + (36 * K + 1) * n.peers.length := by
  have hw : (w.exec env ops).Housed w.session.identity.maxConcurrentSwaps :=
    Run.exec_preserves (I := Housed w.session.identity.maxConcurrentSwaps) (Worker.step env)
      (fun _ op h => Housed.step h env op) ops w (housed_fresh h hnotes hthrottle hmatcher)
  refine ⟨⟨hw.session.held, hw.session.seen, hw.session.notes, hw.session.len_pending⟩,
    ⟨hw.throttle.senders, hw.throttle.inStep.len, fun sender count hcount => ?_, hw.candidates⟩,
    fun mt sender payload => length_handleSwapPacket_le env _ mt sender payload,
    (Nat.le_add_right _ _).trans (hw.length_gcTick_le env), fun nowMs => hw.length_fastTick_le env nowMs,
    fun node n _ hn => MeshNode.attempts_gcTick node hn hw⟩
  have hspent := hw.throttle.counts sender
  rw [Paired.IntentThrottle.spent, hcount] at hspent
  exact hspent

end Worker

open Sample in
/-- The initiator of the sample, once it has matched the responder's intent. -/
theorem sample_participant_bounded :
    (aliceWorker.exec env matched).session.pending.len ≤ 33 * 16 ∧
    ((aliceWorker.exec env matched).floods env .gcTick).length ≤ 36 * 16 + 1 := by
  obtain ⟨⟨-, -, -, hpending⟩, -, -, hfloods, -⟩ :=
    Worker.participant_bounded env aliceWorker alice_fresh rfl rfl rfl matched
  exact ⟨hpending, hfloods⟩

end Nimmesh
