import Nimmesh.Swap.Origin
import Nimmesh.Swap.Reissue

/-! @src swap_session.rs swap_coordinator.rs swap_node.rs | name:Replayed and refused messages |
    layer:properties

    What a message can do to a swap that is already held, whoever sent it and however often: the swap
    moves forward along its lifecycle or stays, and a message that is refused leaves every coordinator
    as it was. The one thing a message writes besides the phase and the secret is the peer's key, and
    it is written when the phase leaves `Proposed`, which happens once. -/

namespace Nimmesh

/-- How far a phase is along the lifecycle; every exit is at the end. -/
def SwapPhase.rank : SwapPhase → ℕ
  | .proposed => 0
  | .accepted => 1
  | .initiatorFunded => 2
  | .selfFunded => 3
  | .bothFunded => 4
  | .revealed => 5
  | .settled | .aborted | .refunded | .lost => 6

/-- `c'` is the same swap as `c`, no earlier in its life: the role, the whole context (the terms, the
    hashlock, the amounts, the addresses) and a peer key that is set are unchanged. -/
structure Onward (c c' : SwapCoordinator) : Prop where
  role : c'.role = c.role
  ctx : c'.ctx = c.ctx
  terms : c'.swap.terms = c.swap.terms
  peer : ∀ key, c.peerBtcPubkey = some key → c'.peerBtcPubkey = some key
  phase : c.phase.rank ≤ c'.phase.rank

theorem Onward.refl (c : SwapCoordinator) : Onward c c := ⟨rfl, rfl, rfl, fun _ h => h, le_rfl⟩

theorem Onward.trans {c c' c'' : SwapCoordinator} (h : Onward c c') (h' : Onward c' c'') : Onward c c'' :=
  ⟨h'.role.trans h.role, h'.ctx.trans h.ctx, h'.terms.trans h.terms,
    fun key hk => h'.peer key (h.peer key hk), h.phase.trans h'.phase⟩

/-- A transition to a later phase. -/
theorem Onward.withPhase {c : SwapCoordinator} {ph : SwapPhase} (h : c.phase.rank ≤ ph.rank) :
    Onward c (c.withPhase ph) := ⟨rfl, rfl, rfl, fun _ hk => hk, h⟩

/-- No peer key is known before the swap is accepted. -/
def KeyUnset (c : SwapCoordinator) : Prop := c.phase = .proposed → c.peerBtcPubkey = none

/-! ### The methods of a coordinator -/

namespace SwapCoordinator

theorem recvAccept_onward {c : SwapCoordinator} (hk : KeyUnset c) (e : SwapEnvelope) (head : UInt64) :
    Onward c (c.recvAccept e head).2 := by
  rcases c.recvAccept_cases e head with ⟨a, -, -, hp, -, he⟩ | ⟨-, err, he⟩
  · rw [he]
    refine ⟨rfl, rfl, rfl, fun key hkey => ?_, ?_⟩
    · rw [hk hp] at hkey
      cases hkey
    · rw [hp]
      exact Nat.zero_le _
  · rw [he]
    exact Onward.refl c

theorem verifyAndObserveFunding_onward (c : SwapCoordinator)
    (observe : HtlcExpectation → FundingObservation) (need : UInt32) :
    Onward c (c.verifyAndObserveFunding observe need).2 := by
  rcases c.verifyAndObserveFunding_cases observe need with ⟨-, haw, he⟩ | ⟨err, he⟩
  · rw [he]
    refine Onward.withPhase ?_
    rcases c.awaitsCounterpartyFunding_iff.mp haw with ⟨hr, hp⟩ | ⟨hr, hp⟩ <;>
      simp [hr, hp, observedPhase, SwapPhase.rank]
  · rw [he]
    exact Onward.refl c

theorem fund_onward (c : SwapCoordinator) (head : UInt64) (wire : Bytes) (txId : Hash) :
    Onward c (c.fund head wire txId).2 := by
  rcases c.fund_cases head wire txId with ⟨hf, -, he⟩ | ⟨-, err, he⟩
  · rw [he]
    refine Onward.withPhase ?_
    rcases hf with ⟨hr, hp⟩ | ⟨hr, hp⟩ <;>
      simp [SwapCoordinator.role, SwapCoordinator.phase, hr, hp, fundedPhase, SwapPhase.rank]
  · rw [he]
    exact Onward.refl c

theorem recvReveal_onward (cr : Crypto) (c : SwapCoordinator) (secret : Hash) :
    Onward c (c.recvReveal cr secret).2 := by
  rcases c.recvReveal_cases cr secret with ⟨-, hp, -, he⟩ | ⟨-, err, he⟩
  · rw [he]
    refine ⟨rfl, rfl, rfl, fun _ hk => hk, ?_⟩
    rw [hp]
    exact Nat.le_succ 4
  · rw [he]
    exact Onward.refl c

end SwapCoordinator

namespace Session

/-! ### One message -/

/-- Every coordinator is still held, and is the same swap no earlier in its life. -/
def OnwardAll (s s' : Session) : Prop :=
  ∀ k c, s.coordinators.lookup k = some c → ∃ c', s'.coordinators.lookup k = some c' ∧ Onward c c'

theorem OnwardAll.of_eq {s s' : Session} (h : s'.coordinators = s.coordinators) : OnwardAll s s' := by
  intro k c hc
  exact ⟨c, by rw [h, hc], Onward.refl c⟩

theorem OnwardAll.trans {s s' s'' : Session} (h : OnwardAll s s') (h' : OnwardAll s' s'') :
    OnwardAll s s'' := by
  intro k c hc
  obtain ⟨c', hc', hk⟩ := h k c hc
  obtain ⟨c'', hc'', hk'⟩ := h' k c' hc'
  exact ⟨c'', hc'', hk.trans hk'⟩

/-- Writing back a coordinator that moved forward. -/
theorem OnwardAll.setCoord {s : Session} {id : SwapId} {c c' : SwapCoordinator}
    (hc : s.coordinators.lookup id = some c) (h : Onward c c') : OnwardAll s (s.setCoord id c') := by
  intro k d hd
  simp only [Session.setCoord, Table.lookup_insert_iff]
  by_cases hk : k = id
  · subst hk
    rw [hc] at hd
    cases hd
    exact ⟨c', if_pos rfl, h⟩
  · exact ⟨d, (if_neg hk).trans hd, Onward.refl d⟩

theorem verifyCounterpartyFunding_onward (env : Env) {s : Session} {id : SwapId} {c : SwapCoordinator}
    (hc : s.coordinators.lookup id = some c) : OnwardAll s (s.verifyCounterpartyFunding env id c).2 :=
  OnwardAll.setCoord hc (c.verifyAndObserveFunding_onward _ _)

theorem onPropose_onward (env : Env) (s : Session) (e : SwapEnvelope) (head : UInt64) :
    OnwardAll s (s.onPropose env e head).2 := by
  rcases onPropose_cases env s e head with ⟨hmem, -, p, c, -, -, he⟩ | ⟨-, he⟩
  · intro k d hd
    have hk : k ≠ e.swapId := by
      rintro rfl
      rw [AList.lookup_eq_none.mpr hmem] at hd
      cases hd
    refine ⟨d, ?_, Onward.refl d⟩
    rw [he]
    simp only [log, setCoord, Table.lookup_insert_iff, if_neg hk]
    exact hd
  · exact OnwardAll.of_eq (by rw [he])

theorem onAccept_onward {s : Session} (hs : ∀ k c, s.coordinators.lookup k = some c → KeyUnset c)
    (e : SwapEnvelope) (head : UInt64) : OnwardAll s (s.onAccept e head).2 := by
  cases hc : s.coordinators.lookup e.swapId with
  | none =>
    simp only [onAccept, hc]
    exact OnwardAll.of_eq rfl
  | some c =>
    have hset := OnwardAll.setCoord hc (SwapCoordinator.recvAccept_onward (hs _ c hc) e head)
    simp only [onAccept, hc]
    split <;> rename_i heq <;> rw [heq] at hset
    · exact hset
    · split
      · exact hset
      · exact hset

theorem onFundingProof_onward (env : Env) (s : Session) (e : SwapEnvelope) :
    OnwardAll s (s.onFundingProof env e).2 := by
  cases hc : s.coordinators.lookup e.swapId with
  | none =>
    simp only [onFundingProof, hc]
    exact OnwardAll.of_eq rfl
  | some c =>
    have hnote : OnwardAll s ((s.noteFundingWire e).markProofSeen e.swapId) :=
      OnwardAll.of_eq (noteFundingWire_coordinators s e)
    have hc' : ((s.noteFundingWire e).markProofSeen e.swapId).coordinators.lookup e.swapId = some c := by
      rw [markProofSeen, noteFundingWire_coordinators, hc]
    have hver := hnote.trans (verifyCounterpartyFunding_onward env hc')
    simp only [onFundingProof, hc]
    split <;> exact hver

/-- An `Abort` removes the swap it names if its funds are not locked, and nothing else. -/
theorem onAbort_lookup (s : Session) (e : SwapEnvelope) {k : SwapId} {c : SwapCoordinator}
    (hc : s.coordinators.lookup k = some c) :
    (s.onAbort e).coordinators.lookup k = some c ∨
      (k = e.swapId ∧ c.phase.hasFundsLocked = false ∧ (s.onAbort e).coordinators.lookup k = none) := by
  cases hd : s.coordinators.lookup e.swapId with
  | none =>
    simp only [onAbort, hd]
    exact .inl hc
  | some d =>
    simp only [onAbort, hd]
    cases hl : d.phase.hasFundsLocked with
    | true => exact .inl (by simpa using hc)
    | false =>
      simp only [Bool.false_eq_true, if_false, tearDown, Table.lookup_erase_iff]
      by_cases hk : k = e.swapId
      · subst hk
        rw [hd] at hc
        cases hc
        exact .inr ⟨rfl, hl, if_pos rfl⟩
      · exact .inl (by rw [if_neg hk, hc])

/-- What a message does to a held swap: the swap goes on, or an `Abort` for it removes it while nothing
    is locked. -/
theorem onMessage_onward {env : Env} {s : Session}
    (hs : ∀ k c, s.coordinators.lookup k = some c → KeyUnset c) (kind : SwapKind) (payload : Bytes)
    (head : UInt64) {k : SwapId} {c : SwapCoordinator} (hc : s.coordinators.lookup k = some c) :
    (∃ c', (s.onMessage env kind payload head).2.coordinators.lookup k = some c' ∧ Onward c c') ∨
    (kind = .abort ∧ c.phase.hasFundsLocked = false ∧
      (s.onMessage env kind payload head).2.coordinators.lookup k = none) := by
  cases he : decodeSwap kind payload with
  | error err =>
    simp only [onMessage, he]
    exact .inl ⟨c, hc, Onward.refl c⟩
  | ok e =>
    simp only [onMessage, he]
    cases kind with
    | propose => exact .inl (onPropose_onward env s e head k c hc)
    | accept => exact .inl (onAccept_onward hs e head k c hc)
    | fundingProof => exact .inl (onFundingProof_onward env s e k c hc)
    | preimageReveal => exact .inl ⟨c, by dsimp only; split <;> exact hc, Onward.refl c⟩
    | abort =>
      rcases onAbort_lookup s e hc with hsame | ⟨-, hl, hnone⟩
      · exact .inl ⟨c, hsame, Onward.refl c⟩
      · exact .inr ⟨rfl, hl, hnone⟩

/-! ### The drive that follows a message -/

theorem confirmClaim_onward (env : Env) (s : Session) (id : SwapId) :
    OnwardAll s (s.confirmClaim env id).2 := by
  simp only [confirmClaim]
  split
  · exact OnwardAll.of_eq rfl
  · rename_i c hc
    split_ifs with hcl
    · exact OnwardAll.of_eq rfl
    · split
      · exact OnwardAll.of_eq rfl
      · have hcl' : hasClaim c = true := by simpa using hcl
        refine OnwardAll.setCoord hc ?_
        rcases applyClaimObservation_cases c (s.requiredDepth .nim) (env.observeClaim s.trace .nim _)
            ((hasClaim_iff c).mp hcl').2 with ⟨d, -, -, he⟩ | ⟨-, he⟩ | he <;> rw [he]
        · refine Onward.withPhase ?_
          rw [((hasClaim_iff c).mp hcl').2]
          exact Nat.le_succ 5
        · exact ⟨rfl, rfl, rfl, fun _ hk => hk, le_rfl⟩
        · exact Onward.refl c

theorem driveFund_onward {env : Env} {s : Session} {id : SwapId} {c : SwapCoordinator} {head : UInt64}
    {leg : SwapLegId} (hc : s.coordinators.lookup id = some c) :
    OnwardAll s (s.driveFund env id c head leg).2 := by
  simp only [driveFund]
  split
  · exact OnwardAll.of_eq rfl
  · rename_i wire txId _
    have hset := OnwardAll.setCoord hc (c.fund_onward head wire txId)
    split <;> rename_i heq <;> rw [heq] at hset <;> exact hset

theorem driveReveal_onward {env : Env} {s : Session} {id : SwapId} {c : SwapCoordinator} {head : UInt64}
    (hc : s.coordinators.lookup id = some c) (ht : c.swap.terms = c.ctx.terms)
    (hr : c.role = .initiator) (hp : c.phase = .bothFunded) :
    OnwardAll s (s.driveReveal env id c head).2 := by
  rcases @driveReveal_cases env s id c head ht hr hp with
    he | ⟨secret, -, -, -, he⟩ | ⟨secret, wire, txId, -, -, -, he⟩ <;> rw [he]
  · exact OnwardAll.of_eq rfl
  · exact OnwardAll.of_eq rfl
  · refine OnwardAll.setCoord hc (Onward.withPhase ?_)
    rw [hp]
    exact Nat.le_add_right 4 2

theorem broadcastClaim_onward {env : Env} {s : Session} {id : SwapId} {c : SwapCoordinator}
    {head : UInt64} (hc : s.coordinators.lookup id = some c) :
    OnwardAll s (s.broadcastClaim env id c head) := by
  simp only [broadcastClaim]
  split
  · split
    · exact OnwardAll.of_eq rfl
    · exact OnwardAll.setCoord hc ⟨rfl, rfl, rfl, fun _ hk => hk, le_rfl⟩
  · exact OnwardAll.of_eq rfl

theorem drivePhaseAction_onward {env : Env} {s : Session} (hs : s.WF env) (id : SwapId) (head : UInt64) :
    OnwardAll s (s.drivePhaseAction env id head).2 := by
  simp only [drivePhaseAction]
  split
  · exact OnwardAll.of_eq rfl
  · rename_i c hc
    split
    case h_1 => exact driveFund_onward hc
    case h_2 => exact driveFund_onward hc
    case h_3 hr hp => exact driveReveal_onward hc (hs id c hc).terms hr hp
    case h_4 => exact (broadcastClaim_onward hc).trans (confirmClaim_onward env _ id)
    case h_5 => exact OnwardAll.of_eq rfl

theorem driveSwap_onward {env : Env} {s : Session} (hs : s.WF env) (kind : SwapKind) (payload : Bytes)
    (head : UInt64) : OnwardAll s (s.driveSwap env kind payload head).2 := by
  cases he : decodeSwap kind payload with
  | error err =>
    simp only [driveSwap, he]
    exact OnwardAll.of_eq rfl
  | ok e =>
    have hnote : OnwardAll s (s.notePeer kind e) := OnwardAll.of_eq (notePeer_coordinators s kind e)
    have hlearn : OnwardAll (s.notePeer kind e) ((s.notePeer kind e).learnSecret env kind e) := by
      simp only [learnSecret]
      split
      · split
        · rename_i secret c _ hc
          exact OnwardAll.setCoord hc (c.recvReveal_onward env.toCrypto secret)
        · exact OnwardAll.of_eq rfl
      · exact OnwardAll.of_eq rfl
    have hwf : ((s.notePeer kind e).learnSecret env kind e).WF env :=
      (learnSecret_moves (n := none) (P := fun _ => True) env _ kind e).wf
        ((notePeer_moves (n := none) env s kind e head).wf hs)
    simp only [driveSwap, he]
    exact (hnote.trans hlearn).trans (drivePhaseAction_onward hwf e.swapId head)

/-! ### A refused message -/

/-- The `Accept` of a node encodes unless its address is too long for a TLV. -/
theorem encodeSwap_acceptance {a : SwapAcceptance} (h : a.btcAddress.length ≤ maxTlvValueLen) :
    ∃ bytes, encodeSwap a.toEnvelope = .ok bytes := by
  have harr : ∀ {n : ℕ} (x : ByteArr n) (buf : Bytes) (t : UInt8), n ≤ maxTlvValueLen →
      pushTlv buf t x.1 = .ok (buf ++ t :: x.1.length.toUInt8 :: x.1) := by
    intro n x buf t hn
    simp only [pushTlv, if_neg (show ¬ x.1.length > maxTlvValueLen by rw [x.2]; omega)]
  have haddr : ∀ (buf : Bytes) (t : UInt8), pushTlv buf t (id a.btcAddress) =
      .ok (buf ++ t :: a.btcAddress.length.toUInt8 :: a.btcAddress) := by
    intro buf t
    simp only [pushTlv, id, if_neg (show ¬ a.btcAddress.length > maxTlvValueLen by omega)]
  simp only [encodeSwap, SwapAcceptance.toEnvelope, pushOpt, harr a.swapId _ _ (by decide),
    harr a.nimAddress _ _ (by decide), harr a.btcPubkey _ _ (by decide), haddr]
  exact ⟨_, rfl⟩

/-- A `Propose` that returns an error leaves the session alone, unless it was accepted and this node's
    own address does not fit the `Accept`. -/
theorem onPropose_error {env : Env} {s : Session} {e : SwapEnvelope} {head : UInt64} {err : SessionError}
    (h : (s.onPropose env e head).1 = .error err) :
    (s.onPropose env e head).2 = s ∨
      (e.swapId ∉ s.coordinators ∧ maxTlvValueLen < s.identity.btcAddress.length) := by
  by_cases hmem : e.swapId ∈ s.coordinators
  · rw [onPropose, if_pos hmem]
    exact .inl rfl
  by_cases hfit : s.identity.btcAddress.length ≤ maxTlvValueLen
  · refine .inl ?_
    simp only [onPropose, if_neg hmem] at h ⊢
    split_ifs at h ⊢
    split at h
    · rfl
    · rename_i p hp
      split_ifs at h ⊢
      rcases (SwapCoordinator.newResponder (s.responderContext p head) s.ladder).recvPropose_cases
          env.toCrypto e head hp rfl rfl with ⟨-, -, -, he⟩ | ⟨-, err', he⟩
      · obtain ⟨bytes, hbytes⟩ := encodeSwap_acceptance (a := (s.responderContext p head).acceptance) hfit
        rw [he] at h
        simp only [SwapCoordinator.newResponder, hbytes] at h
        cases h
      · rw [he]
  · exact .inr ⟨hmem, not_le.mp hfit⟩

theorem setCoord_lookup_same {s : Session} {id : SwapId} {c : SwapCoordinator}
    (hc : s.coordinators.lookup id = some c) (k : SwapId) :
    (s.setCoord id c).coordinators.lookup k = s.coordinators.lookup k := by
  simp only [setCoord, Table.lookup_insert_iff]
  by_cases hk : k = id
  · rw [if_pos hk, hk, hc]
  · rw [if_neg hk]

theorem onAccept_error {s : Session} {e : SwapEnvelope} {head : UInt64} {err : SessionError}
    (h : (s.onAccept e head).1 = .error err) (k : SwapId) :
    (s.onAccept e head).2.coordinators.lookup k = s.coordinators.lookup k := by
  cases hc : s.coordinators.lookup e.swapId with
  | none => simp only [onAccept, hc]
  | some c =>
    rcases c.recvAccept_cases e head with ⟨a, ha, -, -, -, he⟩ | ⟨-, err', he⟩
    · simp only [onAccept, hc, he, ha] at h
      cases h
    · simp only [onAccept, hc, he]
      exact setCoord_lookup_same hc k

theorem onFundingProof_error {env : Env} {s : Session} {e : SwapEnvelope} {err : SessionError}
    (h : (s.onFundingProof env e).1 = .error err) (k : SwapId) :
    (s.onFundingProof env e).2.coordinators.lookup k = s.coordinators.lookup k := by
  cases hc : s.coordinators.lookup e.swapId with
  | none => simp only [onFundingProof, hc]
  | some c =>
    have hcoords : ((s.noteFundingWire e).markProofSeen e.swapId).coordinators = s.coordinators :=
      noteFundingWire_coordinators s e
    generalize hs' : (s.noteFundingWire e).markProofSeen e.swapId = s' at hcoords
    have hc' : s'.coordinators.lookup e.swapId = some c := by rw [hcoords, hc]
    simp only [onFundingProof, hc, hs'] at h ⊢
    rcases c.verifyAndObserveFunding_cases (env.observe s'.trace)
        (s'.requiredDepth c.counterpartyExpectation.leg) with ⟨-, -, he⟩ | ⟨err', he⟩
    · simp only [verifyCounterpartyFunding, he] at h
      cases h
    · have hsame : (s'.verifyCounterpartyFunding env e.swapId c).2.coordinators.lookup k =
          s.coordinators.lookup k := by
        simp only [verifyCounterpartyFunding, he]
        exact (setCoord_lookup_same hc' k).trans (by rw [hcoords])
      split <;> exact hsame

/-- A message that returns an error changes no coordinator; it creates one only if this node's own
    address does not fit the `Accept` it owes. -/
theorem onMessage_error {env : Env} {s : Session} {kind : SwapKind} {payload : Bytes} {head : UInt64}
    {err : SessionError} (h : (s.onMessage env kind payload head).1 = .error err) :
    (∀ k c, s.coordinators.lookup k = some c →
      (s.onMessage env kind payload head).2.coordinators.lookup k = some c) ∧
    (s.identity.btcAddress.length ≤ maxTlvValueLen → ∀ k,
      (s.onMessage env kind payload head).2.coordinators.lookup k = s.coordinators.lookup k) := by
  have hsame : (∀ k, (s.onMessage env kind payload head).2.coordinators.lookup k =
      s.coordinators.lookup k) → (∀ k c, s.coordinators.lookup k = some c →
      (s.onMessage env kind payload head).2.coordinators.lookup k = some c) ∧
    (s.identity.btcAddress.length ≤ maxTlvValueLen → ∀ k,
      (s.onMessage env kind payload head).2.coordinators.lookup k = s.coordinators.lookup k) :=
    fun heq => ⟨fun k c hc => (heq k).trans hc, fun _ => heq⟩
  cases he : decodeSwap kind payload with
  | error err' => exact hsame fun k => by simp only [onMessage, he]
  | ok e =>
    cases kind with
    | accept =>
      simp only [onMessage, he] at h hsame ⊢
      exact hsame fun k => onAccept_error h k
    | fundingProof =>
      simp only [onMessage, he] at h hsame ⊢
      exact hsame fun k => onFundingProof_error h k
    | preimageReveal =>
      simp only [onMessage, he] at h hsame ⊢
      exact hsame fun k => by split <;> rfl
    | abort =>
      simp only [onMessage, he] at h
      cases h
    | propose =>
      simp only [onMessage, he] at h hsame ⊢
      rcases onPropose_error h with hs | ⟨hmem, hlong⟩
      · exact hsame fun k => by rw [hs]
      · refine ⟨fun k c hc => ?_, fun hfit => absurd hfit (not_le.mpr hlong)⟩
        rcases onPropose_cases env s e head with ⟨-, -, p, d, -, -, hnew⟩ | ⟨-, hs⟩
        · have hk : k ≠ e.swapId := by
            rintro rfl
            rw [AList.lookup_eq_none.mpr hmem] at hc
            cases hc
          rw [hnew]
          simp only [log, setCoord, Table.lookup_insert_iff, if_neg hk]
          exact hc
        · rw [hs, hc]

/-! ### Every reachable session -/

/-- The longest address a snapshot record can carry. -/
def maxRecordAddress : ℕ := 65535

/-- The addresses of an identity and of its standing intent fit a snapshot record. -/
def AddressFits (identity : NodeIdentity) : Prop :=
  identity.btcAddress.length ≤ maxRecordAddress ∧
  ∀ intent, identity.standingIntent = some intent → intent.btcAddress.length ≤ maxRecordAddress

/-- What holds of every coordinator of a reachable session: no peer key before the acceptance, a secret
    once a responder has seen it, and an address that fits a record. -/
structure SoundCoord (c : SwapCoordinator) : Prop where
  key : KeyUnset c
  secret : c.role = .responder → c.phase = .revealed → c.secret ≠ none
  address : c.ctx.btcAddress.length ≤ maxRecordAddress

def Sound (s : Session) : Prop := ∀ k c, s.coordinators.lookup k = some c → SoundCoord c

/-- The two facts that the automaton keeps. -/
def KeyAndSecret (sl : Slot) : Prop :=
  ∀ c, sl.coord = some c → KeyUnset c ∧ (c.role = .responder → c.phase = .revealed → c.secret ≠ none)

theorem keyAndSecret_of_phase {c : SwapCoordinator} (hp : c.phase ≠ .proposed) (hr : c.phase ≠ .revealed) :
    KeyUnset c ∧ (c.role = .responder → c.phase = .revealed → c.secret ≠ none) :=
  ⟨fun h => absurd h hp, fun _ h => absurd h hr⟩

theorem keyAndSecret_invariant (cfg : Config) (now : Option UInt64) (k : SwapId) :
    SlotInvariant cfg now k KeyAndSecret := by
  refine ⟨fun a b hstep _ ha c hc => ?_, fun a _ c hc => by cases hc⟩
  cases hstep with
  | createInitiator fresh =>
    cases hc
    exact ⟨fun _ => fresh.peer, fun hr => by rw [fresh.role] at hr; cases hr⟩
  | createResponder fresh =>
    cases hc
    exact keyAndSecret_of_phase (by rw [fresh.phase]; decide) (by rw [fresh.phase]; decide)
  | noteWire | notePeer | observe | fundRefused | revealRefused => exact ha c hc
  | @observeFunded d t h obs haw hfu =>
    cases hc
    rcases d.awaitsCounterpartyFunding_iff.mp haw with ⟨hr, -⟩ | ⟨hr, -⟩ <;>
      exact keyAndSecret_of_phase (by simp [hr, SwapCoordinator.observedPhase])
        (by simp [hr, SwapCoordinator.observedPhase])
  | @fund d =>
    cases hc
    cases hr : d.role <;> exact keyAndSecret_of_phase (by simp [SwapCoordinator.fundedPhase])
      (by simp [SwapCoordinator.fundedPhase])
  | @claim d t h head secret answer hr hp hu hk =>
    cases hc
    exact ha d rfl
  | @observeClaim d t h txId obs hr hp ht =>
    cases hc
    rcases applyClaimObservation_cases d (cfg.need .nim) obs hp with ⟨n, -, -, he⟩ | ⟨-, he⟩ | he <;>
      rw [he]
    · exact keyAndSecret_of_phase (by simp) (by simp)
    · exact ha d rfl
    · exact ha d rfl
  | drop => cases hc
  | learnSecret =>
    cases hc
    exact ⟨fun h => (by cases h), fun _ _ h => by cases h⟩
  | accept | reveal | refund | forfeit =>
    cases hc
    exact keyAndSecret_of_phase (fun h => by cases h) fun h => by cases h

theorem sound_step {env : Env} {s : Session} (hs : s.WF env) (hfit : AddressFits s.identity) (h : s.Sound)
    (op : Op) : (s.step env op).Sound := by
  intro k c hc
  obtain ⟨hkey, hsecret⟩ := (keyAndSecret_invariant _ _ k).call hs
    (fun d hd => ⟨(h k d hd).key, (h k d hd).secret⟩) c hc
  refine ⟨hkey, hsecret, ?_⟩
  rcases step_origin hs op hc with ⟨d, hd, -, hx⟩ | hnew
  · rw [hx]
    exact (h k d hd).address
  · cases op with
    | message kind payload head =>
      obtain ⟨-, -, e, p, -, -, -, -, -, hx⟩ := hnew
      rw [hx]
      exact hfit.1
    | initiate id head =>
      obtain ⟨-, -, standing, secret, hst, hx⟩ := hnew
      rw [hx]
      exact hfit.2 standing hst
    | _ => exact hnew.elim

/-- RUN: what holds of the coordinators of a session holds after every run. -/
theorem sound_exec {env : Env} {s : Session} (hs : s.WF env) (hfit : AddressFits s.identity) (h : s.Sound)
    (ops : List Op) : (s.exec env ops).Sound := by
  refine (Run.exec_preserves (step env)
    (I := fun s' => s'.WF env ∧ AddressFits s'.identity ∧ s'.Sound) (fun s' op ⟨hw, hf, hi⟩ => ?_) ops s
    ⟨hs, hfit, h⟩).2.2
  refine ⟨(step_config_wf hw op).2, ?_, sound_step hw hf hi op⟩
  rw [step_identity]
  exact hf

theorem sound_of_coordinators {s s' : Session} (h : s.Sound) (he : s'.coordinators = s.coordinators) :
    s'.Sound := by
  intro k c hc
  rw [he] at hc
  exact h k c hc

theorem sound_of_empty {s : Session} (h : s.coordinators = ∅) : s.Sound := by
  intro k c hc
  rw [h, AList.lookup_empty] at hc
  cases hc

theorem sound_restoreOne {s : Session} (h : s.Sound) {snap : CoordinatorSnapshot}
    (hsnap : SoundCoord (SwapCoordinator.fromSnapshot snap s.ladder)) : (s.restoreOne snap).Sound := by
  intro k c hc
  rw [lookup_restoreOne] at hc
  split_ifs at hc
  · cases hc
    exact hsnap
  · exact h k c hc

theorem sound_rearmClaim {s : Session} (h : s.Sound) (claim : SwapId × Hash) : (s.rearmClaim claim).Sound := by
  intro k c hc
  rw [rearmClaim, Table.lookup_adjust] at hc
  split_ifs at hc
  · obtain ⟨d, hd, rfl⟩ := Option.map_eq_some_iff.mp hc
    exact ⟨(h k d hd).key, (h k d hd).secret, (h k d hd).address⟩
  · exact h k c hc

/-- A restart from the blob of a sound session is sound, whatever its counts. -/
theorem sound_restartFrom {disk : Session} (h : disk.Sound) (identity : NodeIdentity)
    (ladder : LadderParams) : (restartFrom identity ladder disk).Sound := by
  have hdisk : ∀ snap ∈ disk.snapshot, ∃ c, SoundCoord c ∧ snap = c.toSnapshot := by
    intro snap hsnap
    obtain ⟨e, he, rfl⟩ := List.mem_map.mp hsnap
    exact ⟨e.2, h e.1 e.2 ((Table.lookup_eq_some_iff _ _ _).mpr he), rfl⟩
  simp only [restartFrom, restoreBytes]
  cases hd : decodeSnapshotFull disk.encodeSnapshot with
  | error err => exact sound_of_empty rfl
  | ok full =>
    have haddr : ∀ snap ∈ disk.snapshot, snap.ctx.btcAddress.length ≤ 65535 := by
      intro snap hsnap
      obtain ⟨c, hc, rfl⟩ := hdisk snap hsnap
      exact hc.address
    have hsnaps : ∀ snap ∈ full.1, ∀ ladder, SoundCoord (SwapCoordinator.fromSnapshot snap ladder) := by
      intro snap hsnap ladder
      rw [decodeSnapshotFull_fst haddr hd] at hsnap
      obtain ⟨orig, horig, rfl⟩ := List.mem_map.mp hsnap
      obtain ⟨c, hc, rfl⟩ := hdisk orig (List.mem_of_mem_take horig)
      exact ⟨hc.key, hc.secret, hc.address⟩
    have hrestore : (restore identity ladder full.1).Sound :=
      Run.exec_invariant (I := Sound) restoreOne (fun _ _ hs hsnap => sound_restoreOne hs hsnap) full.1
        (new identity ladder) (sound_of_empty rfl) (Run.along_of_forall_mem _ _ _ fun snap hsnap s => hsnaps snap hsnap s.ladder)
    have hrearm : (full.2.1.foldl rearm (restore identity ladder full.1)).Sound :=
      Run.exec_preserves rearm (fun _ _ hs => sound_of_coordinators hs rfl) full.2.1 _ hrestore
    exact Run.exec_preserves (I := Sound) rearmClaim (fun _ claim hs => sound_rearmClaim hs claim)
      full.2.2 _ hrearm

/-- A restart uses an identity whose addresses fit. -/
def FitsRecords : HostOp → Prop
  | .restart identity _ => AddressFits identity
  | _ => True

/-- A session some node comes to: from a node that has no swap and no blob, through any handlers, calls,
    snapshots and restarts. -/
def Reachable (env : Env) (s : Session) : Prop :=
  ∃ (h₀ : Host) (ops : List HostOp), h₀.session.Fresh ∧ h₀.disk.Fresh ∧ AddressFits h₀.session.identity ∧
    (∀ op ∈ ops, FitsRecords op) ∧ (h₀.exec env ops).session = s

/-- What holds of a node at every point of its life. -/
structure HostSound (env : Env) (h : Host) : Prop where
  wf : h.session.WF env
  fits : AddressFits h.session.identity
  session : h.session.Sound
  disk : h.disk.Sound

theorem restartFrom_identity (identity : NodeIdentity) (ladder : LadderParams) (disk : Session) :
    (restartFrom identity ladder disk).identity = identity := by
  simp only [restartFrom, restoreBytes]
  cases hd : decodeSnapshotFull disk.encodeSnapshot with
  | error err => rfl
  | ok full =>
    have hone : ∀ s snap, s.identity = identity → (restoreOne s snap).identity = identity := by
      intro s snap hs
      simp only [restoreOne]
      split_ifs <;> exact hs
    have hrestore : (restore identity ladder full.1).identity = identity :=
      Run.exec_preserves restoreOne hone full.1 _ rfl
    have hrearm : (full.2.1.foldl rearm (restore identity ladder full.1)).identity = identity :=
      Run.exec_preserves (I := fun s => s.identity = identity) rearm (fun _ _ hs => hs) full.2.1 _ hrestore
    exact Run.exec_preserves (I := fun s => s.identity = identity) rearmClaim (fun _ _ hs => hs) full.2.2 _
      hrearm

theorem hostSound_step {env : Env} (h : Host) (op : HostOp) (hi : HostSound env h)
    (hok : FitsRecords op) : HostSound env (h.step env op) := by
  cases op with
  | work op =>
    have hsession : (h.step env (.work op)).session = h.session.exec env (h.worker.calls env op) :=
      Worker.step_session env h.worker op
    refine ⟨?_, ?_, ?_, hi.disk⟩ <;> rw [hsession]
    · exact (exec_config_wf hi.wf _).2
    · rw [exec_identity]
      exact hi.fits
    · exact sound_exec hi.wf hi.fits hi.session _
  | call op =>
    refine ⟨(step_config_wf hi.wf op).2, ?_, sound_step hi.wf hi.fits hi.session op, hi.disk⟩
    show AddressFits (h.session.step env op).identity
    rw [step_identity]
    exact hi.fits
  | save => exact ⟨hi.wf, hi.fits, hi.session, hi.session⟩
  | restart identity ladder =>
    refine ⟨Host.wf_of_trace (restartFrom_wf env identity ladder h.disk) _, ?_,
      sound_of_coordinators (sound_restartFrom hi.disk identity ladder) rfl, hi.disk⟩
    show AddressFits (restartFrom identity ladder h.disk).identity
    rw [restartFrom_identity]
    exact hok

/-- RUN: every reachable session is well formed and sound. -/
theorem Reachable.sound {env : Env} {s : Session} (h : s.Reachable env) : s.WF env ∧ s.Sound := by
  obtain ⟨h₀, ops, hf, hd, hfit, hops, rfl⟩ := h
  have hi : HostSound env h₀ :=
    ⟨hf.wf env, hfit, sound_of_empty hf.coordinators, sound_of_empty hd.coordinators⟩
  have hend : HostSound env (h₀.exec env ops) :=
    Run.exec_invariant (Host.step env) (fun h op hi hok => hostSound_step h op hi hok) ops h₀ hi
      (Run.along_of_forall_mem _ _ _ fun op hop _ => hops op hop)
  exact ⟨hend.wf, hend.session⟩

/-- Every run of a session without a restart ends in a reachable one. -/
theorem reachable_exec (env : Env) {s₀ : Session} (h₀ : s₀.Fresh) (hfit : AddressFits s₀.identity)
    (ops : List Op) : (s₀.exec env ops).Reachable env := by
  refine ⟨⟨{ session := s₀ }, s₀⟩, ops.map .call, h₀, h₀, hfit, fun op hop => ?_, ?_⟩
  · obtain ⟨o, -, rfl⟩ := List.mem_map.mp hop
    trivial
  · rw [Host.exec_calls]

/-- A swap that a message has removed is not brought back by the drive that follows. -/
theorem driveSwap_lookup_none {env : Env} {s : Session} (hs : s.WF env) {k : SwapId}
    (h : s.coordinators.lookup k = none) (kind : SwapKind) (payload : Bytes) (head : UInt64) :
    (s.driveSwap env kind payload head).2.coordinators.lookup k = none := by
  cases hc : (s.driveSwap env kind payload head).2.coordinators.lookup k with
  | none => rfl
  | some c =>
    rcases step_origin hs (.driveSwap kind payload head) hc with ⟨d, hd, -⟩ | hnew
    · rw [h] at hd
      cases hd
    · exact hnew.elim

/-- CORRECT: in every reachable session, whatever message arrives, each swap that is held stays the same
    swap and moves forward only, through the message and through the chain action it triggers; it goes
    only by an `Abort` while nothing of it is locked. A message that returns an error leaves every
    coordinator exactly as it was, and adds none as long as this node's own address fits its `Accept`. -/
theorem messages_replay_safe (env : Env) (s : Session) (h : s.Reachable env) (kind : SwapKind)
    (payload : Bytes) (head : UInt64) :
    (∀ k c, s.coordinators.lookup k = some c →
      ((∃ c', (s.onMessage env kind payload head).2.coordinators.lookup k = some c' ∧ Onward c c') ∧
        ∃ c', ((s.onMessage env kind payload head).2.driveSwap env kind payload head).2.coordinators.lookup
          k = some c' ∧ Onward c c') ∨
      (kind = .abort ∧ c.phase.hasFundsLocked = false ∧
        (s.onMessage env kind payload head).2.coordinators.lookup k = none ∧
        ((s.onMessage env kind payload head).2.driveSwap env kind payload head).2.coordinators.lookup
          k = none)) ∧
    ∀ err, (s.onMessage env kind payload head).1 = .error err →
      (∀ k c, s.coordinators.lookup k = some c →
        (s.onMessage env kind payload head).2.coordinators.lookup k = some c) ∧
      (s.identity.btcAddress.length ≤ maxTlvValueLen → ∀ k,
        (s.onMessage env kind payload head).2.coordinators.lookup k = s.coordinators.lookup k) := by
  obtain ⟨hwf, hsound⟩ := h.sound
  have hwf' : (s.onMessage env kind payload head).2.WF env :=
    (step_config_wf hwf (.message kind payload head)).2
  refine ⟨fun k c hc => ?_, fun err herr => onMessage_error herr⟩
  rcases onMessage_onward (fun k c hc => (hsound k c hc).key) kind payload head hc with
    ⟨c', hc', hk⟩ | ⟨hkind, hl, hnone⟩
  · obtain ⟨c'', hc'', hk'⟩ := driveSwap_onward hwf' kind payload head k c' hc'
    exact .inl ⟨⟨c', hc', hk⟩, c'', hc'', hk.trans hk'⟩
  · exact .inr ⟨hkind, hl, hnone, driveSwap_lookup_none hwf' hnone kind payload head⟩

/-- The sample responder that has accepted a swap hears the same `Propose` again. -/
theorem sample_replayed_propose :
    ∃ c c', (Sample.bob.exec Sample.env (Sample.packet .propose Sample.propose 0)).coordinators.lookup
        Sample.swapId = some c ∧ c.phase = .accepted ∧
      ((Sample.bob.exec Sample.env (Sample.packet .propose Sample.propose 0)).onMessage Sample.env .propose
        Sample.propose 0).2.coordinators.lookup Sample.swapId = some c' ∧ Onward c c' := by
  have hheld : ((Sample.bob.exec Sample.env (Sample.packet .propose Sample.propose 0)).coordinators.lookup
      Sample.swapId).map SwapCoordinator.phase = some .accepted := by decide +kernel
  revert hheld
  generalize Sample.packet .propose Sample.propose 0 = ops
  intro hheld
  have hreach := reachable_exec Sample.env Sample.bob_fresh ⟨by decide, nofun⟩ ops
  obtain ⟨c, hc, hp⟩ := Option.map_eq_some_iff.mp hheld
  rcases (messages_replay_safe Sample.env _ hreach .propose Sample.propose 0).1 Sample.swapId c hc with
    ⟨⟨c', hc', hk⟩, -⟩ | ⟨hkind, -⟩
  · exact ⟨c, c', hc, hp, hc', hk⟩
  · cases hkind

end Session

end Nimmesh
