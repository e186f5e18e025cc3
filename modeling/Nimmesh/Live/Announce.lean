import Nimmesh.Lib.RlpItem
import Nimmesh.Live.Claimable
import Nimmesh.Live.VerifiedEscrow

/-! @src evm_rlp.rs live_swap_signer.rs swap_wire.rs swap_node.rs | name:Announced transactions | layer:properties

    The bytes of an EVM transaction are canonical and say everything that was signed. Those of a `newSwap`
    and of a `withdraw` behind its secret fit into the one TLV that announces them, at the widest nonce,
    gas and signature: the envelope is encoded, so the driver never drops it. -/

namespace Nimmesh
open Rlp

/-! ### Canonical integers -/

theorem minimalBe_inj {m n : ℕ} (hm : m < 2 ^ 64) (hn : n < 2 ^ 64) (h : minimalBe m = minimalBe n) : m = n := by
  rw [← ofBe_minimalBe hm, ← ofBe_minimalBe hn, h]

theorem minimalBe_u64_inj {v w : UInt64} (h : minimalBe v.toNat = minimalBe w.toNat) : v = w :=
  UInt64.toNat_inj.mp (minimalBe_inj v.toNat_lt w.toNat_lt h)

/-- Values of one width are told apart without their leading zeros. -/
theorem dropWhile_zeros_inj {a b : Bytes} (hlen : a.length = b.length)
    (h : a.dropWhile (· == 0) = b.dropWhile (· == 0)) : a = b := by
  have hof : ofBe a = ofBe b := by rw [← ofBe_dropWhile a, ← ofBe_dropWhile b, h]
  rw [← beBytesOf_ofBe a, ← beBytesOf_ofBe b, hof, hlen]

/-- A string of the reader's width is read back. -/
theorem decode_rlpBytes {data : Bytes} (h : data.length < 2 ^ 64) :
    decodeCanonical (rlpBytes data) = some (.str data) := by
  have hframe : rlpBytes data = frame false data := by rw [frame, if_neg Bool.false_ne_true]
  have hread := readFrame_frame false h []
  have hlen := List.length_pos_iff.mpr (frame_ne_nil false data)
  obtain ⟨n, hn⟩ : ∃ n, (frame false data).length = n + 1 := ⟨(frame false data).length - 1, by omega⟩
  rw [List.append_nil] at hread
  rw [hframe, decodeCanonical, hn, readItems_of_ne_nil (frame_ne_nil false data), hread]
  cases n <;> rfl

/-- The integer `be` is read from `bytes`, in its shortest form. -/
def ReadsInt (bytes : Bytes) (n : ℕ) : Prop :=
  ∃ be, decodeCanonical bytes = some (.str be) ∧ ofBe be = n ∧ be.head? ≠ some 0

theorem readsInt_rlpU64 (v : UInt64) : ReadsInt (rlpU64 v) v.toNat := by
  have hlen := length_minimalBe v.toNat
  exact ⟨minimalBe v.toNat, decode_rlpBytes (by omega), ofBe_minimalBe v.toNat_lt, head_minimalBe _⟩

theorem readsInt_rlpInt {be : Bytes} (h : be.length < 2 ^ 64) : ReadsInt (rlpInt be) (ofBe be) := by
  have hlen := (List.dropWhile_sublist (l := be) (· == 0)).length_le
  exact ⟨be.dropWhile (· == 0), decode_rlpBytes (by omega), ofBe_dropWhile be, head_dropWhile_zeros be⟩

theorem decode_rlpList {items : List Item} (h : ((items.map Item.encode).map List.length).sum < 2 ^ 64) :
    decodeCanonical (rlpList (items.map Item.encode)) = some (.list items) := by
  have hframe : rlpList (items.map Item.encode) = frame true (Item.encodeAll items).flatten := by
    rw [← encodeAll_eq_map, ← Item.encode, encode_list]
  have h64 : (Item.encodeAll items).flatten.length < 2 ^ 64 := by
    rw [encodeAll_eq_map, List.length_flatten]
    exact h
  have hread := readFrame_frame true h64 []
  have hlt := length_lt_frame_true (Item.encodeAll items).flatten
  obtain ⟨n, hn⟩ : ∃ n, (frame true (Item.encodeAll items).flatten).length = n + 1 :=
    ⟨(frame true (Item.encodeAll items).flatten).length - 1, by omega⟩
  have hitems := readItems_encodeAll n items (by omega) h64
  rw [List.append_nil] at hread
  rw [hframe, decodeCanonical, hn, readItems_of_ne_nil (frame_ne_nil true _), hread]
  simp only [Option.bind_some, if_true, hitems, Option.map_some]
  cases n <;> rfl

/-! ### What the bytes of a transaction say -/

theorem signingRlp_fields {tx : LegacyTx} (h : tx.data.length < 2 ^ 63) :
    decodeList tx.signingRlp =
      some [minimalBe tx.nonce.toNat, minimalBe tx.gasPrice.toNat, minimalBe tx.gasLimit.toNat, tx.dest.1,
        minimalBe tx.value.toNat, tx.data, minimalBe tx.chainId.toNat, minimalBe (0 : UInt64).toNat,
        minimalBe (0 : UInt64).toNat] := by
  have hdest := length_rlpBytes_le tx.dest.1
  have hdata := length_rlpBytes_le tx.data
  have hlen := tx.dest.2
  refine @decodeList_rlpList [_, _, _, _, _, _, _, _, _] ?_
  have h1 := length_rlpU64 tx.nonce
  have h2 := length_rlpU64 tx.gasPrice
  have h3 := length_rlpU64 tx.gasLimit
  have h4 := length_rlpU64 tx.value
  have h5 := length_rlpU64 tx.chainId
  have h6 := length_rlpU64 0
  simp only [rlpU64] at h1 h2 h3 h4 h5 h6
  simp only [List.map_cons, List.map_nil, List.sum_cons, List.sum_nil]
  omega

/-- The payload that is signed says every field. -/
theorem signingRlp_inj {tx tx' : LegacyTx} (h : tx.data.length < 2 ^ 63) (h' : tx'.data.length < 2 ^ 63)
    (heq : tx.signingRlp = tx'.signingRlp) : tx = tx' := by
  have hfields := signingRlp_fields h
  rw [heq, signingRlp_fields h'] at hfields
  simp only [Option.some.injEq, List.cons.injEq] at hfields
  obtain ⟨hnonce, hprice, hlimit, hdest, hvalue, hdata, hchain, -⟩ := hfields
  rcases tx with ⟨nonce, gasPrice, gasLimit, dest, value, data, chainId⟩
  rcases tx' with ⟨nonce', gasPrice', gasLimit', dest', value', data', chainId'⟩
  simp only at hnonce hprice hlimit hdest hvalue hdata hchain
  rw [minimalBe_u64_inj hnonce, minimalBe_u64_inj hprice, minimalBe_u64_inj hlimit, Subtype.ext hdest,
    minimalBe_u64_inj hvalue, hdata, minimalBe_u64_inj hchain]

theorem eip155V_toNat {recoveryId : UInt8} {chainId : UInt64} (hr : recoveryId ≤ 1)
    (hc : chainId.toNat < 2 ^ 62) :
    (eip155V recoveryId chainId).toNat = recoveryId.toNat + chainId.toNat * 2 + 35 := by
  rw [UInt8.le_iff_toNat_le] at hr
  simp only [UInt8.reduceToNat] at hr
  simp only [eip155V, UInt64.toNat_add, UInt64.toNat_mul, UInt8.toNat_toUInt64, UInt64.reduceToNat]
  omega

/-- `v` says both the recovery id and the chain. -/
theorem eip155V_inj {recoveryId recoveryId' : UInt8} {chainId chainId' : UInt64} (hr : recoveryId ≤ 1)
    (hr' : recoveryId' ≤ 1) (hc : chainId.toNat < 2 ^ 62) (hc' : chainId'.toNat < 2 ^ 62)
    (h : eip155V recoveryId chainId = eip155V recoveryId' chainId') :
    recoveryId = recoveryId' ∧ chainId = chainId' := by
  have hv := congrArg UInt64.toNat h
  rw [eip155V_toNat hr hc, eip155V_toNat hr' hc'] at hv
  rw [UInt8.le_iff_toNat_le] at hr hr'
  simp only [UInt8.reduceToNat] at hr hr'
  exact ⟨UInt8.toNat_inj.mp (by omega), UInt64.toNat_inj.mp (by omega)⟩

/-- The signed bytes say every field and the signature. -/
theorem signedTxRlp_inj {tx tx' : LegacyTx} {r r' s s' : Hash} {recoveryId recoveryId' : UInt8}
    (h : tx.data.length < 2 ^ 63) (h' : tx'.data.length < 2 ^ 63) (hr : recoveryId ≤ 1) (hr' : recoveryId' ≤ 1)
    (hc : tx.chainId.toNat < 2 ^ 62) (hc' : tx'.chainId.toNat < 2 ^ 62)
    (heq : tx.signedTxRlp r s recoveryId = tx'.signedTxRlp r' s' recoveryId') :
    tx = tx' ∧ r = r' ∧ s = s' ∧ recoveryId = recoveryId' := by
  have hfields := signedTxRlp_fields h r s recoveryId
  rw [heq, signedTxRlp_fields h'] at hfields
  simp only [Option.some.injEq, List.cons.injEq, and_true] at hfields
  obtain ⟨hnonce, hprice, hlimit, hdest, hvalue, hdata, hv, hrr, hss⟩ := hfields
  obtain ⟨hid, hchain⟩ := eip155V_inj hr' hr hc' hc (minimalBe_u64_inj hv)
  have hr32 : r' = r := Subtype.ext (dropWhile_zeros_inj (r'.2.trans r.2.symm) hrr)
  have hs32 : s' = s := Subtype.ext (dropWhile_zeros_inj (s'.2.trans s.2.symm) hss)
  rcases tx with ⟨nonce, gasPrice, gasLimit, dest, value, data, chainId⟩
  rcases tx' with ⟨nonce', gasPrice', gasLimit', dest', value', data', chainId'⟩
  simp only at hnonce hprice hlimit hdest hvalue hdata hchain
  refine ⟨?_, hr32.symm, hs32.symm, hid.symm⟩
  rw [minimalBe_u64_inj hnonce, minimalBe_u64_inj hprice, minimalBe_u64_inj hlimit, Subtype.ext hdest,
    minimalBe_u64_inj hvalue, hdata, hchain]

/-! ### What the signers hand back fits into one field -/

/-- No value, and a chain id of two or three bytes: 139 bytes at most beside the fixed fields. -/
theorem length_evmTx_signed (chainId nonce gasPrice gasLimit : UInt64) (dest : EvmAddress) {data : Bytes}
    (h : data.length ≤ 132) (r s : Hash) (recoveryId : UInt8) :
    ((evmTx chainId nonce gasPrice gasLimit dest data).signedTxRlp r s recoveryId).length ≤ maxTlvValueLen := by
  have hdata : (rlpBytes data).length ≤ 134 := length_rlpBytes_data h (by decide)
  have hvalue : (rlpU64 0).length = 1 := by decide
  have hid := recoveryId.toNat_lt
  have hchain : (evmTx chainId nonce gasPrice gasLimit dest data).chainId.toNat ≤ 80002 := by
    simp only [evmTx]
    split_ifs <;> decide
  have hv : (rlpU64 (eip155V recoveryId (evmTx chainId nonce gasPrice gasLimit dest data).chainId)).length ≤ 4 := by
    refine length_rlpU64_of_lt (by decide) ?_
    simp only [eip155V, UInt64.toNat_add, UInt64.toNat_mul, UInt8.toNat_toUInt64, UInt64.reduceToNat]
    omega
  refine length_signedTxRlp_of (n := 139) ?_ (by decide) r s
  show (rlpU64 0).length + (rlpBytes data).length + _ ≤ 139
  omega

theorem length_newSwapRaw (cfg : LiveResponder) (plan : FundingPlan) (ctx : SwapContext) :
    (cfg.newSwapRaw plan ctx).length ≤ maxTlvValueLen :=
  length_evmTx_signed _ _ _ _ _ (length_htlcNewSwap _ _ _ _ _) _ _ _

theorem length_withdrawRaw {cfg : LiveInitiator} {rpc : AmoyRpc} {escrow secret : Hash} {raw : Bytes}
    (h : cfg.withdrawRaw rpc escrow secret = some raw) : raw.length ≤ 204 := by
  simp only [LiveInitiator.withdrawRaw, Option.bind_eq_bind, Option.bind_eq_some_iff] at h
  obtain ⟨price, -, nonce, -, hraw⟩ := h
  rw [← Option.some.inj hraw]
  exact length_signWith _ (length_htlcWithdraw _ escrow secret) _

/-- The transaction of an answer fits into one field. -/
def FitsField (tx : Bytes × Hash) : Prop := tx.1.length ≤ maxTlvValueLen

/-- What the responder remembers is short enough to be replayed. -/
def FundingFits (last : Option LandedFunding) : Prop := ∀ f, last = some f → f.wire.length ≤ maxTlvValueLen

/-- What the initiator remembers is short enough to be replayed. -/
def ClaimFits (last : Option (Bytes × Hash)) : Prop := ∀ tx, last = some tx → FitsField tx

/-- STEP: a funding call that remembers a short wire hands back and remembers a short one. -/
theorem buildFunding_fits (cfg : LiveResponder) {last : Option LandedFunding} (h : FundingFits last) (rpc : AmoyRpc)
    (nowS : UInt64) (book : PeerBook) (ctx : SwapContext) (leg : SwapLegId) :
    (∀ tx, (cfg.buildFunding rpc nowS book last ctx leg).result = some tx → FitsField tx) ∧
      FundingFits (cfg.buildFunding rpc nowS book last ctx leg).last := by
  cases leg with
  | nim =>
    refine ⟨?_, h⟩
    intro tx htx
    cases htx
  | counterparty =>
    simp only [LiveResponder.buildFunding]
    rcases cfg.fundUsdc_cases rpc nowS book last ctx with
      ⟨tx, hr, he⟩ | ⟨-, ⟨plan, -, he⟩ | ⟨plan, -, he⟩ | he⟩
    · rw [he]
      refine ⟨?_, h⟩
      rintro _ ⟨⟩
      obtain ⟨f, hf, rfl, -⟩ := LiveResponder.replayFunding_some hr
      exact h f hf
    · rw [he]
      constructor
      · rintro _ ⟨⟩
        exact length_newSwapRaw cfg plan ctx
      · rintro _ ⟨⟩
        exact length_newSwapRaw cfg plan ctx
    · rw [he]
      refine ⟨?_, h⟩
      intro tx htx
      cases htx
    · rw [he]
      refine ⟨?_, h⟩
      intro tx htx
      cases htx

/-- STEP: a claim call that remembers a short wire hands back and remembers a short one. -/
theorem claimUsdc_fits (cfg : LiveInitiator) {last : Option (Bytes × Hash)} (h : ClaimFits last) (rpc : AmoyRpc)
    (found : Hash → Option Hash) (ctx : SwapContext) (secret : Hash) :
    ClaimFits (claimUsdc (cfg.claimRpc rpc found) last ctx secret).1 ∧
      ClaimFits (claimUsdc (cfg.claimRpc rpc found) last ctx secret).2 := by
  rcases cfg.claimUsdc_sent rpc found last ctx secret with ⟨hlast, hans⟩ | ⟨-, escrow, sent, -, hsend, hlast, hans⟩
  · rw [hlast]
    exact ⟨fun tx htx => h tx (hans tx htx).1, h⟩
  · obtain ⟨raw, hraw, hsent⟩ := Option.bind_eq_some_iff.mp hsend
    have hlen := length_withdrawRaw hraw
    have hsec : secret.1.length = 32 := secret.2
    have hwire : sent.1 = raw := by
      simp only [sendEvmTx] at hsent
      split_ifs at hsent
      · rw [← Option.some.inj hsent]
      · rw [← Option.some.inj hsent]
    have hfits : FitsField (secret.1 ++ sent.1, sent.2) := by
      rw [FitsField, hwire, List.length_append, hsec, maxTlvValueLen]
      omega
    rw [hlast]
    constructor
    · intro tx htx
      rw [hans tx htx]
      exact hfits
    · rintro _ ⟨⟩
      exact hfits

/-- RUN: after any calls, what the responder hands back for a funding fits. -/
theorem responder_answers_fit (cfg : LiveResponder) (calls : List ResponderCall) (ctx : SwapContext)
    (leg : SwapLegId) (rpc : AmoyRpc) (nowS : UInt64) {tx : Bytes × Hash}
    (h : cfg.answer (Run.exec cfg.step {} calls) (.buildFunding ctx leg rpc nowS) = some tx) : FitsField tx := by
  have hinv : FundingFits (Run.exec cfg.step {} calls).last := by
    refine Run.exec_preserves (I := fun s => FundingFits s.last) cfg.step ?_ calls {} ?_
    · intro s call hs
      cases call with
      | notePeer swapId peer => exact hs
      | buildClaim ctx secret rpc store => exact hs
      | buildFunding ctx leg rpc nowS => exact (buildFunding_fits cfg hs rpc nowS s.book ctx leg).2
    · intro f hf
      cases hf
  exact (buildFunding_fits cfg hinv rpc nowS _ ctx leg).1 tx h

/-- RUN: after any calls, what the initiator hands back for a claim fits. -/
theorem initiator_answers_fit (cfg : LiveInitiator) (calls : List InitiatorCall) (ctx : SwapContext)
    (secret : Hash) (rpc : AmoyRpc) (found : Hash → Option Hash) {tx : Bytes × Hash}
    (h : cfg.answer (Run.exec cfg.step {} calls) (.buildClaim ctx secret rpc found) = some tx) : FitsField tx := by
  have hinv : ClaimFits (Run.exec cfg.step {} calls).lastClaim := by
    refine Run.exec_preserves (I := fun s => ClaimFits s.lastClaim) cfg.step ?_ calls {} ?_
    · intro s call hs
      cases call with
      | notePeer swapId peer => exact hs
      | buildFunding ctx leg rpc nowMs => exact hs
      | buildClaim ctx secret rpc found => exact (claimUsdc_fits cfg hs rpc found ctx secret).2
    · intro tx htx
      cases htx
  exact (claimUsdc_fits cfg hinv rpc found ctx secret).1 tx h

/-! ### The driver announces -/

/-- The driver's next action on a swap leaves its coordinator alone, or floods one encoded envelope with
    the funding that the signer handed back. -/
def AnnouncesFunding (env : Env) (s : Session) (id : SwapId) (c : SwapCoordinator) (head : UInt64) : Prop :=
  (s.drivePhaseAction env id head).2.coordinators.lookup id = some c ∨
  ∃ wire txId payload, env.buildFunding s.trace c.ctx .counterparty = some (wire, txId) ∧
    encodeSwap (txEnvelope c.ctx.swapId .counterparty wire txId) = .ok payload ∧
    (s.drivePhaseAction env id head).1 = [(.swapFundingProof, payload)]

/-- The same of the claim, which reveals the secret. -/
def AnnouncesReveal (env : Env) (s : Session) (id : SwapId) (c : SwapCoordinator) (head : UInt64) : Prop :=
  (s.drivePhaseAction env id head).2.coordinators.lookup id = some c ∨
  ∃ secret wire txId payload, c.secret = some secret ∧
    env.buildClaim s.trace c.ctx secret = some (wire, txId) ∧
    encodeSwap (txEnvelope c.ctx.swapId .counterparty wire txId) = .ok payload ∧
    (s.drivePhaseAction env id head).1 = [(.swapPreimageReveal, payload)]

theorem pushEnv_of_fits (mt : MessageType) (swapId : SwapId) (leg : SwapLegId) {wire : Bytes} (txId : Hash)
    (h : wire.length ≤ maxTlvValueLen) : ∃ payload, encodeSwap (txEnvelope swapId leg wire txId) = .ok payload ∧
      Session.pushEnv mt (txEnvelope swapId leg wire txId) = [(mt, payload)] := by
  obtain ⟨payload, hp⟩ := encodeSwap_txEnvelope swapId leg txId h
  exact ⟨payload, hp, by rw [Session.pushEnv, hp]⟩

/-- A funding with a short wire is announced. -/
theorem driveFund_announces {env : Env} {s : Session} {id : SwapId} {c : SwapCoordinator}
    (hc : s.coordinators.lookup id = some c) (hr : c.role = .responder) (hp : c.phase = .initiatorFunded)
    (head : UInt64) (hfit : ∀ tx, env.buildFunding s.trace c.ctx .counterparty = some tx → FitsField tx) :
    AnnouncesFunding env s id c head := by
  have hdrive : s.drivePhaseAction env id head = s.driveFund env id c head .counterparty := by
    simp only [Session.drivePhaseAction, hc, hr, hp]
  rw [AnnouncesFunding, hdrive]
  cases ha : env.buildFunding s.trace c.ctx .counterparty with
  | none =>
    refine .inl ?_
    simp only [Session.driveFund, ha]
    exact hc
  | some tx =>
    have hleg : c.swap.ownLeg = .counterparty := by
      simp only [SwapCoordinator.role] at hr
      simp only [Swap.ownLeg, hr]
    rcases c.fund_cases head tx.1 tx.2 with ⟨-, -, he⟩ | ⟨-, e, he⟩
    · obtain ⟨payload, hpay, hpush⟩ :=
        pushEnv_of_fits .swapFundingProof c.ctx.swapId .counterparty tx.2 (hfit tx ha)
      refine .inr ⟨tx.1, tx.2, payload, rfl, hpay, ?_⟩
      simp only [Session.driveFund, ha, he, hleg, hpush]
    · refine .inl ?_
      simp only [Session.driveFund, ha, he, Session.setCoord, Table.lookup_insert_iff, if_true]

/-- A reveal with a short wire is announced. -/
theorem driveReveal_announces {env : Env} {s : Session} {id : SwapId} {c : SwapCoordinator}
    (hc : s.coordinators.lookup id = some c) (hr : c.role = .initiator) (hp : c.phase = .bothFunded)
    (head : UInt64) (hfit : ∀ secret tx, env.buildClaim s.trace c.ctx secret = some tx → FitsField tx) :
    AnnouncesReveal env s id c head := by
  have hdrive : s.drivePhaseAction env id head = s.driveReveal env id c head := by
    simp only [Session.drivePhaseAction, hc, hr, hp]
  rw [AnnouncesReveal, hdrive, Session.driveReveal]
  cases c.revealDeadlineOk head with
  | false => exact .inl hc
  | true =>
    simp only [Bool.not_true, Bool.false_eq_true, if_false]
    cases hk : c.secret with
    | none => exact .inl hc
    | some secret =>
      dsimp only
      cases ha : env.buildClaim s.trace c.ctx secret with
      | none => exact .inl hc
      | some tx =>
        rcases c.claimAndReveal_cases head tx.1 tx.2 with ⟨-, -, -, he⟩ | ⟨-, e, he⟩
        · obtain ⟨payload, hpay, hpush⟩ :=
            pushEnv_of_fits .swapPreimageReveal c.ctx.swapId .counterparty tx.2 (hfit secret tx ha)
          refine .inr ⟨secret, tx.1, tx.2, payload, rfl, ha, hpay, ?_⟩
          simp only [he, hpush]
        · refine .inl ?_
          simp only [he, Session.setCoord, Table.lookup_insert_iff, if_true]

/-- What the responder's signer remembers after a trace is short. -/
theorem fundingMemory_fits (node : LiveResponderNode) (ch : LiveChains) (tr : List Event) :
    FundingFits (node.fundingMemory ch tr).1 := by
  induction tr with
  | nil =>
    intro f hf
    cases hf
  | cons ev tr ih =>
    cases ev with
    | builtFunding id role ctx head answer =>
      simp only [LiveResponderNode.fundingMemory]
      split_ifs
      · exact ih
      · exact (buildFunding_fits node.signer ih _ _ _ ctx (fundedLeg role)).2
    | _ => exact ih

/-- What the initiator's signer remembers after a trace is short. -/
theorem lastClaim_fits (node : LiveInitiatorNode) (ch : InitiatorChains) (tr : List Event) :
    ClaimFits (node.lastClaim ch tr) := by
  induction tr with
  | nil =>
    intro tx htx
    cases htx
  | cons ev tr ih =>
    cases ev with
    | builtClaim id role ctx secret head answer => exact (claimUsdc_fits node.signer ih _ _ ctx secret).2
    | _ => exact ih

theorem responder_announces (node : LiveResponderNode) (ch : LiveChains) (crypto : Crypto) {s : Session}
    {id : SwapId} {c : SwapCoordinator} (hc : s.coordinators.lookup id = some c) (hr : c.role = .responder)
    (hp : c.phase = .initiatorFunded) (head : UInt64) :
    AnnouncesFunding (node.env ch crypto) s id c head := by
  refine driveFund_announces hc hr hp head ?_
  intro tx htx
  simp only [LiveResponderNode.env, oneShot] at htx
  split_ifs at htx
  exact (buildFunding_fits node.signer (fundingMemory_fits node ch s.trace) _ _ _ _ _).1 tx htx

theorem initiator_announces (node : LiveInitiatorNode) (ch : InitiatorChains) (base : Env) {s : Session}
    {id : SwapId} {c : SwapCoordinator} (hc : s.coordinators.lookup id = some c) (hr : c.role = .initiator)
    (hp : c.phase = .bothFunded) (head : UInt64) :
    AnnouncesReveal (node.env ch base) s id c head := by
  refine driveReveal_announces hc hr hp head ?_
  intro secret tx htx
  exact (claimUsdc_fits node.signer (lastClaim_fits node ch s.trace) _ _ _ _).1 tx htx

/-- CORRECT: the encoding is canonical: a strict reader gives back the string, the shortest integer or the
    list, and accepts no other bytes for them. The payload to sign and the signed transaction say all that
    went into them. After any calls a signer hands back a `newSwap`, or a `withdraw` behind its secret, that
    fits into one field; so a swap that the driver funds or reveals is announced. -/
theorem evm_transactions_announced :
    ((∀ data : Bytes, data.length < 2 ^ 64 → decodeCanonical (rlpBytes data) = some (.str data)) ∧
      (∀ v : UInt64, ReadsInt (rlpU64 v) v.toNat) ∧
      (∀ be : Bytes, be.length < 2 ^ 64 → ReadsInt (rlpInt be) (ofBe be)) ∧
      (∀ items : List Item, ((items.map Item.encode).map List.length).sum < 2 ^ 64 →
        decodeCanonical (rlpList (items.map Item.encode)) = some (.list items)) ∧
      ∀ item : Item, item.encode.length < 2 ^ 64 →
        ∀ bytes, decodeCanonical bytes = some item ↔ bytes = item.encode) ∧
    ((∀ tx tx' : LegacyTx, tx.data.length < 2 ^ 63 → tx'.data.length < 2 ^ 63 →
        tx.signingRlp = tx'.signingRlp → tx = tx') ∧
      ∀ (tx tx' : LegacyTx) (r r' s s' : Hash) (recoveryId recoveryId' : UInt8),
        tx.data.length < 2 ^ 63 → tx'.data.length < 2 ^ 63 → recoveryId ≤ 1 → recoveryId' ≤ 1 →
        tx.chainId.toNat < 2 ^ 62 → tx'.chainId.toNat < 2 ^ 62 →
        tx.signedTxRlp r s recoveryId = tx'.signedTxRlp r' s' recoveryId' →
        tx = tx' ∧ r = r' ∧ s = s' ∧ recoveryId = recoveryId') ∧
    ((∀ (cfg : LiveResponder) (calls : List ResponderCall) (ctx : SwapContext) (leg : SwapLegId) (rpc : AmoyRpc)
        (nowS : UInt64) (tx : Bytes × Hash),
        cfg.answer (Run.exec cfg.step {} calls) (.buildFunding ctx leg rpc nowS) = some tx → FitsField tx) ∧
      ∀ (cfg : LiveInitiator) (calls : List InitiatorCall) (ctx : SwapContext) (secret : Hash) (rpc : AmoyRpc)
        (found : Hash → Option Hash) (tx : Bytes × Hash),
        cfg.answer (Run.exec cfg.step {} calls) (.buildClaim ctx secret rpc found) = some tx → FitsField tx) ∧
    ((∀ (node : LiveResponderNode) (ch : LiveChains) (crypto : Crypto) (s : Session) (id : SwapId)
        (c : SwapCoordinator) (head : UInt64), s.coordinators.lookup id = some c → c.role = .responder →
        c.phase = .initiatorFunded → AnnouncesFunding (node.env ch crypto) s id c head) ∧
      ∀ (node : LiveInitiatorNode) (ch : InitiatorChains) (base : Env) (s : Session) (id : SwapId)
        (c : SwapCoordinator) (head : UInt64), s.coordinators.lookup id = some c → c.role = .initiator →
        c.phase = .bothFunded → AnnouncesReveal (node.env ch base) s id c head) :=
  ⟨⟨fun _ h => decode_rlpBytes h, readsInt_rlpU64, fun _ h => readsInt_rlpInt h, fun _ h => decode_rlpList h,
      fun _ h => decodeCanonical_eq_some_iff h⟩,
    ⟨fun _ _ h h' => signingRlp_inj h h', fun _ _ _ _ _ _ _ _ h h' hr hr' hc hc' => signedTxRlp_inj h h' hr hr' hc hc'⟩,
    ⟨fun cfg calls ctx leg rpc nowS _ => responder_answers_fit cfg calls ctx leg rpc nowS,
      fun cfg calls ctx secret rpc found _ => initiator_answers_fit cfg calls ctx secret rpc found⟩,
    fun node ch crypto _ _ _ head hc hr hp => responder_announces node ch crypto hc hr hp head,
    fun node ch base _ _ _ head hc hr hp => initiator_announces node ch base hc hr hp head⟩

namespace Sample

/-- The responder of the sample swap, past the initiator's funding. -/
def readyToFund : SwapCoordinator :=
  (SwapCoordinator.newResponder fundingContext {}).withPhase .initiatorFunded

/-- The initiator of the sample swap, past both fundings. -/
def readyToReveal : SwapCoordinator :=
  (SwapCoordinator.newInitiator fundingContext secret {}).1.withPhase .bothFunded

/-- A node around the USDC signer. -/
def fundingNode : LiveResponderNode := ⟨alice, usdcSigner, ⟨fun _ => ByteArr.fill 32 0, 900, 5⟩, fun _ => secret⟩

/-- The published EIP-155 example without its signature. -/
def eip155Tx : LegacyTx := ⟨9, 20000000000, 21000, ByteArr.fill 20 0x35, 1000000000000000000, [], 1⟩

end Sample

/-- A nested list, a transaction, a funding after two calls, and the two drives. -/
theorem sample_transactions_announced :
    decodeCanonical (rlpList ([Item.str [0x63, 0x61, 0x74], .list [.str []], .str [0x80]].map Item.encode)) =
        some (.list [.str [0x63, 0x61, 0x74], .list [.str []], .str [0x80]]) ∧
      (∀ nonce, (Sample.eip155Tx.signedTxRlp Sample.hashlock Sample.secret 1 =
        { Sample.eip155Tx with nonce := nonce }.signedTxRlp Sample.hashlock Sample.secret 1) → nonce = 9) ∧
      FitsField Sample.firstFunding ∧
      AnnouncesFunding (Sample.fundingNode.env Sample.claimChains Sample.crypto)
        (Sample.alice.setCoord Sample.swapId Sample.readyToFund) Sample.swapId Sample.readyToFund 0 ∧
      AnnouncesReveal (Sample.initiatorNode.env Sample.usdcChain Sample.fundsNim)
        (Sample.alice.setCoord Sample.swapId Sample.readyToReveal) Sample.swapId Sample.readyToReveal 0 := by
  obtain ⟨⟨-, -, -, hlist, -⟩, ⟨-, hsigned⟩, ⟨hfund, -⟩, hdriveFund, hdriveReveal⟩ := evm_transactions_announced
  refine ⟨hlist _ (by decide), ?_, ?_, ?_, ?_⟩
  · intro nonce h
    have hdata : Sample.eip155Tx.data.length < 2 ^ 63 := by decide
    have hchain : Sample.eip155Tx.chainId.toNat < 2 ^ 62 := by decide
    have htx := hsigned Sample.eip155Tx { Sample.eip155Tx with nonce := nonce } Sample.hashlock Sample.hashlock
      Sample.secret Sample.secret 1 1 hdata hdata (by decide) (by decide) hchain hchain h
    exact (congrArg LegacyTx.nonce htx.1).symm
  · refine hfund Sample.usdcSigner (Sample.firstFunded.take 2) Sample.fundingContext .counterparty
      (Sample.amoy 0 Sample.firstLive) 1000000 _ ?_
    decide +kernel
  · exact hdriveFund _ _ _ _ _ _ 0 (by simp [Session.setCoord]) rfl rfl
  · exact hdriveReveal _ _ _ _ _ _ 0 (by simp [Session.setCoord]) rfl rfl

end Nimmesh
