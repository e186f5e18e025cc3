import Mathlib.Data.List.Infix
import Mathlib.Data.Set.Function
import Nimmesh.Contract.Forwarder
import Nimmesh.Contract.Solvency
import Nimmesh.Live.Signer

/-! @src contracts/src/NimmeshForwarder.sol contracts/src/NimmeshHtlc.sol | name:Authenticated funding |
    layer:properties

    Whatever the calls nest, the nonces of a signer count its executed requests, so none is executed
    twice; and a slot that came in through the forwarder belongs to the signer of a request that spells
    it out. An invariant of the chain is proved at the three points where code of the repository writes
    state (`Rule`), and then holds over every tree of calls. -/

namespace Nimmesh
open Abi Rlp

/-! ### Words -/

theorem abiWord_eq (v : U256) : abiWord v = beBytesOf 32 v.toNat := by
  refine List.map_congr_left fun i _ => ?_
  rw [BitVec.toNat_ushiftRight, Nat.shiftRight_eq_div_pow, Nat.pow_mul]

theorem length_abiWord (v : U256) : (abiWord v).length = 32 := by simp [abiWord]

theorem length_abiAddress (a : EvmAddress) : (abiAddress a).length = 32 := by
  rw [abiAddress, List.length_append, List.length_replicate, a.2]

theorem ofBe_abiWord (v : U256) : ofBe (abiWord v) = v.toNat := by
  rw [abiWord_eq, ofBe_beBytesOf]
  exact Nat.mod_eq_of_lt v.isLt

theorem abiWord_injective : Function.Injective abiWord := by
  intro v v' h
  apply BitVec.eq_of_toNat_eq
  rw [← ofBe_abiWord v, ← ofBe_abiWord v', h]

theorem abiAddress_injective : Function.Injective abiAddress := by
  intro a a' h
  exact Subtype.ext (List.append_cancel_left h)

/-! ### The escrow -/

namespace Htlc

variable {T : Type} (h : Htlc T)

theorem newSwapFrom_writes {w w' : HtlcWorld T} {funder receiver : EvmAddress} {amount : U256}
    {hashlock : Hash} {timelock : U256}
    (hok : h.newSwapFrom w funder receiver amount hashlock timelock = .ok w') :
    (w.slot (swapIdFor h.keccak256 funder receiver amount hashlock timelock)).state = .none ∧
      w'.swaps = w.swaps.insert (swapIdFor h.keccak256 funder receiver amount hashlock timelock)
        ⟨funder, receiver, amount, hashlock, timelock, .live⟩ := by
  simp only [newSwapFrom] at hok
  split_ifs at hok with h1 h2 h3 h4
  split at hok
  · cases hok
  · cases hok
  · cases hok
    exact ⟨not_not.mp h4, rfl⟩

theorem withdraw_resolves {w w' : HtlcWorld T} {swapId secret : Hash}
    (hok : h.withdraw w swapId secret = .ok w') : ∃ e st p, h.Resolved w w' swapId e st p := by
  simp only [withdraw] at hok
  split_ifs at hok with h1 h2 h3 h4
  exact ⟨_, _, _, (h.payOut_ok rfl (not_not.mp h2) hok).2⟩

theorem refund_resolves {w w' : HtlcWorld T} {swapId : Hash} (hok : h.refund w swapId = .ok w') :
    ∃ e st p, h.Resolved w w' swapId e st p := by
  simp only [refund] at hok
  split_ifs at hok with h1 h2 h3
  exact ⟨_, _, _, (h.payOut_ok rfl (not_not.mp h2) hok).2⟩

/-- A payout leaves every slot that is not in use as it was. -/
theorem Resolved.unused {w w' : HtlcWorld T} {swapId id : Hash} {e : Escrow} {st : EscrowState} {p : Payout}
    (hr : h.Resolved w w' swapId e st p) (hid : (w.slot id).state = .none) :
    w'.slot id = w.slot id := by
  rw [slot_insert hr.swaps, if_neg]
  rintro rfl
  have hlive := hr.live
  rw [← hr.slot, hid] at hlive
  cases hlive

/-- A call that succeeds leaves the parameters of every slot in use as they were. -/
theorem run_keeps {w w' : HtlcWorld T} {call : Call h.self} (hok : h.run w call = .ok w') {id : Hash}
    (hid : (w.slot id).state ≠ .none) :
    ∃ st, st ≠ .none ∧ w'.slot id = { w.slot id with state := st } := by
  have hstep : h.step w ⟨w.now, call⟩ = w' := by
    simp only [step]
    rw [show h.run { w with now := w.now } call = .ok w' from hok]
  have hsame : ∃ st, st ≠ EscrowState.none ∧ w.slot id = { w.slot id with state := st } :=
    ⟨(w.slot id).state, hid, rfl⟩
  -- a payout writes the state of its slot only
  have hresolved : ∀ {swapId e st p}, st ≠ EscrowState.none → h.Resolved w w' swapId e st p →
      ∃ st, st ≠ EscrowState.none ∧ w'.slot id = { w.slot id with state := st } := by
    intro swapId e st p hst hr
    rw [slot_insert hr.swaps]
    by_cases heq : id = swapId
    · subst heq
      exact ⟨st, hst, by rw [if_pos rfl, hr.slot]⟩
    · rw [if_neg heq]
      exact hsame
  obtain ⟨-, ⟨swapId, e, hc⟩ | ⟨swapId, e, secret, hr, -, -⟩ | ⟨swapId, e, hr, -⟩ | ⟨tokenCall, heq⟩ | heq⟩ :=
    h.step_cases w ⟨w.now, call⟩
  · rw [hstep] at hc
    rw [slot_insert hc.swaps, if_neg]
    · exact hsame
    · rintro rfl
      exact hid hc.fresh
  · rw [hstep] at hr
    exact hresolved EscrowState.noConfusion hr
  · rw [hstep] at hr
    exact hresolved EscrowState.noConfusion hr
  · rw [← hstep, heq]
    exact hsame
  · rw [← hstep, heq]
    exact hsame

/-- A slot that raw calldata brings into use is the one the calldata spells out, for the sender the
    escrow sees. -/
theorem dispatch_creates {w w' : HtlcWorld T} {msg : Msg} {value : U256}
    (hd : h.dispatch w msg value = some w') {id : Hash} (hbefore : (w.slot id).state = .none)
    (hafter : (w'.slot id).state ≠ .none) :
    ∃ a, h.decodeNewSwap msg.data = some a ∧
      w'.slot id = ⟨h.msgSender msg, a.receiver, a.amount, a.hashlock, a.timelock, .live⟩ := by
  have hunused : w'.slot id ≠ w.slot id := by
    intro heq
    rw [heq] at hafter
    exact hafter hbefore
  -- a funding call writes one slot, and that is the one
  have hfunding : ∀ {v : HtlcWorld T} {a : NewSwapArgs},
      h.newSwapFrom v (h.msgSender msg) a.receiver a.amount a.hashlock a.timelock = .ok w' →
      v.swaps = w.swaps → w'.slot id = ⟨h.msgSender msg, a.receiver, a.amount, a.hashlock, a.timelock, .live⟩ := by
    intro v a hok hv
    obtain ⟨-, hs⟩ := h.newSwapFrom_writes hok
    rw [hv] at hs
    rw [slot_insert hs] at hunused ⊢
    split_ifs at hunused ⊢
    · rfl
    · exact absurd rfl hunused
  unfold dispatch at hd
  split_ifs at hd with hvalue
  cases hdec : h.decodeCall msg with
  | none =>
    rw [hdec] at hd
    cases hd
  | some found =>
    rw [hdec] at hd
    cases found with
    | none =>
      cases hd
      exact absurd rfl hunused
    | some call =>
      have hok : h.run w call = .ok w' := by
        cases hrun : h.run w call with
        | error err =>
          simp only [hrun] at hd
          cases hd
        | ok w'' =>
          simp only [hrun] at hd
          cases hd
          rfl
      unfold decodeCall at hdec
      split_ifs at hdec with hnew hpermit hwithdraw hrefund
      · simp only [Option.bind_eq_bind, Option.bind_eq_some_iff, Option.pure_def, Option.some.injEq] at hdec
        obtain ⟨a, ha, rfl⟩ := hdec
        refine ⟨a, ?_, hfunding hok rfl⟩
        rw [decodeNewSwap, hnew, Bool.true_or, if_pos rfl, ha]
      · simp only [Option.bind_eq_bind, Option.bind_eq_some_iff, Option.pure_def, Option.some.injEq] at hdec
        obtain ⟨a, ha, sig, -, rfl⟩ := hdec
        refine ⟨a, ?_, hfunding hok rfl⟩
        rw [decodeNewSwap, hpermit, Bool.or_true, if_pos rfl, ha]
      · simp only [Option.bind_eq_bind, Option.bind_eq_some_iff, Option.pure_def, Option.some.injEq] at hdec
        obtain ⟨swapId, -, secret, -, rfl⟩ := hdec
        obtain ⟨e, st, p, hr⟩ := h.withdraw_resolves hok
        exact absurd (hr.unused h hbefore) hunused
      · simp only [Option.bind_eq_bind, Option.bind_eq_some_iff, Option.pure_def, Option.some.injEq] at hdec
        obtain ⟨swapId, -, rfl⟩ := hdec
        obtain ⟨e, st, p, hr⟩ := h.refund_resolves hok
        exact absurd (hr.unused h hbefore) hunused
      · simp only [Option.map_eq_some_iff] at hdec
        obtain ⟨_, -, hview⟩ := hdec
        cases hview

theorem dispatch_keeps {w w' : HtlcWorld T} {msg : Msg} {value : U256}
    (hd : h.dispatch w msg value = some w') {id : Hash} (hid : (w.slot id).state ≠ .none) :
    ∃ st, st ≠ .none ∧ w'.slot id = { w.slot id with state := st } := by
  unfold dispatch at hd
  split_ifs at hd with hvalue
  split at hd
  · cases hd
  · cases hd
    exact ⟨_, hid, rfl⟩
  · rename_i call hdec
    cases hrun : h.run w call with
    | error err =>
      rw [hrun] at hd
      cases hd
    | ok w'' =>
      rw [hrun] at hd
      cases hd
      exact h.run_keeps hrun hid

/-- Behind the trusted forwarder the sender is the address appended to the calldata. -/
theorem msgSender_forwarded {self : EvmAddress} (htrust : h.trustedForwarder = self) (hne : self ≠ zeroAddress)
    (data : Bytes) (a : EvmAddress) : h.msgSender ⟨self, data ++ a.1⟩ = a := by
  have hlen : a.1.length = 20 := a.2
  have hdrop : (data ++ a.1).drop ((data ++ a.1).length - 20) = a.1 := by
    rw [List.length_append, hlen, Nat.add_sub_cancel, List.drop_left]
  rw [msgSender, if_pos ⟨htrust.symm, htrust ▸ hne, by rw [List.length_append]; omega⟩, hdrop,
    ByteArr.ofBytes?_val]
  rfl

end Htlc

/-! ### The forwarder -/

namespace Forwarder

variable (f : Forwarder)

/-- `verify` accepts exactly a request that is in time, next in its signer's order and signed. -/
theorem verify_iff (nonces : EvmAddress → U256) (now : U256) (req : ForwardRequest) (sig : RequestSig) :
    f.verify nonces now req sig = true ↔
      now ≤ req.deadline ∧ req.nonce = nonces req.fromAddr ∧ f.Verified req sig := by
  unfold verify Verified
  by_cases hdead : req.deadline < now
  · simp [hdead, BitVec.not_le.mpr hdead]
  · by_cases hnonce : req.nonce = nonces req.fromAddr
    · simp only [hdead, hnonce, ne_eq, not_true_eq_false, or_self, if_false, Bool.and_eq_true,
        decide_eq_true_eq, BitVec.not_lt.mp hdead, true_and]
      constructor
      · rintro ⟨hz, hs⟩
        exact ⟨hs, hs ▸ hz⟩
      · rintro ⟨hs, hz⟩
        exact ⟨hs.symm ▸ hz, hs⟩
    · simp [hnonce]

/-- The messages hashed for a request. -/
def hashed (req : ForwardRequest) : List Bytes := [req.data, f.structEncoding req, f.digestEncoding req]

/-- The struct encoding spells out every field but the data, and the data by its hash. -/
theorem structEncoding_inj {req req' : ForwardRequest} (h : f.structEncoding req = f.structEncoding req')
    (hdata : f.keccak256 req.data = f.keccak256 req'.data → req.data = req'.data) : req = req' := by
  have hword := length_abiWord
  have haddr := length_abiAddress
  unfold structEncoding at h
  obtain ⟨h, hd⟩ := List.append_inj h (by simp [hword, haddr])
  obtain ⟨h, hdeadline⟩ := List.append_inj h (by simp [hword, haddr])
  obtain ⟨h, hnonce⟩ := List.append_inj h (by simp [hword, haddr])
  obtain ⟨h, hgas⟩ := List.append_inj h (by simp [hword, haddr])
  obtain ⟨h, hvalue⟩ := List.append_inj h (by simp [haddr])
  obtain ⟨h, hto⟩ := List.append_inj h (by simp [haddr])
  have hfrom := List.append_cancel_left h
  obtain ⟨⟩ := req
  obtain ⟨⟩ := req'
  congr
  · exact abiAddress_injective hfrom
  · exact abiAddress_injective hto
  · exact abiWord_injective hvalue
  · exact abiWord_injective hgas
  · exact abiWord_injective hnonce
  · exact abiWord_injective hdeadline
  · exact hdata (Subtype.ext hd)

/-- Where the hash has no collision on what is hashed for two requests, one digest is one request. -/
theorem requestDigest_inj {req req' : ForwardRequest}
    (hinj : Set.InjOn f.keccak256 { b | b ∈ f.hashed req ∨ b ∈ f.hashed req' })
    (h : f.requestDigest req = f.requestDigest req') : req = req' := by
  have hdigest : f.digestEncoding req = f.digestEncoding req' :=
    hinj (.inl (by simp [hashed])) (.inr (by simp [hashed])) h
  have hstruct : f.structEncoding req = f.structEncoding req' := by
    refine hinj (.inl (by simp [hashed])) (.inr (by simp [hashed])) ?_
    exact Subtype.ext (List.append_cancel_left hdigest)
  exact f.structEncoding_inj hstruct fun hd =>
    hinj (.inl (by simp [hashed])) (.inr (by simp [hashed])) hd

end Forwarder

/-! ### Trees of calls -/

namespace Relay

variable {T : Type} (d : Relay T)

/-- An execution that succeeds burnt the nonce of a verified request that was next in its signer's order,
    and kept what the target did if the target succeeded. -/
theorem execute_ok {w w' : ChainWorld T} {req : ForwardRequest} {sig : RequestSig}
    {target : ChainWorld T → Option (ChainWorld T)} {gasLeft : U256} {success : Bool}
    (h : d.execute w req sig target gasLeft = .ok (success, w')) :
    req.nonce = w.nonces req.fromAddr ∧ d.forwarder.Verified req sig ∧ req.nonce ≠ .allOnes 256 ∧
      (target (burn w req) = some w' ∨ target (burn w req) = none ∧ w' = burn w req) := by
  unfold execute at h
  dsimp only at h
  split_ifs at h with h1 h2 h3 h4 h5
  rw [not_or, not_not] at h3
  refine ⟨not_not.mp h2, ⟨h3.2, h3.2 ▸ h3.1⟩, h4, ?_⟩
  cases ht : target (burn w req) with
  | none =>
    rw [ht] at h
    cases h
    exact .inr ⟨rfl, rfl⟩
  | some w'' =>
    rw [ht] at h
    cases h
    exact .inl rfl

/-- A relation between the states before and after code runs, checked where the repository's code writes:
    a direct call of the escrow, the burning of a nonce, and the escrow called for an executed request. -/
structure Rule (R : ChainWorld T → ChainWorld T → Prop) : Prop where
  refl (w : ChainWorld T) : R w w
  trans {w₁ w₂ w₃ : ChainWorld T} : R w₁ w₂ → R w₂ w₃ → R w₁ w₃
  direct {w : ChainWorld T} {call : Htlc.Call d.htlc.self} {htlc : HtlcWorld T} :
    d.htlc.run w.htlc call = .ok htlc → R w { w with htlc }
  burn {w : ChainWorld T} {req : ForwardRequest} {sig : RequestSig} : req.nonce = w.nonces req.fromAddr →
    d.forwarder.Verified req sig → req.nonce ≠ .allOnes 256 → R w (burn w req)
  escrow {w w' : ChainWorld T} {req : ForwardRequest} : req ∈ w.executed → req.dest = d.htlc.self →
    d.callEscrow w req = some w' → R w w'

mutual

/-- The rule of call trees: what holds across every write holds across every act, however it nests. -/
theorem Rule.run {R : ChainWorld T → ChainWorld T → Prop} (hR : d.Rule R) : ∀ (a : Act d) (w : ChainWorld T),
    R w (d.run w a).2
  | .escrow call _, w => by
      unfold Relay.run
      cases hrun : d.htlc.run w.htlc call with
      | error err => exact hR.refl w
      | ok htlc => exact hR.direct hrun
  | .execute req sig target fails gasLeft, w => by
      unfold Relay.run
      dsimp only
      split
      · rename_i success w' he
        obtain ⟨hnonce, hver, hmax, hcall⟩ := d.execute_ok he
        have hburn := hR.burn hnonce hver hmax
        rcases hcall with hcall | ⟨-, rfl⟩
        · -- the target ran on the state with the nonce burnt
          refine hR.trans hburn ?_
          split_ifs at hcall with hfails hdest
          · exact hR.escrow List.mem_cons_self hdest hcall
          · cases hcall
            exact Rule.runAll hR target (Relay.burn w req)
        · exact hburn
      · exact hR.refl w
  | .other body reverts, w => by
      unfold Relay.run
      split
      · exact hR.refl w
      · exact Rule.runAll hR body w

theorem Rule.runAll {R : ChainWorld T → ChainWorld T → Prop} (hR : d.Rule R) :
    ∀ (as : List (Act d)) (w : ChainWorld T), R w (d.runAll w as)
  | [], w => by
      unfold Relay.runAll
      exact hR.refl w
  | a :: as, w => by
      unfold Relay.runAll
      exact hR.trans (Rule.run hR a w) (Rule.runAll hR as (d.run w a).2)

end

/-- The requests of `a` that have been executed, oldest first. -/
def requestsOf (w : ChainWorld T) (a : EvmAddress) : List ForwardRequest :=
  (w.executed.filter fun req => req.fromAddr = a).reverse

/-- The slot is the one `req` spells out for its signer. -/
structure Attributed (e : Escrow) (req : ForwardRequest) : Prop where
  dest : req.dest = d.htlc.self
  inUse : e.state ≠ .none
  sender : e.sender = req.fromAddr
  decodes : d.htlc.decodeNewSwap (req.data ++ e.sender.1) = some ⟨e.receiver, e.amount, e.hashlock, e.timelock⟩

/-- The nonces of a signer number its executed requests, each of which was verified, and every slot that
    came in through the forwarder is attributed to one. -/
structure Inv (w : ChainWorld T) : Prop where
  sequential : ∀ a, (requestsOf w a).map (·.nonce.toNat) = List.range (w.nonces a).toNat
  verified : ∀ req ∈ w.executed, ∃ sig, d.forwarder.Verified req sig
  attributed : ∀ id ∈ w.forwarded, ∃ req ∈ w.executed, d.Attributed (w.htlc.slot id) req

theorem Attributed.keep {e e' : Escrow} {req : ForwardRequest} (ha : d.Attributed e req)
    (hk : ∃ st, st ≠ EscrowState.none ∧ e' = { e with state := st }) : d.Attributed e' req := by
  obtain ⟨st, hst, rfl⟩ := hk
  exact ⟨ha.dest, hst, ha.sender, ha.decodes⟩

/-- Burning a nonce appends the request to those of its signer, under the next number. -/
theorem sequential_burn {w : ChainWorld T} {req : ForwardRequest}
    (hseq : ∀ a, (requestsOf w a).map (·.nonce.toNat) = List.range (w.nonces a).toNat)
    (hnonce : req.nonce = w.nonces req.fromAddr) (hmax : req.nonce ≠ .allOnes 256) (a : EvmAddress) :
    (requestsOf (burn w req) a).map (·.nonce.toNat) = List.range ((burn w req).nonces a).toNat := by
  by_cases ha : a = req.fromAddr
  · subst ha
    have hlt := req.nonce.isLt
    have hne : req.nonce.toNat ≠ 2 ^ 256 - 1 := by
      intro h
      exact hmax (BitVec.eq_of_toNat_eq (by rw [h, BitVec.toNat_allOnes]))
    have hsucc : (req.nonce + 1).toNat = req.nonce.toNat + 1 := by
      rw [BitVec.toNat_add, Nat.mod_eq_of_lt]
      · rfl
      · have hone : (1 : U256).toNat = 1 := rfl
        omega
    have hold := hseq req.fromAddr
    simp only [requestsOf, burn, List.filter_cons_of_pos, decide_true, List.reverse_cons, List.map_append,
      List.map_cons, List.map_nil, if_true, hsucc, List.range_succ] at hold ⊢
    rw [hold, ← hnonce]
  · have hold := hseq a
    simp only [requestsOf, burn, if_neg ha] at hold ⊢
    rw [List.filter_cons_of_neg (by simpa using Ne.symm ha)]
    exact hold

/-- STEP: every write keeps the invariant, and nothing executed is forgotten. -/
theorem inv_rule : d.Rule fun w w' => d.Inv w → d.Inv w' ∧ w.executed <:+ w'.executed where
  refl w hi := ⟨hi, List.suffix_rfl⟩
  trans h h' hi := ⟨(h' (h hi).1).1, (h hi).2.trans (h' (h hi).1).2⟩
  direct := by
    intro w call htlc hrun hi
    refine ⟨⟨hi.sequential, hi.verified, fun id hid => ?_⟩, List.suffix_rfl⟩
    obtain ⟨req, hreq, ha⟩ := hi.attributed id hid
    exact ⟨req, hreq, ha.keep d (d.htlc.run_keeps hrun ha.inUse)⟩
  burn := by
    intro w req sig hnonce hver hmax hi
    refine ⟨⟨sequential_burn hi.sequential hnonce hmax, fun req' hreq' => ?_, fun id hid => ?_⟩,
      List.suffix_cons req w.executed⟩
    · rcases List.mem_cons.mp hreq' with rfl | hold
      · exact ⟨sig, hver⟩
      · exact hi.verified req' hold
    · obtain ⟨req', hreq', ha⟩ := hi.attributed id hid
      exact ⟨req', List.mem_cons_of_mem req hreq', ha⟩
  escrow := by
    intro w w' req hreq hdest hcall hi
    unfold callEscrow at hcall
    split at hcall
    · rename_i htlc hd
      cases hcall
      refine ⟨⟨hi.sequential, hi.verified, fun id hid => ?_⟩, List.suffix_rfl⟩
      rcases List.mem_append.mp hid with hnew | hold
      · obtain ⟨e, hlook, hstates⟩ := (Table.mem_keysWhere _ _ id).mp hnew
        rw [Bool.and_eq_true, decide_eq_true_eq, decide_eq_true_eq] at hstates
        have hslot : htlc.slot id = e := by rw [HtlcWorld.slot, hlook, Option.getD_some]
        obtain ⟨a, hdec, hmade⟩ := d.htlc.dispatch_creates hd hstates.2 (hslot ▸ hstates.1)
        rw [d.htlc.msgSender_forwarded d.trusted d.enabled] at hmade
        refine ⟨req, hreq, hdest, ?_, ?_, ?_⟩ <;> simp only [hmade]
        · exact EscrowState.noConfusion
        · exact hdec
      · obtain ⟨req', hreq', ha⟩ := hi.attributed id hold
        exact ⟨req', hreq', ha.keep d (d.htlc.dispatch_keeps hd ha.inUse)⟩
    · cases hcall

theorem inv_step {w : ChainWorld T} (hi : d.Inv w) (tx : U256 × Act d) :
    d.Inv (d.step w tx) ∧ w.executed <:+ (d.step w tx).executed :=
  d.inv_rule.run d tx.2 { w with htlc := { w.htlc with now := tx.1 } }
    ⟨hi.sequential, hi.verified, hi.attributed⟩

/-- RUN: the invariant holds in every run from deployment, and what is executed stays executed. -/
theorem inv_exec (txs : List (U256 × Act d)) {w : ChainWorld T} (hi : d.Inv w) :
    d.Inv (d.exec w txs) ∧ w.executed <:+ (d.exec w txs).executed := by
  refine Run.exec_preserves d.step (I := fun w' => d.Inv w' ∧ w.executed <:+ w'.executed) ?_ txs w
    ⟨hi, List.suffix_rfl⟩
  rintro w' tx ⟨hi', hsuf⟩
  obtain ⟨hi'', hsuf'⟩ := d.inv_step hi' tx
  exact ⟨hi'', hsuf.trans hsuf'⟩

theorem inv_deployed (t : T) : d.Inv (.deployed t) where
  sequential _ := rfl
  verified := by
    intro req hreq
    cases hreq
  attributed := by
    intro id hid
    cases hid

/-- A signer's nonce is the number of its executed requests. -/
theorem Inv.nonce_eq_count {w : ChainWorld T} (hi : d.Inv w) (a : EvmAddress) :
    (w.nonces a).toNat = w.executed.countP (·.fromAddr = a) := by
  have hlen := congrArg List.length (hi.sequential a)
  rw [List.length_map, List.length_range, requestsOf, List.length_reverse, ← List.countP_eq_length_filter]
    at hlen
  exact hlen.symm

/-- No pair of signer and nonce is executed twice. -/
theorem Inv.nodup {w : ChainWorld T} (hi : d.Inv w) :
    (w.executed.map fun req => (req.fromAddr, req.nonce)).Nodup := by
  rw [List.Nodup, List.pairwise_map, List.pairwise_iff_forall_sublist]
  intro req req' hsub heq
  rw [Prod.mk.injEq] at heq
  -- both requests are of one signer, and its nonces are numbered without repetition
  have hnodup : (((w.executed.filter fun r => r.fromAddr = req.fromAddr)).map (·.nonce.toNat)).Nodup := by
    have hrange := congrArg List.reverse (hi.sequential req.fromAddr)
    rw [requestsOf, ← List.map_reverse, List.reverse_reverse] at hrange
    rw [hrange, List.nodup_reverse]
    exact List.nodup_range
  have hpair := (hsub.filter fun r => decide (r.fromAddr = req.fromAddr)).map (·.nonce.toNat)
  rw [List.filter_cons_of_pos (by simp), List.filter_cons_of_pos (by simp [heq.1]), List.filter_nil] at hpair
  have htwo := hnodup.sublist hpair
  simp [heq.2] at htwo

/-- Nobody forges: a signature that recovers to the `from` of a request was made by it, over a request of
    that digest. -/
def Unforgeable (signed : EvmAddress → ForwardRequest → Prop) : Prop :=
  ∀ req sig, d.forwarder.Verified req sig →
    ∃ req', signed req.fromAddr req' ∧ d.forwarder.requestDigest req' = d.forwarder.requestDigest req

/-- The hash has no collision on what is hashed for the requests that were signed or executed. -/
def CollisionFree (signed : EvmAddress → ForwardRequest → Prop) (executed : List ForwardRequest) : Prop :=
  Set.InjOn d.forwarder.keccak256
    { b | ∃ req, (req ∈ executed ∨ ∃ a, signed a req) ∧ b ∈ d.forwarder.hashed req }

/-- CORRECT: in every run of transactions, however their calls nest and revert, a signer's nonce counts its
    executed requests, which come in the order of their nonces, none of them twice; and every slot that came
    in through the forwarder has for its sender an address that signed a request to the escrow whose data,
    with the sender appended, spells the slot out. -/
theorem forwarded_authenticated (signed : EvmAddress → ForwardRequest → Prop) (hunf : d.Unforgeable signed)
    (t : T) (txs : List (U256 × Act d))
    (hcf : d.CollisionFree signed (d.exec (.deployed t) txs).executed) :
    (∀ a, (requestsOf (d.exec (.deployed t) txs) a).map (·.nonce.toNat) =
      List.range ((d.exec (.deployed t) txs).nonces a).toNat) ∧
    (∀ later, ∃ new, (d.exec (d.exec (.deployed t) txs) later).executed =
        new ++ (d.exec (.deployed t) txs).executed ∧
      ∀ a, ((d.exec (d.exec (.deployed t) txs) later).nonces a).toNat =
        ((d.exec (.deployed t) txs).nonces a).toNat + new.countP (·.fromAddr = a)) ∧
    ((d.exec (.deployed t) txs).executed.map fun req => (req.fromAddr, req.nonce)).Nodup ∧
    ∀ id ∈ (d.exec (.deployed t) txs).forwarded, ∃ req,
      signed ((d.exec (.deployed t) txs).htlc.slot id).sender req ∧
      d.Attributed ((d.exec (.deployed t) txs).htlc.slot id) req := by
  have hi := (d.inv_exec txs (d.inv_deployed t)).1
  generalize d.exec (.deployed t) txs = w at hi hcf
  refine ⟨hi.sequential, fun later => ?_, hi.nodup, fun id hid => ?_⟩
  · obtain ⟨hi', new, hnew⟩ := d.inv_exec later hi
    refine ⟨new, hnew.symm, fun a => ?_⟩
    rw [hi'.nonce_eq_count, hi.nonce_eq_count, ← hnew, List.countP_append, Nat.add_comm]
  · obtain ⟨req, hreq, ha⟩ := hi.attributed id hid
    obtain ⟨sig, hver⟩ := hi.verified req hreq
    obtain ⟨req', hsigned, hdigest⟩ := hunf req sig hver
    have hsame : req' = req := by
      refine d.forwarder.requestDigest_inj (hcf.mono ?_) hdigest
      rintro b (hb | hb)
      · exact ⟨req', .inr ⟨_, hsigned⟩, hb⟩
      · exact ⟨req, .inl hreq, hb⟩
    rw [hsame] at hsigned
    exact ⟨req, ha.sender ▸ hsigned, ha⟩

end Relay

/-! ### A sample request

    The sample funder asks for 0.1 USDC to be escrowed until 1 005 000; the hashes are those of
    Keccak-256, the signature is its key's. -/

namespace Sample

def forwarderAddress : EvmAddress := ByteArr.fill 20 0xF0

def relayData : Bytes :=
  [0xe6, 0xe3, 0x94, 0x91] ++ abiAddress claimAddress ++ abiWord 100000 ++ hashlock.1 ++ abiWord 1005000

def relayRequest : ForwardRequest :=
  ⟨funderAddress, escrowAddress, 0, 300000, 0, 1001000, relayData⟩

def relayDigest : Hash := word32 0xe55ed78eb5dc5e3c3b04a343b7201e485da6ba64af61087f31fce01490d97f1f

def relaySig : RequestSig :=
  ⟨28, word32 0x9575224280e370790ea77dac42de13cb8f0f7936184fd3f01711212e1b57b1cf,
    word32 0x34677f49f6e05eab5167fcbac5e6a926165a7fe3b00ba591c75ccd9384716702⟩

def requestTypehash : Hash := word32 0xca55ce0307ac53917d02c1387bc157c21729fef42093fa6ec5e3cb506dd1fa82

def domainTypehash : Hash := word32 0x8b73c3c69bb8fe3d512ecc4cf759cc79239f7b179b0ffacaa9a75d522b39400f

def nameHash : Hash := word32 0x2ce720abf02d6360a0f2d7fec50ae32b106b6d458787a628fe1be74834570b4d

def versionHash : Hash := word32 0xc89efdaa54c0f20c7adf612882df0950f5a951637e0307cdcb4c672f298b8bc6

def domainSeparator : Hash := word32 0x7983820435d1156ebf2e79fdfac07cb841101474d329a0b1766499ea7200ed9e

def dataHash : Hash := word32 0xeeb3aea64fbdf17dd04aa4c12f2ebca1e366d42dbdeb4083e6e7a1bd47471b91

def structHash : Hash := word32 0xd0cf6524e36f89b53921e6090f313f78945daa5f9cf3afa155d08715b1351c5d

/-- Keccak-256 on the inputs of the sample request. -/
def relayKeccak (b : Bytes) : Hash :=
  if b = asciiBytes
    "ForwardRequest(address from,address to,uint256 value,uint256 gas,uint256 nonce,uint256 deadline,bytes data)"
  then requestTypehash
  else if b = asciiBytes
    "EIP712Domain(string name,string version,uint256 chainId,address verifyingContract)" then domainTypehash
  else if b = asciiBytes "NimmeshForwarder" then nameHash
  else if b = asciiBytes "1" then versionHash
  else if b = domainTypehash.1 ++ nameHash.1 ++ versionHash.1 ++ abiWord 80002 ++ abiAddress forwarderAddress
  then domainSeparator
  else if b = relayData then dataHash
  else if b = requestTypehash.1 ++ abiAddress funderAddress ++ abiAddress escrowAddress ++ abiWord 0 ++
    abiWord 300000 ++ abiWord 0 ++ abiWord 1001000 ++ dataHash.1 then structHash
  else if b = [0x19, 0x01] ++ domainSeparator.1 ++ structHash.1 then relayDigest
  else keccak256 b

def relay : Relay MockUsdc where
  htlc :=
    { self := escrowAddress
      token := MockUsdc.erc20 fun _ _ _ _ _ => none
      trustedForwarder := forwarderAddress
      sha256 b := if b = secret.1 then hashlock else ByteArr.fill 32 0
      keccak256 := relayKeccak }
  forwarder :=
    { self := forwarderAddress
      chainId := 80002
      keccak256 := relayKeccak
      ecrecover digest sig := if digest = relayDigest ∧ sig = relaySig then funderAddress else zeroAddress }
  trusted := rfl
  enabled := by decide

/-- The funder has one USDC and has approved the escrow for it. -/
def relayUsdc : MockUsdc where
  balanceOf a := if a = funderAddress then 1000000 else 0
  allowance o s := if o = funderAddress ∧ s = escrowAddress then 1000000 else 0
  nonces _ := 0

/-- A relayer's contract submits the request, then the same request again. -/
def relayTxs : List (U256 × Relay.Act relay) :=
  [(1000000, .other [.execute relayRequest relaySig [] false 200000,
    .execute relayRequest relaySig [] false 200000] false)]

end Sample

namespace Relay

/-- The sample slot belongs to the funder, who signed the request for it; the replay was refused. -/
theorem sample_forwarded_authenticated :
    ∃ req, ((Sample.relay.exec (.deployed Sample.relayUsdc) Sample.relayTxs).htlc.slot
        Sample.escrowSlot).sender = Sample.funderAddress ∧ req = Sample.relayRequest ∧
      Sample.relay.Attributed ((Sample.relay.exec (.deployed Sample.relayUsdc) Sample.relayTxs).htlc.slot
        Sample.escrowSlot) req ∧
      ((Sample.relay.exec (.deployed Sample.relayUsdc) Sample.relayTxs).nonces
        Sample.funderAddress).toNat = 1 := by
  obtain ⟨hdigest, hexec, hslot, hnonce, hpairs⟩ :
      Sample.relay.forwarder.requestDigest Sample.relayRequest = Sample.relayDigest ∧
      (Sample.relay.exec (.deployed Sample.relayUsdc) Sample.relayTxs).executed = [Sample.relayRequest] ∧
      (Sample.relay.exec (.deployed Sample.relayUsdc) Sample.relayTxs).forwarded = [Sample.escrowSlot] ∧
      ((Sample.relay.exec (.deployed Sample.relayUsdc) Sample.relayTxs).nonces
        Sample.funderAddress).toNat = 1 ∧
      ∀ b ∈ Sample.relay.forwarder.hashed Sample.relayRequest,
        ∀ b' ∈ Sample.relay.forwarder.hashed Sample.relayRequest,
        Sample.relayKeccak b = Sample.relayKeccak b' → b = b' := by decide +kernel
  -- the funder signed this one request, and only its signature recovers to anybody
  have hunf : Sample.relay.Unforgeable fun a req => a = Sample.funderAddress ∧ req = Sample.relayRequest := by
    rintro req sig ⟨hrec, hne⟩
    have hread : ∀ digest, Sample.relay.forwarder.ecrecover digest sig =
        if digest = Sample.relayDigest ∧ sig = Sample.relaySig then Sample.funderAddress
        else zeroAddress := fun _ => rfl
    rw [hread] at hrec
    split_ifs at hrec with hsig
    · exact ⟨Sample.relayRequest, ⟨hrec.symm, rfl⟩, by rw [hdigest, hsig.1]⟩
    · exact absurd hrec.symm hne
  have hcf : Sample.relay.CollisionFree (fun a req => a = Sample.funderAddress ∧ req = Sample.relayRequest)
      (Sample.relay.exec (.deployed Sample.relayUsdc) Sample.relayTxs).executed := by
    have hmem : ∀ b, (∃ req, (req ∈ [Sample.relayRequest] ∨
        ∃ a, a = Sample.funderAddress ∧ req = Sample.relayRequest) ∧
        b ∈ Sample.relay.forwarder.hashed req) → b ∈ Sample.relay.forwarder.hashed Sample.relayRequest := by
      rintro b ⟨req, hreq | ⟨-, -, rfl⟩, hb⟩
      · rwa [← List.mem_singleton.mp hreq]
      · exact hb
    rw [CollisionFree, hexec]
    exact fun b hb b' hb' heq => hpairs b (hmem b hb) b' (hmem b' hb') heq
  obtain ⟨-, -, -, hslots⟩ := Sample.relay.forwarded_authenticated _ hunf Sample.relayUsdc Sample.relayTxs hcf
  obtain ⟨req, ⟨hsender, hreq⟩, ha⟩ := hslots Sample.escrowSlot (by rw [hslot]; exact List.mem_singleton_self _)
  exact ⟨req, hsender, hreq, ha, hnonce⟩

end Relay

end Nimmesh
