import Nimmesh.Live.PerSwap

/-! @src swap_live_ffi_live_impl.rs live_swap_signer.rs | name:One escrow a participant | layer:properties

    The one-shot latch over the two live signers, with what really happens on the chain beside what the
    signer is told: `lands` says of each call which handed transactions become live, whatever the node
    answered. The latch closes on a funding that is handed back, so it holds as long as a funding that
    lands is one that is seen to land. -/

namespace Nimmesh

/-- The latch, and the fundings that became live. -/
structure Latch (β : Type) where
  fired : Bool := false
  live : List β := []

namespace Latch

variable {α β : Type} [DecidableEq β]

/-- One call behind the latch: what it handed back and what landed of it. -/
def step (l : Latch β) (result : Option α) (landed : Option β) : Latch β :=
  if l.fired then l else ⟨result.isSome, landed.elim l.live l.live.insert⟩

/-- At most one funding is live, and none before the latch closes. -/
def Inv (l : Latch β) : Prop := l.live.length ≤ 1 ∧ (l.fired = false → l.live = [])

theorem Inv.step {l : Latch β} (h : l.Inv) {result : Option α} {landed : Option β}
    (hseen : landed.isSome → result.isSome) : (l.step result landed).Inv := by
  rcases l with ⟨fired, live⟩
  cases fired with
  | true => exact h
  | false =>
    obtain rfl : live = [] := h.2 rfl
    cases landed with
    | none => exact ⟨Nat.zero_le _, fun _ => rfl⟩
    | some b =>
      refine ⟨?_, fun hf => ?_⟩
      · simp [Latch.step]
      · have hsome := hseen rfl
        simp only [Latch.step] at hf
        rw [if_neg Bool.false_ne_true] at hf
        rw [hsome] at hf
        cases hf

end Latch

/-! ### The responder -/

structure OneShotResponder where
  signer : ResponderState := {}
  latch : Latch LandedFunding := {}

/-- One `build_funding` call, with the handed transactions that the chain makes live. -/
structure FundCall where
  ctx : SwapContext
  leg : SwapLegId
  rpc : AmoyRpc
  nowS : UInt64
  lands : Bytes → Bool

inductive OneShotCall (φ : Type) where
  | notePeer (swapId : SwapId) (peer : PeerAddressing)
  | buildFunding (call : φ)

namespace OneShotResponder

variable (cfg : LiveResponder)

/-- What the wrapped signer did in a call, with the funding that landed of it. -/
def inner (s : OneShotResponder) (c : FundCall) : FundOutcome × Option LandedFunding :=
  let o := cfg.buildFunding c.rpc c.nowS s.signer.book s.signer.last c.ctx c.leg
  (o, o.handed.filter fun f => c.lands f.wire)

/-- `OneShotSigner::build_funding`. -/
def answer (s : OneShotResponder) (c : FundCall) : Option (Bytes × Hash) :=
  oneShot s.latch.fired (s.inner cfg c).1.result

def step (s : OneShotResponder) : OneShotCall FundCall → OneShotResponder
  | .notePeer swapId peer => { s with signer := cfg.step s.signer (.notePeer swapId peer) }
  | .buildFunding c =>
    { signer := if s.latch.fired then s.signer
        else cfg.step s.signer (.buildFunding c.ctx c.leg c.rpc c.nowS)
      latch := s.latch.step (s.inner cfg c).1.result (s.inner cfg c).2 }

/-- The funding that became live in a call, if one did. -/
def landed (s : OneShotResponder) (c : FundCall) : Option LandedFunding :=
  if s.latch.fired then none else (s.inner cfg c).2

/-- Every transaction that lands was accepted by the node, or known to it, and its successful receipt
    came within the poll. -/
def Seen (_ : OneShotResponder) : OneShotCall FundCall → Prop
  | .notePeer _ _ => True
  | .buildFunding c => ∀ raw, c.lands raw = true → cfg.landsSeen c.rpc raw = true

/-- A funding that lands in a call is handed back by it. -/
theorem landed_answered {s : OneShotResponder} {c : FundCall} (hseen : Seen cfg s (.buildFunding c))
    {f : LandedFunding} (h : (s.inner cfg c).2 = some f) :
    (s.inner cfg c).1.result = some (f.wire, f.txId) := by
  obtain ⟨hhanded, hlands⟩ := Option.filter_eq_some_iff.mp h
  have hs := hseen f.wire hlands
  rcases c with ⟨ctx, leg, rpc, nowS, lands⟩
  cases leg with
  | nim => cases hhanded
  | counterparty =>
    simp only [inner, LiveResponder.buildFunding] at hhanded ⊢
    obtain ⟨tx, -, he⟩ | ⟨-, ⟨plan, -, he⟩ | ⟨plan, hn, he⟩ | he⟩ :=
      cfg.fundUsdc_cases rpc nowS s.signer.book s.signer.last ctx
    · rw [he] at hhanded
      cases hhanded
    · rw [he] at hhanded ⊢
      cases hhanded
      rfl
    · rw [he] at hhanded
      cases hhanded
      rw [hn] at hs
      cases hs
    · rw [he] at hhanded
      cases hhanded

theorem step_inv {s : OneShotResponder} (h : s.latch.Inv) {call : OneShotCall FundCall}
    (hseen : Seen cfg s call) : (s.step cfg call).latch.Inv := by
  cases call with
  | notePeer swapId peer => exact h
  | buildFunding c =>
    refine h.step fun hl => ?_
    obtain ⟨f, hf⟩ := Option.isSome_iff_exists.mp hl
    rw [landed_answered cfg hseen hf]
    rfl

/-- A funding that lands behind a `None` is not remembered: the next call goes as if it were not there. -/
theorem forgets_unseen {s : OneShotResponder} {c : FundCall} (h : (s.landed cfg c).isSome)
    (hnone : s.answer cfg c = none) (next : FundCall) :
    (s.step cfg (.buildFunding c)).answer cfg next = s.answer cfg next := by
  have hopen : s.latch.fired = false := by
    rw [← Bool.not_eq_true]
    intro hfired
    rw [landed, if_pos hfired] at h
    cases h
  have hresult : (s.inner cfg c).1.result = none := by
    rwa [answer, oneShot, hopen, if_neg Bool.false_ne_true] at hnone
  have hlast : (s.inner cfg c).1.last = s.signer.last := by
    rcases c with ⟨ctx, leg, rpc, nowS, lands⟩
    cases leg with
    | nim => rfl
    | counterparty =>
      simp only [inner, LiveResponder.buildFunding] at hresult ⊢
      obtain ⟨tx, -, he⟩ | ⟨-, ⟨plan, -, he⟩ | ⟨plan, -, he⟩ | he⟩ :=
        cfg.fundUsdc_cases rpc nowS s.signer.book s.signer.last ctx
      · rw [he]
      · rw [he] at hresult
        cases hresult
      · rw [he]
      · rw [he]
  have hsigner : cfg.step s.signer (.buildFunding c.ctx c.leg c.rpc c.nowS) = s.signer := by
    have hsame : (cfg.buildFunding c.rpc c.nowS s.signer.book s.signer.last c.ctx c.leg).result = none := hresult
    have hkept : (cfg.buildFunding c.rpc c.nowS s.signer.book s.signer.last c.ctx c.leg).last = s.signer.last := hlast
    simp only [LiveResponder.step, hsame, hkept, Option.isSome_none, Bool.false_and, Bool.false_eq_true, if_false]
  simp only [answer, step, inner, Latch.step, hopen, Bool.false_eq_true, if_false, hsigner]
  rw [show (cfg.buildFunding c.rpc c.nowS s.signer.book s.signer.last c.ctx c.leg).result = none from hresult]
  rfl

end OneShotResponder

/-! ### The initiator -/

structure OneShotInitiator where
  book : PeerBook := ∅
  locks : List NimLock := []
  latch : Latch HtlcCreation := {}

/-- One `build_funding` call, with the handed creations that the chain makes live. -/
structure NimFundCall where
  ctx : SwapContext
  leg : SwapLegId
  rpc : NimRpc
  nowMs : UInt64
  lands : HtlcCreation → Bool

namespace OneShotInitiator

variable (cfg : LiveInitiator)

/-- What the wrapped signer did in a call, with the creation that landed of it. -/
def inner (s : OneShotInitiator) (c : NimFundCall) :
    Option (Bytes × Hash) × Option (HtlcCreation × Bytes) × Option HtlcCreation :=
  let o := cfg.buildFunding c.rpc c.nowMs s.book c.ctx c.leg
  (o.1, o.2, (o.2.map Prod.fst).filter c.lands)

/-- `OneShotSigner::build_funding` over the recorder. -/
def answer (s : OneShotInitiator) (c : NimFundCall) : Option (Bytes × Hash) :=
  oneShot s.latch.fired (s.inner cfg c).1

def step (s : OneShotInitiator) : OneShotCall NimFundCall → OneShotInitiator
  | .notePeer swapId peer => { s with book := s.book.note swapId peer }
  | .buildFunding c =>
    { s with
      locks := if s.latch.fired then s.locks
        else lockRecording cfg.crypto.blake2b s.locks c.leg (s.inner cfg c).1
      latch := s.latch.step (s.inner cfg c).1 (s.inner cfg c).2.2 }

/-- The creation that became live in a call, if one did. -/
def landed (s : OneShotInitiator) (c : NimFundCall) : Option HtlcCreation :=
  if s.latch.fired then none else (s.inner cfg c).2.2

/-- Every creation that lands was accepted by the node, or known to it. -/
def Seen (_ : OneShotInitiator) : OneShotCall NimFundCall → Prop
  | .notePeer _ _ => True
  | .buildFunding c => ∀ creation wire, cfg.creationWire creation = some wire → c.lands creation = true →
      broadcastNim c.rpc wire (creation.txHash cfg.crypto.blake2b) = true

/-- A creation that lands in a call is handed back by it. -/
theorem landed_answered {s : OneShotInitiator} {c : NimFundCall} (hseen : Seen cfg s (.buildFunding c))
    {creation : HtlcCreation} (h : (s.inner cfg c).2.2 = some creation) :
    ∃ wire, cfg.creationWire creation = some wire ∧
      (s.inner cfg c).1 = some (wire, creation.txHash cfg.crypto.blake2b) := by
  obtain ⟨hhanded, hlands⟩ := Option.filter_eq_some_iff.mp h
  rcases c with ⟨ctx, leg, rpc, nowMs, lands⟩
  cases leg with
  | counterparty => cases hhanded
  | nim =>
    simp only [inner, LiveInitiator.buildFunding, LiveInitiator.fundNim] at hhanded ⊢
    cases hc : cfg.nimCreation rpc nowMs s.book ctx with
    | none =>
      simp only [hc] at hhanded
      cases hhanded
    | some c =>
      cases hw : cfg.creationWire c with
      | none =>
        simp only [hc, hw] at hhanded
        cases hhanded
      | some wire =>
        have hmine : creation = c := by
          simp only [hc, hw] at hhanded
          split_ifs at hhanded <;> exact (Option.some.inj hhanded).symm
        subst hmine
        have hb := hseen creation wire hw hlands
        refine ⟨wire, hw, ?_⟩
        simp only [hw, hb, if_true]

theorem step_inv {s : OneShotInitiator} (h : s.latch.Inv) {call : OneShotCall NimFundCall}
    (hseen : Seen cfg s call) : (s.step cfg call).latch.Inv := by
  cases call with
  | notePeer swapId peer => exact h
  | buildFunding c =>
    refine h.step fun hl => ?_
    obtain ⟨creation, hf⟩ := Option.isSome_iff_exists.mp hl
    obtain ⟨wire, -, ha⟩ := landed_answered cfg hseen hf
    rw [ha]
    rfl

/-- A creation that lands behind a `None` is not remembered either. -/
theorem forgets_unseen {s : OneShotInitiator} {c : NimFundCall} (h : (s.landed cfg c).isSome)
    (hnone : s.answer cfg c = none) (next : NimFundCall) :
    (s.step cfg (.buildFunding c)).answer cfg next = s.answer cfg next := by
  have hopen : s.latch.fired = false := by
    rw [← Bool.not_eq_true]
    intro hfired
    rw [landed, if_pos hfired] at h
    cases h
  have hresult : (s.inner cfg c).1 = none := by
    rwa [answer, oneShot, hopen, if_neg Bool.false_ne_true] at hnone
  simp only [answer, step, Latch.step, hopen, hresult, Bool.false_eq_true, if_false]
  rfl

end OneShotInitiator

/-- CORRECT: in every sequence of calls in which each funding that lands is seen to land, at most one
    funding of the participant ever becomes live, and none lands behind a `None`. One that does land behind
    a `None` is not replayed: the next call goes as if it were not there. -/
theorem one_escrow_per_participant (responder : LiveResponder) (initiator : LiveInitiator) :
    ((∀ calls, Run.Along (OneShotResponder.step responder) (OneShotResponder.Seen responder) {} calls →
        (Run.exec (OneShotResponder.step responder) {} calls).latch.live.length ≤ 1) ∧
     (∀ pre c, Run.Along (OneShotResponder.step responder) (OneShotResponder.Seen responder) {}
        (pre ++ [.buildFunding c]) →
      let s := Run.exec (OneShotResponder.step responder) {} pre
      ∀ f, s.landed responder c = some f → s.answer responder c = some (f.wire, f.txId)) ∧
     ∀ pre c, let s := Run.exec (OneShotResponder.step responder) {} pre
      (s.landed responder c).isSome → s.answer responder c = none →
        ∀ next, (s.step responder (.buildFunding c)).answer responder next = s.answer responder next) ∧
    (∀ calls, Run.Along (OneShotInitiator.step initiator) (OneShotInitiator.Seen initiator) {} calls →
        (Run.exec (OneShotInitiator.step initiator) {} calls).latch.live.length ≤ 1) ∧
     (∀ pre c, Run.Along (OneShotInitiator.step initiator) (OneShotInitiator.Seen initiator) {}
        (pre ++ [.buildFunding c]) →
      let s := Run.exec (OneShotInitiator.step initiator) {} pre
      ∀ creation, s.landed initiator c = some creation → ∃ wire, initiator.creationWire creation = some wire ∧
        s.answer initiator c = some (wire, creation.txHash initiator.crypto.blake2b)) ∧
     ∀ pre c, let s := Run.exec (OneShotInitiator.step initiator) {} pre
      (s.landed initiator c).isSome → s.answer initiator c = none →
        ∀ next, (s.step initiator (.buildFunding c)).answer initiator next = s.answer initiator next := by
  have hstart : ∀ {β : Type} [DecidableEq β], (({} : Latch β)).Inv := ⟨Nat.zero_le _, fun _ => rfl⟩
  refine ⟨⟨fun calls ha => ?_, fun pre c ha f hf => ?_,
      fun pre c hf hnone => OneShotResponder.forgets_unseen responder hf hnone⟩,
    fun calls ha => ?_, fun pre c ha creation hf => ?_,
    fun pre c hf hnone => OneShotInitiator.forgets_unseen initiator hf hnone⟩
  · exact (Run.exec_invariant (I := fun s => s.latch.Inv) (OneShotResponder.step responder)
      (fun _ _ h hs => OneShotResponder.step_inv responder h hs) calls {} hstart ha).1
  · have hseen := ((Run.along_append _ _ _ _ _).mp ha).2.1
    rw [OneShotResponder.landed] at hf
    split_ifs at hf with hfired
    rw [OneShotResponder.answer, oneShot, if_neg hfired]
    exact OneShotResponder.landed_answered responder hseen hf
  · exact (Run.exec_invariant (I := fun s => s.latch.Inv) (OneShotInitiator.step initiator)
      (fun _ _ h hs => OneShotInitiator.step_inv initiator h hs) calls {} hstart ha).1
  · have hseen := ((Run.along_append _ _ _ _ _).mp ha).2.1
    rw [OneShotInitiator.landed] at hf
    split_ifs at hf with hfired
    rw [OneShotInitiator.answer, oneShot, if_neg hfired]
    exact OneShotInitiator.landed_answered initiator hseen hf

namespace Sample

/-- The first `newSwap` is accepted and lands, but its receipt does not come within the poll. -/
def slowReceipt : AmoyRpc :=
  { amoy 0 fun _ => none with polled := fun h _ => if h = firstFunding.2 then none else some ⟨true, 100⟩ }

/-- A funding call for the sample swap in which everything that is handed over lands. -/
def fundAt (rpc : AmoyRpc) (nowS : UInt64) : OneShotCall FundCall :=
  .buildFunding ⟨fundingContext, .counterparty, rpc, nowS, fun _ => true⟩

end Sample

/-- A seen funding closes the latch: the retry escrows nothing. -/
theorem sample_one_escrow :
    let calls := [.notePeer Sample.swapId Sample.initiatorPeer, Sample.fundAt (Sample.amoy 0 fun _ => none) 1000000,
      Sample.fundAt (Sample.amoy 2 fun _ => none) 1000200]
    (Run.exec (OneShotResponder.step Sample.usdcSigner) {} calls).latch.live.map (·.swapId) =
      [Sample.escrowSlot] ∧
    (Run.exec (OneShotResponder.step Sample.usdcSigner) {} calls).latch.live.length ≤ 1 := by
  have hseen : ∀ nonce s nowS, OneShotResponder.Seen Sample.usdcSigner s
      (Sample.fundAt (Sample.amoy nonce fun _ => none) nowS) := by
    intro nonce s nowS raw _
    rfl
  exact ⟨by decide +kernel,
    (one_escrow_per_participant Sample.usdcSigner Sample.claimSigner).1.1 _
      ⟨trivial, hseen 0 _ _, hseen 2 _ _, trivial⟩⟩

/-- The first funding lands behind a receipt that comes too late; the retry escrows a second slot. -/
theorem late_receipt_escrows_twice :
    ¬ (Run.exec (OneShotResponder.step Sample.usdcSigner) {}
      [.notePeer Sample.swapId Sample.initiatorPeer, Sample.fundAt Sample.slowReceipt 1000000,
       Sample.fundAt (Sample.amoy 2 fun _ => none) 1000200]).latch.live.length ≤ 1 := by
  decide +kernel

end Nimmesh
