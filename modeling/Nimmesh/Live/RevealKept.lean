import Nimmesh.Live.VerifiedEscrow
import Nimmesh.Swap.Settlement

/-! @src live_swap_signer.rs swap_node.rs swap.rs swap_session.rs | name:A broadcast reveal | layer:properties

    Once a withdraw is on its way the secret is public, whatever the signer answers. The claim is carried
    through if the signer saw the withdraw mined in the very call that sent it, the escrow it looks at is
    still the one it withdrew, and neither the refund tick nor the reveal window of the driver comes in
    between: the window and the tick do not know that the secret is out. -/

namespace Nimmesh

/-- The transaction is accepted and its successful receipt is seen within the poll. -/
def LiveInitiator.landsSeen (cfg : LiveInitiator) (rpc : AmoyRpc) (raw : Bytes) : Bool :=
  match sendEvmTx cfg.crypto.keccak256 rpc raw with
  | none => false
  | some (_, hash) => (waitReceipt cfg.attempts rpc hash).any (·.success)

/-- A withdraw that an initiator's claim call put on the network. -/
structure Withdraw where
  swapId : SwapId
  ctx : SwapContext
  secret : Hash
  escrow : Hash
  raw : Bytes
  deriving DecidableEq

namespace LiveInitiatorNode

variable (node : LiveInitiatorNode) (ch : InitiatorChains) (took : List Event → Bytes → Prop)

/-- The hash of a withdraw. -/
def txHash (w : Withdraw) : Hash := node.signer.crypto.keccak256 w.raw

/-- The claim that the signer remembers and hands back for a withdraw. -/
def claimOf (w : Withdraw) : Bytes × Hash := (w.secret.1 ++ w.raw, node.txHash w)

/-- The `PreimageReveal` that carries it. -/
def revealOf (w : Withdraw) : SwapEnvelope :=
  txEnvelope w.swapId .counterparty (node.claimOf w).1 (node.claimOf w).2

/-- The event is a claim call after `old` whose withdraw the network took, whatever it was answered. -/
def Broadcasts (old : List Event) (ev : Event) (w : Withdraw) : Prop :=
  (∃ head answer, ev = .builtClaim w.swapId .initiator w.ctx w.secret head answer) ∧
  node.recorded ch old w.ctx.hashlock = some w.escrow ∧
  node.handed ch old w.ctx w.secret = some w.raw ∧ took old w.raw

def BroadcastIn (tr : List Event) (w : Withdraw) : Prop :=
  ∃ newer ev old, tr = newer ++ ev :: old ∧ node.Broadcasts ch took old ev w

/-- What the chain answers to a call is in order: a withdraw that the network takes is seen mined in
    its call, and after it no observation is shown another escrow under its hashlock. -/
def EventInOrder (old : List Event) : Event → Prop
  | .builtClaim _ .initiator ctx secret _ _ => ∀ raw, node.handed ch old ctx secret = some raw →
      took old raw → node.signer.landsSeen (ch.amoy old) raw = true
  | .observed _ expect _ => ∀ w, node.BroadcastIn ch took old w → expect.hashlock = w.ctx.hashlock →
      ∀ shown, node.Shows ch old expect shown → shown.swapId = w.escrow
  | _ => True

def InOrder (tr : List Event) : Prop :=
  ∀ newer ev old, tr = newer ++ ev :: old → node.EventInOrder ch took old ev

/-- No tick past `T_A` finds a swap `BothFunded` whose withdraw is out. -/
def TicksInTime (s : Session) (op : Op) : Prop :=
  ∀ head, op = .tick head → ∀ w, node.BroadcastIn ch took s.trace w → ∀ c,
    s.coordinators.lookup w.swapId = some c → c.role = .initiator → c.phase = .bothFunded →
    head ≤ c.ctx.terms.nimTimeout

/-- The call drives the swap and floods the reveal of its withdraw. -/
def FloodsReveal (env : Env) (s : Session) (op : Op) (w : Withdraw) : Prop :=
  ∃ head s₁ payload, Session.Drives env s op w.swapId head s₁ ∧
    encodeSwap (node.revealOf w) = .ok payload ∧
    (.swapPreimageReveal, payload) ∈ (s₁.drivePhaseAction env w.swapId head).1

/-- A call of the run flooded the reveal of the withdraw. -/
def Flooded (env : Env) (s₀ : Session) (ops : List Op) (w : Withdraw) : Prop :=
  ∃ pre op post, ops = pre ++ op :: post ∧ node.FloodsReveal env (s₀.exec env pre) op w

variable {node ch took}

theorem BroadcastIn.grow {old : List Event} {w : Withdraw} (h : node.BroadcastIn ch took old w)
    (new : List Event) : node.BroadcastIn ch took (new ++ old) w := by
  obtain ⟨newer, ev, below, rfl, hb⟩ := h
  exact ⟨new ++ newer, ev, below, by simp, hb⟩

/-! ### What the signer remembers -/

/-- What is handed back is remembered. -/
theorem claimUsdc_remembered (rpc : AmoyRpc) (found : Hash → Option Hash) (last : Option (Bytes × Hash))
    (ctx : SwapContext) (secret : Hash) {tx : Bytes × Hash}
    (h : (claimUsdc (node.signer.claimRpc rpc found) last ctx secret).1 = some tx) :
    (claimUsdc (node.signer.claimRpc rpc found) last ctx secret).2 = some tx := by
  obtain ⟨hlast, hans⟩ | ⟨-, escrow, claim, -, -, hclaim, hans⟩ :=
    node.signer.claimUsdc_cases rpc found last ctx secret
  · rw [hlast]
    exact (hans tx h).1
  · rw [hclaim, hans tx h]

/-- A claim that is remembered stays remembered. -/
theorem lastClaim_stays {old : List Event} {claim : Bytes × Hash}
    (h : node.lastClaim ch old = some claim) : ∀ new, node.lastClaim ch (new ++ old) = some claim
  | [] => h
  | ev :: new => by
      have ih := lastClaim_stays h new
      cases ev with
      | builtClaim id role ctx secret head answer =>
        rw [List.cons_append, lastClaim, ih]
        obtain ⟨hlast, -⟩ | ⟨hnone, -⟩ := node.signer.claimUsdc_cases (ch.amoy (new ++ old))
          (node.recorded ch (new ++ old)) (some claim) ctx secret
        · exact hlast
        · cases hnone
      | _ => exact ih

/-- A withdraw that is seen mined in its call is remembered. -/
theorem lastClaim_of_broadcast {old : List Event} {ev : Event} {w : Withdraw}
    (h : node.Broadcasts ch took old ev w) (hseen : node.EventInOrder ch took old ev) :
    node.lastClaim ch (ev :: old) = some (node.claimOf w) := by
  obtain ⟨⟨head, answer, rfl⟩, hrec, hhanded, htook⟩ := h
  have hlands : node.signer.landsSeen (ch.amoy old) w.raw = true := hseen w.raw hhanded htook
  obtain ⟨escrow, hesc, hlast, hraw⟩ := handed_eq_some hhanded
  obtain rfl : escrow = w.escrow := Option.some.inj (hesc.symm.trans hrec)
  have hsend : sendEvmTx node.signer.crypto.keccak256 (ch.amoy old) w.raw = some (w.raw, node.txHash w) := by
    simp only [LiveInitiator.landsSeen, sendEvmTx, txHash] at hlands ⊢
    split_ifs at hlands ⊢ <;> rfl
  rw [LiveInitiator.landsSeen, hsend] at hlands
  obtain ⟨receipt, hreceipt, hok⟩ := (Option.any_eq_true _ _).mp hlands
  simp [lastClaim, hlast, claimUsdc, LiveInitiator.claimRpc, hrec, hraw, hsend, hreceipt, hok, claimOf]

/-- Whatever claim was ever handed back is the one remembered. -/
theorem handed_back_eq {base : Env} {newer old : List Event} {id : SwapId} {role : SwapRole}
    {ctx : SwapContext} {secret : Hash} {head : UInt64} {tx claim : Bytes × Hash}
    (htr : InPlace (node.env ch base) (newer ++ .builtClaim id role ctx secret head (some tx) :: old))
    (h : node.lastClaim ch (newer ++ .builtClaim id role ctx secret head (some tx) :: old) = some claim) :
    tx = claim := by
  have hans : node.lastClaim ch (.builtClaim id role ctx secret head (some tx) :: old) = some tx :=
    claimUsdc_remembered _ _ _ _ _ (Eq.symm htr.split.1)
  exact Option.some.inj ((lastClaim_stays hans newer).symm.trans h)

/-- A remembered claim is handed back once the chain confirms it. -/
theorem buildClaim_replay {base : Env} {tr : List Event} {ctx : SwapContext} {secret escrow : Hash}
    {claim : Bytes × Hash} (hlast : node.lastClaim ch tr = some claim)
    (hrec : node.recorded ch tr ctx.hashlock = some escrow)
    (hconf : revealConfirmed ((ch.amoy tr).view 0) escrow claim.2 = true) :
    (node.env ch base).buildClaim tr ctx secret = some claim := by
  have hpolls : ∃ rest, (List.range (max node.signer.attempts 1)).map (ch.amoy tr).view =
      (ch.amoy tr).view 0 :: rest := by
    obtain ⟨n, hn⟩ : ∃ n, max node.signer.attempts 1 = n + 1 :=
      ⟨max node.signer.attempts 1 - 1, by omega⟩
    rw [hn, List.range_succ_eq_map, List.map_cons]
    exact ⟨_, rfl⟩
  obtain ⟨rest, hrest⟩ := hpolls
  simp [env, claimUsdc, LiveInitiator.claimRpc, hlast, hrec, hrest, hconf]

/-- The slot that was withdrawn stays recorded while the chain's answers are in order. -/
theorem recorded_stays {new old : List Event} {ev : Event} {w : Withdraw}
    (h : node.Broadcasts ch took old ev w) (hord : node.InOrder ch took (new ++ ev :: old)) :
    node.recorded ch (new ++ ev :: old) w.ctx.hashlock = some w.escrow := by
  have hev : node.recorded ch (ev :: old) w.ctx.hashlock = some w.escrow := by
    obtain ⟨⟨head, answer, rfl⟩, hrec, -, -⟩ := h
    exact hrec
  refine (recorded_along_iff hev new).mpr ?_ [] new rfl
  rintro a id expect obs b rfl hhash shown hshows
  rw [List.append_assoc, List.cons_append] at hord
  exact hord _ _ _ rfl w ⟨b, ev, old, rfl, h⟩ hhash shown hshows

/-- A noted peer records nothing. -/
theorem recorded_noted {id : SwapId} {tr : List Event} : ∀ noted : List Event,
    (∀ ev ∈ noted, ∃ peer, ev = .notedPeer id peer) → node.recorded ch (noted ++ tr) = node.recorded ch tr
  | [], _ => rfl
  | ev :: noted, hall => by
      obtain ⟨peer, rfl⟩ := hall ev List.mem_cons_self
      exact recorded_noted noted fun e he => hall e (List.mem_cons_of_mem _ he)

/-- The reveal of a withdraw fits into an envelope, and carries its secret. -/
theorem encode_revealOf {tr : List Event} {w : Withdraw}
    (h : node.handed ch tr w.ctx w.secret = some w.raw) :
    (∃ payload, encodeSwap (node.revealOf w) = .ok payload) ∧
      Session.revealedSecret (node.revealOf w) = some w.secret := by
  obtain ⟨escrow, -, -, hraw⟩ := handed_eq_some h
  simp only [LiveInitiator.withdrawRaw, Option.bind_eq_bind, Option.bind_eq_some_iff] at hraw
  obtain ⟨price, -, nonce, -, hraw⟩ := hraw
  have hsec : w.secret.1.length = 32 := w.secret.2
  have hlen : w.raw.length ≤ 204 := by
    rw [← Option.some.inj hraw]
    exact length_signWith _ (length_htlcWithdraw node.signer.crypto.keccak256 escrow w.secret) _
  constructor
  · refine encodeSwap_txEnvelope _ _ _ ?_
    simp only [claimOf, List.length_append, maxTlvValueLen]
    omega
  · have htake : (w.secret.1 ++ w.raw).take hashLen = w.secret.1 := List.take_left' w.secret.2
    simp only [Session.revealedSecret, revealOf, txEnvelope, claimOf, Option.bind_some, htake]
    exact ByteArr.ofBytes?_val w.secret

end LiveInitiatorNode

/-! ### The swap whose withdraw is out -/

/-- Every held initiator has its tombstone. -/
def Tombstoned (sl : Slot) : Prop := ∀ c, sl.coord = some c → c.role = .initiator → sl.tombstone = true

/-- The initiator of the withdraw waits for its reveal or has settled; during a tick at `now` its refund
    is not due. -/
structure AwaitsReveal (w : Withdraw) (now : Option UInt64) (sl : Slot) : Prop where
  tombstone : sl.tombstone = true
  coord : ∀ c, sl.coord = some c → c.role = .initiator → c.ctx = w.ctx ∧ c.secret = some w.secret ∧
    (c.phase = .settled ∨
      c.phase = .bothFunded ∧ ∀ head, now = some head → head ≤ w.ctx.terms.nimTimeout)

theorem applyClaimObservation_role (c : SwapCoordinator) (need : UInt32) (obs : ClaimObservation)
    (hp : c.phase = .revealed) : (Session.applyClaimObservation c need obs).role = c.role := by
  rcases applyClaimObservation_cases c need obs hp with ⟨_, -, -, he⟩ | ⟨-, he⟩ | he <;> rw [he] <;> rfl

theorem tombstoned_step {cfg : Config} {now : Option UInt64} {id : SwapId} (a b : Slot)
    (hs : SlotStep cfg now id a b) (ha : Tombstoned a) : Tombstoned b := by
  intro d hd hr
  cases hs with
  | createInitiator fresh => rfl
  | createResponder fresh =>
    cases hd
    cases hr.symm.trans fresh.role
  | @observeClaim c t h txId obs hresp hp ht =>
    cases hd
    exact ha c rfl ((applyClaimObservation_role c _ obs hp).symm.trans hr)
  | drop hl => cases hd
  | _ =>
    cases hd
    exact ha _ rfl hr

/-- Only the tick that is not due and the drive that reveals touch such a swap. -/
theorem awaitsReveal_step {cfg : Config} {w : Withdraw} {now : Option UInt64} {id : SwapId} (a b : Slot)
    (hs : SlotStep cfg now id a b) (hw : a.WF cfg id) (ha : AwaitsReveal w now a) :
    AwaitsReveal w now b := by
  obtain ⟨htomb, hco⟩ := ha
  refine ⟨?_, fun d hd hr => ?_⟩
  · cases hs <;> first | rfl | exact htomb
  cases hs with
  | createInitiator fresh => cases htomb
  | createResponder fresh =>
    cases hd
    cases hr.symm.trans fresh.role
  | @accept c t h head pk peer hph hsafe =>
    cases hd
    obtain ⟨-, -, hp | ⟨hp, -⟩⟩ := hco c rfl hr <;> cases hph.symm.trans hp
  | @observeFunded c t h obs haw hfu =>
    cases hd
    obtain ⟨-, -, hph⟩ := hco c rfl hr
    exfalso
    rcases c.awaitsCounterpartyFunding_iff.mp haw with ⟨hresp, -⟩ | ⟨-, hp⟩
    · cases hresp.symm.trans hr
    · rcases hph with hp' | ⟨hp', -⟩ <;> cases hp.symm.trans hp'
  | @fund c t h head tx hfd hsafe =>
    cases hd
    obtain ⟨-, -, hph⟩ := hco c rfl hr
    exfalso
    rcases hfd with ⟨-, hp⟩ | ⟨hresp, -⟩
    · rcases hph with hp' | ⟨hp', -⟩ <;> cases hp.symm.trans hp'
    · cases hresp.symm.trans hr
  | @reveal c t h head secret tx hrole hp hd' hk =>
    cases hd
    obtain ⟨hx, hs', -⟩ := hco c rfl hrole
    exact ⟨hx, hs', .inl rfl⟩
  | @learnSecret c t h secret hresp hp ho =>
    cases hd
    cases hr.symm.trans hresp
  | @claim c t h head secret answer hresp hp hu hk =>
    cases hd
    cases hr.symm.trans hresp
  | @observeClaim c t h txId obs hresp hp ht =>
    cases hd
    cases hresp.symm.trans ((applyClaimObservation_role c _ obs hp).symm.trans hr)
  | @refund c t h head hre hpast hnow =>
    cases hd
    exfalso
    obtain ⟨hx, -, hp | ⟨hp, hdue⟩⟩ := hco c rfl hr
    · have hlocked := hre.1
      rw [show c.swap.phase = .settled from hp] at hlocked
      cases hlocked
    · have hrole : c.swap.role = .initiator := hr
      rw [Swap.ownTimeout, hrole] at hpast
      simp only [(hw c rfl).terms, hx] at hpast
      exact absurd hpast (UInt64.not_lt.mpr (hdue head hnow))
  | @forfeit c t h head hresp hp hpast hnow =>
    cases hd
    cases hr.symm.trans hresp
  | drop hl => cases hd
  | _ =>
    cases hd
    exact hco _ rfl hr

/-- The swap is held at `BothFunded` until a claim of the withdraw was handed back. -/
def StillOwed (w : Withdraw) (sl : Slot) : Prop :=
  (∃ c, sl.coord = some c ∧ c.role = .initiator ∧ c.phase = .bothFunded) ∨
    ∃ head tx, .builtClaim w.swapId .initiator w.ctx w.secret head (some tx) ∈ sl.hist

theorem stillOwed_step {cfg : Config} {w : Withdraw} {now : Option UInt64} (a b : Slot)
    (hs : SlotStep cfg now w.swapId a b) (hw : a.WF cfg w.swapId) (ha : AwaitsReveal w now a)
    (howed : StillOwed w a) : StillOwed w b := by
  rcases howed with ⟨c, hc, hr, hp⟩ | ⟨head, tx, hm⟩
  · obtain ⟨hx, hk, hset | ⟨-, hdue⟩⟩ := ha.coord c hc hr
    · cases hp.symm.trans hset
    cases hs with
    | createInitiator fresh => cases hc
    | createResponder fresh => cases hc
    | accept hph hsafe =>
      cases hc
      cases hp.symm.trans hph
    | @observeFunded c t h obs haw hfu =>
      cases hc
      exfalso
      rcases c.awaitsCounterpartyFunding_iff.mp haw with ⟨hresp, -⟩ | ⟨-, hp'⟩
      · cases hresp.symm.trans hr
      · cases hp.symm.trans hp'
    | @fund c t h head tx hfd hsafe =>
      cases hc
      rcases hfd with ⟨-, hp'⟩ | ⟨hresp, -⟩
      · cases hp.symm.trans hp'
      · cases hresp.symm.trans hr
    | @reveal c t h head secret tx hrole hp' hd hk' =>
      cases hc
      obtain rfl : secret = w.secret := Option.some.inj (hk'.symm.trans hk)
      refine .inr ⟨head, tx, ?_⟩
      rw [hrole, hx]
      exact List.mem_cons_self
    | learnSecret hresp hp' ho =>
      cases hc
      cases hresp.symm.trans hr
    | claim answer hresp hp' hu hk' =>
      cases hc
      cases hresp.symm.trans hr
    | observeClaim obs hresp hp' ht =>
      cases hc
      cases hresp.symm.trans hr
    | @refund c t h head hre hpast hnow =>
      cases hc
      have hrole : c.swap.role = .initiator := hr
      rw [Swap.ownTimeout, hrole] at hpast
      simp only [(hw c rfl).terms, hx] at hpast
      exact absurd hpast (UInt64.not_lt.mpr (hdue head hnow))
    | forfeit hresp hp' hpast hnow =>
      cases hc
      cases hresp.symm.trans hr
    | drop hl =>
      cases hc
      rw [hp] at hl
      cases hl
    | _ =>
      cases hc
      exact .inl ⟨c, rfl, hr, hp⟩
  · exact .inr ⟨head, tx, (SlotSteps.hist_suffix (.single hs)).subset hm⟩

/-! ### Runs -/

section Runs

variable {node : LiveInitiatorNode} {ch : InitiatorChains} {took : List Event → Bytes → Prop} {base : Env}

/-- RUN: every held initiator has its tombstone. -/
theorem tombstoned_run (env : Env) {s₀ : Session} (h₀ : s₀.Fresh) (ops : List Op) (k : SwapId) :
    Tombstoned ((s₀.exec env ops).slot k) := by
  refine Session.SlotInvariant.run (fun _ => ⟨fun a b hs _ ha => tombstoned_step a b hs ha, fun a _ => ?_⟩)
    (h₀.wf env) ?_ ops
  · exact fun d hd => by cases hd
  · rw [h₀.slot k]
    exact fun d hd => by cases hd

/-- The call that asks for the claim leaves its swap waiting for the reveal, or settled. -/
theorem awaitsReveal_of_claim {env : Env} {s s₁ : Session} (hs : s.WF env) {op : Op} {w : Withdraw}
    {head : UInt64} {answer : Option (Bytes × Hash)} {c : SwapCoordinator}
    (htomb : Tombstoned (s.slot w.swapId)) (hd : Session.Drives env s op w.swapId head s₁)
    (hcl : Session.ClaimAsked env s₁ w.swapId w.ctx w.secret head answer c) :
    AwaitsReveal w none ((s.step env op).slot w.swapId) := by
  have hs₁ := hd.moves.wf hs
  refine ⟨?_, fun d hd' hr => ?_⟩
  · exact Session.hasInitiated_step hs (htomb c (hd.lookup hcl.held hcl.role) hcl.role) op
  · rw [Session.slot_coord, hd.step] at hd'
    rcases Session.drive_bothFunded hs₁ hcl.held hcl.role hcl.phase head with hsame | ⟨_, _, -, -, -, hset⟩
    · cases hd'.symm.trans hsame
      exact ⟨hcl.context, hcl.knows, .inr ⟨hcl.phase, fun _ h => by cases h⟩⟩
    · cases hd'.symm.trans hset
      exact ⟨hcl.context, hcl.knows, .inl rfl⟩

theorem stillOwed_of_claim {env : Env} {s s₁ : Session} (hs : s.WF env) {op : Op} {w : Withdraw}
    {head : UInt64} {answer : Option (Bytes × Hash)} {c : SwapCoordinator}
    (hd : Session.Drives env s op w.swapId head s₁)
    (hcl : Session.ClaimAsked env s₁ w.swapId w.ctx w.secret head answer c)
    (hm : .builtClaim w.swapId .initiator w.ctx w.secret head answer ∈ (s.step env op).trace) :
    StillOwed w ((s.step env op).slot w.swapId) := by
  rcases Session.drive_bothFunded (hd.moves.wf hs) hcl.held hcl.role hcl.phase head with
    hsame | ⟨secret, tx, hk, -, hans, -⟩
  · refine .inl ⟨c, ?_, hcl.role, hcl.phase⟩
    rw [Session.slot_coord, hd.step]
    exact hsame
  · obtain rfl : secret = w.secret := Option.some.inj (hk.symm.trans hcl.knows)
    rw [hcl.context, ← hcl.answered] at hans
    subst hans
    exact .inr ⟨head, tx, List.mem_filter.mpr ⟨hm, by simp [Event.swapId]⟩⟩

/-- While the ticks come in time the refund is not due during a call. -/
theorem AwaitsReveal.during {s : Session} {op : Op} {w : Withdraw} (hb : node.BroadcastIn ch took s.trace w)
    (htick : node.TicksInTime ch took s op) (h : AwaitsReveal w none (s.slot w.swapId)) :
    AwaitsReveal w op.now (s.slot w.swapId) := by
  refine ⟨h.tombstone, fun c hc hr => ?_⟩
  obtain ⟨hx, hk, hp | ⟨hp, -⟩⟩ := h.coord c hc hr
  · exact ⟨hx, hk, .inl hp⟩
  · refine ⟨hx, hk, .inr ⟨hp, fun head hhead => ?_⟩⟩
    have hop : op = .tick head := by
      cases op with
      | tick head' =>
        cases hhead
        rfl
      | _ => cases hhead
    rw [← hx]
    exact htick head hop w hb c hc hr hp

/-- STEP: a call that ticks in time keeps the swap waiting. -/
theorem awaitsReveal_call {env : Env} {s : Session} (hs : s.WF env) {op : Op} {w : Withdraw}
    (h : AwaitsReveal w op.now (s.slot w.swapId)) : AwaitsReveal w none ((s.step env op).slot w.swapId) := by
  have hinv : Session.SlotInvariant (s.config env) op.now w.swapId (AwaitsReveal w op.now) :=
    ⟨fun a b hstep hw ha => awaitsReveal_step a b hstep hw ha, fun a ha => ⟨ha.tombstone, fun d hd => by cases hd⟩⟩
  have hafter := hinv.call hs h
  refine ⟨hafter.tombstone, fun c hc hr => ?_⟩
  obtain ⟨hx, hk, hp⟩ := hafter.coord c hc hr
  exact ⟨hx, hk, hp.imp_right fun hp => ⟨hp.1, fun _ h => by cases h⟩⟩

/-- STEP: and it stays owed, unless the call is the removal of the swap. -/
theorem stillOwed_call {env : Env} {s : Session} (hs : s.WF env) {op : Op} {w : Withdraw}
    (hop : op ≠ .remove w.swapId) (h : AwaitsReveal w op.now (s.slot w.swapId))
    (howed : StillOwed w (s.slot w.swapId)) : StillOwed w ((s.step env op).slot w.swapId) := by
  by_cases hrem : ∃ id, op = .remove id
  · obtain ⟨id, rfl⟩ := hrem
    have hne : w.swapId ≠ id := by
      rintro rfl
      exact hop rfl
    rw [Session.step, Session.slot_remove_ne s hne]
    exact howed
  · have hsteps := (Session.step_moves hs op fun id hid => hrem ⟨id, hid⟩).slots w.swapId
    exact (SlotSteps.preserves
      (I := fun sl => sl.WF (s.config env) w.swapId ∧ AwaitsReveal w op.now sl ∧ StillOwed w sl)
      (fun a b hstep hx => ⟨hstep.wf hx.1, awaitsReveal_step a b hstep hx.1 hx.2.1,
        stillOwed_step a b hstep hx.1 hx.2.1 hx.2.2⟩) hsteps ⟨hs w.swapId, h, howed⟩).2.2

/-- RUN: from the broadcast on, while the ticks come in time, the swap waits for its reveal or is
    settled; and unless it is removed it is owed its reveal. -/
theorem awaitsReveal_run {s₀ : Session} (h₀ : s₀.Fresh) (ops : List Op) {w : Withdraw}
    (htick : Run.Along (Session.step (node.env ch base)) (node.TicksInTime ch took) s₀ ops)
    (hb : node.BroadcastIn ch took (s₀.exec (node.env ch base) ops).trace w) :
    AwaitsReveal w none ((s₀.exec (node.env ch base) ops).slot w.swapId) ∧
      (.remove w.swapId ∉ ops → StillOwed w ((s₀.exec (node.env ch base) ops).slot w.swapId)) := by
  obtain ⟨newer, ev, old, htr, hcast⟩ := hb
  obtain ⟨head, answer, rfl⟩ := hcast.1
  obtain ⟨pre, op, post, above, below, rfl, hstep, rfl⟩ := Session.exec_event h₀ ops htr
  have hw := (Session.exec_config_wf (h₀.wf (node.env ch base)) pre).2
  obtain ⟨s₁, c, noted, hd, hcl, -, -, -⟩ :=
    Session.claims_of_step hw hstep (List.mem_append_right above List.mem_cons_self)
  have hfirst := awaitsReveal_of_claim hw (tombstoned_run _ h₀ pre w.swapId) hd hcl
  have howed := stillOwed_of_claim hw hd hcl <| hstep ▸
    List.mem_append_left _ (List.mem_append_right above List.mem_cons_self)
  have hcast' : node.BroadcastIn ch took (((s₀.exec (node.env ch base) pre).step (node.env ch base) op).trace) w := by
    refine ⟨above, _, _, ?_, hcast⟩
    rw [hstep, List.append_assoc, List.cons_append]
  have hpost := ((Run.along_append _ _ _ _ _).mp htick).2.2
  rw [Session.exec_append, Session.exec_cons]
  have hrun := Run.exec_invariant (Session.step (node.env ch base))
    (I := fun s => s.WF (node.env ch base) ∧ node.BroadcastIn ch took s.trace w ∧
      AwaitsReveal w none (s.slot w.swapId) ∧ (.remove w.swapId ∉ post → StillOwed w (s.slot w.swapId)))
    (fun s o ⟨hws, hbs, has, hos⟩ ⟨ho, hmem⟩ => ?_) post _
    ⟨(Session.step_config_wf hw op).2, hcast', hfirst, fun _ => howed⟩
    (Run.along_and _ post _ hpost fun _ hi => hi)
  · obtain ⟨new, he, -⟩ := Session.step_trace hws o
    have hduring := has.during hbs ho
    refine ⟨(Session.step_config_wf hws o).2, he ▸ hbs.grow new, awaitsReveal_call hws hduring, fun hno => ?_⟩
    exact stillOwed_call hws (fun h => hno (h ▸ hmem)) hduring (hos hno)
  · exact ⟨hrun.2.2.1, fun hno => hrun.2.2.2 fun h => hno (by simp [h])⟩

/-- The call that asks for a claim and is handed this one back floods its reveal. -/
theorem floods_of_claimAsked {env : Env} {s s₁ : Session} (hs : s.WF env) {op : Op} {w : Withdraw}
    {head : UInt64} {c : SwapCoordinator} {payload : Bytes} (hd : Session.Drives env s op w.swapId head s₁)
    (hcl : Session.ClaimAsked env s₁ w.swapId w.ctx w.secret head (some (node.claimOf w)) c)
    (henc : encodeSwap (node.revealOf w) = .ok payload) : node.FloodsReveal env s op w := by
  refine ⟨head, s₁, payload, hd, henc, ?_⟩
  rw [Session.output_of_claimAsked (hd.moves.wf hs) hcl]
  have hpush : Session.pushEnv .swapPreimageReveal (node.revealOf w) = [(.swapPreimageReveal, payload)] := by
    rw [Session.pushEnv, henc]
  exact hpush ▸ List.mem_singleton_self _

/-- RUN: a claim of the withdraw that was handed back was flooded by its call. -/
theorem flooded_of_handed_back {s₀ : Session} (h₀ : s₀.Fresh) (ops : List Op) {w : Withdraw} {head : UInt64}
    {tx : Bytes × Hash} {payload : Bytes}
    (hlast : node.lastClaim ch (s₀.exec (node.env ch base) ops).trace = some (node.claimOf w))
    (henc : encodeSwap (node.revealOf w) = .ok payload)
    (hm : .builtClaim w.swapId .initiator w.ctx w.secret head (some tx) ∈
      ((s₀.exec (node.env ch base) ops).slot w.swapId).hist) :
    node.Flooded (node.env ch base) s₀ ops w := by
  obtain ⟨newer, old, hsplit⟩ := List.append_of_mem (List.mem_filter.mp hm).1
  have hplace := Session.exec_inPlace (node.env ch base) h₀ ops
  rw [hsplit] at hplace hlast
  obtain rfl := LiveInitiatorNode.handed_back_eq hplace hlast
  obtain ⟨pre, op, post, above, below, hops, hstep, -⟩ := Session.exec_event h₀ ops hsplit
  have hw := (Session.exec_config_wf (h₀.wf (node.env ch base)) pre).2
  obtain ⟨s₁, c, -, hd, hcl, -, -, -⟩ :=
    Session.claims_of_step hw hstep (List.mem_append_right above List.mem_cons_self)
  exact ⟨pre, op, post, hops, floods_of_claimAsked hw hd hcl henc⟩

end Runs

/-- A settled initiator is not refunded any more, one that is `BothFunded` past `T_A` only. -/
theorem initiator_refunds_iff {c : SwapCoordinator} (hterms : c.swap.terms = c.ctx.terms)
    (hr : c.role = .initiator) (hp : c.phase = .settled ∨ c.phase = .bothFunded) (head : UInt64) :
    (c.refundAfterTimeout head).2.phase = .refunded ↔
      c.phase = .bothFunded ∧ c.ctx.terms.nimTimeout < head := by
  have hown : c.swap.ownTimeout = c.ctx.terms.nimTimeout := by
    rw [Swap.ownTimeout, show c.swap.role = .initiator from hr, hterms]
  rcases c.refundAfterTimeout_cases head with ⟨hre, hpast, he⟩ | ⟨hn, he⟩
  · rw [hown] at hpast
    rcases hp with hp | hp
    · have hlocked := hre.1
      rw [show c.swap.phase = .settled from hp] at hlocked
      cases hlocked
    · rw [he]
      exact ⟨fun _ => ⟨hp, hpast⟩, fun _ => rfl⟩
  · rw [he]
    constructor
    · intro hrefunded
      rcases hp with hp | hp <;> cases hp.symm.trans hrefunded
    · rintro ⟨hboth, hpast⟩
      refine absurd ⟨⟨?_, ?_⟩, hown ▸ hpast⟩ hn
      · rw [show c.swap.phase = .bothFunded from hboth]
        rfl
      · rintro ⟨hresp, -⟩
        cases hresp.symm.trans hr

/-- CORRECT: in every run in which each withdraw that the network takes is seen mined in its call, no
    later observation is shown another escrow and no tick past `T_A` finds the swap `BothFunded` then,
    the reveal of a broadcast withdraw carries its secret; its swap is held, and a tick would refund it
    only while it is `BothFunded` and past `T_A`; unless it is removed, it waits at `BothFunded` or its
    reveal was flooded; and at a drive to which the chain shows the escrow claimed and the withdraw deep,
    the reveal was flooded before or is flooded now, now exactly when the reveal window is open. -/
theorem broadcast_reveal_kept (node : LiveInitiatorNode) (ch : InitiatorChains)
    (took : List Event → Bytes → Prop) (base : Env) (s₀ : Session) (h₀ : s₀.Fresh) (ops : List Op)
    (hord : node.InOrder ch took (s₀.exec (node.env ch base) ops).trace)
    (htick : Run.Along (Session.step (node.env ch base)) (node.TicksInTime ch took) s₀ ops)
    (w : Withdraw) (hb : node.BroadcastIn ch took (s₀.exec (node.env ch base) ops).trace w) :
    Session.revealedSecret (node.revealOf w) = some w.secret ∧
    (∀ c, (s₀.exec (node.env ch base) ops).coordinators.lookup w.swapId = some c → c.role = .initiator →
      (c.phase = .settled ∨ c.phase = .bothFunded) ∧
      ∀ head, (c.refundAfterTimeout head).2.phase = .refunded ↔
        c.phase = .bothFunded ∧ c.ctx.terms.nimTimeout < head) ∧
    ((∃ c, (s₀.exec (node.env ch base) ops).coordinators.lookup w.swapId = some c ∧
        c.role = .initiator ∧ c.phase = .bothFunded) ∨
      node.Flooded (node.env ch base) s₀ ops w ∨ .remove w.swapId ∈ ops) ∧
    ∀ op head s₁ c, Session.Drives (node.env ch base) (s₀.exec (node.env ch base) ops) op w.swapId head s₁ →
      s₁.coordinators.lookup w.swapId = some c → c.role = .initiator →
      revealConfirmed ((ch.amoy s₁.trace).view 0) w.escrow (node.txHash w) = true →
      (c.phase = .settled ∧ node.Flooded (node.env ch base) s₀ ops w) ∨
      (c.phase = .bothFunded ∧
        (node.FloodsReveal (node.env ch base) (s₀.exec (node.env ch base) ops) op w ↔
          c.revealDeadlineOk head = true)) := by
  obtain ⟨hawaits, howed⟩ := awaitsReveal_run h₀ ops htick hb
  have hw := (Session.exec_config_wf (h₀.wf (node.env ch base)) ops).2
  obtain ⟨newer, ev, old, htr, hcast⟩ := hb
  obtain ⟨⟨payload, henc⟩, hsecret⟩ := LiveInitiatorNode.encode_revealOf hcast.2.2.1
  have hlast : node.lastClaim ch (s₀.exec (node.env ch base) ops).trace = some (node.claimOf w) := by
    rw [htr] at hord ⊢
    have hfirst := LiveInitiatorNode.lastClaim_of_broadcast hcast (hord _ _ _ rfl)
    exact LiveInitiatorNode.lastClaim_stays hfirst newer
  refine ⟨hsecret, fun c hc hr => ?_, ?_, fun op head s₁ c hd hc hr hconf => ?_⟩
  · have hp := (hawaits.coord c hc hr).2.2.imp_right And.left
    exact ⟨hp, initiator_refunds_iff (hw w.swapId c hc).terms hr hp⟩
  · by_cases hrem : .remove w.swapId ∈ ops
    · exact .inr (.inr hrem)
    · rcases howed hrem with hheld | ⟨head, tx, hm⟩
      · exact .inl hheld
      · exact .inr (.inl (flooded_of_handed_back h₀ ops hlast henc hm))
  · have hc₀ := hd.lookup hc hr
    obtain ⟨hx, hk, hset | ⟨hboth, -⟩⟩ := hawaits.coord c hc₀ hr
    · -- settled: the claim that was handed back is this one
      have hev := (Session.settlement_run (node.env ch base) h₀ ops w.swapId).evidence c hc₀ hset
      rw [Evidence, hr] at hev
      obtain ⟨secret, head', tx, hk', -, -, hm⟩ := hev
      obtain rfl : secret = w.secret := Option.some.inj (hk'.symm.trans hk)
      rw [hx] at hm
      exact .inl ⟨hset, flooded_of_handed_back h₀ ops hlast henc (life_subset _ hm)⟩
    · refine .inr ⟨hboth, fun hflood => ?_, fun hopen => ?_⟩
      · obtain ⟨head', s₂, payload', hd₂, -, hmem⟩ := hflood
        obtain ⟨rfl, rfl⟩ := hd.unique hd₂
        cases hdl : c.revealDeadlineOk head with
        | true => rfl
        | false =>
          rw [Session.output_of_closed hc hr hboth hdl] at hmem
          cases hmem
      · obtain ⟨noted, hnoted, hall⟩ := hd.moves.grows
        have hlast₁ : node.lastClaim ch s₁.trace = some (node.claimOf w) := by
          rw [hnoted]
          exact LiveInitiatorNode.lastClaim_stays hlast noted
        have hrec₁ : node.recorded ch s₁.trace w.ctx.hashlock = some w.escrow := by
          rw [htr] at hord
          rw [hnoted, LiveInitiatorNode.recorded_noted noted hall, htr]
          exact LiveInitiatorNode.recorded_stays hcast hord
        have hans : (node.env ch base).buildClaim s₁.trace w.ctx w.secret = some (node.claimOf w) :=
          LiveInitiatorNode.buildClaim_replay hlast₁ hrec₁ hconf
        exact floods_of_claimAsked hw hd ⟨hc, hr, hboth, hx, hk, hopen, hans.symm⟩ henc

namespace Sample

/-- The withdraw of the sample escrow, and the reveal that carries it. -/
def usdcWithdraw : Withdraw :=
  ⟨swapId, usdcContext, secret, escrowSlot, (withdrawTx 0 escrowSlot).signWith keccak256 ⟨gasAddress, signHash⟩⟩

/-- What a chain's node accepts. -/
def accepts (ch : InitiatorChains) (tr : List Event) (raw : Bytes) : Prop := (ch.amoy tr).sendRaw raw = true

/-- The withdraw is mined in its call, but the escrow reads claimed from the next call on only. -/
def slowChain : InitiatorChains :=
  { usdcChain with amoy := fun tr => amoy 0 fun _ => if tr.any isClaim then some stateClaimed else none }

/-- The withdraw is mined after its call has stopped polling; a second one reverts. -/
def lateChain : InitiatorChains :=
  { usdcChain with
    amoy := fun tr =>
      if tr.any isClaim then
        { amoy 1 fun _ => some stateClaimed with
          polled := fun _ _ => some ⟨false, 103⟩
          view := fun _ => ⟨fun _ => some stateClaimed,
            fun hash => some ⟨hash = initiatorNode.txHash usdcWithdraw, 100⟩, some 200⟩ }
      else { amoy 0 fun _ => none with polled := fun _ _ => none } }

/-- The session of the initiator after calls over a chain. -/
abbrev initiated (ch : InitiatorChains) (ops : List Op) : Session :=
  alice.exec (initiatorNode.env ch fundsNim) ops

/-- The claim call that is not answered. -/
def heldClaim : Event := .builtClaim swapId .initiator usdcContext secret 0 none

theorem broadcastIn_of_head {ch : InitiatorChains} {ops : List Op}
    (h : (initiated ch ops).trace.head? = some heldClaim ∧
      initiatorNode.recorded ch (initiated ch ops).trace.tail hashlock = some escrowSlot ∧
      initiatorNode.handed ch (initiated ch ops).trace.tail usdcContext secret = some usdcWithdraw.raw ∧
      (ch.amoy (initiated ch ops).trace.tail).sendRaw usdcWithdraw.raw = true) :
    initiatorNode.BroadcastIn ch (accepts ch) (initiated ch ops).trace usdcWithdraw := by
  obtain ⟨hhead, hrec, hhanded, hsend⟩ := h
  exact ⟨[], heldClaim, _, List.eq_cons_of_mem_head? (Option.mem_def.mpr hhead),
    ⟨0, none, rfl⟩, hrec, hhanded, hsend⟩

/-- One claim that lands as it should, at the head of the trace. -/
theorem inOrder_of_head (ch : InitiatorChains) (took : List Event → Bytes → Prop) {tr : List Event}
    (hhead : tr.head? = some heldClaim) (hclaims : tr.tail.any isClaim = false)
    (hhanded : initiatorNode.handed ch tr.tail usdcContext secret = some usdcWithdraw.raw)
    (hlands : initiatorNode.signer.landsSeen (ch.amoy tr.tail) usdcWithdraw.raw = true) :
    initiatorNode.InOrder ch took tr := by
  rintro newer ev old rfl
  cases newer with
  | nil =>
    obtain rfl : ev = heldClaim := Option.some.inj hhead
    intro raw hraw _
    obtain rfl : usdcWithdraw.raw = raw := Option.some.inj (hhanded.symm.trans hraw)
    exact hlands
  | cons e newer =>
    simp only [List.cons_append, List.tail_cons, List.any_append, List.any_cons, Bool.or_eq_false_iff] at hclaims
    cases ev with
    | builtClaim => cases hclaims.2.1
    | observed id expect obs =>
      -- no claim is older than an observation
      rintro w ⟨newer', ev, below, rfl, ⟨head, answer, rfl⟩, -⟩
      simp [isClaim] at hclaims
    | _ => trivial

end Sample

/-- The withdraw was held back by its call; the next drive floods its reveal. -/
theorem sample_reveal_kept :
    Sample.initiatorNode.BroadcastIn Sample.slowChain (Sample.accepts Sample.slowChain)
      (Sample.initiated Sample.slowChain Sample.usdcRun).trace Sample.usdcWithdraw ∧
    Session.revealedSecret (Sample.initiatorNode.revealOf Sample.usdcWithdraw) = some Sample.secret ∧
    (∃ c, (Sample.initiated Sample.slowChain Sample.usdcRun).coordinators.lookup Sample.swapId = some c ∧
      c.role = .initiator ∧ ∀ head, (c.refundAfterTimeout head).2.phase = .refunded ↔
        c.phase = .bothFunded ∧ c.ctx.terms.nimTimeout < head) ∧
    Sample.initiatorNode.FloodsReveal (Sample.initiatorNode.env Sample.slowChain Sample.fundsNim)
      (Sample.initiated Sample.slowChain Sample.usdcRun) (.drive Sample.swapId 0) Sample.usdcWithdraw := by
  have hrun : (Sample.initiated Sample.slowChain Sample.usdcRun).trace.head? = some Sample.heldClaim ∧
      Sample.initiatorNode.recorded Sample.slowChain
        (Sample.initiated Sample.slowChain Sample.usdcRun).trace.tail Sample.hashlock = some Sample.escrowSlot ∧
      Sample.initiatorNode.handed Sample.slowChain
        (Sample.initiated Sample.slowChain Sample.usdcRun).trace.tail Sample.usdcContext Sample.secret =
          some Sample.usdcWithdraw.raw ∧
      (Sample.slowChain.amoy (Sample.initiated Sample.slowChain Sample.usdcRun).trace.tail).sendRaw
        Sample.usdcWithdraw.raw = true := by
    decide +kernel
  have hstate : (Sample.initiated Sample.slowChain Sample.usdcRun).trace.tail.any Sample.isClaim = false ∧
      Sample.initiatorNode.signer.landsSeen (Sample.slowChain.amoy
        (Sample.initiated Sample.slowChain Sample.usdcRun).trace.tail) Sample.usdcWithdraw.raw = true ∧
      ((Sample.initiated Sample.slowChain Sample.usdcRun).coordinators.lookup Sample.swapId).any (fun c =>
        decide (c.role = .initiator ∧ c.phase = .bothFunded ∧ c.revealDeadlineOk 0 = true)) = true ∧
      revealConfirmed ((Sample.slowChain.amoy
        (Sample.initiated Sample.slowChain Sample.usdcRun).trace).view 0) Sample.escrowSlot
          (Sample.initiatorNode.txHash Sample.usdcWithdraw) = true ∧
      ∀ op ∈ Sample.usdcRun, op.now = none := by
    decide +kernel
  obtain ⟨hclaims, hlands, hheld, hconf, hticks⟩ := hstate
  obtain ⟨c, hc, hph⟩ := (Option.any_eq_true _ _).mp hheld
  obtain ⟨hr, hp, hopen⟩ := of_decide_eq_true hph
  have hcast := Sample.broadcastIn_of_head hrun
  have hord := Sample.inOrder_of_head Sample.slowChain (Sample.accepts Sample.slowChain) hrun.1 hclaims
    hrun.2.2.1 hlands
  have htick : Run.Along (Session.step (Sample.initiatorNode.env Sample.slowChain Sample.fundsNim))
      (Sample.initiatorNode.TicksInTime Sample.slowChain (Sample.accepts Sample.slowChain)) Sample.alice
      Sample.usdcRun := by
    refine Run.along_of_forall_mem _ _ _ fun op hop s head htick => ?_
    rw [htick] at hop
    cases hticks _ hop
  obtain ⟨hsecret, hrefunds, -, hdrives⟩ := broadcast_reveal_kept Sample.initiatorNode Sample.slowChain
    (Sample.accepts Sample.slowChain) Sample.fundsNim Sample.alice Sample.alice_fresh Sample.usdcRun hord htick
    Sample.usdcWithdraw hcast
  refine ⟨hcast, hsecret, ⟨c, hc, hr, (hrefunds c hc hr).2⟩, ?_⟩
  rcases hdrives (.drive Sample.swapId 0) 0 _ c (.inl ⟨rfl, rfl⟩) hc hr hconf with ⟨hset, -⟩ | ⟨-, hiff⟩
  · cases hp.symm.trans hset
  · exact hiff.mpr hopen

/-- The withdraw is mined after its call gave up on the receipt. At the next drive the chain shows the
    escrow claimed and the withdraw deep, the window is open, and nothing is emitted; past `T_A` the swap
    is refunded and gone. -/
theorem late_receipt_abandons_reveal :
    Sample.initiatorNode.BroadcastIn Sample.lateChain (Sample.accepts Sample.lateChain)
      (Sample.initiated Sample.lateChain Sample.usdcRun).trace Sample.usdcWithdraw ∧
    revealConfirmed ((Sample.lateChain.amoy
      (Sample.initiated Sample.lateChain Sample.usdcRun).trace).view 0) Sample.escrowSlot
        (Sample.initiatorNode.txHash Sample.usdcWithdraw) = true ∧
    ((Sample.initiated Sample.lateChain Sample.usdcRun).coordinators.lookup Sample.swapId).any (fun c =>
      decide (c.role = .initiator ∧ c.phase = .bothFunded ∧ c.revealDeadlineOk 0 = true)) = true ∧
    ((Sample.initiated Sample.lateChain Sample.usdcRun).drivePhaseAction
      (Sample.initiatorNode.env Sample.lateChain Sample.fundsNim) Sample.swapId 0).1 = [] ∧
    ((Sample.initiated Sample.lateChain (Sample.usdcRun ++ [.drive Sample.swapId 0])).coordinators.lookup
      Sample.swapId).any (fun c => decide ((c.refundAfterTimeout 10001).2.phase = .refunded)) = true ∧
    (Sample.initiated Sample.lateChain
      (Sample.usdcRun ++ [.drive Sample.swapId 0, .tick 10001])).coordinators.lookup Sample.swapId =
        none := by
  have hrun : (Sample.initiated Sample.lateChain Sample.usdcRun).trace.head? = some Sample.heldClaim ∧
      Sample.initiatorNode.recorded Sample.lateChain
        (Sample.initiated Sample.lateChain Sample.usdcRun).trace.tail Sample.hashlock = some Sample.escrowSlot ∧
      Sample.initiatorNode.handed Sample.lateChain
        (Sample.initiated Sample.lateChain Sample.usdcRun).trace.tail Sample.usdcContext Sample.secret =
          some Sample.usdcWithdraw.raw ∧
      (Sample.lateChain.amoy (Sample.initiated Sample.lateChain Sample.usdcRun).trace.tail).sendRaw
        Sample.usdcWithdraw.raw = true := by
    decide +kernel
  refine ⟨Sample.broadcastIn_of_head hrun, ?_⟩
  decide +kernel

end Nimmesh
