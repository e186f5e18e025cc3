import Mathlib.Data.List.Induction
import Nimmesh.Swap.FundingGate

/-! @src swap_session.rs | name:Engagement of a responder | layer:properties

    A responder should engage a swap id once. The session only looks at the coordinators it holds, so a
    genuine `Propose` that is replayed after its coordinator left is taken for a new one. What holds is
    stated exactly: a run engages every id at most once, and never one the node initiated, if and only
    if every `Propose` for an id that was used before and is not held fails one of the other checks. -/

namespace Nimmesh

/-- In a history (newest event first) every creation of a responder is the first creation. -/
def EngagedOnce : List Event → Prop
  | [] => True
  | .created _ .responder _ :: h => (∀ id role peer, .created id role peer ∉ h) ∧ EngagedOnce h
  | _ :: h => EngagedOnce h

/-- Not the creation of a responder. -/
def noEngagement : Event → Prop
  | .created _ .responder _ => False
  | _ => True

theorem engagedOnce_cons {e : Event} (he : noEngagement e) (h : List Event) :
    EngagedOnce (e :: h) ↔ EngagedOnce h := by
  cases e with
  | created id role peer =>
    cases role with
    | initiator => exact Iff.rfl
    | responder => exact he.elim
  | _ => exact Iff.rfl

theorem engagedOnce_append : ∀ {new : List Event} (_ : ∀ e ∈ new, noEngagement e) (h : List Event),
    EngagedOnce (new ++ h) ↔ EngagedOnce h
  | [], _, _ => Iff.rfl
  | e :: new, hn, h => by
      have htail : ∀ e' ∈ new, noEngagement e' := fun e' he' => hn e' (List.mem_cons_of_mem _ he')
      rw [List.cons_append, engagedOnce_cons (hn e List.mem_cons_self), engagedOnce_append htail h]

theorem EngagedOnce.suffix : ∀ {h h' : List Event}, h' <:+ h → EngagedOnce h → EngagedOnce h'
  | [], h', hs, _ => by
      rw [List.suffix_nil.mp hs]
      trivial
  | e :: h, h', hs, he => by
      rcases List.suffix_cons_iff.mp hs with rfl | hs
      · exact he
      · refine EngagedOnce.suffix hs ?_
        cases e with
        | created id role peer =>
          cases role with
          | initiator => exact he
          | responder => exact he.2
        | _ => exact he

/-! ### One funding per engagement -/

/-- The invariant of a slot that engages once: before an engagement there is no responder and no ask,
    and all asks are for one context, that of the responder which is held. -/
structure OneFunding (id : SwapId) (sl : Slot) : Prop where
  before : (∀ peer, .created id .responder peer ∉ sl.hist) →
    (∀ c, sl.coord = some c → c.role = .initiator) ∧
    ∀ i ctx head answer, .builtFunding i .responder ctx head answer ∉ sl.hist
  same : ∀ c, sl.coord = some c → c.role = .responder → ∀ i ctx head answer,
    .builtFunding i .responder ctx head answer ∈ sl.hist → ctx = c.ctx
  agree : ∀ i ctx head answer i' ctx' head' answer',
    .builtFunding i .responder ctx head answer ∈ sl.hist →
    .builtFunding i' .responder ctx' head' answer' ∈ sl.hist → ctx = ctx'

theorem oneFunding_step {cfg : Config} {now : Option UInt64} {id : SwapId} (a b : Slot)
    (hs : SlotStep cfg now id a b)
    (honce : EngagedOnce b.hist) (ha : OneFunding id a) : OneFunding id b := by
  rcases hs.kinds with ⟨c, peer, hac, hbc, hbh, -⟩ | ⟨c, c', new, hac, hbc, hbh, hin⟩ |
    ⟨c, hac, hbc, hbh, -⟩
  · have hold : ∀ i ctx head answer, .builtFunding i .responder ctx head answer ∈ b.hist →
        .builtFunding i .responder ctx head answer ∈ a.hist := by
      intro i ctx head answer hm
      rw [hbh] at hm
      rcases List.mem_cons.mp hm with heq | hm
      · cases heq
      · exact hm
    cases hr : c.role with
    | responder =>
      rw [hbh, hr] at honce
      have hnone := (ha.before fun peer => honce.1 id .responder peer).2
      refine ⟨fun hb => ?_, fun d hd _ i ctx head answer hm => ?_,
        fun i ctx head answer i' ctx' head' answer' hm _ => ?_⟩
      · rw [hbh, hr] at hb
        exact absurd List.mem_cons_self (hb peer)
      · exact absurd (hold i ctx head answer hm) (hnone i ctx head answer)
      · exact absurd (hold i ctx head answer hm) (hnone i ctx head answer)
    | initiator =>
      refine ⟨fun hb => ?_, fun d hd hdr i ctx head answer hm => ?_,
        fun i ctx head answer i' ctx' head' answer' hm hm' => ?_⟩
      · have hb' : ∀ peer, .created id .responder peer ∉ a.hist := by
          intro peer' hm
          refine hb peer' ?_
          rw [hbh]
          exact List.mem_cons_of_mem _ hm
        refine ⟨fun d hd => ?_, fun i ctx head answer hm => ?_⟩
        · rw [hbc] at hd
          cases hd
          exact hr
        · exact (ha.before hb').2 i ctx head answer (hold i ctx head answer hm)
      · rw [hbc] at hd
        cases hd
        rw [hr] at hdr
        cases hdr
      · exact ha.agree i ctx head answer i' ctx' head' answer' (hold _ _ _ _ hm) (hold _ _ _ _ hm')
  · -- an ask of this step is for the context of the coordinator that is held
    have hask : ∀ i ctx head answer, .builtFunding i .responder ctx head answer ∈ b.hist →
        (c.role = .responder ∧ ctx = c.ctx) ∨
          .builtFunding i .responder ctx head answer ∈ a.hist := by
      intro i ctx head answer hm
      rw [hbh] at hm
      rcases List.mem_append.mp hm with hm | hm
      · obtain ⟨-, hr, hx, -⟩ := hin.asks _ _ _ _ _ hm
        exact .inl ⟨hr.symm, hx⟩
      · exact .inr hm
    have hctx : c.role = .responder → ∀ i ctx head answer,
        .builtFunding i .responder ctx head answer ∈ b.hist → ctx = c.ctx := by
      intro hr i ctx head answer hm
      rcases hask i ctx head answer hm with ⟨-, hx⟩ | hm
      · exact hx
      · exact ha.same c hac hr i ctx head answer hm
    refine ⟨fun hb => ?_, fun d hd hdr i ctx head answer hm => ?_,
      fun i ctx head answer i' ctx' head' answer' hm hm' => ?_⟩
    · have hb' : ∀ peer, .created id .responder peer ∉ a.hist := by
        intro peer hm
        refine hb peer ?_
        rw [hbh]
        exact List.mem_append_right _ hm
      have hinit := (ha.before hb').1 c hac
      refine ⟨fun d hd => ?_, fun i ctx head answer hm => ?_⟩
      · rw [hbc] at hd
        cases hd
        rw [hin.role, hinit]
      · rcases hask i ctx head answer hm with ⟨hr, -⟩ | hm
        · rw [hinit] at hr
          cases hr
        · exact (ha.before hb').2 i ctx head answer hm
    · rw [hbc] at hd
      cases hd
      rw [hin.role] at hdr
      rw [hin.ctx]
      exact hctx hdr i ctx head answer hm
    · rcases hask i ctx head answer hm with ⟨hr, hx⟩ | hold
      · rw [hx, hctx hr i' ctx' head' answer' hm']
      · rcases hask i' ctx' head' answer' hm' with ⟨hr, hx'⟩ | hold'
        · rw [hx', hctx hr i ctx head answer hm]
        · exact ha.agree i ctx head answer i' ctx' head' answer' hold hold'
  · refine ⟨fun hb => ?_, fun d hd => ?_, ?_⟩
    · rw [hbh] at hb ⊢
      refine ⟨fun d hd => ?_, (ha.before hb).2⟩
      rw [hbc] at hd
      cases hd
    · rw [hbc] at hd
      cases hd
    · rw [hbh]
      exact ha.agree

/-- The signer built a responder's funding. -/
def buildsResponderFunding : Event → Bool
  | .builtFunding _ .responder _ _ (some _) => true
  | _ => false

/-- At most one responder funding was built, and none while the responder is un-funded. -/
structure BuiltOnce (sl : Slot) : Prop where
  once : sl.hist.countP buildsResponderFunding ≤ 1
  unbuilt : ∀ c, sl.coord = some c → c.role = .responder → ¬ pastFunding c.phase →
    sl.hist.countP buildsResponderFunding = 0

theorem countP_zero_of_no_ask {h : List Event}
    (hn : ∀ i ctx head answer, .builtFunding i .responder ctx head answer ∉ h) :
    h.countP buildsResponderFunding = 0 := by
  rw [List.countP_eq_zero]
  intro e he hb
  cases e with
  | builtFunding i role ctx head answer =>
    cases role with
    | responder => exact hn i ctx head answer he
    | initiator => cases hb
  | _ => cases hb

theorem builtOnce_step {cfg : Config} {now : Option UInt64} {id : SwapId} (a b : Slot)
    (hs : SlotStep cfg now id a b)
    (hw : a.WF cfg id) (honce : EngagedOnce b.hist) (ht : ∀ e ∈ b.hist, InTime cfg e)
    (hone : OneFunding id a) (hgate : LadderGate cfg a) (ha : BuiltOnce a) : BuiltOnce b := by
  rcases hs.kinds with ⟨c, peer, hac, hbc, hbh, -⟩ | ⟨c, c', new, hac, hbc, hbh, hin⟩ |
    ⟨c, hac, hbc, hbh, -⟩
  · have hcount : b.hist.countP buildsResponderFunding = a.hist.countP buildsResponderFunding := by
      rw [hbh, List.countP_cons_of_neg (by simp [buildsResponderFunding])]
    refine ⟨by rw [hcount]; exact ha.once, fun d hd hr _ => ?_⟩
    rw [hbc] at hd
    cases hd
    rw [hbh, hr] at honce
    rw [hcount]
    exact countP_zero_of_no_ask (hone.before fun peer => honce.1 id .responder peer).2
  · by_cases hbuilt : new.countP buildsResponderFunding = 0
    · have hcount : b.hist.countP buildsResponderFunding = a.hist.countP buildsResponderFunding := by
        rw [hbh, List.countP_append, hbuilt, Nat.zero_add]
      refine ⟨by rw [hcount]; exact ha.once, fun d hd hr hp => ?_⟩
      rw [hbc] at hd
      cases hd
      rw [hin.role] at hr
      rw [hcount]
      exact ha.unbuilt c hac hr fun h => hp (hin.past h)
    · -- a funding was built: the coordinator was ready to fund before and is past it now
      obtain ⟨e, he, hb⟩ := List.countP_pos_iff.mp (Nat.pos_of_ne_zero hbuilt)
      cases e with
      | builtFunding i role ctx head answer =>
        cases role with
        | initiator => cases hb
        | responder =>
          obtain ⟨rfl, hr, rfl, hf, hpast⟩ := hin.asks _ _ _ _ _ he
          have hzero := ha.unbuilt c hac hr.symm (not_pastFunding_of_fundable hf)
          have hwf := hw c hac
          have hsafe : (assessLadder c.swap.terms head c.ladder).isSafe = true := by
            have hmem : Event.builtFunding i .responder c.ctx head answer ∈ b.hist := by
              rw [hbh]
              exact List.mem_append_left _ he
            obtain ⟨co, t, h⟩ := a
            cases hac
            rw [hwf.terms, hwf.ladder]
            exact hgate.safe hf (ht _ hmem)
          have hdone : pastFunding c'.phase := by
            refine hpast hsafe ?_
            rintro rfl
            cases hb
          have hle : b.hist.countP buildsResponderFunding ≤ 1 := by
            rw [hbh, List.countP_append, hzero, Nat.add_zero]
            exact List.countP_le_length.trans hin.single
          refine ⟨hle, fun d hd _ hp => ?_⟩
          rw [hbc] at hd
          cases hd
          exact absurd hdone hp
      | _ => cases hb
  · refine ⟨by rw [hbh]; exact ha.once, fun d hd => ?_⟩
    rw [hbc] at hd
    cases hd

namespace Session

/-! ### Runs -/

/-- The session has created a coordinator for the id before, as a responder or as the initiator. -/
def Used (s : Session) (id : SwapId) : Prop := ∃ role peer, .created id role peer ∈ s.trace

/-- A `Propose` for an id that was used and is not held any more fails one of the other checks. -/
def RepliesOnlyToNew (env : Env) (s : Session) : Op → Prop
  | .message kind payload head => ∀ e, kind = .propose → decodeSwap kind payload = .ok e →
      e.swapId ∉ s.coordinators → s.Used e.swapId → ¬ Admits env s e head
  | _ => True

/-- No call but a message creates a responder. -/
theorem noEngagement_of_emits {env : Env} {s : Session} {op : Op}
    (hop : ∀ kind payload head, op ≠ .message kind payload head) {ev : Event}
    (h : Emits env s op ev) : noEngagement ev := by
  cases ev with
  | created id role peer =>
    cases op with
    | message kind payload head => exact absurd rfl (hop kind payload head)
    | driveSwap kind payload head =>
      obtain ⟨e, -, hem⟩ := h
      exact hem.elim
    | drive id head => exact h.elim
    | initiate id head =>
      obtain ⟨heq, -⟩ := h
      cases heq
      trivial
    | _ => exact h.elim
  | _ => trivial

/-- A call whose events engage nothing keeps the histories as they are. -/
theorem engagedOnce_of_new {s s' : Session} {new : List Event} (he : s'.trace = new ++ s.trace)
    (hn : ∀ ev ∈ new, noEngagement ev) (k : SwapId) :
    EngagedOnce (s'.slot k).hist ↔ EngagedOnce (s.slot k).hist := by
  have hhist : (s'.slot k).hist = new.filter (fun e => e.swapId = k) ++ (s.slot k).hist := by
    simp only [slot, he, List.filter_append]
  rw [hhist]
  exact engagedOnce_append (fun ev hev => hn ev (List.mem_filter.mp hev).1) _

theorem used_iff (s : Session) (k : SwapId) :
    s.Used k ↔ ∃ id role peer, .created id role peer ∈ (s.slot k).hist := by
  constructor
  · rintro ⟨role, peer, hm⟩
    exact ⟨k, role, peer, List.mem_filter.mpr ⟨hm, by simp [Event.swapId]⟩⟩
  · rintro ⟨id, role, peer, hm⟩
    obtain ⟨htrace, hid⟩ := List.mem_filter.mp hm
    obtain rfl : id = k := of_decide_eq_true hid
    exact ⟨role, peer, htrace⟩

/-- A creation keeps "engaged once" exactly when its id was never used. -/
theorem engagedOnce_created_iff (s : Session) (id : SwapId) (c : SwapCoordinator)
    (peer : Option (NimAddress × Bytes)) :
    (∀ k, EngagedOnce (((s.setCoord id c).log (.created id .responder peer)).slot k).hist) ↔
      (∀ k, EngagedOnce (s.slot k).hist) ∧ ¬ s.Used id := by
  have hself : (((s.setCoord id c).log (.created id .responder peer)).slot id).hist =
      .created id .responder peer :: (s.slot id).hist := by
    simp [slot, log, setCoord, Event.swapId]
  have hother : ∀ k, k ≠ id →
      (((s.setCoord id c).log (.created id .responder peer)).slot k).hist = (s.slot k).hist := by
    intro k hk
    simp [slot, log, setCoord, Event.swapId, Ne.symm hk]
  constructor
  · intro h
    have hhead := h id
    rw [hself] at hhead
    refine ⟨fun k => ?_, fun hu => ?_⟩
    · by_cases hk : k = id
      · subst hk
        exact hhead.2
      · rw [← hother k hk]
        exact h k
    · obtain ⟨id', role, peer', hm⟩ := (s.used_iff id).mp hu
      exact hhead.1 id' role peer' hm
  · rintro ⟨h, hnew⟩ k
    by_cases hk : k = id
    · subst hk
      rw [hself]
      exact ⟨fun id' role peer' hm => hnew ((s.used_iff k).mpr ⟨id', role, peer', hm⟩), h k⟩
    · rw [hother k hk]
      exact h k

/-- A `Propose` keeps "engaged once" exactly when it does not create a used id again. -/
theorem engagedOnce_onPropose_iff (env : Env) (s : Session) (e : SwapEnvelope) (head : UInt64) :
    (∀ k, EngagedOnce ((s.onPropose env e head).2.slot k).hist) ↔
      (∀ k, EngagedOnce (s.slot k).hist) ∧
        (e.swapId ∉ s.coordinators → s.Used e.swapId → ¬ Admits env s e head) := by
  rcases onPropose_cases env s e head with ⟨hmem, had, p, c, -, -, heq⟩ | ⟨hno, heq⟩
  · rw [heq, engagedOnce_created_iff]
    exact and_congr_right fun _ => ⟨fun hnew _ hu => absurd hu hnew, fun h hu => h hmem hu had⟩
  · rw [heq]
    refine ⟨fun h => ⟨h, fun hmem _ had => ?_⟩, fun h => h.1⟩
    rcases hno with hno | hno
    · exact hmem hno
    · exact hno had

/-- One call keeps "engaged once" exactly when it replies to no used id. -/
theorem engagedOnce_step_iff {env : Env} {s : Session} (hs : s.WF env) (op : Op) :
    (∀ k, EngagedOnce ((s.step env op).slot k).hist) ↔
      (∀ k, EngagedOnce (s.slot k).hist) ∧ RepliesOnlyToNew env s op := by
  by_cases hop : ∃ payload head, op = .message .propose payload head
  · obtain ⟨payload, head, rfl⟩ := hop
    cases he : decodeSwap .propose payload with
    | error err =>
      have hsame : s.step env (.message .propose payload head) = s := by
        simp only [step, onMessage, he]
      rw [hsame]
      refine ⟨fun h => ⟨h, fun e _ he' => ?_⟩, fun h => h.1⟩
      rw [he] at he'
      cases he'
    | ok e =>
      have hstep : s.step env (.message .propose payload head) = (s.onPropose env e head).2 := by
        simp only [step, onMessage, he]
      rw [hstep, engagedOnce_onPropose_iff]
      refine and_congr_right fun _ => ⟨fun h e' _ he' => ?_, fun h => h e rfl he⟩
      obtain rfl : e = e' := by
        rw [he] at he'
        exact Except.ok.inj he'
      exact h
  · obtain ⟨new, he, hem⟩ := step_trace hs op
    have hquiet : ∀ ev ∈ new, noEngagement ev := by
      intro ev hev
      by_cases hmsg : ∃ kind payload head, op = .message kind payload head
      · obtain ⟨kind, payload, head, rfl⟩ := hmsg
        obtain ⟨e, -, hme⟩ := hem ev hev
        cases ev with
        | created id role peer =>
          obtain ⟨rfl, -⟩ := hme
          exact absurd ⟨payload, head, rfl⟩ hop
        | _ => trivial
      · exact noEngagement_of_emits (fun kind payload head h => hmsg ⟨kind, payload, head, h⟩)
          (hem ev hev)
    have hok : RepliesOnlyToNew env s op := by
      cases op with
      | message kind payload head =>
        rintro e rfl
        exact absurd ⟨payload, head, rfl⟩ hop
      | _ => trivial
    constructor
    · intro h
      exact ⟨fun k => (engagedOnce_of_new he hquiet k).mp (h k), hok⟩
    · intro h k
      exact (engagedOnce_of_new he hquiet k).mpr (h.1 k)

/-- RUN: the runs that engage every id at most once are those that reply to no used id. -/
theorem engagedOnce_run_iff (env : Env) {s₀ : Session} (h₀ : s₀.Fresh) (ops : List Op) :
    (∀ k, EngagedOnce ((s₀.exec env ops).slot k).hist) ↔
      Run.Along (step env) (RepliesOnlyToNew env) s₀ ops := by
  induction ops using List.reverseRecOn with
  | nil =>
    refine ⟨fun _ => trivial, fun _ k => ?_⟩
    rw [exec, Run.exec_nil, h₀.slot k]
    trivial
  | append_singleton ops op ih =>
    have hwf := (exec_config_wf (h₀.wf env) ops).2
    rw [exec_snoc, engagedOnce_step_iff hwf op, ih, Run.along_append]
    exact and_congr_right fun _ => ⟨fun h => ⟨h, trivial⟩, fun h => h.1⟩

theorem oneFunding_run {env : Env} {s₀ : Session} (h₀ : s₀.Fresh) (ops : List Op) (k : SwapId)
    (honce : EngagedOnce ((s₀.exec env ops).slot k).hist) :
    OneFunding k ((s₀.exec env ops).slot k) := by
  refine SlotInvariant.run (s := s₀) (I := fun sl => EngagedOnce sl.hist → OneFunding k sl)
    (fun _ => ⟨fun a b hs _ ha ho => ?_, fun a ha ho => ?_⟩) (h₀.wf env) ?_ ops honce
  · exact oneFunding_step a b hs ho (ha (ho.suffix (SlotSteps.hist_suffix (.single hs))))
  · exact ⟨fun hb => ⟨fun c hc => (by cases hc), ((ha ho).before hb).2⟩, fun c hc => (by cases hc),
      (ha ho).agree⟩
  · intro _
    rw [h₀.slot k]
    exact ⟨fun _ => ⟨fun c hc => (by cases hc), by simp⟩, fun c hc => (by cases hc), by simp⟩

theorem builtOnce_run {env : Env} {s₀ : Session} (h₀ : s₀.Fresh) {ops : List Op} (k : SwapId)
    (honce : EngagedOnce ((s₀.exec env ops).slot k).hist)
    (hok : Run.Along (step env) DrivesInTime s₀ ops) : BuiltOnce ((s₀.exec env ops).slot k) := by
  have hinv : ∀ now, SlotInvariant (s₀.config env) now k fun sl => EngagedOnce sl.hist →
      (∀ e ∈ sl.hist, InTime (s₀.config env) e) →
      OneFunding k sl ∧ LadderGate (s₀.config env) sl ∧ BuiltOnce sl := by
    refine fun _ => ⟨fun a b hs hw ha ho ht => ?_, fun a ha ho ht => ?_⟩
    · have hsuf := SlotSteps.hist_suffix (.single hs)
      obtain ⟨h1, h2, h3⟩ := ha (ho.suffix hsuf) fun e he => ht e (hsuf.subset he)
      exact ⟨oneFunding_step a b hs ho h1, ladderGate_step a b hs hw ht h2,
        builtOnce_step a b hs hw ho ht h1 h2 h3⟩
    · obtain ⟨h1, h2, h3⟩ := ha ho ht
      exact ⟨⟨fun hb => ⟨fun c hc => (by cases hc), (h1.before hb).2⟩, fun c hc => (by cases hc),
        h1.agree⟩, ⟨fun c hc => (by cases hc), h2.calls, fun c hc => by cases hc⟩, h3.once,
        fun c hc => by cases hc⟩
  refine (SlotInvariant.run hinv (h₀.wf env) ?_ ops honce fun e he => ?_).2.2
  · intro _ _
    rw [h₀.slot k]
    exact ⟨⟨fun _ => ⟨fun c hc => (by cases hc), by simp⟩, fun c hc => (by cases hc), by simp⟩,
      ⟨fun c hc => (by cases hc), by simp, fun c hc => by cases hc⟩, by simp, fun c hc => by cases hc⟩
  · exact trace_inTime h₀ hok e (List.mem_filter.mp he).1

/-- The tombstone of an id is set by its first initiation and stays. -/
theorem hasInitiated_iff (env : Env) {s₀ : Session} (h₀ : s₀.Fresh) (ops : List Op) (k : SwapId) :
    (s₀.exec env ops).hasInitiated k = true ↔
      ∃ peer, .created k .initiator peer ∈ (s₀.exec env ops).trace := by
  have hinv : ∀ now, SlotInvariant (s₀.config env) now k fun sl =>
      sl.tombstone = true ↔ ∃ peer, .created k .initiator peer ∈ sl.hist := by
    refine fun _ => ⟨fun a b hs _ ha => ?_, fun a ha => ha⟩
    cases hs with
    | createInitiator fresh => exact ⟨fun _ => ⟨none, List.mem_cons_self⟩, fun _ => rfl⟩
    | learnSecret | refund | forfeit | drop => exact ha
    | _ =>
      rw [ha]
      simp only [List.mem_cons, reduceCtorEq, Event.created.injEq, false_and, and_false, false_or]
  have hslot := SlotInvariant.run hinv (h₀.wf env) (by rw [h₀.slot k]; simp) ops
  have hmem : ∀ peer, Event.created k .initiator peer ∈ ((s₀.exec env ops).slot k).hist ↔
      Event.created k .initiator peer ∈ (s₀.exec env ops).trace := by
    intro peer
    simp [slot, Event.swapId]
  simp only [hmem] at hslot
  exact hslot

/-- CORRECT: a run engages every swap id at most once, and never one that the node has initiated, if
    and only if every `Propose` for a used id that is not held fails one of the other checks. Then the
    signer is only ever asked for one responder funding per id, with one context; and if the drives
    come in time it builds at most one. -/
theorem responder_engages_once_iff (env : Env) (s₀ : Session) (h₀ : s₀.Fresh) (ops : List Op) :
    ((∀ k, EngagedOnce ((s₀.exec env ops).slot k).hist) ↔
      Run.Along (step env) (RepliesOnlyToNew env) s₀ ops) ∧
    (∀ k, (s₀.exec env ops).hasInitiated k = true ↔
      ∃ peer, .created k .initiator peer ∈ (s₀.exec env ops).trace) ∧
    (Run.Along (step env) (RepliesOnlyToNew env) s₀ ops → ∀ k ctx head answer ctx' head' answer',
      .builtFunding k .responder ctx head answer ∈ (s₀.exec env ops).trace →
      .builtFunding k .responder ctx' head' answer' ∈ (s₀.exec env ops).trace → ctx = ctx') ∧
    (Run.Along (step env) (RepliesOnlyToNew env) s₀ ops → Run.Along (step env) DrivesInTime s₀ ops →
      ∀ k, ((s₀.exec env ops).slot k).hist.countP buildsResponderFunding ≤ 1) := by
  have hiff := engagedOnce_run_iff env h₀ ops
  refine ⟨hiff, hasInitiated_iff env h₀ ops, fun hok k ctx head answer ctx' head' answer' hm hm' => ?_,
    fun hok ht k => (builtOnce_run h₀ k (hiff.mpr hok k) ht).once⟩
  have hone := oneFunding_run h₀ ops k (hiff.mpr hok k)
  exact hone.agree k ctx head answer k ctx' head' answer'
    (List.mem_filter.mpr ⟨hm, by simp [Event.swapId]⟩)
    (List.mem_filter.mpr ⟨hm', by simp [Event.swapId]⟩)

/-- The sample responder replies to a new id only, so it engages once. -/
theorem sample_engages_once :
    EngagedOnce ((Sample.bob.exec Sample.env [.message .propose Sample.propose 0]).slot
      Sample.swapId).hist := by
  have hnew : RepliesOnlyToNew Sample.env Sample.bob (.message .propose Sample.propose 0) := by
    intro e _ _ _ hused _
    obtain ⟨role, peer, hm⟩ := hused
    rw [Sample.bob_fresh.trace] at hm
    exact absurd hm List.not_mem_nil
  have hok : Run.Along (step Sample.env) (RepliesOnlyToNew Sample.env) Sample.bob
      [.message .propose Sample.propose 0] :=
    (Run.along_cons _ _ _ _ _).mpr ⟨hnew, Run.along_nil _ _ _⟩
  revert hok
  generalize [Op.message .propose Sample.propose 0] = ops
  intro hok
  exact (responder_engages_once_iff Sample.env Sample.bob Sample.bob_fresh ops).1.mpr hok Sample.swapId

/-- The swap settles, the tick reaps it, and the same packets arrive again. -/
def replayedRun : List Op := Sample.responderRun ++ .tick 0 :: Sample.responderRun

/-- The replayed `Propose` of a settled and reaped swap creates a second responder, which funds a second
    time. -/
theorem responder_engages_twice :
    ((Sample.bob.exec Sample.env replayedRun).slot Sample.swapId).hist.countP
      (fun e => match e with | .created _ .responder _ => true | _ => false) = 2 ∧
    ((Sample.bob.exec Sample.env replayedRun).slot Sample.swapId).hist.countP
      buildsResponderFunding = 2 := by
  decide +kernel

end Session

end Nimmesh
