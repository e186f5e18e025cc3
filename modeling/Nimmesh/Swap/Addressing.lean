import Nimmesh.Live.Signer
import Nimmesh.Swap.Worker

/-! @src swap_node.rs live_swap_signer.rs swap_session.rs | name:Payout addressing | layer:properties

    Where the address that the live signer pays comes from. The driver reports the addressing of every
    complete `Propose` and `Accept` that names a held swap, also of those the session ignored or
    refused, and the signer keeps the first report. So the address is the one of the message that
    created or advanced the swap only if no other message comes first: that is the condition, and under
    it no injected packet ever moves the address. -/

namespace Nimmesh

/-! ### Reports -/

/-- The signer got a report in the history of a swap. -/
def Reported (h : List Event) : Prop := ∃ id peer, .notedPeer id peer ∈ h

/-- The current life of a swap began with this node as its initiator. -/
def InitiatedHere : List Event → Prop
  | [] => False
  | .created _ role _ :: _ => role = .initiator
  | _ :: h => InitiatedHere h

/-- In the current life of a swap the addressing came with the `Propose` that created the responder, or
    with an `Accept` that the initiator accepted. -/
def Vouched (peer : NimAddress × Bytes) : List Event → Prop
  | [] => False
  | .created _ role p :: _ => role = .responder ∧ p = some peer
  | .accepted _ p :: h => (p = peer ∧ InitiatedHere h) ∨ Vouched peer h
  | _ :: h => Vouched peer h

instance decidableInitiatedHere : DecidablePred InitiatedHere
  | [] => inferInstanceAs (Decidable False)
  | .created _ role _ :: _ => inferInstanceAs (Decidable (role = .initiator))
  | .accepted .. :: h | .observed .. :: h | .observedClaim .. :: h | .builtFunding .. :: h
  | .builtClaim .. :: h | .notedPeer .. :: h | .notedWire .. :: h => decidableInitiatedHere h

instance decidableVouched (peer : NimAddress × Bytes) : DecidablePred (Vouched peer)
  | [] => inferInstanceAs (Decidable False)
  | .created _ role p :: _ => inferInstanceAs (Decidable (role = .responder ∧ p = some peer))
  | .accepted _ p :: h =>
    have : Decidable (Vouched peer h) := decidableVouched peer h
    inferInstanceAs (Decidable ((p = peer ∧ InitiatedHere h) ∨ Vouched peer h))
  | .observed .. :: h | .observedClaim .. :: h | .builtFunding .. :: h | .builtClaim .. :: h
  | .notedPeer .. :: h | .notedWire .. :: h => decidableVouched peer h

/-- The history of a swap is in order: nothing was reported before a creation, and the first report
    carried an addressing that was vouched for. -/
def InOrder : List Event → Prop
  | [] => True
  | .created .. :: h => ¬ Reported h ∧ InOrder h
  | .notedPeer _ peer :: h => (Reported h ∨ Vouched peer h) ∧ InOrder h
  | _ :: h => InOrder h

theorem Reported.cons {h : List Event} (hr : Reported h) (e : Event) : Reported (e :: h) := by
  obtain ⟨id, peer, hm⟩ := hr
  exact ⟨id, peer, List.mem_cons_of_mem _ hm⟩

theorem InOrder.tail {e : Event} {h : List Event} (ho : InOrder (e :: h)) : InOrder h := by
  cases e with
  | created => exact ho.2
  | notedPeer => exact ho.2
  | _ => exact ho

theorem InOrder.suffix : ∀ {h h' : List Event}, h' <:+ h → InOrder h → InOrder h'
  | [], h', hs, _ => by
      rw [List.suffix_nil.mp hs]
      trivial
  | e :: h, h', hs, ho => by
      rcases List.suffix_cons_iff.mp hs with rfl | hs
      · exact ho
      · exact InOrder.suffix hs ho.tail

/-! ### The book of the signer -/

theorem peerBook_cons_of_ne {e : Event} (he : ∀ id peer, e ≠ .notedPeer id peer) (tr : List Event) :
    peerBook (e :: tr) = peerBook tr := by
  cases e with
  | notedPeer id peer => exact absurd rfl (he id peer)
  | _ => rfl

/-- What a report does to the book. -/
theorem note_cases (book : PeerBook) (id : SwapId) (peer : PeerAddressing) :
    ((id ∈ book ∨ maxBookEntries ≤ Table.len book) ∧ book.note id peer = book) ∨
    (id ∉ book ∧ Table.len book < maxBookEntries ∧ book.note id peer = book.insert id peer) := by
  unfold PeerBook.note
  by_cases h : id ∈ book ∨ maxBookEntries ≤ Table.len book
  · exact .inl ⟨h, if_pos h⟩
  · obtain ⟨hm, hl⟩ := not_or.mp h
    exact .inr ⟨hm, not_le.mp hl, if_neg h⟩

/-- A report keeps what is in the book and how full it is. -/
theorem note_keeps {k : SwapId} {book : PeerBook} (id : SwapId) (peer : PeerAddressing)
    (h : k ∈ book ∨ maxBookEntries ≤ Table.len book) :
    k ∈ book.note id peer ∨ maxBookEntries ≤ Table.len (book.note id peer) := by
  rcases note_cases book id peer with ⟨-, he⟩ | ⟨hn, -, he⟩
  · rw [he]
    exact h
  · rw [he, Table.len_insert_of_notMem hn, AList.mem_insert]
    rcases h with h | h
    · exact .inl (.inr h)
    · exact .inr (Nat.le_succ_of_le h)

/-- A reported swap is in the book, or the book was full. -/
theorem mem_or_full_of_reported {k : SwapId} {tr : List Event} (h : ∃ peer, .notedPeer k peer ∈ tr) :
    k ∈ peerBook tr ∨ maxBookEntries ≤ Table.len (peerBook tr) := by
  induction tr with
  | nil =>
    obtain ⟨peer, hm⟩ := h
    cases hm
  | cons e tr ih =>
    obtain ⟨peer, hm⟩ := h
    by_cases he : ∃ id p, e = .notedPeer id p
    · obtain ⟨id, p, rfl⟩ := he
      rcases List.mem_cons.mp hm with heq | hm
      · obtain ⟨rfl, rfl⟩ := Event.notedPeer.inj heq
        rcases note_cases (peerBook tr) k ⟨peer.1, peer.2⟩ with ⟨h, -⟩ | ⟨-, -, he⟩
        · exact note_keeps k ⟨peer.1, peer.2⟩ h
        · refine .inl ?_
          rw [peerBook, he, AList.mem_insert]
          exact .inl rfl
      · exact note_keeps id ⟨p.1, p.2⟩ (ih ⟨peer, hm⟩)
    · rw [peerBook_cons_of_ne fun id p h => he ⟨id, p, h⟩]
      rcases List.mem_cons.mp hm with heq | hm
      · exact absurd ⟨k, peer, heq.symm⟩ he
      · exact ih ⟨peer, hm⟩

/-- A report of a swap that was reported before changes no entry of that swap. -/
theorem lookup_peerBook_noted {k id : SwapId} {peer : NimAddress × Bytes} {tr : List Event}
    (h : k = id → ∃ p, .notedPeer k p ∈ tr) :
    (peerBook (.notedPeer id peer :: tr)).lookup k = (peerBook tr).lookup k := by
  rw [peerBook]
  rcases note_cases (peerBook tr) id ⟨peer.1, peer.2⟩ with ⟨-, he⟩ | ⟨hn, hl, he⟩
  · rw [he]
  · rw [he, Table.lookup_insert_iff]
    by_cases hk : k = id
    · subst hk
      rcases mem_or_full_of_reported (h rfl) with hm | hf
      · exact absurd hm hn
      · exact absurd hl (not_lt.mpr hf)
    · rw [if_neg hk]

/-- An entry of the book was reported. -/
theorem reported_of_lookup {k : SwapId} {p : PeerAddressing} {tr : List Event}
    (h : (peerBook tr).lookup k = some p) : ∃ peer, .notedPeer k peer ∈ tr := by
  induction tr with
  | nil =>
    rw [peerBook, AList.lookup_empty] at h
    cases h
  | cons e tr ih =>
    have htail : (peerBook tr).lookup k = some p → ∃ peer, .notedPeer k peer ∈ e :: tr := by
      intro h
      obtain ⟨peer, hm⟩ := ih h
      exact ⟨peer, List.mem_cons_of_mem _ hm⟩
    by_cases he : ∃ id q, e = .notedPeer id q
    · obtain ⟨id, q, rfl⟩ := he
      by_cases hk : k = id
      · exact ⟨q, by rw [hk]; exact List.mem_cons_self⟩
      · rw [lookup_peerBook_noted fun h => absurd h hk] at h
        exact htail h
    · rw [peerBook_cons_of_ne fun id q h => he ⟨id, q, h⟩] at h
      exact htail h

/-- The history of one swap in a trace. -/
def histOf (k : SwapId) (tr : List Event) : List Event := tr.filter fun e => e.swapId = k

theorem histOf_cons_self {k : SwapId} {e : Event} (h : e.swapId = k) (tr : List Event) :
    histOf k (e :: tr) = e :: histOf k tr := by
  simp [histOf, h]

theorem histOf_cons_ne {k : SwapId} {e : Event} (h : e.swapId ≠ k) (tr : List Event) :
    histOf k (e :: tr) = histOf k tr := by
  simp [histOf, h]

theorem reported_histOf {k : SwapId} {tr : List Event} :
    Reported (histOf k tr) ↔ ∃ peer, .notedPeer k peer ∈ tr := by
  constructor
  · rintro ⟨id, peer, hm⟩
    obtain ⟨hmem, hid⟩ := List.mem_filter.mp hm
    obtain rfl : id = k := of_decide_eq_true hid
    exact ⟨peer, hmem⟩
  · rintro ⟨peer, hm⟩
    exact ⟨k, peer, List.mem_filter.mpr ⟨hm, by simp [Event.swapId]⟩⟩

/-- CORRECT: in a history that is in order, the address in the book was vouched for. -/
theorem vouched_of_lookup {k : SwapId} {p : PeerAddressing} {tr : List Event}
    (ho : InOrder (histOf k tr)) (h : (peerBook tr).lookup k = some p) :
    Vouched (p.nimAddress, p.chainAddress) (histOf k tr) := by
  induction tr with
  | nil =>
    rw [peerBook, AList.lookup_empty] at h
    cases h
  | cons e tr ih =>
    by_cases hid : e.swapId = k
    · rw [histOf_cons_self hid] at ho ⊢
      cases e with
      | created id role peer =>
        have hold : (peerBook tr).lookup k = some p := h
        exact absurd (reported_histOf.mpr (reported_of_lookup hold)) ho.1
      | accepted id peer => exact .inr (ih ho h)
      | notedPeer id peer =>
        obtain rfl : id = k := hid
        by_cases hrep : Reported (histOf id tr)
        · rw [lookup_peerBook_noted fun _ => reported_histOf.mp hrep] at h
          exact ih ho.2 h
        · rcases ho.1 with hr | hv
          · exact absurd hr hrep
          · rw [peerBook] at h
            rcases note_cases (peerBook tr) id ⟨peer.1, peer.2⟩ with ⟨-, he⟩ | ⟨-, -, he⟩
            · rw [he] at h
              exact absurd (reported_histOf.mpr (reported_of_lookup h)) hrep
            · rw [he, Table.lookup_insert_iff, if_pos rfl] at h
              cases h
              exact hv
      | _ => exact ih ho h
    · rw [histOf_cons_ne hid] at ho ⊢
      refine ih ho ?_
      cases e with
      | notedPeer id peer =>
        have hne : k ≠ id := fun h => hid h.symm
        rwa [lookup_peerBook_noted fun h => absurd h hne] at h
      | _ => exact h

/-! ### A swap that has advanced was vouched for -/

/-- A coordinator at `Proposed` is an initiator's, and one past it was created by a `Propose` or advanced
    by an `Accept` that carried an addressing. -/
structure AdvancedVouched (sl : Slot) : Prop where
  proposed : ∀ c, sl.coord = some c → c.phase = .proposed → InitiatedHere sl.hist
  advanced : ∀ c, sl.coord = some c → c.phase ≠ .proposed → ∃ peer, Vouched peer sl.hist

theorem AdvancedVouched.empty (t : Bool) (h : List Event) : AdvancedVouched ⟨none, t, h⟩ := by
  constructor <;> intro c hc <;> cases hc

/-- A step to a phase past `Proposed` whose event neither creates nor accepts. -/
theorem AdvancedVouched.move {c c' : SwapCoordinator} {t : Bool} {h h' : List Event}
    (ha : AdvancedVouched ⟨some c, t, h⟩) (hc : c.phase ≠ .proposed) (hc' : c'.phase ≠ .proposed)
    (hh : ∀ peer, Vouched peer h → Vouched peer h') : AdvancedVouched ⟨some c', t, h'⟩ := by
  refine ⟨fun x hx hp => ?_, fun x hx _ => ?_⟩
  · cases hx
    exact absurd hp hc'
  · obtain ⟨peer, hv⟩ := ha.advanced c rfl hc
    exact ⟨peer, hh peer hv⟩

theorem not_proposed_of_fundable {c : SwapCoordinator} (hf : c.swap.fundable) : c.phase ≠ .proposed := by
  intro h
  rcases hf with ⟨-, h'⟩ | ⟨-, h'⟩ <;>
    rw [show c.swap.phase = .proposed from h] at h' <;> cases h'

theorem advancedVouched_step {cfg : Config} {now : Option UInt64} {id : SwapId} (a b : Slot)
    (hs : SlotStep cfg now id a b)
    (ha : AdvancedVouched a) : AdvancedVouched b := by
  cases hs with
  | createInitiator fresh =>
    refine ⟨fun c hc _ => rfl, fun c hc hp => ?_⟩
    cases hc
    exact absurd fresh.phase hp
  | @createResponder c t h head peer fresh =>
    refine ⟨fun x hx hp => ?_, fun _ _ _ => ⟨peer, rfl, rfl⟩⟩
    cases hx
    rw [fresh.phase] at hp
    cases hp
  | @accept c t h head pk peer hph hsafe =>
    refine ⟨fun x hx hp => ?_, fun _ _ _ => ⟨peer, .inl ⟨rfl, ha.proposed c rfl hph⟩⟩⟩
    cases hx
    cases hp
  | @observeFunded c t h obs haw hfu =>
    refine ha.move (fun h => ?_) (fun h => ?_) fun _ hv => hv
    · rcases c.awaitsCounterpartyFunding_iff.mp haw with ⟨-, h'⟩ | ⟨-, h'⟩ <;>
        rw [h] at h' <;> cases h'
    · revert h
      cases c.role <;> rintro ⟨⟩
  | @fund c t h head tx hfd hsafe =>
    refine ha.move (not_proposed_of_fundable hfd) (fun h => ?_) fun _ hv => hv
    revert h
    cases c.role <;> rintro ⟨⟩
  | @reveal c t h head secret tx hr hph hd hk =>
    exact ha.move (by rw [hph]; simp) (by rintro ⟨⟩) fun _ hv => hv
  | @learnSecret c t h secret hr hph ho =>
    exact ha.move (by rw [hph]; simp) (by rintro ⟨⟩) fun _ hv => hv
  | @claim c t h head secret answer hr hph hu hk =>
    exact ha.move (by rw [hph]; simp) (by rw [SwapCoordinator.phase, show c.swap.phase = _ from hph]; simp)
      fun _ hv => hv
  | @observeClaim c t h txId obs hr hph ht =>
    refine ha.move (by rw [hph]; simp) ?_ fun _ hv => hv
    rcases applyClaimObservation_cases c (cfg.need .nim) obs hph with ⟨d, -, -, he⟩ | ⟨-, he⟩ | he <;>
      rw [he]
    · rintro ⟨⟩
    · rw [SwapCoordinator.phase, show c.swap.phase = _ from hph]
      simp
    · rw [hph]
      simp
  | @refund c t h head hre hpast =>
    refine ha.move (fun h => ?_) (by rintro ⟨⟩) fun _ hv => hv
    have hl := hre.1
    rw [show c.swap.phase = .proposed from h] at hl
    cases hl
  | @forfeit c t h head hr hph hpast => exact ha.move (by rw [hph]; simp) (by rintro ⟨⟩) fun _ hv => hv
  | drop hl => exact .empty _ _
  | _ => exact ⟨ha.proposed, ha.advanced⟩

/-- An event that neither creates, accepts nor reports. -/
def silent : Event → Prop
  | .created .. | .accepted .. | .notedPeer .. => False
  | _ => True

/-- What holds of every history between two packets: it is in order, and whoever was vouched for has
    been reported. -/
structure Addressed (h : List Event) : Prop where
  inOrder : InOrder h
  reported : ∀ peer, Vouched peer h → Reported h

theorem reported_cons_of_silent {e : Event} (he : silent e) {h : List Event} :
    Reported (e :: h) ↔ Reported h := by
  refine ⟨fun ⟨id, peer, hm⟩ => ?_, fun hr => hr.cons e⟩
  rcases List.mem_cons.mp hm with rfl | hm
  · exact he.elim
  · exact ⟨id, peer, hm⟩

theorem Addressed.cons_silent {e : Event} (he : silent e) {h : List Event} (ha : Addressed h) :
    Addressed (e :: h) := by
  refine ⟨?_, fun peer hv => ?_⟩
  · cases e with
    | created | notedPeer => exact he.elim
    | _ => exact ha.inOrder
  · refine Reported.cons ?_ e
    cases e with
    | created | accepted => exact he.elim
    | _ => exact ha.reported peer hv

theorem Addressed.append_silent : ∀ {new : List Event} (_ : ∀ e ∈ new, silent e) {h : List Event},
    Addressed h → Addressed (new ++ h)
  | [], _, _, ha => ha
  | e :: _, hn, _, ha =>
    (Addressed.append_silent (fun e' he' => hn e' (List.mem_cons_of_mem _ he')) ha).cons_silent
      (hn e List.mem_cons_self)

theorem reported_append_of_silent : ∀ {new : List Event} (_ : ∀ e ∈ new, silent e) {h : List Event},
    Reported (new ++ h) ↔ Reported h
  | [], _, _ => Iff.rfl
  | e :: new, hn, h => by
      rw [List.cons_append, reported_cons_of_silent (hn e List.mem_cons_self)]
      exact reported_append_of_silent fun e' he' => hn e' (List.mem_cons_of_mem _ he')

namespace Session

theorem histOf_log_self (s : Session) {k : SwapId} {e : Event} (h : e.swapId = k) :
    histOf k (s.log e).trace = e :: histOf k s.trace := histOf_cons_self h _

theorem histOf_log_ne (s : Session) {k : SwapId} {e : Event} (h : e.swapId ≠ k) :
    histOf k (s.log e).trace = histOf k s.trace := histOf_cons_ne h _

theorem histOf_append (k : SwapId) (new tr : List Event) :
    histOf k (new ++ tr) = histOf k new ++ histOf k tr := List.filter_append ..

theorem initiateFromIntent_trace (env : Env) (s : Session) (id : SwapId) (head : UInt64) :
    (s.initiateFromIntent env id head).2.trace = s.trace ∨
    s.hasInitiated id = false ∧
      (s.initiateFromIntent env id head).2.trace = .created id .initiator none :: s.trace := by
  unfold initiateFromIntent
  split
  · exact .inl rfl
  · rename_i standing _
    by_cases hmay : s.mayInitiate standing id = true
    · rw [if_pos hmay]
      exact .inr ⟨((mayInitiate_iff s standing id).mp hmay).2.1, rfl⟩
    · rw [if_neg hmay]
      exact .inl rfl

/-- The events of an inner call are silent, but for the creation of an initiator. -/
theorem silent_of_innerCall {env : Env} {s : Session} {now : Option UInt64}
    {chosen : Option SwapId} {op : Op} (hop : Worker.innerCall now chosen op)
    (hinit : ∀ id head, op ≠ .initiate id head) {ev : Event}
    (hev : Emits env s op ev) : silent ev := by
  cases op with
  | message | driveSwap | remove => exact hop.elim
  | initiate id head => exact absurd rfl (hinit id head)
  | drive id head =>
    cases ev with
    | created | accepted | notedPeer => exact hev.elim
    | _ => trivial
  | _ =>
    cases ev with
    | created | accepted | notedPeer => exact hev.elim
    | _ => trivial

/-- The creation of an initiator whose id was never reported keeps its history addressed. -/
theorem addressed_created {id : SwapId} {h : List Event} (hn : ¬ Reported h) (ha : Addressed h) :
    Addressed (.created id .initiator none :: h) := by
  refine ⟨⟨hn, ha.inOrder⟩, fun peer hv => ?_⟩
  obtain ⟨hr, -⟩ := hv
  cases hr

/-- An inner call keeps every history addressed, and reports nothing. -/
theorem addressed_innerCall {env : Env} {s : Session} (hs : s.WF env) {now : Option UInt64}
    {chosen : Option SwapId} {op : Op} (hop : Worker.innerCall now chosen op)
    (hnew : ∀ id, chosen = some id → s.hasInitiated id = false → ¬ Reported (histOf id s.trace))
    (ha : ∀ k, Addressed (histOf k s.trace)) (k : SwapId) :
    Addressed (histOf k (s.step env op).trace) ∧
      (Reported (histOf k (s.step env op).trace) → Reported (histOf k s.trace)) := by
  by_cases hinit : ∃ id head, op = .initiate id head
  · obtain ⟨id, head, rfl⟩ := hinit
    rcases initiateFromIntent_trace env s id head with he | ⟨hin, he⟩
    · rw [step, he]
      exact ⟨ha k, fun h => h⟩
    · rw [step, he]
      by_cases hk : (Event.created id .initiator none).swapId = k
      · rw [histOf_cons_self hk]
        obtain rfl : id = k := hk
        refine ⟨addressed_created (hnew id hop hin) (ha id), ?_⟩
        rintro ⟨i, peer, hm⟩
        rcases List.mem_cons.mp hm with heq | hm
        · cases heq
        · exact ⟨i, peer, hm⟩
      · rw [histOf_cons_ne hk]
        exact ⟨ha k, fun h => h⟩
  · obtain ⟨new, he, hem⟩ := step_trace hs op
    have hk : ∀ ev ∈ histOf k new, silent ev := fun ev hev =>
      silent_of_innerCall hop (fun id head h => hinit ⟨id, head, h⟩) (hem ev (List.mem_filter.mp hev).1)
    rw [he, histOf_append]
    exact ⟨(ha k).append_silent hk, (reported_append_of_silent hk).mp⟩

/-- A handler other than the packet handler keeps every history addressed, if the id that the match
    window chose was never reported. -/
theorem addressed_innerCalls {env : Env} {s : Session} (hs : s.WF env) {now : Option UInt64}
    {chosen : Option SwapId}
    (hnew : ∀ id, chosen = some id → s.hasInitiated id = false → ¬ Reported (histOf id s.trace))
    (ha : ∀ k, Addressed (histOf k s.trace)) {ops : List Op}
    (hops : ∀ o ∈ ops, Worker.innerCall now chosen o) (k : SwapId) :
    Addressed (histOf k (s.exec env ops).trace) ∧
      (Reported (histOf k (s.exec env ops).trace) → Reported (histOf k s.trace)) := by
  have hrun := @Run.exec_invariant _ _ (step env) (fun _ o => Worker.innerCall now chosen o)
    (fun s' => s'.WF env ∧ (∀ id, s.hasInitiated id = true → s'.hasInitiated id = true) ∧
      (∀ k, Addressed (histOf k s'.trace)) ∧
      ∀ k, Reported (histOf k s'.trace) → Reported (histOf k s.trace))
    (fun s' o ⟨hw, hi, had, hre⟩ ho => ?_) ops s ⟨hs, fun _ h => h, ha, fun _ h => h⟩
    (Run.along_of_forall_mem _ ops s fun o ho _ => hops o ho)
  · exact ⟨hrun.2.2.1 k, hrun.2.2.2 k⟩
  · have hnew' : ∀ id, chosen = some id → s'.hasInitiated id = false →
        ¬ Reported (histOf id s'.trace) := by
      intro id hc hf hr
      refine hnew id hc ?_ (hre id hr)
      cases hv : s.hasInitiated id with
      | false => rfl
      | true =>
        rw [hi id hv] at hf
        cases hf
    refine ⟨(step_config_wf hw o).2, fun id h => hasInitiated_step hw (hi id h) o, fun k => ?_,
      fun k h => ?_⟩
    · exact (addressed_innerCall hw ho hnew' had k).1
    · exact hre k ((addressed_innerCall hw ho hnew' had k).2 h)

/-! ### The packet handler -/

/-- A report of an addressing that was reported before or vouched for keeps a history addressed. -/
theorem addressed_noted {id : SwapId} {peer : NimAddress × Bytes} {h : List Event} (ho : InOrder h)
    (hv : Reported h ∨ Vouched peer h) : Addressed (.notedPeer id peer :: h) :=
  ⟨⟨hv, ho⟩, fun _ _ => ⟨id, peer, List.mem_cons_self⟩⟩

/-- What the first half of a packet leaves behind: every history is in order, those of the other swaps
    are addressed, and so is its own unless the driver now reports an addressing that was vouched for. -/
structure Routed (s : Session) (kind : SwapKind) (e : SwapEnvelope) : Prop where
  others : ∀ k, k ≠ e.swapId → Addressed (histOf k s.trace)
  own : (carriedPeer kind e = none ∨ e.swapId ∉ s.coordinators) → Addressed (histOf e.swapId s.trace)
  inOrder : InOrder (histOf e.swapId s.trace)
  vouched : ∀ peer, carriedPeer kind e = some peer → e.swapId ∈ s.coordinators →
    Reported (histOf e.swapId s.trace) ∨ Vouched peer (histOf e.swapId s.trace)

/-- A drive keeps every history addressed. -/
theorem addressed_drive {env : Env} {s : Session} (hs : s.WF env) (id : SwapId) (head : UInt64)
    (k : SwapId) (ha : Addressed (histOf k s.trace)) :
    Addressed (histOf k (s.drivePhaseAction env id head).2.trace) := by
  obtain ⟨new, he, hem⟩ := (drivePhaseAction_moves (n := none) hs id head).grows
  rw [he, histOf_append]
  refine ha.append_silent fun ev hev => ?_
  have hev' := hem ev (List.mem_filter.mp hev).1
  cases ev with
  | created | accepted | notedPeer => exact hev'.elim
  | _ => trivial

/-- The second half of a packet: the report, then the drive. -/
theorem addressed_driveSwap {env : Env} {s : Session} (hs : s.WF env) {kind : SwapKind}
    {payload : Bytes} {e : SwapEnvelope} (he : decodeSwap kind payload = .ok e) (head : UInt64)
    (hr : Routed s kind e) (k : SwapId) :
    Addressed (histOf k (s.driveSwap env kind payload head).2.trace) := by
  have hwf : ((s.notePeer kind e).learnSecret env kind e).WF env :=
    ((notePeer_moves (n := none) env s kind e head).trans (learnSecret_moves env (s.notePeer kind e) kind e)).wf hs
  simp only [driveSwap, he]
  refine addressed_drive hwf _ _ _ ?_
  rw [learnSecret_trace]
  by_cases hk : k = e.swapId
  · subst hk
    rcases notePeer_cases s kind e with ⟨peer, hp, hmem, hn⟩ | ⟨hno, hn⟩
    · have hself : (Event.notedPeer e.swapId peer).swapId = e.swapId := rfl
      rw [hn, histOf_log_self s hself]
      exact addressed_noted hr.inOrder (hr.vouched peer hp hmem)
    · rw [hn]
      exact hr.own hno
  · rcases notePeer_cases s kind e with ⟨peer, -, -, hn⟩ | ⟨-, hn⟩
    · have hne : (Event.notedPeer e.swapId peer).swapId ≠ k := Ne.symm hk
      rw [hn, histOf_log_ne s hne]
      exact hr.others k hk
    · rw [hn]
      exact hr.others k hk

/-- An addressing that a swap past `Proposed` gets is not its first. -/
theorem reported_of_advanced {s : Session} {id : SwapId} {c : SwapCoordinator}
    (hc : s.coordinators.lookup id = some c) (hp : c.phase ≠ .proposed)
    (hav : AdvancedVouched (s.slot id)) (ha : Addressed (histOf id s.trace)) :
    Reported (histOf id s.trace) := by
  obtain ⟨peer, hv⟩ := hav.advanced c hc hp
  exact ha.reported peer hv

/-- A message that changes nothing is in order if the swap it names is past `Proposed`. -/
theorem routed_of_unchanged {s s' : Session} {kind : SwapKind} {e : SwapEnvelope}
    (ht : s'.trace = s.trace)
    (hl : s'.coordinators.lookup e.swapId = s.coordinators.lookup e.swapId)
    (hav : AdvancedVouched (s.slot e.swapId)) (ha : ∀ k, Addressed (histOf k s.trace))
    (hp : ∀ c peer, s.coordinators.lookup e.swapId = some c → carriedPeer kind e = some peer →
      c.phase ≠ .proposed) : Routed s' kind e := by
  refine ⟨fun k _ => ?_, fun _ => ?_, ?_, fun peer hc hmem => .inl ?_⟩
  · rw [ht]
    exact ha k
  · rw [ht]
    exact ha e.swapId
  · rw [ht]
    exact (ha e.swapId).inOrder
  · obtain ⟨c, hlk⟩ := (Table.mem_iff_lookup _ _).mp hmem
    rw [hl] at hlk
    rw [ht]
    exact reported_of_advanced hlk (hp c peer hlk hc) hav (ha e.swapId)

/-- A message that logs the creation or the acceptance its own addressing comes with. -/
theorem routed_of_log {s s' : Session} {kind : SwapKind} {e : SwapEnvelope} {ev : Event}
    {peer : NimAddress × Bytes} (ht : s'.trace = ev :: s.trace) (hid : ev.swapId = e.swapId)
    (hmem : e.swapId ∈ s'.coordinators) (hpeer : carriedPeer kind e = some peer)
    (ha : ∀ k, Addressed (histOf k s.trace)) (ho : InOrder (ev :: histOf e.swapId s.trace))
    (hv : Vouched peer (ev :: histOf e.swapId s.trace)) : Routed s' kind e := by
  refine ⟨fun k hk => ?_, fun hno => ?_, ?_, fun p hc _ => .inr ?_⟩
  · rw [ht, histOf_cons_ne (by rw [hid]; exact Ne.symm hk)]
    exact ha k
  · rcases hno with hno | hno
    · rw [hpeer] at hno
      cases hno
    · exact absurd hmem hno
  · rw [ht, histOf_cons_self hid]
    exact ho
  · rw [hpeer] at hc
    cases hc
    rw [ht, histOf_cons_self hid]
    exact hv

/-- A message that carries no addressing creates and accepts nothing. -/
theorem routed_of_other {env : Env} {s : Session} (hs : s.WF env)
    (ha : ∀ k, Addressed (histOf k s.trace)) {kind : SwapKind} {payload : Bytes} {e : SwapEnvelope}
    (he : decodeSwap kind payload = .ok e) (head : UInt64) (hp : kind ≠ .propose) (hc : kind ≠ .accept) :
    Routed (s.onMessage env kind payload head).2 kind e := by
  obtain ⟨new, hgrow, hem⟩ := (@onMessage_moves none env s hs kind payload head e he).grows
  have hsilent : ∀ k, Addressed (histOf k (s.onMessage env kind payload head).2.trace) := by
    intro k
    rw [hgrow, histOf_append]
    refine (ha k).append_silent fun ev hev => ?_
    have hev' := hem ev (List.mem_filter.mp hev).1
    cases ev with
    | created => exact absurd hev'.1 hp
    | accepted => exact absurd hev'.1 hc
    | notedPeer => exact hev'.elim
    | _ => trivial
  refine ⟨fun k _ => hsilent k, fun _ => hsilent _, (hsilent _).inOrder, fun peer hpeer => ?_⟩
  cases kind with
  | propose => exact absurd rfl hp
  | accept => exact absurd rfl hc
  | _ => cases hpeer

end Session

/-- The packets that come in order: while a swap is held at `Proposed`, a complete `Propose` or `Accept`
    that names it is an `Accept` that its ladder admits at the head; and a swap is created, by a `Propose`
    or by the match window, only under an id of which the signer was told nothing yet. -/
def Worker.AddressedInOrder (env : Env) (w : Worker) : WorkerOp → Prop
  | .packet mt _ payload => ∀ kind e, w.routes mt = some kind → decodeSwap kind payload = .ok e →
      (∀ c peer, w.session.coordinators.lookup e.swapId = some c → c.phase = .proposed →
        Session.carriedPeer kind e = some peer →
        kind = .accept ∧ (assessLadder c.swap.terms w.head c.ladder).isSafe = true) ∧
      (kind = .propose → e.swapId ∉ w.session.coordinators → Session.Admits env w.session e w.head →
        ¬ Reported (histOf e.swapId w.session.trace))
  | .gcTick => ∀ id, w.matcher.tick.1 = some id → w.session.hasInitiated id = false →
      ¬ Reported (histOf id w.session.trace)
  | _ => True

namespace Session

/-- The first half of a packet that comes in order. -/
theorem routed_onMessage {env : Env} {w : Worker} (hs : w.session.WF env)
    (hav : ∀ k, AdvancedVouched (w.session.slot k)) (ha : ∀ k, Addressed (histOf k w.session.trace))
    {mt : MessageType} {sender : PeerId} {payload : Bytes} {kind : SwapKind} {e : SwapEnvelope}
    (hr : w.routes mt = some kind) (he : decodeSwap kind payload = .ok e)
    (hok : w.AddressedInOrder env (.packet mt sender payload)) :
    Routed (w.session.onMessage env kind payload w.head).2 kind e := by
  obtain ⟨hprop, hnew⟩ := hok kind e hr he
  cases kind with
  | propose =>
    simp only [onMessage, he]
    rcases onPropose_cases env w.session e w.head with ⟨hmem, had, p, c, hp, -, hc⟩ | ⟨-, hc⟩
    · rw [hc]
      have hpeer : carriedPeer .propose e = some (p.nimAddress, p.btcAddress) := by
        simp [carriedPeer, hp]
      refine routed_of_log rfl rfl ?_ hpeer ha ?_ ?_
      · rw [log, setCoord, AList.mem_insert]
        exact .inl rfl
      · exact ⟨hnew rfl hmem had, (ha e.swapId).inOrder⟩
      · exact ⟨rfl, rfl⟩
    · rw [hc]
      refine routed_of_unchanged rfl rfl (hav _) ha fun c peer hlk hcp hph => ?_
      cases (hprop c peer hlk hph hcp).1
  | accept =>
    simp only [onMessage, he]
    rcases onAccept_cases (n := none) env hs e w.head with ⟨c, a, hlk, hacc, hph, hsafe, hc⟩ | ⟨hn, hl, ht, -⟩
    · rw [hc]
      have hpeer : carriedPeer .accept e = some (a.nimAddress, a.btcAddress) := by
        simp [carriedPeer, hacc]
      refine routed_of_log rfl rfl ?_ hpeer ha ?_ ?_
      · rw [log, setCoord, AList.mem_insert]
        exact .inl rfl
      · exact (ha e.swapId).inOrder
      · exact .inl ⟨rfl, (hav e.swapId).proposed c hlk hph⟩
    · refine routed_of_unchanged ht (hl _) (hav _) ha fun c peer hlk hcp hph => ?_
      obtain ⟨a, hacc, -⟩ := Option.map_eq_some_iff.mp hcp
      exact hn c a hlk hacc ⟨hph, (hprop c peer hlk hph hcp).2⟩
  | fundingProof | preimageReveal | abort =>
    exact routed_of_other hs ha he w.head (by simp) (by simp)

theorem recordCalls_trace (env : Env) (s : Session) (id : SwapId) (replies : List (MessageType × Bytes)) :
    (s.exec env (recordCalls id replies)).trace = s.trace := by
  rw [exec_recordCalls]
  unfold recordLast
  split <;> rfl

/-- A packet in order keeps every history addressed. -/
theorem addressed_packet {env : Env} {w : Worker} (hs : w.session.WF env)
    (hav : ∀ k, AdvancedVouched (w.session.slot k)) (ha : ∀ k, Addressed (histOf k w.session.trace))
    {mt : MessageType} {sender : PeerId} {payload : Bytes}
    (hok : w.AddressedInOrder env (.packet mt sender payload)) (k : SwapId) :
    Addressed (histOf k (w.session.exec env (w.calls env (.packet mt sender payload))).trace) := by
  rw [Worker.calls]
  cases hr : w.routes mt with
  | none => exact ha k
  | some kind =>
    rw [Option.elim_some, Worker.packetCalls, exec_cons, exec_cons]
    cases he : decodeSwap kind payload with
    | error err =>
      have hmsg : w.session.step env (.message kind payload w.head) = w.session := by
        simp only [step, onMessage, he]
      have hdrive : w.session.step env (.driveSwap kind payload w.head) = w.session := by
        simp only [step, driveSwap, he]
      rw [hmsg, hdrive]
      exact ha k
    | ok e =>
      dsimp only
      rw [recordCalls_trace]
      exact addressed_driveSwap ((onMessage_moves (n := none) hs he).wf hs) he w.head
        (routed_onMessage hs hav ha hr he hok) k

end Session

/-! ### Runs -/

/-- Where the addressing of an event comes from: a responder is created by a `Propose` whose signature
    verified, and an acceptance is the one of a complete `Accept`. -/
def Sourced (env : Env) : Event → Prop
  | .created id .responder peer => ∃ e p, SwapProposal.fromEnvelope e = some p ∧ e.swapId = id ∧
      SwapProposal.verifyEnvelope env.toCrypto e = true ∧ peer = some (p.nimAddress, p.btcAddress)
  | .accepted id peer => ∃ e a, SwapAcceptance.fromEnvelope e = some a ∧ e.swapId = id ∧
      peer = (a.nimAddress, a.btcAddress)
  | .builtFunding id _ ctx _ _ => ctx.swapId = id
  | _ => True

theorem Vouched.of_append {peer : NimAddress × Bytes} : ∀ {new h : List Event},
    Vouched peer (new ++ h) → (∃ id, .created id .responder (some peer) ∈ new) ∨
      (∃ id, .accepted id peer ∈ new) ∨ Vouched peer h
  | [], _, hv => .inr (.inr hv)
  | ev :: new, h, hv => by
      have htail : Vouched peer (new ++ h) → (∃ id, .created id .responder (some peer) ∈ ev :: new) ∨
          (∃ id, .accepted id peer ∈ ev :: new) ∨ Vouched peer h := by
        intro hv
        rcases Vouched.of_append hv with ⟨id, hm⟩ | ⟨id, hm⟩ | hv
        · exact .inl ⟨id, List.mem_cons_of_mem _ hm⟩
        · exact .inr (.inl ⟨id, List.mem_cons_of_mem _ hm⟩)
        · exact .inr (.inr hv)
      cases ev with
      | created id role p =>
        obtain ⟨rfl, rfl⟩ := hv
        exact .inl ⟨id, List.mem_cons_self⟩
      | accepted id p =>
        rcases hv with ⟨rfl, -⟩ | hv
        · exact .inr (.inl ⟨id, List.mem_cons_self⟩)
        · exact htail hv
      | _ => exact htail hv

/-- The entry of a reported swap never changes. -/
theorem lookup_peerBook_append {k : SwapId} {tr : List Event} (h : ∃ p, .notedPeer k p ∈ tr) :
    ∀ new : List Event, (peerBook (new ++ tr)).lookup k = (peerBook tr).lookup k
  | [] => rfl
  | ev :: new => by
      rw [← lookup_peerBook_append h new, List.cons_append]
      cases ev with
      | notedPeer id peer =>
        refine lookup_peerBook_noted fun _ => ?_
        obtain ⟨p, hm⟩ := h
        exact ⟨p, List.mem_append_right _ hm⟩
      | _ => rfl

namespace Worker

theorem sourced_of_emits {env : Env} {s : Session} (hs : s.WF env) {op : Op} {ev : Event}
    (h : Session.Emits env s op ev) : Sourced env ev := by
  cases ev with
  | builtFunding id role ctx head answer =>
    obtain ⟨-, c, hc, -, -, rfl⟩ := Session.driven_of_builtFunding h
    exact (hs _ c hc).swapId
  | created id role peer =>
    cases op with
    | message kind payload head =>
      obtain ⟨e, -, hem⟩ := h
      obtain ⟨-, rfl, rfl, -, had, p, hp, rfl⟩ := hem
      obtain ⟨-, p', hp', -, -, hv, -⟩ := had
      exact ⟨e, p, hp, rfl, hv, rfl⟩
    | driveSwap kind payload head =>
      obtain ⟨e, -, hem⟩ := h
      exact hem.elim
    | initiate id head =>
      cases h.1
      trivial
    | _ => exact h.elim
  | accepted id peer =>
    cases op with
    | message kind payload head =>
      obtain ⟨e, -, hem⟩ := h
      obtain ⟨-, rfl, -, a, ha, rfl⟩ := hem
      exact ⟨e, a, ha, rfl, rfl⟩
    | driveSwap kind payload head =>
      obtain ⟨e, -, hem⟩ := h
      exact hem.elim
    | initiate id head => cases h.1
    | _ => exact h.elim
  | _ => trivial

/-- What holds of a worker at every point of a run in order. -/
structure AddressedWorker (env : Env) (w : Worker) : Prop where
  wf : w.session.WF env
  advanced : ∀ k, AdvancedVouched (w.session.slot k)
  addressed : ∀ k, Addressed (histOf k w.session.trace)

theorem addressedWorker_of_fresh (env : Env) {w : Worker} (h : w.session.Fresh) :
    AddressedWorker env w := by
  refine ⟨h.wf env, fun k => ?_, fun k => ?_⟩
  · rw [h.slot k]
    exact .empty _ _
  · rw [h.trace]
    exact ⟨trivial, fun _ hv => hv.elim⟩

/-- One step in order. -/
theorem addressedWorker_step {env : Env} (w : Worker) (op : WorkerOp) (hw : AddressedWorker env w)
    (hok : w.AddressedInOrder env op) : AddressedWorker env (w.step env op) := by
  have hinv : ∀ k now, Session.SlotInvariant (w.session.config env) now k AdvancedVouched := fun k _ =>
    ⟨fun a b hs _ ha => advancedVouched_step a b hs ha, fun a _ => .empty _ _⟩
  refine ⟨?_, fun k => ?_, fun k => ?_⟩
  · rw [step_session]
    exact (Session.exec_config_wf hw.wf _).2
  · rw [step_session]
    exact Session.SlotInvariant.run (hinv k) hw.wf (hw.advanced k) _
  · rw [step_session]
    by_cases hp : ∃ mt sender payload, op = .packet mt sender payload
    · obtain ⟨mt, sender, payload, rfl⟩ := hp
      exact Session.addressed_packet hw.wf hw.advanced hw.addressed hok k
    · refine (Session.addressed_innerCalls hw.wf (fun id hc => ?_) hw.addressed
        (innerCall_calls fun mt sender payload h => hp ⟨mt, sender, payload, h⟩) k).1
      cases op with
      | gcTick => exact hok id hc
      | _ => cases hc

theorem addressedWorker_run {env : Env} {w₀ : Worker} (h₀ : w₀.session.Fresh) {ops : List WorkerOp}
    (hok : Run.Along (step env) (AddressedInOrder env) w₀ ops) : AddressedWorker env (w₀.exec env ops) :=
  Run.exec_invariant (step env) addressedWorker_step ops w₀ (addressedWorker_of_fresh env h₀) hok

/-- RUN: every event of a run has its source. -/
theorem trace_sourced (env : Env) {w₀ : Worker} (h₀ : w₀.session.Fresh) (ops : List WorkerOp) :
    ∀ ev ∈ (w₀.exec env ops).session.trace, Sourced env ev := by
  rw [exec_session]
  have hall : Run.Along (Session.step env) (fun _ _ => True) w₀.session (w₀.runCalls env ops) :=
    Run.along_of_forall_mem _ _ w₀.session fun _ _ _ => trivial
  exact Session.trace_along (h₀.wf env) (by rw [h₀.trace]; simp)
    (fun _ _ hw _ _ _ hev => sourced_of_emits hw hev) hall

/-- A step in order changes the entry of a swap only to the addressing of the message that created or
    advanced it. -/
theorem entry_changes_only_by_voucher {env : Env} {w : Worker} (hw : AddressedWorker env w)
    {op : WorkerOp} (hok : w.AddressedInOrder env op) {k : SwapId}
    (hne : (peerBook (w.step env op).session.trace).lookup k ≠ (peerBook w.session.trace).lookup k) :
    ∃ new p, (w.step env op).session.trace = new ++ w.session.trace ∧
      (peerBook (w.step env op).session.trace).lookup k = some p ∧
      (.created k .responder (some (p.nimAddress, p.chainAddress)) ∈ new ∨
        .accepted k (p.nimAddress, p.chainAddress) ∈ new) := by
  have hw' := addressedWorker_step w op hw hok
  obtain ⟨new, he⟩ : ∃ new, (w.step env op).session.trace = new ++ w.session.trace := by
    rw [step_session]
    exact Session.exec_trace_grows hw.wf _
  have hfresh : ¬ Reported (histOf k w.session.trace) := by
    intro hr
    rw [he] at hne
    exact hne (lookup_peerBook_append (reported_histOf.mp hr) new)
  have hnone : (peerBook w.session.trace).lookup k = none := by
    cases hl : (peerBook w.session.trace).lookup k with
    | none => rfl
    | some p => exact absurd (reported_histOf.mpr (reported_of_lookup hl)) hfresh
  rw [hnone] at hne
  obtain ⟨p, hp⟩ := Option.ne_none_iff_exists'.mp hne
  refine ⟨new, p, he, hp, ?_⟩
  have hv := vouched_of_lookup (hw'.addressed k).inOrder hp
  rw [he, Session.histOf_append] at hv
  rcases hv.of_append with ⟨id, hm⟩ | ⟨id, hm⟩ | hv
  · obtain ⟨hmem, hid⟩ := List.mem_filter.mp hm
    obtain rfl : id = k := of_decide_eq_true hid
    exact .inl hmem
  · obtain ⟨hmem, hid⟩ := List.mem_filter.mp hm
    obtain rfl : id = k := of_decide_eq_true hid
    exact .inr hmem
  · exact absurd ((hw.addressed k).reported _ hv) hfresh

/-- The escrow that a responder hands over pays the address in its book. -/
theorem receiver_of_fundUsdc {cfg : LiveResponder} {rpc : AmoyRpc} {nowS : UInt64} {book : PeerBook}
    {last : Option LandedFunding} {ctx : SwapContext} {f : LandedFunding}
    (h : (cfg.fundUsdc rpc nowS book last ctx).handed = some f) :
    ∃ plan p, f = cfg.planned plan ctx ∧ book.lookup ctx.swapId = some p ∧ p.chainAddress = plan.receiver.1 := by
  have hplan : ∃ plan, cfg.prepareFunding rpc nowS book ctx = some plan ∧ f = cfg.planned plan ctx := by
    unfold LiveResponder.fundUsdc at h
    split at h
    · cases h
    · split at h
      · cases h
      · next plan hp =>
        refine ⟨plan, hp, ?_⟩
        dsimp only at h
        split_ifs at h <;> exact (Option.some.inj h).symm
  obtain ⟨plan, hp, hf⟩ := hplan
  simp only [LiveResponder.prepareFunding, Option.bind_eq_bind, Option.bind_eq_some_iff] at hp
  obtain ⟨p, hlookup, receiver, hreceiver, hp⟩ := hp
  refine ⟨plan, p, hf, hlookup, ?_⟩
  split at hp
  · cases hp
  · simp only [Option.bind_eq_some_iff] at hp
    obtain ⟨gasPrice, -, balance, -, hp⟩ := hp
    split at hp
    · cases hp
    · simp only [Option.bind_eq_some_iff] at hp
      obtain ⟨nonce, -, hp⟩ := hp
      rw [← Option.some.inj hp]
      exact ByteArr.ofBytes?_eq_some.mp hreceiver

/-- CORRECT: in every run in order, an entry of the signer's book is the addressing of the signed
    `Propose` that created the responder or of the `Accept` that the initiator accepted, the recipient of
    every funding on either leg is one of these, and only a message that created or advanced the swap
    changes its entry. -/
theorem payout_addressing_authenticated (env : Env) (w₀ : Worker) (h₀ : w₀.session.Fresh)
    (ops : List WorkerOp) (hok : Run.Along (step env) (AddressedInOrder env) w₀ ops) :
    (∀ ev ∈ (w₀.exec env ops).session.trace, Sourced env ev) ∧
    (∀ k p, (peerBook (w₀.exec env ops).session.trace).lookup k = some p →
      Vouched (p.nimAddress, p.chainAddress) (histOf k (w₀.exec env ops).session.trace)) ∧
    (∀ pre post k role ctx head answer a, (w₀.exec env ops).session.trace =
        pre ++ .builtFunding k role ctx head answer :: post →
      fundNimRecipient (peerBook post) ctx = some a → ∃ chain, Vouched (a, chain) (histOf k post)) ∧
    (∀ pre post k role ctx head answer, (w₀.exec env ops).session.trace =
        pre ++ .builtFunding k role ctx head answer :: post →
      ∀ (cfg : LiveResponder) rpc nowS last f, (cfg.fundUsdc rpc nowS (peerBook post) last ctx).handed = some f →
        ∃ plan nim, f = cfg.planned plan ctx ∧ Vouched (nim, plan.receiver.1) (histOf k post)) ∧
    ∀ op k, (w₀.exec env ops).AddressedInOrder env op →
      (peerBook ((w₀.exec env ops).step env op).session.trace).lookup k ≠
        (peerBook (w₀.exec env ops).session.trace).lookup k →
      ∃ new p, ((w₀.exec env ops).step env op).session.trace =
          new ++ (w₀.exec env ops).session.trace ∧
        (peerBook ((w₀.exec env ops).step env op).session.trace).lookup k = some p ∧
        (.created k .responder (some (p.nimAddress, p.chainAddress)) ∈ new ∨
          .accepted k (p.nimAddress, p.chainAddress) ∈ new) := by
  have hw := addressedWorker_run h₀ hok
  -- the book at a funding names who was vouched for by then
  have hpaid : ∀ {pre post k role ctx head answer p}, (w₀.exec env ops).session.trace =
      pre ++ .builtFunding k role ctx head answer :: post → (peerBook post).lookup ctx.swapId = some p →
      Vouched (p.nimAddress, p.chainAddress) (histOf k post) := by
    intro pre post k role ctx head answer p he hp
    have hid : ctx.swapId = k := by
      refine trace_sourced env h₀ ops (.builtFunding k role ctx head answer) ?_
      rw [he]
      exact List.mem_append_right _ List.mem_cons_self
    rw [hid] at hp
    have hsuffix : histOf k post <:+ histOf k (w₀.exec env ops).session.trace := by
      rw [he]
      exact ((List.suffix_cons _ post).trans (List.suffix_append pre _)).filter _
    exact vouched_of_lookup ((hw.addressed k).inOrder.suffix hsuffix) hp
  refine ⟨trace_sourced env h₀ ops, fun k p hp => vouched_of_lookup (hw.addressed k).inOrder hp, ?_, ?_,
    fun op k hop hne => entry_changes_only_by_voucher hw hop hne⟩
  · intro pre post k role ctx head answer a he ha
    obtain ⟨p, hp, rfl⟩ := Option.map_eq_some_iff.mp ha
    exact ⟨p.chainAddress, hpaid he hp⟩
  · intro pre post k role ctx head answer he cfg rpc nowS last f hf
    obtain ⟨plan, p, hplan, hp, hreceiver⟩ := receiver_of_fundUsdc hf
    exact ⟨plan, p.nimAddress, hplan, hreceiver ▸ hpaid he hp⟩

/-- The sample initiator gets the responder's `Accept`: it funds the address it carries. -/
theorem sample_payout_authenticated :
    Vouched (Sample.acceptance.nimAddress, Sample.acceptance.btcAddress)
      (histOf Sample.swapId (Sample.aliceWorker.exec Sample.env
        (Sample.matched ++ [.packet .swapAccept Sample.bobPeer Sample.accept])).session.trace) := by
  have hempty : ∀ w : Worker, w.session.trace = [] → w.AddressedInOrder Sample.env .gcTick := by
    rintro w htr id - - ⟨i, peer, hm⟩
    rw [htr] at hm
    cases hm
  have hintent : ∀ (w : Worker) payload,
      w.AddressedInOrder Sample.env (.packet .swapIntent Sample.bobPeer payload) := by
    intro w payload kind e hr
    cases hr
  have hdecode : decodeSwap .accept Sample.accept = .ok Sample.acceptance.toEnvelope := by decide +kernel
  have haccept : ∀ w : Worker, (w.session.coordinators.lookup Sample.swapId).all
      (fun c => (assessLadder c.swap.terms w.head c.ladder).isSafe) = true →
      w.AddressedInOrder Sample.env (.packet .swapAccept Sample.bobPeer Sample.accept) := by
    intro w hsafe kind e hr hd
    obtain rfl : SwapKind.accept = kind := Option.some.inj hr
    rw [hdecode] at hd
    cases hd
    refine ⟨fun c peer hc _ _ => ⟨rfl, ?_⟩, fun h => by cases h⟩
    rw [show w.session.coordinators.lookup Sample.swapId = some c from hc] at hsafe
    exact hsafe
  have hok : Run.Along (step Sample.env) (AddressedInOrder Sample.env) Sample.aliceWorker
      (Sample.matched ++ [.packet .swapAccept Sample.bobPeer Sample.accept]) :=
    (Run.along_append _ _ _ _ _).mpr ⟨⟨trivial, hintent _ _, hempty _ (by decide +kernel),
      hempty _ (by decide +kernel), trivial⟩, haccept _ (by decide +kernel), trivial⟩
  have hbook : (peerBook (Sample.aliceWorker.exec Sample.env
      (Sample.matched ++ [.packet .swapAccept Sample.bobPeer Sample.accept])).session.trace).lookup
      Sample.swapId = some ⟨Sample.acceptance.nimAddress, Sample.acceptance.btcAddress⟩ := by
    decide +kernel
  revert hok hbook
  generalize Sample.matched ++ [.packet .swapAccept Sample.bobPeer Sample.accept] = ops
  intro hok hbook
  exact (payout_addressing_authenticated Sample.env Sample.aliceWorker Sample.alice_fresh ops hok).2.1
    Sample.swapId _ hbook

/-- An address of the attacker. -/
def attackerAddress : NimAddress := ByteArr.fill 20 0x66

/-- The injected `Propose`: the id of the initiator's own swap, an address of the attacker, no
    signature. -/
def injectedPropose : Bytes :=
  Sample.wire (SwapProposal.toEnvelope
    { Sample.proposal with nimAddress := attackerAddress, btcAddress := List.replicate 20 0x66 })

/-- It reaches the initiator between its `Propose` and the responder's `Accept`. -/
def injectedRun : List WorkerOp :=
  Sample.matched ++ [.packet .swapPropose (ByteArr.fill 8 0x66) injectedPropose,
    .packet .swapAccept Sample.bobPeer Sample.accept]

/-- An unsigned `Propose` that creates and advances nothing names the recipient of the funding. -/
theorem injected_propose_redirects_funding :
    (Sample.aliceWorker.exec Sample.env injectedRun).session.trace =
      .builtFunding Sample.swapId .initiator
          (Session.initiatorContext Sample.intent Sample.swapId Sample.hashlock 0) 0
          (MockSigner.buildFunding
            (Session.initiatorContext Sample.intent Sample.swapId Sample.hashlock 0) .nim) ::
        (Sample.aliceWorker.exec Sample.env injectedRun).session.trace.tail ∧
    fundNimRecipient (peerBook (Sample.aliceWorker.exec Sample.env injectedRun).session.trace.tail)
        (Session.initiatorContext Sample.intent Sample.swapId Sample.hashlock 0) =
      some attackerAddress ∧
    ¬ Vouched (attackerAddress, List.replicate 20 0x66)
        (histOf Sample.swapId (Sample.aliceWorker.exec Sample.env injectedRun).session.trace.tail) := by
  decide +kernel

end Worker

end Nimmesh
