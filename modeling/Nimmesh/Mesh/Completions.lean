import Nimmesh.Mesh.Rounds

/-! @src fragment.rs engine.rs | name:Completed messages and their dispatch | layer:properties

    A completed message gets a sender of zeros and the clock's reading for a timestamp, and then passes the same
    first-seen gate as every packet. So its handler takes it exactly if no packet of its type, of that sender and of
    that millisecond is remembered: of two messages of one type that complete within a millisecond, one is lost. -/

namespace Nimmesh
namespace MeshNode
open Reassembler

/-! ### Rounds -/

/-- A packet on its way to its handler, where it came from, and the node as it is then. -/
structure Round where
  packet : Packet
  src : Option Link
  node : MeshNode

/-- The node after the round. -/
def Round.next (env : NodeEnv) (x : Round) : MeshNode := (x.node.dispatchOnce env x.packet x.src).2

def roundsLoop (env : NodeEnv) : ℕ → Packet → Option Link → MeshNode → List Round
  | 0, _, _, _ => []
  | fuel + 1, p, src, n =>
    ⟨p, src, n⟩ :: match n.dispatchOnce env p src with
      | (none, _) => []
      | (some r, n) => roundsLoop env fuel r none n

/-- The rounds of a dispatch. -/
def rounds (env : NodeEnv) (p : Packet) (src : Option Link) (n : MeshNode) : List Round :=
  roundsLoop env (n.load p + 1) p src n

/-- The rounds of a run of packets. -/
def roundsOf (env : NodeEnv) : MeshNode → List (Packet × Option Link) → List Round
  | _, [] => []
  | n, a :: as => n.rounds env a.1 a.2 ++ roundsOf env (n.dispatchPacket env a.1 a.2) as

/-- The rounds lead from one node to the other. -/
def Leads (env : NodeEnv) : MeshNode → List Round → MeshNode → Prop
  | n, [], m => n = m
  | n, x :: xs, m => x.node = n ∧ Leads env (x.next env) xs m

theorem leads_append {env : NodeEnv} {n k : MeshNode} {xs ys : List Round} :
    Leads env n (xs ++ ys) k ↔ ∃ m, Leads env n xs m ∧ Leads env m ys k := by
  induction xs generalizing n with
  | nil => simp [Leads]
  | cons x xs ih => simp [Leads, ih, and_assoc]

theorem roundsLoop_leads (env : NodeEnv) {fuel : ℕ} {p : Packet} {src : Option Link} {n : MeshNode}
    (h : n.load p < fuel) : Leads env n (roundsLoop env fuel p src n) (n.dispatchPacket env p src) := by
  induction fuel generalizing p src n with
  | zero => omega
  | succ fuel ih =>
    rw [roundsLoop, dispatchPacket_eq]
    refine ⟨rfl, ?_⟩
    rcases hround : n.dispatchOnce env p src with ⟨_ | r, n'⟩
    · simp only [Round.next, hround]
      rfl
    · have hload := load_dispatchOnce hround
      simp only [Round.next, hround]
      exact ih (by omega)

/-- RUN: the rounds of a run lead to the node it leaves behind. -/
theorem roundsOf_leads (env : NodeEnv) (as : List (Packet × Option Link)) (n : MeshNode) :
    Leads env n (roundsOf env n as) (Run.exec (fun n a => n.dispatchPacket env a.1 a.2) n as) := by
  induction as generalizing n with
  | nil => rfl
  | cons a as ih => exact leads_append.mpr ⟨_, roundsLoop_leads env (Nat.lt_succ_self _), ih _⟩

/-! ### What is fed to the reassembler -/

/-- The fragment that the round lets in, with the reading of the clock at which it is fed. -/
def Round.fed (env : NodeEnv) (x : Round) : Option (Fragment × UInt64) :=
  if x.packet.msgType = .fragment ∧ relayKey x.packet ∉ x.node.relaySeen.order then
    (parseFragment x.packet.payload).map fun f => (f, ((x.node.firstSeen x.packet).2.remember env x.packet).now env)
  else none

/-- A message that a round completed, under which id, and the node that is about to dispatch it. -/
structure Completion where
  id : FragmentId
  message : Packet
  node : MeshNode

def Round.completion (env : NodeEnv) (x : Round) : Option Completion :=
  match x.fed env, x.node.dispatchOnce env x.packet x.src with
  | some e, (some r, n) => some ⟨e.1.id, r, n⟩
  | _, _ => none

/-- A packet that was seen before changes nothing. -/
theorem firstSeen_of_mem {p : Packet} {n : MeshNode} (h : relayKey p ∈ n.relaySeen.order) :
    n.firstSeen p = (false, n) := by
  rw [firstSeen, DedupCache.insert_of_mem h]
  rfl

theorem firstSeen_of_notMem {p : Packet} {n : MeshNode} (h : relayKey p ∉ n.relaySeen.order) :
    (n.firstSeen p).1 = true := by
  rw [firstSeen, DedupCache.insert, dif_neg h]

theorem trace_firstSeen {p : Packet} {n : MeshNode} (h : relayKey p ∉ n.relaySeen.order) :
    (n.firstSeen p).2.io.trace = .took p :: n.io.trace := by
  rw [firstSeen, DedupCache.insert, dif_neg h]
  rfl

/-- The message of a completed set, as it is dispatched at a reading of the clock. -/
def reassembled (msgType : MessageType) (payload : Bytes) (timestampMs : UInt64) : Packet :=
  { msgType, senderId := ByteArr.fill peerIdLen 0, payload, ttl := 0, timestampMs }

section OneRound
variable {env : NodeEnv} {x : Round}

theorem dispatchOnce_fst_of_ne (h : x.packet.msgType ≠ .fragment) :
    (x.node.dispatchOnce env x.packet x.src).1 = none := by
  cases hout : (x.node.dispatchOnce env x.packet x.src).1 with
  | none => rfl
  | some r => exact absurd (dispatchOnce_some (Prod.ext hout rfl)).1 h

theorem dispatchOnce_fragment (h : x.packet.msgType = .fragment) :
    x.node.dispatchOnce env x.packet x.src = x.node.handleFragment env x.packet x.src := by
  rw [dispatchOnce, h]

/-- A round that feeds nothing completes nothing. -/
theorem dispatch_unfed (h : x.fed env = none) :
    (x.node.dispatchOnce env x.packet x.src).1 = none ∧ (x.next env).reassembler = x.node.reassembler := by
  by_cases hty : x.packet.msgType = .fragment
  · rw [Round.next, dispatchOnce_fragment hty]
    by_cases hseen : relayKey x.packet ∈ x.node.relaySeen.order
    · simp [handleFragment, firstSeen_of_mem hseen]
    · rw [Round.fed, if_pos ⟨hty, hseen⟩, Option.map_eq_none_iff] at h
      simp [handleFragment, firstSeen_of_notMem hseen, h]
      rfl
  · exact ⟨dispatchOnce_fst_of_ne hty, (keeps_dispatchOnce env x.packet x.src x.node hty).reassembler⟩

/-- What a round feeds is taken in, and the message that it completes is given back. -/
theorem dispatch_fed {e : Fragment × UInt64} (h : x.fed env = some e) :
    (x.next env).reassembler = Reassembler.step x.node.reassembler e ∧
    ((accept x.node.reassembler e.1 e.2).1 = none → (x.node.dispatchOnce env x.packet x.src).1 = none) ∧
    ∀ (mt : MessageType) (payload : Bytes), (accept x.node.reassembler e.1 e.2).1 = some (mt.toU8, payload) →
      ∃ t, (x.node.dispatchOnce env x.packet x.src).1 = some (reassembled mt payload t) := by
  rw [Round.fed] at h
  split_ifs at h with hin
  obtain ⟨f, hf, rfl⟩ := Option.map_eq_some_iff.mp h
  rw [Round.next, dispatchOnce_fragment hin.1]
  have hre : ∀ m : MeshNode, (m.ask.relayOnward env x.packet x.src).reassembler = m.reassembler := by
    intro m
    rw [relayOnward_reassembler]
    rfl
  have hsame : ((x.node.firstSeen x.packet).2.remember env x.packet).reassembler = x.node.reassembler := rfl
  simp only [handleFragment, firstSeen_of_notMem hin.2, hf, hre, hsame, Reassembler.step]
  rcases hacc : accept x.node.reassembler f (((x.node.firstSeen x.packet).2.remember env x.packet).now env) with
    ⟨_ | ⟨ty, msg⟩, r⟩
  · simp
  · have hknown : ∀ (mt : MessageType) (payload : Bytes), some (ty, msg) = some (mt.toU8, payload) →
        MessageType.fromU8 ty = some mt ∧ msg = payload := by
      intro mt payload hdone
      obtain ⟨rfl, rfl⟩ := Prod.mk.inj (Option.some.inj hdone)
      exact ⟨MessageType.fromU8_toU8 mt, rfl⟩
    cases hmt : MessageType.fromU8 ty with
    | none =>
      simp only [hmt]
      refine ⟨rfl, fun _ => rfl, ?_⟩
      intro mt payload hdone
      rw [(hknown mt payload hdone).1] at hmt
      cases hmt
    | some mt' =>
      simp only [hmt]
      refine ⟨rfl, fun hnone => absurd hnone (Option.some_ne_none _), ?_⟩
      intro mt payload hdone
      obtain ⟨hty, rfl⟩ := hknown mt payload hdone
      rw [hty] at hmt
      obtain rfl := Option.some.inj hmt
      exact ⟨_, rfl⟩

theorem completion_of_unfed (h : x.fed env = none) : x.completion env = none := by
  rw [Round.completion, h]

theorem completion_of_none {e : Fragment × UInt64} (h : x.fed env = some e)
    (hacc : (accept x.node.reassembler e.1 e.2).1 = none) : x.completion env = none := by
  have hout := (dispatch_fed h).2.1 hacc
  rw [Round.completion, h, ← Prod.eta (x.node.dispatchOnce env x.packet x.src), hout]

theorem completion_of_some {e : Fragment × UInt64} (h : x.fed env = some e) {mt : MessageType} {payload : Bytes}
    (hacc : (accept x.node.reassembler e.1 e.2).1 = some (mt.toU8, payload)) :
    ∃ t, x.completion env = some ⟨e.1.id, reassembled mt payload t, x.next env⟩ := by
  obtain ⟨t, hout⟩ := (dispatch_fed h).2.2 mt payload hacc
  refine ⟨t, ?_⟩
  rw [Round.completion, h, ← Prod.eta (x.node.dispatchOnce env x.packet x.src), hout]
  rfl

/-- A completed message keeps the id of the fragment that completed it. -/
theorem completion_id {e : Fragment × UInt64} (h : x.fed env = some e) {c : Completion}
    (hc : x.completion env = some c) : c.id = e.1.id := by
  rw [Round.completion, h, ← Prod.eta (x.node.dispatchOnce env x.packet x.src)] at hc
  cases hout : (x.node.dispatchOnce env x.packet x.src).1 with
  | none =>
    rw [hout] at hc
    cases hc
  | some r =>
    rw [hout] at hc
    cases hc
    rfl

theorem next_reassembler : (x.next env).reassembler =
    (x.fed env).elim x.node.reassembler (Reassembler.step x.node.reassembler) := by
  cases h : x.fed env with
  | none => exact (dispatch_unfed h).2
  | some e => exact (dispatch_fed h).1

end OneRound

/-- RUN: the reassembler is run on what is fed to it. -/
theorem leads_reassembler {env : NodeEnv} {n m : MeshNode} {xs : List Round} (h : Leads env n xs m) :
    m.reassembler = Run.exec Reassembler.step n.reassembler (xs.filterMap (Round.fed env)) := by
  induction xs generalizing n with
  | nil =>
    rw [show m = n from h.symm]
    rfl
  | cons x xs ih =>
    obtain ⟨rfl, hrest⟩ := h
    rw [ih hrest, next_reassembler, List.filterMap_cons]
    cases x.fed env with
    | none => rfl
    | some e => rfl

/-! ### How often a message is completed -/

/-- The completions under an id. -/
def completions (env : NodeEnv) (id : FragmentId) (xs : List Round) : List Completion :=
  (xs.filterMap (Round.completion env)).filter (·.id = id)

/-- What comes in of a message under an id that is not in flight: its own fragments, each of them once, while its
    set is neither too old nor crowded out. -/
structure Arrivals (mt : MessageType) (payload : Bytes) (chunkSize : ℕ) (id : FragmentId) (r : Reassembler)
    (es : List (Fragment × UInt64)) : Prop where
  small : pieceCount payload chunkSize ≤ 65535
  fresh : r.lookup id = none
  own : OwnPieces mt.toU8 payload chunkSize id es
  once : ((es.filter fun e => e.1.id = id).map fun e => e.1.index).Nodup
  bounds : Run.Along Reassembler.step (InBounds id) r es

section OneMessage
variable {env : NodeEnv} {n m : MeshNode} {xs : List Round} {mt : MessageType} {payload : Bytes} {chunkSize : ℕ}
  {id : FragmentId} {r : Reassembler} {es : List (Fragment × UInt64)} {e : Fragment × UInt64}

theorem Arrivals.before (h : Arrivals mt payload chunkSize id r (es ++ [e])) :
    Arrivals mt payload chunkSize id r es where
  small := h.small
  fresh := h.fresh
  own := fun e' he' => h.own e' (List.mem_append_left _ he')
  once := by
    have honce := h.once
    rw [List.filter_append, List.map_append] at honce
    exact (List.nodup_append.mp honce).1
  bounds := ((Run.along_append _ _ _ _ _).mp h.bounds).1

/-- The piece that comes in last was missing until then. -/
theorem Arrivals.missing (h : Arrivals mt payload chunkSize id r (es ++ [e])) (hid : e.1.id = id) :
    arrived id es ≠ (pieceIndices payload chunkSize).toFinset := by
  intro hall
  have hindex : e.1.index ∈ arrived id (es ++ [e]) :=
    mem_arrived.mpr ⟨e, List.mem_append_right es (List.mem_singleton_self e), hid, rfl⟩
  have hthere := arrived_subset h.small h.own hindex
  have honce := h.once
  rw [List.filter_append, List.map_append, List.filter_singleton, decide_eq_true hid] at honce
  rw [← hall, arrived, List.mem_toFinset] at hthere
  exact (List.nodup_append.mp honce).2.2 _ hthere _ (List.mem_singleton_self _) rfl

theorem completions_concat (x : Round) : completions env id (xs ++ [x]) =
    completions env id xs ++ (x.completion env).toList.filter (·.id = id) := by
  rw [completions, List.filterMap_append, List.filter_append]
  cases hx : x.completion env with
  | none => simp [completions, hx]
  | some c => simp [completions, hx]

/-- INVARIANT: a message is completed once all of its fragments have come in, and not before. -/
theorem completions_of_arrivals (hleads : Leads env n xs m)
    (h : Arrivals mt payload chunkSize id n.reassembler (xs.filterMap (Round.fed env))) :
    (arrived id (xs.filterMap (Round.fed env)) ≠ (pieceIndices payload chunkSize).toFinset →
      completions env id xs = []) ∧
    (arrived id (xs.filterMap (Round.fed env)) = (pieceIndices payload chunkSize).toFinset →
      ∃ t k, completions env id xs = [⟨id, reassembled mt payload t, k⟩]) := by
  induction xs using List.reverseRecOn generalizing m with
  | nil =>
    refine ⟨fun _ => rfl, ?_⟩
    intro hall
    have hnone : (pieceIndices payload chunkSize).toFinset = ∅ := hall.symm
    rw [List.toFinset_eq_empty_iff, pieceIndices, List.map_eq_nil_iff, List.range_eq_nil] at hnone
    exact absurd hnone (pieceCount_pos payload chunkSize).ne'
  | append_singleton xs x ih =>
    obtain ⟨k, hxs, rfl, -⟩ := leads_append.mp hleads
    rw [completions_concat]
    rw [List.filterMap_append] at h ⊢
    cases hx : x.fed env with
    | none =>
      rw [completion_of_unfed hx]
      simp only [List.filterMap_cons, List.filterMap_nil, hx, List.append_nil] at h ⊢
      simpa using ih hxs h
    | some e =>
      simp only [List.filterMap_cons, List.filterMap_nil, hx] at h ⊢
      have hbefore := ih hxs h.before
      rw [arrived_concat]
      by_cases hid : e.1.id = id
      · have hmissing := h.missing hid
        have hheld := holding_exec h.small _ h.before.own h.before.bounds (Finset.empty_subset _)
          (by rwa [Finset.empty_union]) (r := n.reassembler) (by rw [Holding, if_pos rfl]; exact h.fresh)
        rw [Finset.empty_union, ← leads_reassembler hxs] at hheld
        have hin := ((Run.along_append _ _ _ _ _).mp h.bounds).2.1
        rw [← leads_reassembler hxs] at hin
        have hlast := accept_last h.small h.own hid hheld hin
        rw [if_pos hid, hbefore.1 hmissing]
        split_ifs at hlast with hall
        · obtain ⟨t, hc⟩ := completion_of_some hx hlast
          rw [hc]
          refine ⟨fun hnot => absurd hall hnot, fun _ => ⟨t, x.next env, ?_⟩⟩
          simp [hid]
        · rw [completion_of_none hx hlast]
          exact ⟨fun _ => rfl, fun hdone => absurd hdone hall⟩
      · have hother : (x.completion env).toList.filter (·.id = id) = [] := by
          cases hc : x.completion env with
          | none => rfl
          | some c => simp [completion_id hx hc, hid]
        rw [if_neg hid, hother, List.append_nil]
        exact hbefore

end OneMessage

/-! ### Whether it is dispatched -/

theorem keeps_handleFragment (env : NodeEnv) (p : Packet) (src : Option Link) (n : MeshNode) :
    (n.firstSeen p).2.io.trace <:+ (n.handleFragment env p src).2.io.trace := by
  have hahead : Keeps (n.firstSeen p).2 ((((n.firstSeen p).2.remember env p).ask).relayOnward env p src) := by
    refine .trans ?_ (keeps_relayOnward env p src _)
    exact (keeps_remember env p _).trans (keeps_of_eq rfl rfl)
  simp only [handleFragment]
  split_ifs
  · exact List.suffix_rfl
  · split
    · exact hahead.trace
    · split
      · exact hahead.trace
      · split
        · exact hahead.trace
        · exact hahead.trace

theorem trace_dispatchOnce (env : NodeEnv) (p : Packet) (src : Option Link) (n : MeshNode) :
    (n.firstSeen p).2.io.trace <:+ (n.dispatchOnce env p src).2.io.trace := by
  by_cases hty : p.msgType = .fragment
  · rw [dispatchOnce, hty]
    exact keeps_handleFragment env p src n
  · exact (keeps_dispatchOnce env p src n hty).trace

/-- A packet that was seen before is dropped, whatever its type. -/
theorem dispatchOnce_seen (env : NodeEnv) {p : Packet} {src : Option Link} {n : MeshNode}
    (h : relayKey p ∈ n.relaySeen.order) : n.dispatchOnce env p src = (none, n) := by
  rw [dispatchOnce]
  split <;> simp [handleTx, handleReceipt, handleHeadBeacon, handleBalanceQuery, handleBalanceResponse,
    handleHistoryQuery, handleHistoryResponse, handleFragment, handleSwapPacket, handleChatPacket, handleOther,
    firstSeen_of_mem h]

/-- The handler of its type takes the message. -/
def Completion.Dispatched (env : NodeEnv) (c : Completion) : Prop :=
  .took c.message :: c.node.io.trace <:+ (c.node.dispatchOnce env c.message none).2.io.trace

/-- No packet of the message's type, sender and time is remembered as the message is about to be dispatched. -/
def Completion.Unseen (c : Completion) : Prop := relayKey c.message ∉ c.node.relaySeen.order

theorem dispatched_iff (env : NodeEnv) (c : Completion) : c.Dispatched env ↔ c.Unseen := by
  constructor
  · intro h hseen
    rw [Completion.Dispatched, dispatchOnce_seen env hseen] at h
    exact absurd h.length_le (Nat.not_succ_le_self _)
  · intro h
    rw [Completion.Dispatched, ← trace_firstSeen h]
    exact trace_dispatchOnce env c.message none c.node

/-- EXACT: whatever else comes in, of a message whose fragments come in once each nothing is completed before the last
    of them and the message itself exactly once then; and its handler takes it exactly if no packet of its type, of
    the sender that reassembled messages are given and of the clock's reading is remembered at that moment. -/
theorem reassembled_dispatched (env : NodeEnv) (n : MeshNode) (as : List (Packet × Option Link)) (mt : MessageType)
    (payload : Bytes) (chunkSize : ℕ) (id : FragmentId)
    (h : Arrivals mt payload chunkSize id n.reassembler ((roundsOf env n as).filterMap (Round.fed env))) :
    (¬ AllArrived mt.toU8 payload chunkSize id ((roundsOf env n as).filterMap (Round.fed env)) →
      completions env id (roundsOf env n as) = []) ∧
    (AllArrived mt.toU8 payload chunkSize id ((roundsOf env n as).filterMap (Round.fed env)) →
      ∃ t m, completions env id (roundsOf env n as) = [⟨id, reassembled mt payload t, m⟩] ∧
        ((Completion.mk id (reassembled mt payload t) m).Dispatched env ↔
          (Completion.mk id (reassembled mt payload t) m).Unseen)) := by
  have hcount := completions_of_arrivals (roundsOf_leads env as n) h
  have hall := allArrived_iff h.small h.own
  refine ⟨fun hnot => hcount.1 fun hdone => hnot (hall.mpr hdone), ?_⟩
  intro hdone
  obtain ⟨t, m, hc⟩ := hcount.2 (hall.mp hdone)
  exact ⟨t, m, hc, dispatched_iff env _⟩

instance (c : Completion) : Decidable c.Unseen := inferInstanceAs (Decidable (_ ∉ _))

def firstId : FragmentId := ByteArr.fill fragmentIdLen 1

def secondId : FragmentId := ByteArr.fill fragmentIdLen 2

def firstReceipt : Bytes := encodeReceipt (ByteArr.fill hashLen 1) .accepted

def secondReceipt : Bytes := encodeReceipt (ByteArr.fill hashLen 2) .accepted

/-- A receipt in a single fragment. -/
def receiptFragment (id : FragmentId) (receipt : Bytes) : Fragment :=
  ⟨id, 0, 1, MessageType.nimiqTxReceipt.toU8, receipt⟩

/-- Two receipts, each in a fragment of its own. -/
def twoReceipts : List (Packet × Option Link) :=
  [(Sample.meshPacket .fragment (encodeFragment (receiptFragment firstId firstReceipt)) 10, none),
    (Sample.meshPacket .fragment (encodeFragment (receiptFragment secondId secondReceipt)) 11, none)]

/-- Both receipts are completed, under a clock that reads the same for both, but only the first is taken. -/
theorem second_receipt_lost :
    let env := Sample.meshEnv (fun _ => 5000) none
    let rs := roundsOf env Sample.meshNode twoReceipts
    (completions env firstId rs).length = 1 ∧ (completions env secondId rs).length = 1 ∧
      (∀ c ∈ completions env firstId rs, c.Dispatched env) ∧ (∀ c ∈ completions env secondId rs, ¬ c.Dispatched env) ∧
      (Run.exec (fun n a => n.dispatchPacket env a.1 a.2) Sample.meshNode twoReceipts).acked.order =
        [ByteArr.fill hashLen 1] := by
  intro env rs
  simp only [dispatched_iff]
  refine ⟨?_, ?_, ?_, ?_, ?_⟩ <;> decide +kernel

/-- Under a clock that moves on, the second receipt is taken as well. -/
theorem sample_reassembled_dispatched :
    ∃ t m, completions (Sample.meshEnv Nat.toUInt64 none) secondId
        (roundsOf (Sample.meshEnv Nat.toUInt64 none) Sample.meshNode twoReceipts) =
        [⟨secondId, reassembled .nimiqTxReceipt secondReceipt t, m⟩] ∧
      (Completion.mk secondId (reassembled .nimiqTxReceipt secondReceipt t) m).Dispatched
        (Sample.meshEnv Nat.toUInt64 none) := by
  have hfed : (roundsOf (Sample.meshEnv Nat.toUInt64 none) Sample.meshNode twoReceipts).filterMap
      (Round.fed (Sample.meshEnv Nat.toUInt64 none)) =
      [(receiptFragment firstId firstReceipt, 1), (receiptFragment secondId secondReceipt, 6)] := by
    decide +kernel
  have harr : Arrivals .nimiqTxReceipt secondReceipt 100 secondId Sample.meshNode.reassembler
      ((roundsOf (Sample.meshEnv Nat.toUInt64 none) Sample.meshNode twoReceipts).filterMap
        (Round.fed (Sample.meshEnv Nat.toUInt64 none))) := by
    rw [hfed]
    refine ⟨by decide +kernel, rfl, by decide +kernel, by decide +kernel, ?_, ?_, trivial⟩
    · decide +kernel
    · decide +kernel
  have hall : AllArrived MessageType.nimiqTxReceipt.toU8 secondReceipt 100 secondId
      ((roundsOf (Sample.meshEnv Nat.toUInt64 none) Sample.meshNode twoReceipts).filterMap
        (Round.fed (Sample.meshEnv Nat.toUInt64 none))) := by
    rw [allArrived_iff harr.small harr.own, hfed]
    decide +kernel
  have hunseen : ∀ c ∈ completions (Sample.meshEnv Nat.toUInt64 none) secondId
      (roundsOf (Sample.meshEnv Nat.toUInt64 none) Sample.meshNode twoReceipts), c.Unseen := by
    decide +kernel
  obtain ⟨t, m, hc, hiff⟩ := (reassembled_dispatched _ _ _ _ _ _ _ harr).2 hall
  exact ⟨t, m, hc, hiff.mpr (hunseen _ (hc ▸ List.mem_singleton_self _))⟩

end MeshNode
end Nimmesh
