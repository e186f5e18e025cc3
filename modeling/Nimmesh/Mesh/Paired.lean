import Nimmesh.Lib.Mirror
import Nimmesh.Lib.Run
import Nimmesh.Mesh.Caches
import Nimmesh.Swap.Node

/-! @src dedup.rs store_forward.rs swap_node.rs | name:Bounded caches as map and queue | layer:model

    The three bounded caches with both of their halves: the map that is searched and the queue that says what is
    oldest. Each call keeps the halves in step, so that the caches are the single lists of their other model. -/

namespace Nimmesh.Paired
open Word

/-! ### The dedup set -/

structure DedupCache (κ : Type) where
  capacity : ℕ
  set : Table κ Unit := ∅
  order : List κ := []

namespace DedupCache

variable {κ : Type} [DecidableEq κ]

def new (capacity : ℕ) : DedupCache κ := { capacity := max capacity 1 }

def insert (c : DedupCache κ) (key : κ) : Bool × DedupCache κ :=
  if (c.set.lookup key).isSome then (false, c)
  else
    let (set, order) := Mirror.evict c.capacity c.set c.order
    (true, { c with set := set.insert key (), order := order ++ [key] })

/-- The keys that a run of insertions accepts. -/
def accepted (c : DedupCache κ) : List κ → List κ
  | [] => []
  | key :: keys =>
    let (fresh, c) := c.insert key
    if fresh then key :: c.accepted keys else c.accepted keys

/-- The halves are in step, and the queue is that of the other model. -/
structure Represents (c : DedupCache κ) (d : Nimmesh.DedupCache κ) : Prop where
  capacity : c.capacity = d.capacity
  order : c.order = d.order
  inStep : Mirror.InStep c.set c.order

variable {c : DedupCache κ} {d : Nimmesh.DedupCache κ}

theorem Represents.mem (h : c.Represents d) (key : κ) : (c.set.lookup key).isSome = true ↔ key ∈ d.order := by
  rw [AList.lookup_isSome, ← h.inStep.same, h.order]

/-- STEP: an insertion does the same in both models. -/
theorem Represents.insert (h : c.Represents d) (key : κ) :
    (c.insert key).1 = (d.insert key).1 ∧ (c.insert key).2.Represents (d.insert key).2 := by
  by_cases hin : key ∈ d.order
  · rw [DedupCache.insert, if_pos ((h.mem key).mpr hin), Nimmesh.DedupCache.insert_of_mem hin]
    exact ⟨rfl, h⟩
  · have hset : key ∉ c.set := fun hmem => hin ((h.mem key).mp (AList.lookup_isSome.mpr hmem))
    rw [DedupCache.insert, if_neg fun hsome => hin ((h.mem key).mp hsome), Nimmesh.DedupCache.insert, dif_neg hin]
    refine ⟨rfl, h.capacity, ?_, (h.inStep.evict c.capacity).push (fun hmem => hset (Mirror.mem_of_mem_evict hmem)) ()⟩
    simp only
    rw [Mirror.evict_push, h.order, h.capacity]

omit [DecidableEq κ] in
theorem represents_new (capacity : ℕ) : (new capacity : DedupCache κ).Represents (.new capacity) :=
  ⟨rfl, rfl, Mirror.inStep_empty⟩

def step (c : DedupCache κ) (key : κ) : DedupCache κ := (c.insert key).2

/-- RUN: so do any insertions, and the queue is what a bounded queue makes of the accepted keys. -/
theorem Represents.exec (keys : List κ) (h : c.Represents d) :
    (Run.exec step c keys).Represents (Run.exec (fun d key => (Nimmesh.DedupCache.insert d key).2) d keys) ∧
      (Run.exec step c keys).order = (c.accepted keys).foldl (Fifo.push c.capacity) c.order ∧
      (Run.exec step c keys).capacity = c.capacity := by
  induction keys generalizing c d with
  | nil => exact ⟨h, rfl, rfl⟩
  | cons key keys ih =>
    obtain ⟨hfresh, hnext⟩ := h.insert key
    obtain ⟨hrep, horder, hcap⟩ := ih hnext
    have hcapacity : (c.insert key).2.capacity = c.capacity := by
      rw [DedupCache.insert]
      split_ifs <;> rfl
    rw [Run.exec_cons, Run.exec_cons]
    refine ⟨hrep, ?_, hcap.trans hcapacity⟩
    rw [step, horder, hcapacity, accepted]
    by_cases hsome : (c.set.lookup key).isSome = true
    · rw [DedupCache.insert, if_pos hsome]
      rfl
    · rw [DedupCache.insert, if_neg hsome]
      simp only [if_true, List.foldl_cons]
      rw [Mirror.evict_push]

/-- What the cache is after a run from the start. -/
theorem exec_new (capacity : ℕ) (keys : List κ) (key : κ) :
    ((Run.exec step (new capacity) keys).insert key).1 = false ↔
      key ∈ ((new capacity : DedupCache κ).accepted keys).rtake (max capacity 1) := by
  obtain ⟨hrep, horder, -⟩ := (represents_new (κ := κ) capacity).exec keys
  rw [(hrep.insert key).1, Nimmesh.DedupCache.insert_fst, Bool.not_eq_false', decide_eq_true_eq, ← hrep.order, horder]
  have hpush := Fifo.foldl_push (show 0 < (new capacity : DedupCache κ).capacity by simp [new])
    ((new capacity : DedupCache κ).accepted keys) [] (Nat.zero_le _)
  rw [List.nil_append] at hpush
  rw [show (new capacity : DedupCache κ).order = [] from rfl, hpush]
  rfl

end DedupCache

/-! ### The recent cache -/

structure RecentCache where
  map : Table PacketId (Packet × UInt64) := ∅
  order : List PacketId := []

namespace RecentCache

/-- Drop what is too old from the front of the queue, and keys without an entry. -/
def gcFrom (nowMs : UInt64) (map : Table PacketId (Packet × UInt64)) : List PacketId → RecentCache
  | [] => ⟨map, []⟩
  | front :: rest =>
    match map.lookup front with
    | some entry =>
      if recentRetentionMs < satSub nowMs entry.2 then gcFrom nowMs (map.erase front) rest else ⟨map, front :: rest⟩
    | none => gcFrom nowMs map rest

def gc (c : RecentCache) (nowMs : UInt64) : RecentCache := gcFrom nowMs c.map c.order

/-- At capacity the oldest entry goes. -/
def makeRoom (c : RecentCache) : RecentCache :=
  if recentCacheCap ≤ Table.len c.map then
    match c.order with
    | [] => c
    | old :: rest => ⟨c.map.erase old, rest⟩
  else c

def insert (c : RecentCache) (id : PacketId) (packet : Packet) (nowMs : UInt64) : Bool × RecentCache :=
  let c := c.gc nowMs
  if (c.map.lookup id).isSome then (false, c)
  else
    let c := c.makeRoom
    (true, ⟨c.map.insert id (packet, nowMs), c.order ++ [id]⟩)

def advertiseIds (c : RecentCache) (nowMs : UInt64) : List PacketId × RecentCache :=
  let c := c.gc nowMs
  (c.order.reverse.take gcsMaxItems, c)

def missing (c : RecentCache) (filter : GcsFilter) (nowMs : UInt64) : List Packet × RecentCache :=
  let c := c.gc nowMs
  ((c.order.filter fun id => !filter.contains id).filterMap fun id => (c.map.lookup id).map (·.1), c)

/-- The halves are in step, and hold the entries of the other model in their order. -/
structure Holds (c : RecentCache) (entries : List RecentEntry) : Prop where
  order : c.order = entries.map (·.id)
  inStep : Mirror.InStep c.map c.order
  entry : ∀ e ∈ entries, c.map.lookup e.id = some (e.packet, e.atMs)

theorem gcFrom_holds (nowMs : UInt64) {map : Table PacketId (Packet × UInt64)} {entries : List RecentEntry}
    (h : Holds ⟨map, entries.map (·.id)⟩ entries) :
    (gcFrom nowMs map (entries.map (·.id))).Holds (entries.dropWhile (RecentCache.expired nowMs)) := by
  induction entries generalizing map with
  | nil => exact h
  | cons e entries ih =>
    have hentry := h.entry e List.mem_cons_self
    rw [List.map_cons, gcFrom, hentry, List.dropWhile_cons, RecentCache.expired]
    simp only [decide_eq_true_eq]
    split_ifs
    · refine ih ⟨rfl, h.inStep.pop, fun e' he' => ?_⟩
      have hne : e'.id ≠ e.id := by
        intro heq
        have hmem : e'.id ∈ entries.map (·.id) := List.mem_map_of_mem he'
        rw [heq] at hmem
        exact (List.nodup_cons.mp h.inStep.nodup).1 hmem
      rw [AList.lookup_erase_ne hne]
      exact h.entry e' (List.mem_cons_of_mem e he')
    · exact h

theorem Holds.gc {c : RecentCache} {d : Nimmesh.RecentCache} (h : c.Holds d.entries) (nowMs : UInt64) :
    (c.gc nowMs).Holds (d.gc nowMs).entries := by
  obtain ⟨map, order⟩ := c
  obtain rfl : order = d.entries.map (·.id) := h.order
  exact gcFrom_holds nowMs h

theorem makeRoom_eq {c : RecentCache} {entries : List RecentEntry} (h : c.Holds entries) :
    c.makeRoom = ⟨(Mirror.evict recentCacheCap c.map c.order).1, (Mirror.evict recentCacheCap c.map c.order).2⟩ := by
  obtain ⟨map, order⟩ := c
  rw [makeRoom, h.inStep.len]
  cases order with
  | nil => exact ite_self _
  | cons old rest =>
    rw [Mirror.evict]
    split_ifs <;> rfl

/-- A full cache drops its oldest entry. -/
theorem Holds.makeRoom {c : RecentCache} {entries : List RecentEntry} (h : c.Holds entries) :
    c.makeRoom.Holds (if recentCacheCap ≤ entries.length then entries.tail else entries) := by
  have horder : (Mirror.evict recentCacheCap c.map c.order).2 =
      (if recentCacheCap ≤ entries.length then entries.tail else entries).map (·.id) := by
    rw [Mirror.evict_snd, h.order, List.length_map]
    split_ifs
    · rw [List.map_tail]
    · rfl
  rw [makeRoom_eq h]
  refine ⟨horder, h.inStep.evict _, fun e he => ?_⟩
  rw [Mirror.lookup_evict h.inStep (by rw [horder]; exact List.mem_map_of_mem he)]
  refine h.entry e ?_
  split_ifs at he
  · exact List.mem_of_mem_tail he
  · exact he

theorem Holds.push {c : RecentCache} {entries : List RecentEntry} (h : c.Holds entries) {id : PacketId}
    (hid : id ∉ c.map) (packet : Packet) (nowMs : UInt64) :
    Holds ⟨c.map.insert id (packet, nowMs), c.order ++ [id]⟩ (entries ++ [⟨id, packet, nowMs⟩]) := by
  refine ⟨by rw [List.map_append, h.order]; rfl, h.inStep.push hid _, fun e he => ?_⟩
  rcases List.mem_append.mp he with hold | hnew
  · have hne : e.id ≠ id := by
      intro heq
      have hsome := h.entry e hold
      rw [heq] at hsome
      exact hid (AList.lookup_isSome.mp (by rw [hsome]; rfl))
    rw [AList.lookup_insert_ne hne]
    exact h.entry e hold
  · rw [List.mem_singleton.mp hnew]
    exact AList.lookup_insert _

/-- STEP: an insertion does the same in both models. -/
theorem Holds.insert {c : RecentCache} {d : Nimmesh.RecentCache} (h : c.Holds d.entries) (id : PacketId)
    (packet : Packet) (nowMs : UInt64) :
    (c.insert id packet nowMs).1 = (d.insert id packet nowMs).1 ∧
      (c.insert id packet nowMs).2.Holds (d.insert id packet nowMs).2.entries := by
  have hgc := h.gc nowMs
  have hmem : ((c.gc nowMs).map.lookup id).isSome = true ↔ id ∈ (d.gc nowMs).entries.map (·.id) := by
    rw [AList.lookup_isSome, ← hgc.inStep.same, hgc.order]
  rw [RecentCache.insert, Nimmesh.RecentCache.insert]
  simp only
  by_cases hin : id ∈ (d.gc nowMs).entries.map (·.id)
  · rw [if_pos (hmem.mpr hin), dif_pos hin]
    exact ⟨rfl, hgc⟩
  · rw [if_neg fun hsome => hin (hmem.mp hsome), dif_neg hin]
    refine ⟨rfl, hgc.makeRoom.push (fun hroom => hin ?_) packet nowMs⟩
    rw [makeRoom_eq hgc] at hroom
    exact hmem.mp (AList.lookup_isSome.mpr (Mirror.mem_of_mem_evict hroom))

/-- A call on the cache, with the reading of the clock. -/
inductive Op where
  | insert (id : PacketId) (packet : Packet) (nowMs : UInt64)
  | advertiseIds (nowMs : UInt64)
  | missing (filter : GcsFilter) (nowMs : UInt64)

def Op.clock : Op → UInt64
  | .insert _ _ nowMs => nowMs
  | .advertiseIds nowMs => nowMs
  | .missing _ nowMs => nowMs

def step (c : RecentCache) : Op → RecentCache
  | .insert id packet nowMs => (c.insert id packet nowMs).2
  | .advertiseIds nowMs => (c.advertiseIds nowMs).2
  | .missing filter nowMs => (c.missing filter nowMs).2

/-- INVARIANT: the entries are in step with the other model, and in the order of their times, none later than
    the clock. -/
structure Timed (c : RecentCache) (clock : UInt64) : Prop where
  holds : ∃ d : Nimmesh.RecentCache, c.Holds d.entries ∧ d.entries.Pairwise (fun a b => a.atMs ≤ b.atMs) ∧
    ∀ e ∈ d.entries, e.atMs ≤ clock

/-- STEP: the invariant is kept by every call whose clock is not behind. -/
theorem timed_step {c : RecentCache} {clock : UInt64} {op : Op} (h : c.Timed clock) (hclock : clock ≤ op.clock) :
    (step c op).Timed op.clock := by
  obtain ⟨d, hholds, hsorted, hlate⟩ := h.holds
  have hgc : ∀ nowMs, clock ≤ nowMs → (c.gc nowMs).Timed nowMs := by
    intro nowMs hle
    have hsub : (d.gc nowMs).entries.Sublist d.entries := List.dropWhile_sublist _
    exact ⟨d.gc nowMs, hholds.gc nowMs, hsorted.sublist hsub, fun e he => UInt64.le_trans (hlate e (hsub.mem he)) hle⟩
  cases op with
  | advertiseIds nowMs => exact hgc nowMs hclock
  | missing filter nowMs => exact hgc nowMs hclock
  | insert id packet nowMs =>
    have hsub : (d.gc nowMs).entries.Sublist d.entries := List.dropWhile_sublist _
    have hsub' : (d.insert id packet nowMs).2.entries.Sublist (d.entries ++ [⟨id, packet, nowMs⟩]) := by
      rw [Nimmesh.RecentCache.insert]
      split_ifs
      · exact hsub.trans (List.sublist_append_left _ _)
      · exact (Fifo.push_sublist _ _ _).trans (hsub.append (List.Sublist.refl _))
    refine ⟨_, (hholds.insert id packet nowMs).2, List.Pairwise.sublist hsub' ?_, fun e he => ?_⟩
    · refine List.pairwise_append.mpr ⟨hsorted, List.pairwise_singleton _ _, ?_⟩
      intro a ha b hb
      rw [List.mem_singleton.mp hb]
      exact UInt64.le_trans (hlate a ha) hclock
    · rcases List.mem_append.mp (hsub'.mem he) with hold | hnew
      · exact UInt64.le_trans (hlate e hold) hclock
      · rw [List.mem_singleton.mp hnew]
        exact UInt64.le_refl nowMs

/-- RUN: so it is kept along a clock that never goes back. -/
theorem timed_exec (ops : List Op) {c : RecentCache} {clock : UInt64} (h : c.Timed clock)
    (hclock : (clock :: ops.map Op.clock).Pairwise (· ≤ ·)) :
    (Run.exec step c ops).Timed ((ops.map Op.clock).getLastD clock) := by
  induction ops generalizing c clock with
  | nil => exact h
  | cons op ops ih =>
    rw [List.map_cons, List.pairwise_cons] at hclock
    have hnext := ih (timed_step h (hclock.1 _ List.mem_cons_self)) hclock.2
    rw [Run.exec_cons, List.map_cons, List.getLastD_cons]
    exact hnext

/-- In the order of the times, what is too old is at the front. -/
theorem dropWhile_expired {entries : List RecentEntry} (h : entries.Pairwise fun a b => a.atMs ≤ b.atMs)
    (nowMs : UInt64) :
    entries.dropWhile (RecentCache.expired nowMs) = entries.filter fun e => !RecentCache.expired nowMs e := by
  induction entries with
  | nil => rfl
  | cons e entries ih =>
    obtain ⟨hfirst, hrest⟩ := List.pairwise_cons.mp h
    rw [List.dropWhile_cons, List.filter_cons, ih hrest]
    cases hold : RecentCache.expired nowMs e with
    | true => rfl
    | false =>
      have hall : entries.filter (fun e => !RecentCache.expired nowMs e) = entries := by
        refine List.filter_eq_self.mpr fun e' he' => ?_
        have hle := UInt64.le_iff_toNat_le.mp (hfirst e' he')
        rw [RecentCache.expired, decide_eq_false_iff_not, UInt64.lt_iff_toNat_lt, toNat_satSub] at hold
        rw [RecentCache.expired, Bool.not_eq_true', decide_eq_false_iff_not, UInt64.lt_iff_toNat_lt, toNat_satSub]
        omega
      rw [hall]
      rfl

/-- What is read off the queue through the map is read off the entries. -/
theorem Holds.filterMap {c : RecentCache} {entries : List RecentEntry} (h : c.Holds entries) {α : Type}
    (g : PacketId → Packet × UInt64 → Option α) :
    c.order.filterMap (fun id => (c.map.lookup id).bind (g id)) = entries.filterMap fun e => g e.id (e.packet, e.atMs) := by
  rw [h.order, List.filterMap_map]
  refine List.filterMap_congr fun e he => ?_
  rw [Function.comp_apply, h.entry e he, Option.bind_some]

/-- The stored packet of an id, unless it is too old or covered. -/
def live (filter : GcsFilter) (nowMs : UInt64) (id : PacketId) (entry : Packet × UInt64) : Option Packet :=
  if satSub nowMs entry.2 ≤ recentRetentionMs ∧ filter.contains id = false then some entry.1 else none

/-- EXACT: what a requester is missing is what is stored, not too old and not covered, in the order it came. -/
theorem missing_eq {c : RecentCache} {clock : UInt64} (h : c.Timed clock) (filter : GcsFilter) (nowMs : UInt64) :
    (c.missing filter nowMs).1 = c.order.filterMap fun id => (c.map.lookup id).bind (live filter nowMs id) := by
  obtain ⟨d, hholds, hsorted, -⟩ := h.holds
  have hgc := hholds.gc nowMs
  have hread := hgc.filterMap fun id entry => if filter.contains id = false then some entry.1 else none
  have hmissing : (c.missing filter nowMs).1 = (c.gc nowMs).order.filterMap fun id =>
      ((c.gc nowMs).map.lookup id).bind fun entry => if filter.contains id = false then some entry.1 else none := by
    rw [missing, List.filterMap_filter]
    refine List.filterMap_congr fun id _ => ?_
    cases filter.contains id <;> cases (c.gc nowMs).map.lookup id <;> rfl
  have hentries : (d.gc nowMs).entries = d.entries.filter fun e => !RecentCache.expired nowMs e :=
    dropWhile_expired hsorted nowMs
  rw [hmissing, hread, hholds.filterMap, hentries, List.filterMap_filter]
  refine List.filterMap_congr fun e _ => ?_
  rw [live, RecentCache.expired]
  by_cases hold : recentRetentionMs < satSub nowMs e.atMs
  · rw [decide_eq_true hold]
    exact (if_neg fun hlive => UInt64.not_lt.mpr hlive.1 hold).symm
  · rw [decide_eq_false hold]
    simp [UInt64.not_lt.mp hold]

/-- The entries stand in the queue in the order of their times. -/
theorem Timed.ordered {c : RecentCache} {clock : UInt64} (h : c.Timed clock) :
    c.order.Pairwise fun a b => ∀ ea eb, c.map.lookup a = some ea → c.map.lookup b = some eb → ea.2 ≤ eb.2 := by
  obtain ⟨d, hholds, hsorted, -⟩ := h.holds
  rw [hholds.order, List.pairwise_map]
  refine hsorted.imp_of_mem fun {a b} ha hb hle ea eb hea heb => ?_
  rw [hholds.entry a ha] at hea
  rw [hholds.entry b hb] at heb
  cases hea
  cases heb
  exact hle

end RecentCache

/-! ### The intent throttle -/

structure IntentThrottle where
  counts : Table PeerId ℕ := ∅
  order : List PeerId := []
  capPerSender : ℕ := intentMatchCapPerSender
  maxSenders : ℕ := maxTrackedIntentSenders

namespace IntentThrottle

def admitSender (t : IntentThrottle) (sender : PeerId) : Bool × IntentThrottle :=
  match t.counts.lookup sender with
  | some count =>
    if t.capPerSender ≤ count then (false, t)
    else (true, { t with counts := t.counts.insert sender (count + 1) })
  | none =>
    let (counts, order) := Mirror.evict t.maxSenders t.counts t.order
    (true, { t with counts := counts.insert sender 1, order := order ++ [sender] })

/-- With the bounds of the code this is the throttle of the worker. -/
theorem admit_eq_admitSender (counts : Table PeerId ℕ) (order : List PeerId) (sender : PeerId) :
    Prod.map id (fun t : IntentThrottle => (⟨t.counts, t.order⟩ : Nimmesh.IntentThrottle))
        (admitSender { counts, order } sender) = Nimmesh.IntentThrottle.admitSender ⟨counts, order⟩ sender := by
  rw [admitSender, Nimmesh.IntentThrottle.admitSender]
  cases counts.lookup sender with
  | some count =>
    simp only
    split_ifs <;> rfl
  | none =>
    cases order with
    | nil => rfl
    | cons old rest =>
      simp only [Mirror.evict]
      split_ifs <;> rfl

/-- The sender that is dropped to make room for another. -/
def evicted (t : IntentThrottle) (sender : PeerId) : Option PeerId :=
  if (t.counts.lookup sender).isSome then none
  else if t.maxSenders ≤ t.order.length then t.order.head? else none

/-- How often a sender was admitted since it is tracked. -/
def spent (t : IntentThrottle) (sender : PeerId) : ℕ := (t.counts.lookup sender).getD 0

/-- INVARIANT: the halves are in step, and within the two bounds. A throttle that may track nobody still tracks
    the last, and one that admits nothing still admits the first. -/
structure Bounded (capPerSender maxSenders : ℕ) (t : IntentThrottle) : Prop where
  perSender : t.capPerSender = capPerSender
  tracked : t.maxSenders = maxSenders
  inStep : Mirror.InStep t.counts t.order
  senders : t.order.length ≤ max maxSenders 1
  counts : ∀ sender, t.spent sender ≤ max capPerSender 1

def step (t : IntentThrottle) (sender : PeerId) : IntentThrottle := (t.admitSender sender).2

/-- Whether a call admits this sender. -/
def admits (t : IntentThrottle) (sender caller : PeerId) : Bool := caller = sender && (t.admitSender caller).1

/-- STEP: the invariant is kept, and a sender that is not dropped pays for each time it is admitted. -/
theorem bounded_step {capPerSender maxSenders : ℕ} {t : IntentThrottle} (h : Bounded capPerSender maxSenders t)
    (caller : PeerId) : Bounded capPerSender maxSenders (t.step caller) ∧
      ∀ sender, t.evicted caller ≠ some sender →
        (t.step caller).spent sender = t.spent sender + (t.admits sender caller).toNat := by
  rw [step]
  cases hl : t.counts.lookup caller with
  | some count =>
    have hspent : t.spent caller = count := by rw [spent, hl, Option.getD_some]
    have hmem : caller ∈ t.counts := AList.lookup_isSome.mp (by rw [hl]; rfl)
    by_cases hcap : t.capPerSender ≤ count
    · have hsender : t.admitSender caller = (false, t) := by simp only [admitSender, hl, if_pos hcap]
      rw [hsender]
      refine ⟨h, fun sender _ => ?_⟩
      rw [admits, hsender, Bool.and_false, Bool.toNat_false, Nat.add_zero]
    · have hsender : t.admitSender caller = (true, { t with counts := t.counts.insert caller (count + 1) }) := by
        simp only [admitSender, hl, if_neg hcap]
      have hcount : ∀ sender, (spent { t with counts := t.counts.insert caller (count + 1) } sender) =
          t.spent sender + (t.admits sender caller).toNat := by
        intro sender
        rw [admits, hsender, Bool.and_true, spent, Table.lookup_insert_iff]
        by_cases heq : sender = caller
        · subst heq
          rw [if_pos rfl, hspent, decide_eq_true rfl]
          rfl
        · rw [if_neg heq, decide_eq_false (Ne.symm heq)]
          rfl
      rw [hsender]
      refine ⟨⟨h.perSender, h.tracked, h.inStep.update hmem _, h.senders, fun sender => ?_⟩, fun sender _ => hcount sender⟩
      rw [hcount, admits, hsender, Bool.and_true]
      by_cases heq : caller = sender
      · subst heq
        have hper := h.perSender
        rw [hspent, decide_eq_true rfl, Bool.toNat_true]
        omega
      · rw [decide_eq_false heq, Bool.toNat_false, Nat.add_zero]
        exact h.counts sender
  | none =>
    have hout : caller ∉ t.counts := AList.lookup_eq_none.mp hl
    have hsender : t.admitSender caller = (true, { t with
        counts := (Mirror.evict t.maxSenders t.counts t.order).1.insert caller 1
        order := (Mirror.evict t.maxSenders t.counts t.order).2 ++ [caller] }) := by
      simp only [admitSender, hl]
    have hdropped : t.evicted caller = if t.maxSenders ≤ t.order.length then t.order.head? else none := by
      simp [evicted, hl]
    have hcount : ∀ sender, ((Mirror.evict t.maxSenders t.counts t.order).1.insert caller 1).lookup sender =
        if sender = caller then some 1 else if t.evicted caller = some sender then none else t.counts.lookup sender := by
      intro sender
      rw [Table.lookup_insert_iff, Mirror.lookup_evict_eq, hdropped]
      by_cases hfull : t.maxSenders ≤ t.order.length
      · simp [hfull]
      · simp [hfull]
    rw [hsender]
    refine ⟨⟨h.perSender, h.tracked, ?_, ?_, fun sender => ?_⟩, fun sender hkept => ?_⟩
    · exact (h.inStep.evict _).push (fun hin => hout (Mirror.mem_of_mem_evict hin)) 1
    · have hlen := h.senders
      have hmost := h.tracked
      simp only
      rw [Mirror.evict_snd, List.length_append, List.length_singleton]
      split_ifs
      · rw [List.length_tail]
        omega
      · omega
    · have hold := h.counts sender
      rw [spent, hcount]
      split_ifs
      · exact Nat.le_max_right _ _
      · exact Nat.zero_le _
      · exact hold
    · rw [spent, hcount, admits, hsender, Bool.and_true, if_neg hkept]
      by_cases heq : sender = caller
      · subst heq
        rw [if_pos rfl, spent, hl, decide_eq_true rfl]
        rfl
      · rw [if_neg heq, decide_eq_false (Ne.symm heq)]
        rfl

/-- How often a run admits this sender. -/
def admissions (sender : PeerId) : IntentThrottle → List PeerId → ℕ
  | _, [] => 0
  | t, caller :: callers => (t.admits sender caller).toNat + admissions sender (t.step caller) callers

/-- RUN: the invariant is kept. -/
theorem bounded_exec {capPerSender maxSenders : ℕ} {t : IntentThrottle} (h : Bounded capPerSender maxSenders t)
    (callers : List PeerId) : Bounded capPerSender maxSenders (Run.exec step t callers) :=
  @Run.exec_preserves _ _ step (Bounded capPerSender maxSenders) (fun _ caller ht => (bounded_step ht caller).1) callers t h

/-- RUN: while a sender is not dropped, it is admitted no more often than its cap. -/
theorem admissions_le {capPerSender maxSenders : ℕ} (sender : PeerId) (callers : List PeerId) {t : IntentThrottle}
    (h : Bounded capPerSender maxSenders t)
    (hkept : Run.Along step (fun t caller => t.evicted caller ≠ some sender) t callers) :
    t.spent sender + admissions sender t callers ≤ max capPerSender 1 := by
  induction callers generalizing t with
  | nil => exact h.counts sender
  | cons caller callers ih =>
    obtain ⟨hnext, hpaid⟩ := bounded_step h caller
    have hrest := ih hnext hkept.2
    rw [hpaid sender hkept.1] at hrest
    rw [admissions]
    omega

theorem bounded_new (capPerSender maxSenders : ℕ) :
    Bounded capPerSender maxSenders { capPerSender, maxSenders } :=
  ⟨rfl, rfl, Mirror.inStep_empty, Nat.zero_le _, fun _ => Nat.zero_le _⟩

end IntentThrottle

/-! ### Whatever the calls -/

/-- CORRECT: along every run the two halves of the three caches are in step and within their bounds. An insertion
    is refused exactly for the last accepted keys; a requester gets what is stored, recent and not covered, in the
    order it came; and between two times that a sender is dropped it is admitted no more often than its cap. -/
theorem bounded_caches {κ : Type} [DecidableEq κ] :
    (∀ (capacity : ℕ) (keys : List κ), Mirror.InStep (Run.exec DedupCache.step (.new capacity) keys).set
        (Run.exec DedupCache.step (.new capacity) keys).order ∧
      (Run.exec DedupCache.step (.new capacity) keys).order.length ≤ max capacity 1 ∧
      ∀ key, ((Run.exec DedupCache.step (.new capacity) keys).insert key).1 = false ↔
        key ∈ ((DedupCache.new capacity).accepted keys).rtake (max capacity 1)) ∧
    (∀ ops : List RecentCache.Op, (ops.map RecentCache.Op.clock).Pairwise (· ≤ ·) →
      Mirror.InStep (Run.exec RecentCache.step {} ops).map (Run.exec RecentCache.step {} ops).order ∧
      (Run.exec RecentCache.step {} ops).order.length ≤ recentCacheCap ∧
      ((Run.exec RecentCache.step {} ops).order.Pairwise fun a b => ∀ ea eb,
        (Run.exec RecentCache.step {} ops).map.lookup a = some ea →
        (Run.exec RecentCache.step {} ops).map.lookup b = some eb → ea.2 ≤ eb.2) ∧
      ∀ filter nowMs, ((Run.exec RecentCache.step {} ops).missing filter nowMs).1 =
        (Run.exec RecentCache.step {} ops).order.filterMap fun id =>
          ((Run.exec RecentCache.step {} ops).map.lookup id).bind (RecentCache.live filter nowMs id)) ∧
    ∀ (capPerSender maxSenders : ℕ) (callers : List PeerId),
      Mirror.InStep (Run.exec IntentThrottle.step { capPerSender, maxSenders } callers).counts
        (Run.exec IntentThrottle.step { capPerSender, maxSenders } callers).order ∧
      (Run.exec IntentThrottle.step { capPerSender, maxSenders } callers).order.length ≤ max maxSenders 1 ∧
      ∀ sender later, Run.Along IntentThrottle.step (fun t caller => t.evicted caller ≠ some sender)
          (Run.exec IntentThrottle.step { capPerSender, maxSenders } callers) later →
        IntentThrottle.admissions sender (Run.exec IntentThrottle.step { capPerSender, maxSenders } callers) later ≤
          max capPerSender 1 := by
  refine ⟨fun capacity keys => ?_, fun ops hclock => ?_, fun capPerSender maxSenders callers => ?_⟩
  · have hrep := ((DedupCache.represents_new (κ := κ) capacity).exec keys).1
    have hcap := ((DedupCache.represents_new (κ := κ) capacity).exec keys).2.2
    refine ⟨hrep.inStep, ?_, fun key => DedupCache.exec_new capacity keys key⟩
    have hbound := (Run.exec (fun (d : Nimmesh.DedupCache κ) key => (d.insert key).2) (.new capacity) keys).bound
    rw [← hrep.order, ← hrep.capacity, hcap] at hbound
    exact hbound
  · have hstart : RecentCache.Timed {} 0 :=
      ⟨({} : Nimmesh.RecentCache), ⟨rfl, Mirror.inStep_empty, by simp⟩, List.Pairwise.nil, by simp⟩
    have htimed := RecentCache.timed_exec ops hstart
      (List.pairwise_cons.mpr ⟨fun t _ => UInt64.le_iff_toNat_le.mpr (Nat.zero_le _), hclock⟩)
    obtain ⟨d, hholds, -⟩ := htimed.holds
    refine ⟨hholds.inStep, ?_, htimed.ordered, fun filter nowMs => RecentCache.missing_eq htimed filter nowMs⟩
    rw [hholds.order, List.length_map]
    exact d.bound
  · have hbounded := IntentThrottle.bounded_exec (IntentThrottle.bounded_new capPerSender maxSenders) callers
    refine ⟨hbounded.inStep, hbounded.senders, fun sender later hkept => ?_⟩
    have hpaid := IntentThrottle.admissions_le sender later hbounded hkept
    omega

end Nimmesh.Paired
