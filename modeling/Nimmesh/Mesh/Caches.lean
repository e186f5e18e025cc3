import Nimmesh.Lib.Fifo
import Nimmesh.Mesh.Wire
import Nimmesh.Mesh.Gcs

/-! @src dedup.rs store_forward.rs | name:Dedup set and recent-packet cache | layer:model

    The bounded stores of a node. A hash map with a queue of its keys is one list in insertion order;
    that no key stands in it twice and that it keeps its bound are fields, so no proof argues them again.
    Times are readings of the caller's monotonic clock in milliseconds. -/

namespace Nimmesh
open Word

/-! ### First-seen sets -/

/-- A bounded set that forgets its oldest key. -/
structure DedupCache (κ : Type) where
  capacity : ℕ
  order : List κ
  pos : 0 < capacity
  bound : order.length ≤ capacity
  nodup : order.Nodup

namespace DedupCache

variable {κ : Type} [DecidableEq κ]

def new (capacity : ℕ) : DedupCache κ where
  capacity := max capacity 1
  order := []
  pos := by omega
  bound := Nat.zero_le _
  nodup := List.nodup_nil

def contains (c : DedupCache κ) (key : κ) : Bool := decide (key ∈ c.order)

/-- Record a key; `true` if it was not there. -/
def insert (c : DedupCache κ) (key : κ) : Bool × DedupCache κ :=
  if h : key ∈ c.order then (false, c)
  else (true, { c with
    order := Fifo.push c.capacity c.order key
    bound := Fifo.length_push_le c.pos c.bound key
    nodup := Fifo.nodup_push c.nodup h })

theorem insert_of_mem {c : DedupCache κ} {key : κ} (h : key ∈ c.order) : c.insert key = (false, c) := by
  rw [insert, dif_pos h]

theorem insert_fst (c : DedupCache κ) (key : κ) : (c.insert key).1 = !decide (key ∈ c.order) := by
  by_cases h : key ∈ c.order
  · rw [insert_of_mem h, decide_eq_true h]
    rfl
  · rw [insert, dif_neg h, decide_eq_false h]
    rfl

@[simp] theorem insert_capacity (c : DedupCache κ) (key : κ) : (c.insert key).2.capacity = c.capacity := by
  unfold insert
  split_ifs
  · rfl
  · rfl

end DedupCache

/-! ### The recent-packet cache -/

def recentCacheCap : ℕ := 1000

def recentRetentionMs : UInt64 := 900000

def syncTickMs : UInt64 := 30000

abbrev PacketId := UInt64

def fnvOffset : UInt64 := 0xcbf29ce484222325

def fnvPrime : UInt64 := 0x100000001b3

/-- One FNV-1a round. -/
def fnvMix (h : UInt64) (b : UInt8) : UInt64 := (h ^^^ b.toUInt64) * fnvPrime

/-- The id of a packet: a hash of type, sender and timestamp. -/
def packetId (p : Packet) : PacketId :=
  (p.msgType.toU8 :: (p.senderId.1 ++ beBytes p.timestampMs)).foldl fnvMix fnvOffset

structure RecentEntry where
  id : PacketId
  packet : Packet
  atMs : UInt64

/-- The packets a node has seen lately, oldest first. -/
structure RecentCache where
  entries : List RecentEntry := []
  bound : entries.length ≤ recentCacheCap := by decide
  nodup : (entries.map (·.id)).Nodup := by decide

namespace RecentCache

/-- Older than the retention. -/
def expired (nowMs : UInt64) (e : RecentEntry) : Bool := recentRetentionMs < satSub nowMs e.atMs

/-- Drop what is too old from the front. -/
def gc (c : RecentCache) (nowMs : UInt64) : RecentCache where
  entries := c.entries.dropWhile (expired nowMs)
  bound := (List.dropWhile_sublist _).length_le.trans c.bound
  nodup := ((List.dropWhile_sublist _).map _).nodup c.nodup

/-- Remember a packet; `true` if its id was not there. -/
def insert (c : RecentCache) (id : PacketId) (packet : Packet) (nowMs : UInt64) : Bool × RecentCache :=
  let c := c.gc nowMs
  if h : id ∈ c.entries.map (·.id) then (false, c)
  else (true, {
    entries := Fifo.push recentCacheCap c.entries ⟨id, packet, nowMs⟩
    bound := Fifo.length_push_le (by decide) c.bound _
    nodup := by
      rw [Fifo.map_push]
      exact Fifo.nodup_push c.nodup h })

/-- The ids to advertise: the newest live entries. -/
def advertiseIds (c : RecentCache) (nowMs : UInt64) : List PacketId × RecentCache :=
  let c := c.gc nowMs
  ((c.entries.reverse.take gcsMaxItems).map (·.id), c)

def buildFilter (c : RecentCache) (nowMs : UInt64) : GcsFilter × RecentCache :=
  let (ids, c) := c.advertiseIds nowMs
  (.build ids, c)

/-- The live packets that a filter does not cover. -/
def missing (c : RecentCache) (filter : GcsFilter) (nowMs : UInt64) : List Packet × RecentCache :=
  let c := c.gc nowMs
  ((c.entries.filter fun e => !filter.contains e.id).map (·.packet), c)

end RecentCache

/-- At most one sync per tick. -/
structure SyncScheduler where
  lastMs : Option UInt64 := none

/-- `due`: whether `tickMs` have passed since it last fired. -/
def dueEvery (tickMs : UInt64) (lastMs : Option UInt64) (nowMs : UInt64) : Bool :=
  match lastMs with
  | some t => !decide (satSub nowMs t < tickMs)
  | none => true

def SyncScheduler.due (s : SyncScheduler) (nowMs : UInt64) : Bool × SyncScheduler :=
  if dueEvery syncTickMs s.lastMs nowMs then (true, ⟨some nowMs⟩) else (false, s)

end Nimmesh
