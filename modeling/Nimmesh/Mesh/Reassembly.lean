import Nimmesh.Lib.Run
import Nimmesh.Lib.TableOrder
import Nimmesh.Mesh.Fragment

/-! @src fragment.rs | name:Reassembly delivers the message | layer:properties

    The fragments of a message, in any order, with any repetition and among fragments of other messages,
    give the message back when the last one comes in, as long as the set is neither too old nor crowded
    out. Whatever comes in, no more than the bound is held. -/

namespace Nimmesh
open Word

/-! ### The pieces of a message -/

/-- Cutting and joining a payload. -/
theorem flatMap_slice (n : ℕ) (hn : 0 < n) (payload : Bytes) :
    (List.range ((payload.length + n - 1) / n)).flatMap (fun i => slice payload (i * n) n) = payload := by
  have htake : ∀ k, (List.range k).flatMap (fun i => slice payload (i * n) n) = payload.take (k * n) := by
    intro k
    induction k with
    | zero => rw [Nat.zero_mul, List.take_zero]; rfl
    | succ k ih =>
      rw [List.range_succ, List.flatMap_append, ih, List.flatMap_singleton, slice, Nat.succ_mul, List.take_add]
  rw [htake]
  refine List.take_of_length_le ?_
  have hdiv := Nat.lt_mul_div_succ (payload.length + n - 1) hn
  rw [Nat.mul_add, Nat.mul_one, Nat.mul_comm] at hdiv
  omega

/-- The number of pieces. -/
def pieceCount (payload : Bytes) (chunkSize : ℕ) : ℕ := (chunks payload (max chunkSize 1)).length

/-- The fragment of one piece, as it is parsed back. -/
def pieceOf (originalType : UInt8) (payload : Bytes) (chunkSize : ℕ) (id : FragmentId) (index : UInt16) : Fragment where
  id := id
  index := index
  total := (pieceCount payload chunkSize).toUInt16
  originalType := originalType
  chunk := (chunks payload (max chunkSize 1)).getD index.toNat []

theorem pieceCount_pos (payload : Bytes) (chunkSize : ℕ) : 0 < pieceCount payload chunkSize := by
  rw [pieceCount, chunks]
  split_ifs with hempty
  · exact Nat.one_pos
  · have hpos : 0 < payload.length := by
      rw [List.length_pos_iff]
      intro hnil
      exact hempty (by rw [hnil]; rfl)
    rw [List.length_map, List.length_range]
    exact Nat.div_pos (by omega) (by omega)

theorem flatten_chunks (payload : Bytes) (chunkSize : ℕ) : (chunks payload (max chunkSize 1)).flatten = payload := by
  rw [chunks]
  split_ifs with hempty
  · rw [List.isEmpty_iff.mp hempty]
    rfl
  · rw [← List.flatMap_def]
    exact flatMap_slice _ (by omega) payload

/-- The indices of the pieces. -/
def pieceIndices (payload : Bytes) (chunkSize : ℕ) : List UInt16 :=
  (List.range (pieceCount payload chunkSize)).map UInt16.ofNat

section Pieces

variable {originalType : UInt8} {payload : Bytes} {chunkSize : ℕ} {id : FragmentId}

theorem pairwise_pieceIndices (hn : pieceCount payload chunkSize ≤ 65535) :
    (pieceIndices payload chunkSize).Pairwise (· < ·) := by
  rw [pieceIndices, List.pairwise_map]
  refine List.Pairwise.imp_of_mem ?_ List.pairwise_lt_range
  intro a b ha hb hab
  rw [List.mem_range] at ha hb
  rw [UInt16.lt_iff_toNat_lt, UInt16.toNat_ofNat', UInt16.toNat_ofNat', Nat.mod_eq_of_lt (by omega),
    Nat.mod_eq_of_lt (by omega)]
  exact hab

/-- CORRECT: what was written is parsed as the pieces. -/
theorem parse_fragmentMessage (hn : pieceCount payload chunkSize ≤ 65535) :
    (fragmentMessage originalType payload chunkSize id).map parseFragment =
      (pieceIndices payload chunkSize).map fun i => some (pieceOf originalType payload chunkSize id i) := by
  have htotal : min (chunks payload (max chunkSize 1)).length 65535 = pieceCount payload chunkSize :=
    Nat.min_eq_left hn
  rw [fragmentMessage, pieceIndices, List.map_map, List.map_map]
  refine List.ext_getElem? fun k => ?_
  rw [List.getElem?_map, List.getElem?_map, List.getElem?_zipIdx, htotal, Nat.zero_add]
  cases hc : (chunks payload (max chunkSize 1))[k]? with
  | none =>
    have hout : pieceCount payload chunkSize ≤ k := List.getElem?_eq_none_iff.mp hc
    rw [List.getElem?_eq_none (by rwa [List.length_range])]
    rfl
  | some chunk =>
    have hk : k < pieceCount payload chunkSize := (List.getElem?_eq_some_iff.mp hc).1
    have hindex : k.toUInt16.toNat = k := by
      rw [Nat.toUInt16_eq, UInt16.toNat_ofNat', Nat.mod_eq_of_lt (by omega)]
    have hinside : k.toUInt16 < (pieceCount payload chunkSize).toUInt16 := by
      rw [UInt16.lt_iff_toNat_lt, hindex, Nat.toUInt16_eq, UInt16.toNat_ofNat', Nat.mod_eq_of_lt (by omega)]
      exact hk
    have hchunk : (chunks payload (max chunkSize 1)).getD (UInt16.ofNat k).toNat [] = chunk := by
      rw [← Nat.toUInt16_eq, hindex, List.getD_eq_getElem?_getD, hc, Option.getD_some]
    rw [List.getElem?_range hk, Option.map_some, Option.map_some]
    have hpiece : pieceOf originalType payload chunkSize id (UInt16.ofNat k) =
        ⟨id, k.toUInt16, (pieceCount payload chunkSize).toUInt16, originalType, chunk⟩ := by
      rw [pieceOf, hchunk, Nat.toUInt16_eq]
    rw [Function.comp_apply, parse_encodeFragment hinside, Option.map_some, Function.comp_apply, hpiece]

/-- The pieces in order make the payload. -/
theorem flatMap_pieces (hn : pieceCount payload chunkSize ≤ 65535) :
    (pieceIndices payload chunkSize).flatMap (fun i => (pieceOf originalType payload chunkSize id i).chunk) =
      payload := by
  have hmap : (pieceIndices payload chunkSize).map (fun i => (pieceOf originalType payload chunkSize id i).chunk) =
      chunks payload (max chunkSize 1) := by
    rw [pieceIndices, List.map_map]
    refine List.ext_getElem? fun k => ?_
    rw [List.getElem?_map]
    cases hc : (chunks payload (max chunkSize 1))[k]? with
    | none =>
      have hout : pieceCount payload chunkSize ≤ k := List.getElem?_eq_none_iff.mp hc
      rw [List.getElem?_eq_none (by rwa [List.length_range])]
      rfl
    | some chunk =>
      have hk : k < pieceCount payload chunkSize := (List.getElem?_eq_some_iff.mp hc).1
      rw [List.getElem?_range hk, Option.map_some]
      simp only [Function.comp_apply, pieceOf, UInt16.toNat_ofNat', Nat.mod_eq_of_lt (show k < 2 ^ 16 by omega),
        List.getD_eq_getElem?_getD, hc, Option.getD_some]
  rw [List.flatMap_def, hmap, flatten_chunks]

end Pieces

/-! ### The bound -/

namespace Reassembler

/-- One fragment taken in at a time. -/
def step (r : Reassembler) (e : Fragment × UInt64) : Reassembler := (accept r e.1 e.2).2

/-- The set that a fragment went to, with its chunk, is either given out or kept. -/
theorem accept_eq {r r' : Reassembler} {f : Fragment} {nowMs : UInt64} {p q : Partial}
    (h : partialFor (gc r nowMs) f nowMs = (p, r')) (hq : q = { p with chunks := p.chunks.insert f.index f.chunk }) :
    accept r f nowMs = if (Table.len q.chunks).toUInt16 = q.total then (some (q.originalType, q.message), r'.erase f.id)
      else (none, r'.insert f.id q) := by
  subst hq
  rw [accept, h]
  exact ite_not _ _ _

theorem len_evictIfFull {r : Reassembler} (h : Table.len r ≤ maxInFlight) :
    Table.len (evictIfFull r) < maxInFlight := by
  rw [evictIfFull]
  split_ifs with hroom
  · exact hroom
  · cases hmin : r.entries.argmin fun e => e.2.createdMs.toNat with
    | none =>
      have hnil := List.argmin_eq_none.mp hmin
      have hzero : Table.len r = 0 := by rw [Table.len, hnil]; rfl
      rw [hzero] at hroom
      exact absurd (by decide) hroom
    | some oldest =>
      have hmem : oldest.1 ∈ r := AList.mem_keys.mpr (List.mem_map_of_mem (List.argmin_mem hmin))
      have hlen := Table.len_erase_of_mem hmem
      simp only
      omega

theorem len_gc_le (r : Reassembler) (nowMs : UInt64) : Table.len (gc r nowMs) ≤ Table.len r := Table.len_retain_le _ r

theorem len_partialFor {r : Reassembler} (h : Table.len r ≤ maxInFlight) (f : Fragment) (nowMs : UInt64) (p : Partial) :
    Table.len ((partialFor r f nowMs).2.insert f.id p) ≤ maxInFlight := by
  have hfresh : ∀ r' : Reassembler, Table.len r' ≤ maxInFlight →
      Table.len ((evictIfFull r').insert f.id p) ≤ maxInFlight := by
    intro r' hr'
    have hroom := len_evictIfFull hr'
    have hins := Table.len_insert_le (evictIfFull r') f.id p
    omega
  rw [partialFor]
  cases hl : r.lookup f.id with
  | none => exact hfresh r h
  | some q =>
    simp only
    split_ifs
    · exact hfresh _ ((Table.len_erase_le r f.id).trans h)
    · rw [Table.len_insert_of_mem ((Table.mem_iff_lookup r f.id).mpr ⟨q, hl⟩)]
      exact h

/-- STEP: no fragment whatsoever takes the reassembler over its bound. -/
theorem len_accept {r : Reassembler} (h : Table.len r ≤ maxInFlight) (f : Fragment) (nowMs : UInt64) :
    Table.len (accept r f nowMs).2 ≤ maxInFlight := by
  have hpart := len_partialFor ((len_gc_le r nowMs).trans h) f nowMs
  rw [accept_eq (Prod.eta _).symm rfl]
  split_ifs
  · have hthere := hpart (partialFor (gc r nowMs) f nowMs).1
    rw [Table.len_insert] at hthere
    exact Nat.le_of_succ_le hthere
  · exact hpart _

/-- RUN: nor does any sequence of fragments. -/
theorem len_exec (es : List (Fragment × UInt64)) {r : Reassembler} (h : Table.len r ≤ maxInFlight) :
    Table.len (Run.exec step r es) ≤ maxInFlight :=
  @Run.exec_preserves _ _ step (fun r => Table.len r ≤ maxInFlight) (fun _ e hr => len_accept hr e.1 e.2) es r h

/-! ### A set that is neither too old nor crowded out -/

/-- The messages beside that of `id` that are in flight once a fragment under `arriving` is there. -/
def inFlightBeside (id arriving : FragmentId) (r : Reassembler) : ℕ := ((insert arriving (Table.keySet r)).erase id).card

/-- The set under `id` is within its lifetime, and there is room for it, as a fragment comes in. -/
structure InBounds (id : FragmentId) (r : Reassembler) (e : Fragment × UInt64) : Prop where
  live : ∀ p, r.lookup id = some p → satSub e.2 p.createdMs < reassemblyLifetimeMs
  room : inFlightBeside id e.1.id (gc r e.2) < maxInFlight

instance (id : FragmentId) (r : Reassembler) (e : Fragment × UInt64) : Decidable (InBounds id r e) :=
  decidable_of_iff ((∀ p ∈ r.lookup id, satSub e.2 p.createdMs < reassemblyLifetimeMs) ∧
    inFlightBeside id e.1.id (gc r e.2) < maxInFlight) ⟨fun h => ⟨h.1, h.2⟩, fun h => ⟨h.live, h.room⟩⟩

theorem lookup_gc {id : FragmentId} {r : Reassembler} {nowMs : UInt64}
    (h : ∀ p, r.lookup id = some p → satSub nowMs p.createdMs < reassemblyLifetimeMs) :
    (gc r nowMs).lookup id = r.lookup id := by
  rw [gc, Table.lookup_retain]
  cases hl : r.lookup id with
  | none => rfl
  | some p => rw [Option.filter_some, decide_eq_true (h p hl), if_pos rfl]

/-- What is not there does not get there by making room. -/
theorem lookup_evictIfFull_none {id : FragmentId} {r : Reassembler} (h : r.lookup id = none) :
    (evictIfFull r).lookup id = none := by
  rw [evictIfFull]
  split_ifs
  · exact h
  · cases r.entries.argmin fun e => e.2.createdMs.toNat with
    | none => exact h
    | some oldest =>
      simp only
      rw [Table.lookup_erase_iff, h, ite_self]

theorem lookup_evictIfFull {id : FragmentId} {r : Reassembler} (h : id ∈ r → Table.len r < maxInFlight) :
    (evictIfFull r).lookup id = r.lookup id := by
  by_cases hin : id ∈ r
  · rw [evictIfFull, if_pos (h hin)]
  · have hnone : r.lookup id = none := AList.lookup_eq_none.mpr hin
    rw [lookup_evictIfFull_none hnone, hnone]

/-- With room for it, a set stays as it is while fragments of other messages come in. -/
theorem lookup_partialFor {id : FragmentId} {r : Reassembler} {f : Fragment} {nowMs : UInt64} (hne : f.id ≠ id)
    (hroom : inFlightBeside id f.id r < maxInFlight) : (partialFor r f nowMs).2.lookup id = r.lookup id := by
  have hbeside : ∀ t : Reassembler, f.id ∉ t → id ∈ t → (∀ k, k ∈ t → k ∈ r) → Table.len t < maxInFlight := by
    intro t hout hin hsub
    have hle : ((insert f.id (Table.keySet t)).erase id).card ≤ inFlightBeside id f.id r := by
      refine Finset.card_le_card (Finset.erase_subset_erase id (Finset.insert_subset_insert f.id ?_))
      intro k hk
      exact Table.mem_keySet.mpr (hsub k (Table.mem_keySet.mp hk))
    have hcard : ((insert f.id (Table.keySet t)).erase id).card = Table.len t := by
      rw [Finset.card_erase_of_mem (Finset.mem_insert_of_mem (Table.mem_keySet.mpr hin)),
        Finset.card_insert_of_notMem (fun h => hout (Table.mem_keySet.mp h)), Table.card_keySet, Nat.add_sub_cancel]
    omega
  rw [partialFor]
  cases hl : r.lookup f.id with
  | none =>
    refine lookup_evictIfFull fun hin => hbeside r (AList.lookup_eq_none.mp hl) hin fun _ hk => hk
  | some q =>
    simp only
    split_ifs
    · have hkeep : (evictIfFull (r.erase f.id)).lookup id = (r.erase f.id).lookup id := by
        refine lookup_evictIfFull fun hin => hbeside (r.erase f.id) ?_ hin ?_
        · intro hmem
          exact (AList.mem_erase.mp hmem).1 rfl
        · intro k hk
          exact (AList.mem_erase.mp hk).2
      rw [hkeep, Table.lookup_erase_iff, if_neg hne.symm]
    · rfl

/-- STEP: a fragment of another message leaves the set of `id` alone. -/
theorem lookup_accept_of_ne {id : FragmentId} {r : Reassembler} {e : Fragment × UInt64} (hne : e.1.id ≠ id)
    (h : InBounds id r e) : (step r e).lookup id = r.lookup id := by
  have hpart : (partialFor (gc r e.2) e.1 e.2).2.lookup id = (gc r e.2).lookup id := lookup_partialFor hne h.room
  rw [lookup_gc h.live] at hpart
  rw [step, accept_eq (Prod.eta _).symm rfl]
  split_ifs
  · rw [Table.lookup_erase_iff, if_neg hne.symm, hpart]
  · rw [Table.lookup_insert_iff, if_neg hne.symm, hpart]

/-! ### The set of one message -/

section OneMessage

variable {originalType : UInt8} {payload : Bytes} {chunkSize : ℕ} {id : FragmentId}

/-- The reassembler holds exactly the pieces that were seen. -/
def Holding (originalType : UInt8) (payload : Bytes) (chunkSize : ℕ) (id : FragmentId) (seen : Finset UInt16)
    (r : Reassembler) : Prop :=
  if seen = ∅ then r.lookup id = none
  else ∃ p, r.lookup id = some p ∧ p.total = (pieceCount payload chunkSize).toUInt16 ∧
    p.originalType = originalType ∧ ∀ i, p.chunks.lookup i =
      if i ∈ seen then some (pieceOf originalType payload chunkSize id i).chunk else none

/-- The set a piece goes to is the one that holds the pieces seen before. -/
theorem partialFor_piece {seen : Finset UInt16} {r : Reassembler} (i : UInt16) (nowMs : UInt64)
    (h : Holding originalType payload chunkSize id seen r) :
    ∃ p r', partialFor r (pieceOf originalType payload chunkSize id i) nowMs = (p, r') ∧
      p.total = (pieceCount payload chunkSize).toUInt16 ∧ p.originalType = originalType ∧
      ∀ j, p.chunks.lookup j = if j ∈ seen then some (pieceOf originalType payload chunkSize id j).chunk else none := by
  rw [Holding] at h
  split_ifs at h with hempty
  · refine ⟨_, _, by rw [partialFor, show r.lookup (pieceOf originalType payload chunkSize id i).id = none from h],
      rfl, rfl, ?_⟩
    intro j
    rw [hempty, if_neg (Finset.notMem_empty j)]
    rfl
  · obtain ⟨p, hl, htotal, htype, hchunks⟩ := h
    refine ⟨p, r, ?_, htotal, htype, hchunks⟩
    rw [partialFor, show r.lookup (pieceOf originalType payload chunkSize id i).id = some p from hl]
    simp only
    rw [if_neg]
    rintro (hne | hne)
    · exact hne htotal
    · exact hne htype

/-- The number of chunks held is the number of pieces seen. -/
theorem len_chunks {seen : Finset UInt16} {t : Table UInt16 Bytes} {val : UInt16 → Bytes}
    (h : ∀ j, t.lookup j = if j ∈ seen then some (val j) else none) : Table.len t = seen.card := by
  rw [← Table.card_keySet]
  congr 1
  ext j
  rw [Table.mem_keySet, ← AList.lookup_isSome, h]
  split_ifs with hin
  · simp [hin]
  · simp [hin]

/-- The pieces seen are all of them exactly when there are as many. -/
theorem card_eq_iff (hn : pieceCount payload chunkSize ≤ 65535) {seen : Finset UInt16}
    (hsub : seen ⊆ (pieceIndices payload chunkSize).toFinset) :
    seen.card.toUInt16 = (pieceCount payload chunkSize).toUInt16 ↔ seen = (pieceIndices payload chunkSize).toFinset := by
  have hall : (pieceIndices payload chunkSize).toFinset.card = pieceCount payload chunkSize := by
    rw [List.toFinset_card_of_nodup (pairwise_pieceIndices hn).nodup, pieceIndices, List.length_map, List.length_range]
  have hle := Finset.card_le_card hsub
  constructor
  · intro h
    refine Finset.eq_of_subset_of_card_le hsub ?_
    have hnat := congrArg UInt16.toNat h
    rw [Nat.toUInt16_eq, Nat.toUInt16_eq, UInt16.toNat_ofNat', UInt16.toNat_ofNat', Nat.mod_eq_of_lt (by omega),
      Nat.mod_eq_of_lt (by omega)] at hnat
    omega
  · intro h
    rw [h, hall]

/-- All the pieces, joined in the order of their index, are the message. -/
theorem message_eq (hn : pieceCount payload chunkSize ≤ 65535) {p : Partial}
    (h : ∀ j, p.chunks.lookup j = if j ∈ (pieceIndices payload chunkSize).toFinset then
      some (pieceOf originalType payload chunkSize id j).chunk else none) : p.message = payload := by
  have hlt := pairwise_pieceIndices hn
  have hle : (pieceIndices payload chunkSize).Pairwise (· ≤ ·) := hlt.imp UInt16.le_of_lt
  have hsorted := Table.insertionSort_entries hle hlt.nodup (fun j => by simpa only [List.mem_toFinset] using h j)
  rw [Partial.message, hsorted, List.flatMap_map, flatMap_pieces hn]

/-- STEP: a piece that is not the last one missing is kept, and nothing is given out. -/
theorem accept_piece {seen : Finset UInt16} {r : Reassembler} (hn : pieceCount payload chunkSize ≤ 65535)
    {i : UInt16} {nowMs : UInt64} (hsub : insert i seen ⊆ (pieceIndices payload chunkSize).toFinset)
    (h : Holding originalType payload chunkSize id seen r)
    (hbounds : InBounds id r (pieceOf originalType payload chunkSize id i, nowMs)) :
    if insert i seen = (pieceIndices payload chunkSize).toFinset then
      (accept r (pieceOf originalType payload chunkSize id i) nowMs).1 = some (originalType, payload)
    else
      (accept r (pieceOf originalType payload chunkSize id i) nowMs).1 = none ∧
        Holding originalType payload chunkSize id (insert i seen)
          (accept r (pieceOf originalType payload chunkSize id i) nowMs).2 := by
  have hgc : Holding originalType payload chunkSize id seen (gc r nowMs) := by
    rw [Holding, lookup_gc hbounds.live]
    exact h
  obtain ⟨p, r', hpart, htotal, htype, hchunks⟩ := partialFor_piece i nowMs hgc
  have hnow : ∀ j, (p.chunks.insert i (pieceOf originalType payload chunkSize id i).chunk).lookup j =
      if j ∈ insert i seen then some (pieceOf originalType payload chunkSize id j).chunk else none := by
    intro j
    rw [Table.lookup_insert_iff, hchunks]
    by_cases hj : j = i
    · subst hj
      rw [if_pos rfl, if_pos (Finset.mem_insert_self j seen)]
    · rw [if_neg hj]
      simp only [Finset.mem_insert, hj, false_or]
  have hcount := card_eq_iff hn hsub
  rw [← len_chunks hnow, ← htotal] at hcount
  rw [accept_eq hpart rfl]
  split_ifs with hall hlen hlen
  · rw [hall] at hnow
    exact congrArg some (Prod.ext htype (message_eq hn hnow))
  · exact absurd (hcount.mpr hall) hlen
  · exact absurd (hcount.mp hlen) hall
  · refine ⟨rfl, ?_⟩
    rw [Holding, if_neg (Finset.insert_ne_empty i seen)]
    refine ⟨{ p with chunks := p.chunks.insert i (pieceOf originalType payload chunkSize id i).chunk }, ?_, htotal,
      htype, hnow⟩
    rw [Table.lookup_insert_iff]
    exact if_pos rfl

/-! ### Any order, any repetition -/

/-- Every fragment under `id` is one that was written. -/
def OwnPieces (originalType : UInt8) (payload : Bytes) (chunkSize : ℕ) (id : FragmentId)
    (es : List (Fragment × UInt64)) : Prop :=
  ∀ e ∈ es, e.1.id = id → some e.1 ∈ (fragmentMessage originalType payload chunkSize id).map parseFragment

instance (originalType : UInt8) (payload : Bytes) (chunkSize : ℕ) (id : FragmentId) (es : List (Fragment × UInt64)) :
    Decidable (OwnPieces originalType payload chunkSize id es) :=
  inferInstanceAs (Decidable (∀ e ∈ es, e.1.id = id → some e.1 ∈ _))

/-- Every fragment that was written has come in. -/
def AllArrived (originalType : UInt8) (payload : Bytes) (chunkSize : ℕ) (id : FragmentId)
    (es : List (Fragment × UInt64)) : Prop :=
  ∀ f, some f ∈ (fragmentMessage originalType payload chunkSize id).map parseFragment → ∃ e ∈ es, e.1 = f

/-- The indices that came in under `id`. -/
def arrived (id : FragmentId) (es : List (Fragment × UInt64)) : Finset UInt16 :=
  ((es.filter fun e => e.1.id = id).map fun e => e.1.index).toFinset

theorem mem_arrived {es : List (Fragment × UInt64)} {i : UInt16} :
    i ∈ arrived id es ↔ ∃ e ∈ es, e.1.id = id ∧ e.1.index = i := by
  simp only [arrived, List.mem_toFinset, List.mem_map, List.mem_filter, decide_eq_true_eq, and_assoc]

theorem arrived_cons (e : Fragment × UInt64) (es : List (Fragment × UInt64)) :
    arrived id (e :: es) = if e.1.id = id then insert e.1.index (arrived id es) else arrived id es := by
  rw [arrived, List.filter_cons]
  by_cases h : e.1.id = id
  · rw [if_pos (decide_eq_true h), if_pos h, List.map_cons, List.toFinset_cons, arrived]
  · rw [if_neg (by simpa using h), if_neg h, arrived]

theorem arrived_concat (es : List (Fragment × UInt64)) (e : Fragment × UInt64) :
    arrived id (es ++ [e]) = if e.1.id = id then insert e.1.index (arrived id es) else arrived id es := by
  ext i
  split_ifs with hid
  · simp only [mem_arrived, List.mem_append, List.mem_singleton, Finset.mem_insert]
    constructor
    · rintro ⟨e', he | rfl, he', rfl⟩
      · exact Or.inr ⟨e', he, he', rfl⟩
      · exact Or.inl rfl
    · rintro (rfl | ⟨e', he, he', rfl⟩)
      · exact ⟨e, Or.inr rfl, hid, rfl⟩
      · exact ⟨e', Or.inl he, he', rfl⟩
  · simp only [mem_arrived, List.mem_append, List.mem_singleton]
    constructor
    · rintro ⟨e', he | rfl, he', rfl⟩
      · exact ⟨e', he, he', rfl⟩
      · exact absurd he' hid
    · rintro ⟨e', he, he', rfl⟩
      exact ⟨e', Or.inl he, he', rfl⟩

theorem mem_written (hn : pieceCount payload chunkSize ≤ 65535) {f : Fragment} :
    some f ∈ (fragmentMessage originalType payload chunkSize id).map parseFragment ↔
      ∃ i ∈ pieceIndices payload chunkSize, pieceOf originalType payload chunkSize id i = f := by
  rw [parse_fragmentMessage hn, List.mem_map]
  simp only [Option.some.injEq]

theorem arrived_subset (hn : pieceCount payload chunkSize ≤ 65535) {es : List (Fragment × UInt64)}
    (hown : OwnPieces originalType payload chunkSize id es) :
    arrived id es ⊆ (pieceIndices payload chunkSize).toFinset := by
  intro i hi
  obtain ⟨e, he, hid, hindex⟩ := mem_arrived.mp hi
  obtain ⟨j, hj, hpiece⟩ := (mem_written hn).mp (hown e he hid)
  rw [← hindex, ← hpiece, List.mem_toFinset]
  exact hj

/-- All the pieces have come in exactly when all the indices have. -/
theorem allArrived_iff (hn : pieceCount payload chunkSize ≤ 65535) {es : List (Fragment × UInt64)}
    (hown : OwnPieces originalType payload chunkSize id es) :
    AllArrived originalType payload chunkSize id es ↔ arrived id es = (pieceIndices payload chunkSize).toFinset := by
  constructor
  · intro h
    refine (arrived_subset hn hown).antisymm fun i hi => ?_
    obtain ⟨e, he, hpiece⟩ := h _ ((mem_written hn).mpr ⟨i, List.mem_toFinset.mp hi, rfl⟩)
    exact mem_arrived.mpr ⟨e, he, by rw [hpiece, pieceOf], by rw [hpiece, pieceOf]⟩
  · intro h f hf
    obtain ⟨i, hi, rfl⟩ := (mem_written hn).mp hf
    rw [← List.mem_toFinset, ← h] at hi
    obtain ⟨e, he, hid, hindex⟩ := mem_arrived.mp hi
    obtain ⟨j, -, hpiece⟩ := (mem_written hn).mp (hown e he hid)
    have hij : j = i := by
      rw [← hindex, ← hpiece, pieceOf]
    exact ⟨e, he, by rw [← hpiece, hij]⟩

/-- RUN: until the last piece comes in, the pieces that came in are held. -/
theorem holding_exec (hn : pieceCount payload chunkSize ≤ 65535) (es : List (Fragment × UInt64)) {seen : Finset UInt16}
    {r : Reassembler} (hown : OwnPieces originalType payload chunkSize id es)
    (hbounds : Run.Along step (InBounds id) r es) (hsub : seen ⊆ (pieceIndices payload chunkSize).toFinset)
    (hmissing : seen ∪ arrived id es ≠ (pieceIndices payload chunkSize).toFinset)
    (h : Holding originalType payload chunkSize id seen r) :
    Holding originalType payload chunkSize id (seen ∪ arrived id es) (Run.exec step r es) := by
  induction es generalizing seen r with
  | nil =>
    have hnone : arrived id [] = ∅ := rfl
    rw [hnone, Finset.union_empty]
    exact h
  | cons e es ih =>
    obtain ⟨hin, hrest⟩ := hbounds
    have hownRest : OwnPieces originalType payload chunkSize id es := fun e' he' => hown e' (List.mem_cons_of_mem e he')
    rw [arrived_cons] at hmissing ⊢
    rw [Run.exec_cons]
    split_ifs at hmissing ⊢ with hid
    · obtain ⟨i, hi, hpiece⟩ := (mem_written hn).mp (hown e List.mem_cons_self hid)
      have hindex : e.1.index = i := by
        rw [← hpiece, pieceOf]
      have hnow : insert i seen ⊆ (pieceIndices payload chunkSize).toFinset :=
        Finset.insert_subset (List.mem_toFinset.mpr hi) hsub
      have hunion : seen ∪ insert e.1.index (arrived id es) = insert i seen ∪ arrived id es := by
        rw [hindex, Finset.union_insert, Finset.insert_union]
      rw [hunion] at hmissing ⊢
      have hpair : e = (pieceOf originalType payload chunkSize id i, e.2) := Prod.ext hpiece.symm rfl
      rw [hpair] at hin hrest ⊢
      have hstep := accept_piece hn hnow h hin
      rw [if_neg] at hstep
      · exact ih hownRest hrest hnow hmissing hstep.2
      · intro hall
        refine hmissing ((Finset.union_subset hnow (arrived_subset hn hownRest)).antisymm ?_)
        rw [← hall]
        exact Finset.subset_union_left
    · refine ih hownRest hrest hsub hmissing ?_
      rw [Holding, lookup_accept_of_ne hid hin]
      exact h

/-- The fragment that comes in after those is either one of the missing or the last. -/
theorem accept_last (hn : pieceCount payload chunkSize ≤ 65535) {es : List (Fragment × UInt64)} {f : Fragment}
    {nowMs : UInt64} {r : Reassembler} (hown : OwnPieces originalType payload chunkSize id (es ++ [(f, nowMs)]))
    (hid : f.id = id) (h : Holding originalType payload chunkSize id (arrived id es) r)
    (hbounds : InBounds id r (f, nowMs)) :
    if insert f.index (arrived id es) = (pieceIndices payload chunkSize).toFinset then
      (accept r f nowMs).1 = some (originalType, payload)
    else (accept r f nowMs).1 = none := by
  have hlast : (f, nowMs) ∈ es ++ [(f, nowMs)] := List.mem_append_right es (List.mem_singleton_self _)
  have hsub := arrived_subset hn hown
  rw [arrived_concat, if_pos hid] at hsub
  obtain ⟨i, -, rfl⟩ := (mem_written hn).mp (hown _ hlast hid)
  have hstep := accept_piece (i := i) hn hsub h hbounds
  split_ifs with hall
  · exact (if_pos hall).mp hstep
  · exact ((if_neg hall).mp hstep).1

end OneMessage

/-- CORRECT: in whatever order and however often its fragments come in, among whatever fragments of other
    messages, a message is given out when its last missing fragment comes in and not before, as long as its
    set is within its lifetime and not crowded out; and whatever comes in, the bound is kept. -/
theorem reassembly_delivers (originalType : UInt8) (payload : Bytes) (chunkSize : ℕ) (id : FragmentId)
    (hn : (fragmentMessage originalType payload chunkSize id).length ≤ 65535) (r : Reassembler)
    (hfresh : r.lookup id = none) (es : List (Fragment × UInt64)) (f : Fragment) (nowMs : UInt64)
    (hown : OwnPieces originalType payload chunkSize id (es ++ [(f, nowMs)]))
    (hbounds : Run.Along step (InBounds id) r (es ++ [(f, nowMs)]))
    (hbefore : ¬ AllArrived originalType payload chunkSize id es) :
    (¬ AllArrived originalType payload chunkSize id (es ++ [(f, nowMs)]) → f.id = id →
      (accept (Run.exec step r es) f nowMs).1 = none) ∧
    (AllArrived originalType payload chunkSize id (es ++ [(f, nowMs)]) →
      (accept (Run.exec step r es) f nowMs).1 = some (originalType, payload)) ∧
    ∀ hostile : List (Fragment × UInt64), Table.len (Run.exec step ∅ hostile) ≤ maxInFlight := by
  have hcount : pieceCount payload chunkSize ≤ 65535 := by
    rw [fragmentMessage, List.length_map, List.length_zipIdx] at hn
    exact hn
  have hownBefore : OwnPieces originalType payload chunkSize id es := fun e he => hown e (List.mem_append_left _ he)
  rw [Run.along_append] at hbounds
  rw [allArrived_iff hcount hownBefore] at hbefore
  have hempty : Holding originalType payload chunkSize id ∅ r := by
    rw [Holding, if_pos rfl]
    exact hfresh
  have hheld := holding_exec hcount es hownBefore hbounds.1 (Finset.empty_subset _) (by rwa [Finset.empty_union]) hempty
  rw [Finset.empty_union] at hheld
  have hall := allArrived_iff hcount hown
  rw [arrived_concat] at hall
  refine ⟨?_, ?_, fun hostile => len_exec hostile (Nat.zero_le _)⟩
  · intro hnot hid
    rw [hall, if_pos hid] at hnot
    have hlast := accept_last hcount hown hid hheld hbounds.2.1
    rw [if_neg hnot] at hlast
    exact hlast
  · intro hdone
    rw [hall] at hdone
    split_ifs at hdone with hid
    · have hlast := accept_last hcount hown hid hheld hbounds.2.1
      rw [if_pos hdone] at hlast
      exact hlast
    · exact absurd hdone hbefore

def sampleFragmentId : FragmentId := ⟨[0, 0, 0, 0, 0, 0, 0, 1], rfl⟩

/-- A message of three bytes in three fragments: the third comes in first, the second twice, and a fragment of
    another message among them. -/
def sampleArrivals : List (Fragment × UInt64) :=
  [(pieceOf 2 [7, 8, 9] 1 sampleFragmentId 2, 0), (⟨⟨[0, 0, 0, 0, 0, 0, 0, 2], rfl⟩, 0, 2, 3, [5]⟩, 10),
    (pieceOf 2 [7, 8, 9] 1 sampleFragmentId 1, 20), (pieceOf 2 [7, 8, 9] 1 sampleFragmentId 1, 30)]

theorem sample_reassembly_delivers :
    (accept (Run.exec step ∅ sampleArrivals) (pieceOf 2 [7, 8, 9] 1 sampleFragmentId 0) 40).1 = some (2, [7, 8, 9]) := by
  have hn : (fragmentMessage 2 [7, 8, 9] 1 sampleFragmentId).length ≤ 65535 := by decide
  have hown : OwnPieces 2 [7, 8, 9] 1 sampleFragmentId
      (sampleArrivals ++ [(pieceOf 2 [7, 8, 9] 1 sampleFragmentId 0, 40)]) := by
    decide +kernel
  have hbounds : Run.Along step (InBounds sampleFragmentId) ∅
      (sampleArrivals ++ [(pieceOf 2 [7, 8, 9] 1 sampleFragmentId 0, 40)]) := by
    refine ⟨?_, ?_, ?_, ?_, ?_, trivial⟩ <;> decide +kernel
  have hbefore : ¬ AllArrived 2 [7, 8, 9] 1 sampleFragmentId sampleArrivals := by
    rw [allArrived_iff (by decide) fun e he => hown e (List.mem_append_left _ he)]
    decide +kernel
  have hdone : AllArrived 2 [7, 8, 9] 1 sampleFragmentId
      (sampleArrivals ++ [(pieceOf 2 [7, 8, 9] 1 sampleFragmentId 0, 40)]) := by
    rw [allArrived_iff (by decide) hown]
    decide +kernel
  exact (reassembly_delivers 2 [7, 8, 9] 1 sampleFragmentId hn ∅ rfl sampleArrivals _ 40 hown hbounds hbefore).2.1 hdone

/-- The id of one message of a crowd. -/
def crowdId (n : ℕ) : FragmentId := ⟨[n.toUInt8, 1, 0, 0, 0, 0, 0, 0], rfl⟩

/-- The first half of a message, then fragments of as many others as there is room for beside it, then another
    message in a single fragment. -/
def crowd : List (Fragment × UInt64) :=
  (pieceOf 2 [7, 8] 1 sampleFragmentId 0, 0) :: (List.range 127).map (fun n => (⟨crowdId n, 0, 2, 3, []⟩, 1)) ++
    [(⟨crowdId 127, 0, 1, 3, []⟩, 1)]

/-- Never are as many others in flight as the bound, yet the message that passes through takes the place of the
    oldest, and the second half gives nothing. -/
theorem message_crowded_out :
    (∀ r ∈ crowd.scanl step ∅, Table.len (r.erase sampleFragmentId) < maxInFlight) ∧
      (∀ e ∈ crowd, satSub 1 e.2 < reassemblyLifetimeMs) ∧
      OwnPieces 2 [7, 8] 1 sampleFragmentId (crowd ++ [(pieceOf 2 [7, 8] 1 sampleFragmentId 1, 1)]) ∧
      AllArrived 2 [7, 8] 1 sampleFragmentId (crowd ++ [(pieceOf 2 [7, 8] 1 sampleFragmentId 1, 1)]) ∧
      (accept (Run.exec step ∅ crowd) (pieceOf 2 [7, 8] 1 sampleFragmentId 1) 1).1 = none := by
  have hown : OwnPieces 2 [7, 8] 1 sampleFragmentId (crowd ++ [(pieceOf 2 [7, 8] 1 sampleFragmentId 1, 1)]) := by
    decide +kernel
  refine ⟨by decide +kernel, by decide +kernel, hown, ?_, by decide +kernel⟩
  rw [allArrived_iff (by decide) hown]
  decide +kernel

end Reassembler

end Nimmesh
