import Nimmesh.Lib.Fifo
import Nimmesh.Lib.TableOrder

/-! @lib mirror | name:A map and the queue of its keys | scope:general

    A bounded cache keeps its entries in a map and their keys in a queue, so that it can find an entry and still
    tell which is the oldest. The two are in step if the queue holds the keys of the map, each once. Dropping the
    oldest and adding a new key keeps them in step, and does to the queue what a bounded queue does. -/

namespace Mirror

variable {κ ν : Type*} [DecidableEq κ]

/-- The queue holds the keys of the map, each once. -/
structure InStep (t : Table κ ν) (q : List κ) : Prop where
  nodup : q.Nodup
  same : ∀ k, k ∈ q ↔ k ∈ t

/-- Drop the oldest, if there are as many as `cap`. -/
def evict (cap : ℕ) (t : Table κ ν) : List κ → Table κ ν × List κ
  | [] => (t, [])
  | old :: rest => if cap ≤ (old :: rest).length then (t.erase old, rest) else (t, old :: rest)

omit [DecidableEq κ] in
theorem inStep_empty : InStep (∅ : Table κ ν) [] := ⟨List.nodup_nil, fun k => by simp⟩

variable {t : Table κ ν} {q : List κ} {k : κ}

theorem InStep.pop {old : κ} (h : InStep t (old :: q)) : InStep (t.erase old) q := by
  obtain ⟨hnot, hnd⟩ := List.nodup_cons.mp h.nodup
  refine ⟨hnd, fun k => ?_⟩
  rw [AList.mem_erase, ← h.same]
  constructor
  · intro hk
    exact ⟨fun heq => hnot (heq ▸ hk), List.mem_cons_of_mem old hk⟩
  · rintro ⟨hne, hk⟩
    exact (List.mem_cons.mp hk).resolve_left hne

theorem InStep.push (h : InStep t q) (hk : k ∉ t) (v : ν) : InStep (t.insert k v) (q ++ [k]) := by
  refine ⟨?_, fun j => ?_⟩
  · rw [List.nodup_append]
    refine ⟨h.nodup, List.nodup_singleton k, ?_⟩
    rintro a ha b hb rfl
    rw [List.mem_singleton] at hb
    exact hk ((h.same k).mp (hb ▸ ha))
  · rw [List.mem_append, List.mem_singleton, AList.mem_insert, h.same, or_comm]

/-- A value changes in place. -/
theorem InStep.update (h : InStep t q) (hk : k ∈ t) (v : ν) : InStep (t.insert k v) q := by
  refine ⟨h.nodup, fun j => ?_⟩
  rw [h.same, AList.mem_insert]
  constructor
  · exact Or.inr
  · rintro (rfl | hj)
    · exact hk
    · exact hj

theorem InStep.evict (h : InStep t q) (cap : ℕ) : InStep (Mirror.evict cap t q).1 (Mirror.evict cap t q).2 := by
  cases q with
  | nil => exact h
  | cons old rest =>
    rw [Mirror.evict]
    split_ifs
    · exact h.pop
    · exact h

theorem evict_snd (cap : ℕ) (t : Table κ ν) (q : List κ) :
    (evict cap t q).2 = if cap ≤ q.length then q.tail else q := by
  cases q with
  | nil => rw [evict, List.tail_nil, ite_self]
  | cons old rest =>
    rw [evict]
    split_ifs <;> rfl

/-- The queue does what a bounded queue does. -/
theorem evict_push (cap : ℕ) (t : Table κ ν) (q : List κ) (k : κ) : (evict cap t q).2 ++ [k] = Fifo.push cap q k := by
  rw [evict_snd, Fifo.push]

theorem mem_of_mem_evict {cap : ℕ} (h : k ∈ (evict cap t q).1) : k ∈ t := by
  cases q with
  | nil => exact h
  | cons old rest =>
    rw [evict] at h
    split_ifs at h
    · exact (AList.mem_erase.mp h).2
    · exact h

/-- What is still in the queue has kept its value. -/
theorem lookup_evict {cap : ℕ} (h : InStep t q) (hk : k ∈ (evict cap t q).2) :
    (evict cap t q).1.lookup k = t.lookup k := by
  cases q with
  | nil => rfl
  | cons old rest =>
    rw [evict] at hk ⊢
    split_ifs at hk ⊢
    · refine AList.lookup_erase_ne ?_
      rintro rfl
      exact (List.nodup_cons.mp h.nodup).1 hk
    · rfl

/-- Only the oldest loses its value, and only if there are too many. -/
theorem lookup_evict_eq (cap : ℕ) (t : Table κ ν) (q : List κ) (k : κ) :
    (evict cap t q).1.lookup k = if cap ≤ q.length ∧ q.head? = some k then none else t.lookup k := by
  cases q with
  | nil => simp [evict]
  | cons old rest =>
    rw [evict]
    by_cases hfull : cap ≤ (old :: rest).length
    · rw [if_pos hfull, Table.lookup_erase_iff]
      by_cases hold : k = old
      · rw [if_pos hold, if_pos ⟨hfull, congrArg some hold.symm⟩]
      · rw [if_neg hold, if_neg fun h => hold (Option.some.inj h.2).symm]
    · rw [if_neg hfull, if_neg fun h => hfull h.1]

/-- Both halves have the same length. -/
theorem InStep.len (h : InStep t q) : Table.len t = q.length := by
  rw [← Table.card_keySet, ← List.toFinset_card_of_nodup h.nodup]
  congr 1
  ext k
  rw [Table.mem_keySet, List.mem_toFinset, h.same]

end Mirror
