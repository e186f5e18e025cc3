import Nimmesh.Lib.Table
import Mathlib.Data.Finset.Card
import Mathlib.Data.List.Sort

/-! @lib table | name:Counting and sorting entries | scope:general

    How the operations of a table change the number of its entries, which is the number of its keys, and
    what its entries are in the order of their keys. -/

namespace Table

variable {κ ν : Type*} [DecidableEq κ]

/-! ### Counting -/

/-- The keys of a table, as a set. -/
def keySet (t : Table κ ν) : Finset κ := t.keys.toFinset

theorem mem_keySet {t : Table κ ν} {k : κ} : k ∈ keySet t ↔ k ∈ t := by
  rw [keySet, List.mem_toFinset, AList.mem_keys]

theorem card_keySet (t : Table κ ν) : (keySet t).card = len t := by
  rw [keySet, List.toFinset_card_of_nodup t.keys_nodup, AList.keys, List.keys, List.length_map, len]

theorem len_erase_le (t : Table κ ν) (k : κ) : len (t.erase k) ≤ len t := (List.kerase_sublist k t.entries).length_le

theorem len_erase_of_mem {t : Table κ ν} {k : κ} (h : k ∈ t) : len (t.erase k) + 1 = len t := by
  have hset : keySet (t.erase k) = (keySet t).erase k := by
    ext a
    rw [mem_keySet, AList.mem_erase, Finset.mem_erase, mem_keySet]
  rw [← card_keySet, hset, ← card_keySet]
  exact Finset.card_erase_add_one (mem_keySet.mpr h)

theorem len_insert (t : Table κ ν) (k : κ) (v : ν) : len (t.insert k v) = len (t.erase k) + 1 := by
  rw [len, AList.entries_insert, List.length_cons]
  rfl

theorem len_insert_le (t : Table κ ν) (k : κ) (v : ν) : len (t.insert k v) ≤ len t + 1 := by
  rw [len_insert]
  exact Nat.succ_le_succ (len_erase_le t k)

theorem len_insert_of_mem {t : Table κ ν} {k : κ} (h : k ∈ t) (v : ν) : len (t.insert k v) = len t := by
  rw [len_insert, len_erase_of_mem h]

/-- A table with no other keys has no more entries. -/
theorem len_le_of_subset {μ : Type*} {t : Table κ ν} {t' : Table κ μ} (h : ∀ k ∈ t, k ∈ t') : len t ≤ len t' := by
  rw [← card_keySet, ← card_keySet]
  exact Finset.card_le_card fun k hk => mem_keySet.mpr (h k (mem_keySet.mp hk))

omit [DecidableEq κ] in
theorem len_mapVals (f : κ → ν → ν) (t : Table κ ν) : len (t.mapVals f) = len t := List.length_map _

omit [DecidableEq κ] in
theorem length_keysWhere_le (p : κ → ν → Bool) (t : Table κ ν) : (t.keysWhere p).length ≤ len t := by
  rw [keysWhere, AList.keys, List.keys, List.length_map]
  exact List.length_filter_le _ _

theorem mem_retain (p : κ → ν → Bool) (t : Table κ ν) (k : κ) :
    k ∈ t.retain p ↔ ∃ v, t.lookup k = some v ∧ p k v = true :=
  AList.mem_keys.trans (mem_keysWhere p t k)

/-- What is left after erasing keys was there. -/
theorem lookup_of_foldl_erase {ks : List κ} {t : Table κ ν} {k : κ} {v : ν}
    (h : (ks.foldl (fun t k => t.erase k) t).lookup k = some v) : t.lookup k = some v := by
  induction ks generalizing t with
  | nil => exact h
  | cons a ks ih =>
    have herase := ih h
    rw [lookup_erase_iff] at herase
    split_ifs at herase
    exact herase

omit [DecidableEq κ] in
theorem len_retain_le (p : κ → ν → Bool) (t : Table κ ν) : len (t.retain p) ≤ len t :=
  List.filter_sublist.length_le

/-! ### Sorting -/

section Sorting

variable [LE κ] [DecidableLE κ] [Std.Total fun a b : κ => a ≤ b] [IsTrans κ fun a b => a ≤ b]
  [Std.Antisymm fun a b : κ => a ≤ b]

/-- A table that holds exactly `val` at the keys `ks` has these entries in the order of `ks`. -/
theorem insertionSort_entries {t : Table κ ν} {ks : List κ} {val : κ → ν} (hks : ks.Pairwise (· ≤ ·))
    (hnd : ks.Nodup) (h : ∀ k, t.lookup k = if k ∈ ks then some (val k) else none) :
    t.entries.insertionSort (fun a b => a.1 ≤ b.1) = ks.map fun k => ⟨k, val k⟩ := by
  have hmem : ∀ e : Σ _ : κ, ν, e ∈ t.entries ↔ e ∈ ks.map fun k => (⟨k, val k⟩ : Σ _ : κ, ν) := by
    rintro ⟨k, v⟩
    rw [← lookup_eq_some_iff, h, List.mem_map]
    constructor
    · intro hk
      split_ifs at hk with hin
      exact ⟨k, hin, by rw [Option.some.inj hk]⟩
    · rintro ⟨k', hk', heq⟩
      obtain ⟨rfl, hv⟩ := Sigma.mk.inj heq
      rw [if_pos hk', eq_of_heq hv]
  have hperm : t.entries.Perm (ks.map fun k => ⟨k, val k⟩) := by
    refine (List.perm_ext_iff_of_nodup t.nodupKeys.nodup ?_).mpr hmem
    exact hnd.map fun a b hab => (Sigma.mk.inj hab).1
  have htotal : Std.Total fun a b : Σ _ : κ, ν => a.1 ≤ b.1 := ⟨fun a b => Std.Total.total a.1 b.1⟩
  have htrans : IsTrans (Σ _ : κ, ν) (fun a b => a.1 ≤ b.1) := ⟨fun _ _ _ hab hbc => IsTrans.trans _ _ _ hab hbc⟩
  refine List.Perm.eq_of_pairwise ?_ (List.pairwise_insertionSort _ _) (List.pairwise_map.mpr hks)
    ((List.perm_insertionSort _ _).trans hperm)
  intro a b ha hb hab hba
  rw [List.mem_insertionSort, hmem, List.mem_map] at ha
  rw [List.mem_map] at hb
  obtain ⟨k, -, rfl⟩ := ha
  obtain ⟨k', -, rfl⟩ := hb
  rw [Std.Antisymm.antisymm k k' hab hba]

end Sorting

end Table
