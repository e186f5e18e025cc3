import Mathlib.Data.List.AList
import Mathlib.Algebra.Order.BigOperators.Group.List
import Mathlib.Algebra.Order.Group.Nat
import Mathlib.Algebra.Ring.Nat

/-! @lib table | name:Association tables | scope:general

    A hash map seen through its keys: Mathlib's association list `AList` at a constant value type,
    with the three operations of a map the library lacks — `retain` (keep the entries a predicate
    accepts), `mapVals` (update every value in place) and `keysWhere` (the keys of the accepted
    entries). Each operation is described by what `lookup` reads afterwards, which is all a client
    needs: no proof outside this file looks at the entry list. -/

/-- A finite map from `κ` to `ν`. -/
abbrev Table (κ : Type*) (ν : Type*) := AList (fun _ : κ => ν)

namespace Table

variable {κ ν : Type*} [DecidableEq κ]

/-- Number of entries. -/
def len (t : Table κ ν) : ℕ := t.entries.length

/-- Keep the entries that `p` accepts. -/
def retain (p : κ → ν → Bool) (t : Table κ ν) : Table κ ν :=
  ⟨t.entries.filter fun e => p e.1 e.2, t.nodupKeys.sublist List.filter_sublist⟩

/-- Update every value, keeping the keys. -/
def mapVals (f : κ → ν → ν) (t : Table κ ν) : Table κ ν :=
  ⟨t.entries.map fun e => ⟨e.1, f e.1 e.2⟩, t.nodupKeys.map₂ f _⟩

/-- Update the value at one key, if it is there. -/
def adjust (k : κ) (f : ν → ν) (t : Table κ ν) : Table κ ν :=
  mapVals (fun k' v => if k' = k then f v else v) t

/-- The keys whose entry `p` accepts. -/
def keysWhere (p : κ → ν → Bool) (t : Table κ ν) : List κ := (retain p t).keys

@[simp] theorem lookup_insert_iff (t : Table κ ν) (a k : κ) (b : ν) :
    (t.insert a b).lookup k = if k = a then some b else t.lookup k := by
  by_cases h : k = a
  · subst h; rw [if_pos rfl, AList.lookup_insert]
  · rw [if_neg h, AList.lookup_insert_ne h]

@[simp] theorem lookup_erase_iff (t : Table κ ν) (a k : κ) :
    (t.erase a).lookup k = if k = a then none else t.lookup k := by
  by_cases h : k = a
  · subst h; rw [if_pos rfl, AList.lookup_erase]
  · rw [if_neg h, AList.lookup_erase_ne h]

/-- Reading an entry of a table is finding it in the entry list. -/
theorem lookup_eq_some_iff (t : Table κ ν) (k : κ) (v : ν) :
    t.lookup k = some v ↔ (⟨k, v⟩ : Σ _ : κ, ν) ∈ t.entries := by
  rw [← Option.mem_def]; exact AList.mem_lookup_iff

@[simp] theorem lookup_retain (p : κ → ν → Bool) (t : Table κ ν) (k : κ) :
    (t.retain p).lookup k = (t.lookup k).filter (p k) := by
  ext v
  simp only [lookup_eq_some_iff, Option.filter_eq_some_iff, retain, List.mem_filter]

@[simp] theorem lookup_mapVals (f : κ → ν → ν) (t : Table κ ν) (k : κ) :
    (t.mapVals f).lookup k = (t.lookup k).map (f k) :=
  List.dlookup_map₂ (f := f) k

@[simp] theorem lookup_adjust (k k' : κ) (f : ν → ν) (t : Table κ ν) :
    (t.adjust k f).lookup k' = if k' = k then (t.lookup k').map f else t.lookup k' := by
  rw [adjust, lookup_mapVals]
  by_cases h : k' = k
  · simp only [if_pos h]
  · simp only [if_neg h, Option.map_id']

theorem mem_keysWhere (p : κ → ν → Bool) (t : Table κ ν) (k : κ) :
    k ∈ t.keysWhere p ↔ ∃ v, t.lookup k = some v ∧ p k v = true := by
  rw [keysWhere, ← AList.mem_keys, ← AList.lookup_isSome, lookup_retain, Option.isSome_iff_exists]
  simp only [Option.filter_eq_some_iff]

theorem len_insert_of_notMem {t : Table κ ν} {k : κ} (h : k ∉ t) (v : ν) :
    len (t.insert k v) = len t + 1 := by
  rw [len, len, AList.entries_insert_of_notMem h, List.length_cons]

/-- The sum of a measure of the values. -/
def total (f : ν → ℕ) (t : Table κ ν) : ℕ := (t.entries.map fun e => f e.2).sum

omit [DecidableEq κ] in
@[simp] theorem total_empty (f : ν → ℕ) : total f (∅ : Table κ ν) = 0 := rfl

theorem total_insert_of_notMem (f : ν → ℕ) {t : Table κ ν} {k : κ} (h : k ∉ t) (v : ν) :
    total f (t.insert k v) = f v + total f t := by
  rw [total, total, AList.entries_insert_of_notMem h, List.map_cons, List.sum_cons]

/-- Overwriting a value trades its measure for the new one. -/
theorem total_insert_of_lookup (f : ν → ℕ) {t : Table κ ν} {k : κ} {v₀ : ν} (h : t.lookup k = some v₀)
    (v : ν) : total f (t.insert k v) + f v₀ = f v + total f t := by
  obtain ⟨b, l₁, l₂, hl₁, he, hk⟩ := List.exists_of_kerase
    (AList.mem_keys.mp ((AList.lookup_isSome).mp (by rw [h]; rfl)))
  have hb : b = v₀ := by
    have hmem : (⟨k, b⟩ : Σ _ : κ, ν) ∈ t.entries := by
      rw [he]
      simp
    rw [(lookup_eq_some_iff t k b).mpr hmem] at h
    exact Option.some.inj h
  subst hb
  have hins : (t.insert k v).entries = ⟨k, v⟩ :: (l₁ ++ l₂) := by
    rw [← hk]
    rfl
  simp only [total, hins, he, List.map_cons, List.map_append, List.sum_cons, List.sum_append]
  omega

theorem le_total_of_lookup (f : ν → ℕ) {t : Table κ ν} {k : κ} {v : ν} (h : t.lookup k = some v) :
    f v ≤ total f t := by
  obtain ⟨l₁, l₂, he⟩ := List.append_of_mem ((lookup_eq_some_iff t k v).mp h)
  simp only [total, he, List.map_append, List.map_cons, List.sum_append, List.sum_cons]
  omega

theorem total_insert (f : ν → ℕ) (t : Table κ ν) (k : κ) (v : ν) :
    total f (t.insert k v) = f v + total f (t.erase k) := by
  rw [total, AList.entries_insert, List.map_cons, List.sum_cons]
  rfl

theorem total_erase_le (f : ν → ℕ) (t : Table κ ν) (k : κ) : total f (t.erase k) ≤ total f t :=
  ((List.kerase_sublist k t.entries).map _).sum_le_sum fun _ _ => Nat.zero_le _

omit [DecidableEq κ] in
theorem total_retain_le (f : ν → ℕ) (p : κ → ν → Bool) (t : Table κ ν) : total f (t.retain p) ≤ total f t :=
  (List.filter_sublist.map _).sum_le_sum fun _ _ => Nat.zero_le _

/-- What is taken out of a table is missing from its total. -/
theorem total_erase_of_lookup (f : ν → ℕ) {t : Table κ ν} {k : κ} {v : ν} (h : t.lookup k = some v) :
    total f (t.erase k) + f v = total f t := by
  have h1 := total_insert_of_lookup f h v
  have h2 := total_insert f t k v
  omega

/-- Writing an entry into the empty table and taking it out again. -/
theorem erase_insert_empty (k : κ) (v : ν) : ((∅ : Table κ ν).insert k v).erase k = ∅ := by
  apply AList.ext
  exact List.kerase_cons_eq rfl

theorem mem_iff_lookup (t : Table κ ν) (k : κ) : k ∈ t ↔ ∃ v, t.lookup k = some v := by
  rw [← AList.lookup_isSome, Option.isSome_iff_exists]

end Table
