import Mathlib.Data.List.Induction
import Mathlib.Data.List.Basic

/-! @lib tlv | name:Type-length-value records | scope:general

    A stream of records, each a type byte, a length byte and as many value bytes. `bytes` writes one;
    `latest` is what a reader that lets later records overwrite earlier ones ends up with for a type. -/

namespace Tlv

/-- A type and its value. -/
abbrev Record := UInt8 × List UInt8

/-- The records one after the other. -/
def bytes (l : List Record) : List UInt8 := l.flatMap fun t => t.1 :: t.2.length.toUInt8 :: t.2

/-- Every value fits its length byte. -/
def Fits (l : List Record) : Prop := ∀ t ∈ l, t.2.length ≤ 255

/-- The types that occur. -/
def types (l : List Record) : List UInt8 := l.map (·.1)

/-- The value of the last record of a type. -/
def latest (l : List Record) (ty : UInt8) : Option (List UInt8) :=
  l.foldl (fun found t => if t.1 = ty then some t.2 else found) none

/-- The record of a field that is set. -/
def ofField {α : Type} (ty : UInt8) (field : Option α) (value : α → List UInt8) : List Record :=
  (field.map fun v => (ty, value v)).toList

@[simp] theorem bytes_nil : bytes [] = [] := rfl

theorem bytes_cons (t : Record) (l : List Record) :
    bytes (t :: l) = t.1 :: t.2.length.toUInt8 :: (t.2 ++ bytes l) := List.flatMap_cons

theorem bytes_append (l l' : List Record) : bytes (l ++ l') = bytes l ++ bytes l' := List.flatMap_append

@[simp] theorem types_nil : types [] = [] := rfl

@[simp] theorem types_append (l l' : List Record) : types (l ++ l') = types l ++ types l' := List.map_append

theorem fits_append {l l' : List Record} : Fits (l ++ l') ↔ Fits l ∧ Fits l' := List.forall_mem_append

theorem fits_cons {t : Record} {l : List Record} : Fits (t :: l) ↔ t.2.length ≤ 255 ∧ Fits l := List.forall_mem_cons

theorem fits_ofField {α : Type} (ty : UInt8) {field : Option α} {value : α → List UInt8} :
    Fits (ofField ty field value) ↔ ∀ v, field = some v → (value v).length ≤ 255 := by
  cases field <;> simp [Fits, ofField]

@[simp] theorem latest_nil (ty : UInt8) : latest [] ty = none := rfl

/-- The last record of a type overwrites the ones before it. -/
theorem latest_concat (l : List Record) (t : Record) (ty : UInt8) :
    latest (l ++ [t]) ty = if t.1 = ty then some t.2 else latest l ty := by
  rw [latest, List.foldl_append]
  rfl

theorem latest_append (l l' : List Record) (ty : UInt8) :
    latest (l ++ l') ty = (latest l' ty).or (latest l ty) := by
  induction l' using List.reverseRecOn with
  | nil => simp
  | append_singleton l' t ih =>
    rw [← List.append_assoc, latest_concat, latest_concat, ih]
    split_ifs <;> rfl

theorem latest_ofField {α : Type} (ty ty' : UInt8) (field : Option α) (value : α → List UInt8) :
    latest (ofField ty field value) ty' = if ty = ty' then field.map value else none := by
  cases field with
  | none => simp [ofField]
  | some v => simp [ofField, latest]

/-- The length byte of a value that fits is its length. -/
theorem toNat_length {v : List UInt8} (h : v.length ≤ 255) : v.length.toUInt8.toNat = v.length := by
  simp only [Nat.toUInt8_eq, UInt8.toNat_ofNat']
  omega

theorem bytes_eq_nil_iff {l : List Record} : bytes l = [] ↔ l = [] := by
  cases l <;> simp [bytes_cons]

/-- No stream ends behind a type byte. -/
theorem bytes_ne_singleton (l : List Record) (b : UInt8) : bytes l ≠ [b] := by
  cases l <;> simp [bytes_cons]

/-- What stands behind the first two bytes of a stream: the value they announce, and more records. -/
theorem eq_bytes_cons_iff {ty len : UInt8} {rest : List UInt8} {l : List Record} :
    Fits l ∧ ty :: len :: rest = bytes l ↔
      ∃ l', l = (ty, rest.take len.toNat) :: l' ∧ len.toNat ≤ rest.length ∧ Fits l' ∧
        rest.drop len.toNat = bytes l' := by
  constructor
  · rintro ⟨hfits, h⟩
    cases l with
    | nil => cases h
    | cons t l' =>
      obtain ⟨ht, hl'⟩ := fits_cons.mp hfits
      obtain ⟨tty, v⟩ := t
      rw [bytes_cons] at h
      simp only [List.cons.injEq] at h
      obtain ⟨rfl, rfl, rfl⟩ := h
      rw [toNat_length ht]
      exact ⟨l', by rw [List.take_left], by simp, hl', List.drop_left⟩
  · rintro ⟨l', rfl, hle, hfits, hdrop⟩
    have hlen : (rest.take len.toNat).length = len.toNat := by
      rw [List.length_take]
      omega
    have hlt := len.toNat_lt
    refine ⟨fits_cons.mpr ⟨by rw [hlen]; omega, hfits⟩, ?_⟩
    have hback : len.toNat.toUInt8 = len := UInt8.ofNat_toNat
    rw [bytes_cons, hlen, hback, ← hdrop, List.take_append_drop]

end Tlv
