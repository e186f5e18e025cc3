import Mathlib.Data.List.Basic
import Mathlib.Algebra.Ring.Nat

/-! @lib checked | name:Computations that can fault | scope:general

    A run ends with a value, with an error of its own, or with a fault: an index that is not there, a
    slice out of range, a number that does not fit. `Returns` says that a run does not fault, and is
    read off a sequence step by step. -/

namespace Checked

/-- What stops a run that should have gone on. -/
inductive Fault where | index | slice | overflow | conversion
  deriving DecidableEq, Repr

/-- How a run ends that has no value. -/
inductive Stop (ε : Type) where
  | err (e : ε)
  | fault (f : Fault)
  deriving DecidableEq, Repr

abbrev Result (ε α : Type) := Except (Stop ε) α

variable {ε ε' α β : Type}

def fail (e : ε) : Result ε α := .error (.err e)

def fault (f : Fault) : Result ε α := .error (.fault f)

/-- The error is dropped, a fault is not. -/
def ok? (x : Result ε α) : Result Unit α :=
  match x with
  | .ok a => .ok a
  | .error (.err _) => fail ()
  | .error (.fault f) => fault f

/-- The error is another one, a fault stays. -/
def mapErr (g : ε → ε') (x : Result ε α) : Result ε' α :=
  match x with
  | .ok a => .ok a
  | .error (.err e) => fail (g e)
  | .error (.fault f) => fault f

/-- The run does not fault. -/
def Returns (x : Result ε α) : Prop := ∀ f, x ≠ .error (.fault f)

@[simp] theorem returns_ok (a : α) : Returns (.ok a : Result ε α) := by simp [Returns]

@[simp] theorem returns_pure (a : α) : Returns (pure a : Result ε α) := returns_ok a

@[simp] theorem returns_fail (e : ε) : Returns (fail e : Result ε α) := by simp [Returns, fail]

@[simp] theorem not_returns_fault (f : Fault) : ¬ Returns (fault f : Result ε α) := fun h => h f rfl

/-- Whether an early end is a fault does not depend on the value that is missing. -/
theorem returns_error_iff {e : Stop ε} : Returns (.error e : Result ε α) ↔ Returns (.error e : Result ε β) := by
  simp [Returns]

/-- A run without an error has a value or faults. -/
theorem ne_fail_iff {x : Result ε α} : (∀ e, x ≠ fail e) ↔ (∃ a, x = .ok a) ∨ ¬ Returns x := by
  rcases x with ⟨e | f⟩ | a
  · simp [Returns, fail]
  · simp [Returns, fail]
  · simp [fail]

@[simp] theorem ok_bind (a : α) (g : α → Result ε β) : (Except.ok a >>= g) = g a := rfl

@[simp] theorem fail_bind (e : ε) (g : α → Result ε β) : (fail e >>= g) = fail e := rfl

@[simp] theorem fault_bind (f : Fault) (g : α → Result ε β) : (fault f >>= g) = fault f := rfl

/-- A sequence returns if each step that is reached does. -/
theorem returns_bind_iff {x : Result ε α} {g : α → Result ε β} :
    Returns (x >>= g) ↔ Returns x ∧ ∀ a, x = .ok a → Returns (g a) := by
  rcases x with e | a
  · constructor
    · intro h
      exact ⟨fun f hf => h f (by rw [hf]; rfl), fun a ha => by cases ha⟩
    · rintro ⟨h, -⟩ f hf
      cases hf
      exact h f rfl
  · constructor
    · intro h
      exact ⟨returns_ok a, by rintro b ⟨⟩; exact h⟩
    · rintro ⟨-, h⟩
      exact h a rfl

/-- A sequence has a value if each of its steps has. -/
theorem bind_eq_ok_iff {x : Result ε α} {g : α → Result ε β} {b : β} :
    (x >>= g) = .ok b ↔ ∃ a, x = .ok a ∧ g a = .ok b := by
  rcases x with e | a
  · constructor
    · intro h
      cases h
    · rintro ⟨a, h, -⟩
      cases h
  · constructor
    · intro h
      exact ⟨a, rfl, h⟩
    · rintro ⟨b, ⟨⟩, h⟩
      exact h

theorem returns_ok?_iff {x : Result ε α} : Returns (ok? x) ↔ Returns x := by
  rcases x with ⟨e | f⟩ | a <;> simp [ok?, Returns, fail, fault]

@[simp] theorem ok?_eq_ok_iff {x : Result ε α} {a : α} : ok? x = .ok a ↔ x = .ok a := by
  rcases x with ⟨e | f⟩ | b <;> simp [ok?, fail, fault]

/-- An early end without a fault. -/
def ofOption : Option α → Result Unit α
  | some a => .ok a
  | none => fail ()

def ofExcept : Except ε α → Result ε α
  | .ok a => .ok a
  | .error e => fail e

@[simp] theorem ofOption_some (a : α) : ofOption (some a) = .ok a := rfl

theorem returns_ofOption (o : Option α) : Returns (ofOption o) := by
  cases o with
  | none => exact returns_fail ()
  | some a => exact returns_ok a

theorem returns_ofExcept (x : Except ε α) : Returns (ofExcept x) := by
  rcases x with e | a
  · exact returns_fail e
  · exact returns_ok a

@[simp] theorem ofOption_eq_ok_iff {o : Option α} {a : α} : ofOption o = .ok a ↔ o = some a := by
  cases o <;> simp [ofOption, fail]

@[simp] theorem ofExcept_eq_ok_iff {x : Except ε α} {a : α} : ofExcept x = .ok a ↔ x = .ok a := by
  cases x <;> simp [ofExcept, fail]

theorem ofOption_bind (o : Option α) (f : α → Option β) :
    ofOption (o >>= f) = ofOption o >>= fun a => ofOption (f a) := by
  cases o <;> rfl

theorem ofOption_guard {P : Prop} [Decidable P] (f : Unit → Option β) :
    ofOption (guard P >>= f) = if P then ofOption (f ()) else fail () := by
  by_cases h : P
  · rw [guard, if_pos h, if_pos h]
    rfl
  · rw [guard, if_neg h, if_neg h]
    rfl

theorem ofExcept_bind (x : Except ε α) (f : α → Except ε β) :
    ofExcept (x >>= f) = ofExcept x >>= fun a => ofExcept (f a) := by
  cases x <;> rfl

/-- A loop each of whose rounds has a value. -/
theorem mapM_eq_ok {f : α → Result ε β} {g : α → β} {l : List α} (h : ∀ a ∈ l, f a = .ok (g a)) :
    l.mapM f = .ok (l.map g) := by
  induction l with
  | nil => rfl
  | cons a l ih =>
    rw [List.mapM_cons, h a List.mem_cons_self, ih fun b hb => h b (List.mem_cons_of_mem a hb)]
    rfl

/-! ### The primitive steps -/

/-- The element at an index. -/
def index (l : List α) (i : ℕ) : Result ε α :=
  match l[i]? with
  | some a => .ok a
  | none => fault .index

/-- The elements from `lo` up to `hi`. -/
def range (l : List α) (lo hi : ℕ) : Result ε (List α) :=
  if lo ≤ hi ∧ hi ≤ l.length then .ok ((l.take hi).drop lo) else fault .slice

/-- A difference that must not go below zero. -/
def sub (a b : ℕ) : Result ε ℕ := if b ≤ a then .ok (a - b) else fault .overflow

/-- A number that must fit `w` bits. -/
def fit (w n : ℕ) : Result ε ℕ := if n < 2 ^ w then .ok n else fault .overflow

theorem index_of_lt {l : List α} {i : ℕ} (h : i < l.length) : (index l i : Result ε α) = .ok l[i] := by
  simp [index, h]

theorem range_of_le {l : List α} {lo hi : ℕ} (h : lo ≤ hi) (h' : hi ≤ l.length) :
    (range l lo hi : Result ε (List α)) = .ok ((l.take hi).drop lo) := if_pos ⟨h, h'⟩

theorem sub_of_le {a b : ℕ} (h : b ≤ a) : (sub a b : Result ε ℕ) = .ok (a - b) := if_pos h

theorem fit_of_lt {w n : ℕ} (h : n < 2 ^ w) : (fit w n : Result ε ℕ) = .ok n := if_pos h

end Checked
