import Nimmesh.Lib.Table

/-! @lib record | name:The last write wins | scope:general

    A log of events, newest first, some of which write a value under a key; what an event writes may
    depend on the log below it. The record of a log is what its last writes left. A property of the
    value under a key survives a stretch of the log exactly when every write of the stretch under that
    key has it. -/

namespace Record

variable {ε κ ν : Type*} [DecidableEq κ] (writes : List ε → ε → Option (κ × ν))

/-- The table that a log leaves. -/
def record : List ε → Table κ ν
  | [] => ∅
  | e :: old => (writes old e).elim (record old) fun p => (record old).insert p.1 p.2

/-- The value under a key after a log has `P`. -/
def Has (k : κ) (P : ν → Prop) (log : List ε) : Prop := ∃ v, (record writes log).lookup k = some v ∧ P v

variable {writes} {k : κ} {P : ν → Prop}

/-- One more event keeps the property unless it writes something else under the key. -/
theorem has_cons_iff {old : List ε} {e : ε} (h : Has writes k P old) :
    Has writes k P (e :: old) ↔ ∀ v, writes old e = some (k, v) → P v := by
  cases hw : writes old e with
  | none => simpa [Has, record, hw] using h
  | some p =>
    obtain ⟨k', v⟩ := p
    by_cases hk : k = k'
    · subst hk
      simp [Has, record, hw]
    · have hne : ∀ v', some (k', v) ≠ some (k, v') := by
        intro v' he
        cases he
        exact hk rfl
      simpa [Has, record, hw, hk, Ne.symm hk] using h

/-- A stretch whose writes under the key all have the property keeps it. -/
theorem has_append {old : List ε} (h : Has writes k P old) :
    ∀ new, (∀ a e b, new = a ++ e :: b → ∀ v, writes (b ++ old) e = some (k, v) → P v) →
      Has writes k P (new ++ old)
  | [], _ => h
  | e :: new, hall => by
      have hbelow : Has writes k P (new ++ old) := by
        refine has_append h new fun a e' b he => hall (e :: a) e' b ?_
        rw [he, List.cons_append]
      exact (has_cons_iff hbelow).mpr (hall [] e new rfl)

/-- RUN: the property holds at every point of a stretch exactly when each write in it has it. -/
theorem has_along_iff {old : List ε} (h : Has writes k P old) (new : List ε) :
    (∀ a b, new = a ++ b → Has writes k P (b ++ old)) ↔
      ∀ a e b, new = a ++ e :: b → ∀ v, writes (b ++ old) e = some (k, v) → P v := by
  constructor
  · rintro hall a e b rfl v hv
    have hbelow : Has writes k P (b ++ old) := hall (a ++ [e]) b (by simp)
    have habove : Has writes k P (e :: (b ++ old)) := hall a (e :: b) rfl
    exact (has_cons_iff hbelow).mp habove v hv
  · rintro hall a b rfl
    refine has_append h b fun a' e b' he => hall (a ++ a') e b' ?_
    rw [he, List.append_assoc]

end Record
