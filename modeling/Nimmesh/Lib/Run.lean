import Mathlib.Data.List.Basic

/-! @lib run | name:Runs of a deterministic step function | scope:general

    A system is a step function `step : σ → ι → σ` and a run is a fold of it over a list of inputs.
    `Along ok s is` says that every input of the run meets a condition on the state it arrives in —
    how an assumption about the environment (a head that never moves back, a message that is never
    replayed) is stated for a whole run. The rules turn a step lemma into a run lemma. -/

namespace Run

variable {σ ι : Type*} (step : σ → ι → σ)

/-- The state after a list of inputs. -/
def exec (s : σ) (is : List ι) : σ := is.foldl step s

/-- Every input of the run meets `ok` in the state it arrives in. -/
def Along (ok : σ → ι → Prop) : σ → List ι → Prop
  | _, [] => True
  | s, i :: is => ok s i ∧ Along ok (step s i) is

@[simp] theorem exec_nil (s : σ) : exec step s [] = s := rfl

@[simp] theorem exec_cons (s : σ) (i : ι) (is : List ι) :
    exec step s (i :: is) = exec step (step s i) is := rfl

theorem exec_append (s : σ) (is js : List ι) :
    exec step s (is ++ js) = exec step (exec step s is) js := by
  unfold exec; rw [List.foldl_append]

@[simp] theorem along_nil (ok : σ → ι → Prop) (s : σ) : Along step ok s [] := trivial

@[simp] theorem along_cons (ok : σ → ι → Prop) (s : σ) (i : ι) (is : List ι) :
    Along step ok s (i :: is) ↔ ok s i ∧ Along step ok (step s i) is := Iff.rfl

theorem along_append (ok : σ → ι → Prop) : ∀ (is js : List ι) (s : σ),
    Along step ok s (is ++ js) ↔ Along step ok s is ∧ Along step ok (exec step s is) js
  | [], js, s => by simp
  | i :: is, js, s => by
      simp only [List.cons_append, along_cons, exec_cons, along_append ok is js, and_assoc]

theorem along_of_forall_mem {ok : σ → ι → Prop} : ∀ (is : List ι) (s : σ),
    (∀ i ∈ is, ∀ s, ok s i) → Along step ok s is
  | [], _, _ => trivial
  | i :: is, s, h =>
    ⟨h i List.mem_cons_self s,
      along_of_forall_mem is (step s i) fun j hj => h j (List.mem_cons_of_mem _ hj)⟩

/-- What holds of every input can be carried along. -/
theorem along_and {ok : σ → ι → Prop} {p : ι → Prop} : ∀ (is : List ι) (s : σ),
    Along step ok s is → (∀ i ∈ is, p i) → Along step (fun s i => ok s i ∧ p i) s is
  | [], _, _, _ => trivial
  | i :: is, s, h, hp =>
    ⟨⟨h.1, hp i List.mem_cons_self⟩,
      along_and is (step s i) h.2 fun j hj => hp j (List.mem_cons_of_mem _ hj)⟩

/-- The invariant rule: what holds at the start and is kept by every admissible input holds at the
    end of every run of admissible inputs. -/
theorem exec_invariant {ok : σ → ι → Prop} {I : σ → Prop}
    (hstep : ∀ s i, I s → ok s i → I (step s i)) :
    ∀ (is : List ι) (s : σ), I s → Along step ok s is → I (exec step s is)
  | [], _, h, _ => h
  | i :: is, s, h, ha => exec_invariant hstep is (step s i) (hstep s i h ha.1) ha.2

/-- The invariant rule without a condition on the inputs. -/
theorem exec_preserves {I : σ → Prop} (hstep : ∀ s i, I s → I (step s i)) (is : List ι) (s : σ)
    (h : I s) : I (exec step s is) := by
  induction is generalizing s with
  | nil => exact h
  | cons i is ih => exact ih _ (hstep s i h)

end Run
