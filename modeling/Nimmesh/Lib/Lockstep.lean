import Nimmesh.Lib.Run

/-! @lib lockstep | name:Two machines in step | scope:general

    Two deterministic machines are given the same inputs and each answers every input. They are in step
    along a list of inputs when they give the same answers and stay in a relation `R`. The rule asks for
    one step under an invariant that may say more than `R` does. -/

namespace Run

variable {α β ι ω : Type*} (stepA : α → ι → ω × α) (stepB : β → α → ι → ω × β)

/-- Both machines give the same answers along the inputs, and are related before and after each. The
    second machine may read the state of the first to see what it is asked. -/
def InStep (R : α → β → Prop) : α → β → List ι → Prop
  | a, b, [] => R a b
  | a, b, i :: is => R a b ∧ (stepA a i).1 = (stepB b a i).1 ∧
      InStep R (stepA a i).2 (stepB b a i).2 is

variable {stepA stepB}

/-- The rule of machines in step. -/
theorem inStep_of_step {R I : α → β → Prop} {ok : α → ι → Prop} (hI : ∀ a b, I a b → R a b)
    (hstep : ∀ a b i, I a b → ok a i →
      (stepA a i).1 = (stepB b a i).1 ∧ I (stepA a i).2 (stepB b a i).2) :
    ∀ (is : List ι) (a : α) (b : β), I a b → Along (fun a i => (stepA a i).2) ok a is →
      InStep stepA stepB R a b is
  | [], a, b, h, _ => hI a b h
  | i :: is, a, b, h, hok => by
      obtain ⟨hsame, hnext⟩ := hstep a b i h hok.1
      exact ⟨hI a b h, hsame, inStep_of_step hI hstep is _ _ hnext hok.2⟩

end Run
