import Nimmesh.Lib.Run
import Mathlib.Algebra.Order.Ring.Defs
import Mathlib.Data.List.Induction
import Mathlib.Data.Nat.Cast.Basic
import Mathlib.Tactic.Linarith

/-! @lib tally | name:Counting along a run | scope:general

    How often something happens along a run, bounded by a potential. A potential that pays for every occurrence bounds
    their number by its fall. A potential that never falls by more than the occurrences, unless to the mark it had at
    that moment, is at least the mark of some earlier moment less what occurred since. -/

namespace Run

variable {σ ι : Type*} (step : σ → ι → σ)

/-- How many inputs of a run `p` accepts in the state they arrive in. -/
def tally (p : σ → ι → Bool) : σ → List ι → ℕ
  | _, [] => 0
  | s, i :: is => (if p s i then 1 else 0) + tally p (step s i) is

@[simp] theorem tally_nil (p : σ → ι → Bool) (s : σ) : tally step p s [] = 0 := rfl

@[simp] theorem tally_cons (p : σ → ι → Bool) (s : σ) (i : ι) (is : List ι) :
    tally step p s (i :: is) = (if p s i then 1 else 0) + tally step p (step s i) is := rfl

theorem tally_append (p : σ → ι → Bool) (is js : List ι) (s : σ) :
    tally step p s (is ++ js) = tally step p s is + tally step p (exec step s is) js := by
  induction is generalizing s with
  | nil => simp
  | cons i is ih => simp [ih, add_assoc]

/-- Where the state plays no part, counting along a run is counting in the list. -/
theorem tally_of_input (p : ι → Bool) (is : List ι) (s : σ) : tally step (fun _ i => p i) s is = is.countP p := by
  induction is generalizing s with
  | nil => rfl
  | cons i is ih =>
    rw [tally_cons, ih, List.countP_cons]
    exact Nat.add_comm _ _

variable {R : Type*} [CommRing R] [LinearOrder R] [IsStrictOrderedRing R]

/-- The amortization rule: each occurrence of `p` is paid by the potential `f`, which an occurrence of `q` raises by
    at most `k`. -/
theorem tally_le_of_potential {p q : σ → ι → Bool} {I : σ → Prop} {f : σ → R} {k : R}
    (hI : ∀ s i, I s → I (step s i))
    (hstep : ∀ s i, I s →
      (if p s i then 1 else 0) + f (step s i) ≤ f s + if q s i then k else 0)
    (is : List ι) {s : σ} (hs : I s) :
    tally step p s is + f (exec step s is) ≤ f s + k * tally step q s is := by
  induction is generalizing s with
  | nil => simp
  | cons i is ih =>
    have hhead := hstep s i hs
    have htail := ih (hI s i hs)
    have hq : (if q s i then k else 0) = k * (if q s i then 1 else 0) := by
      split_ifs
      · rw [mul_one]
      · rw [mul_zero]
    rw [hq] at hhead
    rw [tally_cons, tally_cons, exec_cons]
    push_cast
    rw [mul_add]
    linarith

/-- The stretch rule: a potential `f` that falls by at most one at an occurrence of `p`, or is at its mark `g`, has not
    fallen below some earlier mark by more than what occurred since. -/
theorem exists_stretch {p : σ → ι → Bool} {I : σ → Prop} {f g : σ → R} (hI : ∀ s i, I s → I (step s i))
    (hstep : ∀ s i, I s →
      min (f s - if p s i then 1 else 0) (g (step s i)) ≤ f (step s i))
    {s : σ} (hs : I s) (hmark : g s ≤ f s) (is : List ι) :
    ∃ before stretch, is = before ++ stretch ∧
      g (exec step s before) - tally step p (exec step s before) stretch ≤ f (exec step s is) := by
  induction is using List.reverseRecOn with
  | nil => exact ⟨[], [], rfl, by simpa using hmark⟩
  | append_singleton is i ih =>
    have hlast := hstep (exec step s is) i (exec_preserves step hI is s hs)
    rw [exec_append, exec_cons, exec_nil]
    rcases min_le_iff.mp hlast with hfall | hat
    · obtain ⟨before, stretch, rfl, hle⟩ := ih
      refine ⟨before, stretch ++ [i], List.append_assoc .., ?_⟩
      rw [tally_append, tally_cons, tally_nil, ← exec_append]
      push_cast
      linarith
    · refine ⟨is ++ [i], [], (List.append_nil _).symm, ?_⟩
      rw [exec_append, exec_cons, exec_nil, tally_nil, Nat.cast_zero, sub_zero]
      exact hat

end Run
