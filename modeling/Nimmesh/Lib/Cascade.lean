import Mathlib.Logic.Hydra

/-! @lib cascade | name:Cascades of tokens | scope:general

    Tokens lie about, each of a colour and a rank. A step may add tokens of a colour of its own, lose a
    token, or spend one and put others in its place: of the step's own colour, or of the colour of the
    spent token and of smaller rank. However many tokens a step puts there and whatever their colours, no
    colour goes on for ever: the ranks of one colour are the heads of a hydra. -/

namespace Cascade
open Relation

variable {τ α κ : Type*} (colour : τ → κ) (rank : τ → α) (r : α → α → Prop)

/-- One step of colour `k` from tokens `s` to tokens `s'`, with `new` what it puts there. -/
inductive Step (k : κ) : Multiset τ → Multiset τ → Multiset τ → Prop
  | idle (s : Multiset τ) : Step k 0 s s
  | spawn (s new : Multiset τ) (hnew : ∀ y ∈ new, colour y = k) : Step k new s (new + s)
  | lose (s : Multiset τ) (x : τ) : Step k 0 (x ::ₘ s) s
  | spend (s new : Multiset τ) (x : τ)
      (hnew : ∀ y ∈ new, colour y = k ∨ colour y = colour x ∧ r (rank y) (rank x)) :
      Step k new (x ::ₘ s) (new + s)

/-- A sequence that only ever stays or goes down a well-founded relation comes to rest. -/
theorem comes_to_rest {β : Type*} {lt : β → β → Prop} (hwf : WellFounded lt)
    (htrans : ∀ a b c, lt a b → lt b c → lt a c) {f : ℕ → β} {m : ℕ}
    (hf : ∀ k, m ≤ k → f (k + 1) = f k ∨ lt (f (k + 1)) (f k)) : ∃ K, m ≤ K ∧ ∀ k, K ≤ k → f k = f K := by
  obtain ⟨b, ⟨K, hK, rfl⟩, hmin⟩ := hwf.has_min {b | ∃ k, m ≤ k ∧ f k = b} ⟨f m, m, le_rfl, rfl⟩
  refine ⟨K, hK, fun k hk => ?_⟩
  have hdown : f k = f K ∨ lt (f k) (f K) := by
    induction k, hk using Nat.le_induction with
    | base => exact .inl rfl
    | succ k hk ih =>
      rcases hf k (hK.trans hk) with h | h
      · rwa [h]
      · exact ih.elim (fun ih => .inr (ih ▸ h)) fun ih => .inr (htrans _ _ _ h ih)
  exact hdown.resolve_right (hmin (f k) ⟨k, hK.trans hk, rfl⟩)

variable {colour rank r}

/-- The ranks of the tokens of one colour. -/
def ranks [DecidableEq κ] (colour : τ → κ) (rank : τ → α) (c : κ) (s : Multiset τ) : Multiset α :=
  (s.filter fun x => colour x = c).map rank

variable [DecidableEq κ]

theorem ranks_cons (c : κ) (x : τ) (s : Multiset τ) :
    ranks colour rank c (x ::ₘ s) = if colour x = c then rank x ::ₘ ranks colour rank c s
      else ranks colour rank c s := by
  unfold ranks
  split_ifs with h
  · rw [Multiset.filter_cons_of_pos (p := fun x => colour x = c) s h, Multiset.map_cons]
  · rw [Multiset.filter_cons_of_neg (p := fun x => colour x = c) s h]

theorem ranks_add (c : κ) (s t : Multiset τ) :
    ranks colour rank c (s + t) = ranks colour rank c s + ranks colour rank c t := by
  unfold ranks
  rw [Multiset.filter_add, Multiset.map_add]

/-- STEP: a step of another colour leaves the ranks of a colour alone, or strikes off a head. -/
theorem Step.descends {c k : κ} (hk : k ≠ c) {new s s' : Multiset τ} (h : Step colour rank r k new s s') :
    ranks colour rank c s' = ranks colour rank c s ∧ (∀ y ∈ new, colour y ≠ c) ∨
      CutExpand r (ranks colour rank c s') (ranks colour rank c s) := by
  have hzero : ∀ y ∈ (0 : Multiset τ), colour y ≠ c := fun _ h => absurd h (Multiset.notMem_zero _)
  cases h with
  | idle => exact .inl ⟨rfl, hzero⟩
  | spawn _ _ hnew =>
    have hnone : ∀ y ∈ new, colour y ≠ c := fun y hy h => hk ((hnew y hy).symm.trans h)
    refine .inl ⟨?_, hnone⟩
    rw [ranks_add, ranks, Multiset.filter_eq_nil.mpr hnone, Multiset.map_zero, zero_add]
  | lose _ x =>
    rw [ranks_cons]
    split_ifs with hx
    · refine .inr ⟨0, rank x, fun _ h => absurd h (Multiset.notMem_zero _), ?_⟩
      rw [add_zero, add_comm, Multiset.singleton_add]
    · exact .inl ⟨rfl, hzero⟩
  | spend s _ x hnew =>
    rw [ranks_cons, ranks_add]
    split_ifs with hx
    · refine .inr ⟨ranks colour rank c new, rank x, fun a ha => ?_, ?_⟩
      · obtain ⟨y, hy, rfl⟩ := Multiset.mem_map.mp ha
        obtain ⟨hy, hc⟩ := Multiset.mem_filter.mp hy
        exact ((hnew y hy).resolve_left fun h => hk (h.symm.trans hc)).2
      · rw [add_assoc, add_comm _ {rank x}, Multiset.singleton_add, add_comm]
    · have hnone : ∀ y ∈ new, colour y ≠ c := fun y hy h =>
        (hnew y hy).elim (fun h' => hk (h'.symm.trans h)) fun h' => hx (h'.1.symm.trans h)
      refine .inl ⟨?_, hnone⟩
      rw [ranks, Multiset.filter_eq_nil.mpr hnone, Multiset.map_zero, zero_add]

/-- RUN: if every colour has its step, or none, no colour is put there for ever. -/
theorem ends (hwf : WellFounded r) {s new : ℕ → Multiset τ} {hue : ℕ → κ}
    (hstep : ∀ k, Step colour rank r (hue k) (new k) (s k) (s (k + 1))) {c : κ} {k₀ : ℕ}
    (honce : ∀ k, k₀ ≤ k → hue k ≠ c) : ∃ K, ∀ k, K ≤ k → ∀ y ∈ new k, colour y ≠ c := by
  have hgen : WellFounded (Relation.TransGen (CutExpand r)) := (hwf.cutExpand).transGen
  have hdesc := fun k hk => (hstep k).descends (honce k hk)
  obtain ⟨K, hK, hrest⟩ := comes_to_rest hgen (fun _ _ _ => Relation.TransGen.trans)
    (f := fun k => ranks colour rank c (s k)) (m := k₀)
    fun k hk => (hdesc k hk).imp (·.1) Relation.TransGen.single
  refine ⟨K, fun k hk => ?_⟩
  rcases hdesc k (hK.trans hk) with h | h
  · exact h.2
  · have heq : ranks colour rank c (s (k + 1)) = ranks colour rank c (s k) :=
      (hrest (k + 1) (hk.trans k.le_succ)).trans (hrest k hk).symm
    rw [heq] at h
    exact absurd h (hwf.cutExpand.irrefl.irrefl _)

end Cascade
