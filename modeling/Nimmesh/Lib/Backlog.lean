import Mathlib.Data.Finset.Card

/-! @lib backlog | name:Abandoned entries that run out | scope:general

    Entries that nobody looks after any more are kept for a number of rounds. If a round takes one from the life of
    each and abandons at most `K` more, there are at most `K` of them for each round that an entry can live. -/

namespace Backlog

variable {κ : Type*} {K L : ℕ} {dead dead' : Finset κ} {life life' : κ → ℕ}

/-- At most `K` of the abandoned entries for each round that they can have lived: at most `K * a` have spent less than
    `a` of the `L` rounds they are given. -/
def Within (K L : ℕ) (dead : Finset κ) (life : κ → ℕ) : Prop :=
  ∀ a, (dead.filter fun k => L < life k + a).card ≤ K * a

theorem within_empty : Within K L ∅ life := by
  intro a
  rw [Finset.filter_empty, Finset.card_empty]
  exact Nat.zero_le _

/-- Nothing is abandoned, and nothing gets longer to live. -/
theorem Within.mono (h : Within K L dead life) (hdead : ∀ k ∈ dead', k ∈ dead ∧ life' k ≤ life k) :
    Within K L dead' life' := by
  refine fun a => (Finset.card_le_card fun k hk => ?_).trans (h a)
  obtain ⟨hk, hlt⟩ := Finset.mem_filter.mp hk
  obtain ⟨hd, hle⟩ := hdead k hk
  exact Finset.mem_filter.mpr ⟨hd, by omega⟩

/-- A round passes: everything has less to live. -/
theorem Within.age (h : Within K (L + 1) dead life) (hdead : ∀ k ∈ dead', k ∈ dead ∧ life' k < life k) :
    Within K L dead' life' := by
  refine fun a => (Finset.card_le_card fun k hk => ?_).trans (h a)
  obtain ⟨hk, hlt⟩ := Finset.mem_filter.mp hk
  obtain ⟨hd, hle⟩ := hdead k hk
  exact Finset.mem_filter.mpr ⟨hd, by omega⟩

/-- At most `K` entries are abandoned, each with a full life at most. -/
theorem Within.abandon [DecidableEq κ] (h : Within K L dead life) (new : Finset κ) (hnew : new.card ≤ K)
    (hlife : ∀ k ∈ dead', life' k ≤ L + 1) (hdead : ∀ k ∈ dead', k ∉ new → k ∈ dead ∧ life' k ≤ life k) :
    Within K (L + 1) dead' life' := by
  intro a
  cases a with
  | zero =>
    rw [Finset.filter_false_of_mem fun k hk => by have hle := hlife k hk; omega, Finset.card_empty]
    exact Nat.zero_le _
  | succ a =>
    have hsub : (dead'.filter fun k => L + 1 < life' k + (a + 1)) ⊆ new ∪ dead.filter fun k => L < life k + a := by
      intro k hk
      obtain ⟨hk, hlt⟩ := Finset.mem_filter.mp hk
      by_cases hn : k ∈ new
      · exact Finset.mem_union_left _ hn
      · obtain ⟨hd, hle⟩ := hdead k hk hn
        exact Finset.mem_union_right _ (Finset.mem_filter.mpr ⟨hd, by omega⟩)
    calc (dead'.filter fun k => L + 1 < life' k + (a + 1)).card
        ≤ (new ∪ dead.filter fun k => L < life k + a).card := Finset.card_le_card hsub
      _ ≤ new.card + (dead.filter fun k => L < life k + a).card := Finset.card_union_le _ _
      _ ≤ K + K * a := Nat.add_le_add hnew (h a)
      _ = K * (a + 1) := by rw [Nat.mul_succ, Nat.add_comm]

/-- BOUND: what still lives is at most `K` for each of the `L` rounds. -/
theorem Within.card_le (h : Within K L dead life) (hlive : ∀ k ∈ dead, 0 < life k) : dead.card ≤ K * L := by
  have hall : (dead.filter fun k => L < life k + L) = dead :=
    Finset.filter_true_of_mem fun k hk => by have hpos := hlive k hk; omega
  exact hall ▸ h L

end Backlog
