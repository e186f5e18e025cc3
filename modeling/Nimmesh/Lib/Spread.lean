import Mathlib.Data.List.Nodup
import Mathlib.Data.Set.Basic
import Mathlib.Logic.Relation

/-! @lib spread | name:A message spreads over a graph | scope:general

    Nodes pass a message on to their neighbours when it first reaches them, and each copy may go a limited
    number of hops. Copies arrive in any order, so the first one to reach a node need not have come the
    shortest way: the `i`-th node to be reached has spent at most `i` hops, and that is all there is to
    say. With a budget of `B` hops the message reaches everyone who can be reached, or more than `B` nodes. -/

namespace Spread

variable {ν : Type*}

/-- A copy on its way, and how far it may go. -/
structure Copy (ν : Type*) where
  target : ν
  budget : ℕ

/-- What holds while the message spreads from `o`: `reached` lists who has it, in the order of arrival. -/
structure Inv (adj : ν → ν → Prop) (B : ℕ) (o : ν) (reached : List ν) (air : Set (Copy ν)) : Prop where
  origin : o ∈ reached
  nodup : reached.Nodup
  budget : ∀ c ∈ air, B < c.budget + reached.length
  covered : ∀ i u, reached[i]? = some u → i < B → ∀ v, adj u v → v ∈ reached ∨ ∃ c ∈ air, c.target = v

variable {adj : ν → ν → Prop} {B : ℕ} {o : ν} {reached : List ν} {air air' : Set (Copy ν)}

/-- The origin has sent a copy with the full budget to each neighbour. -/
theorem Inv.start (hbudget : ∀ c ∈ air, B ≤ c.budget) (hsent : ∀ v, adj o v → v = o ∨ ∃ c ∈ air, c.target = v) :
    Inv adj B o [o] air where
  origin := List.mem_singleton_self o
  nodup := List.nodup_singleton o
  budget := fun c hc => Nat.lt_succ_of_le (hbudget c hc)
  covered := by
    intro i u hu _ v hv
    obtain rfl := List.mem_singleton.mp (List.mem_of_getElem? hu)
    exact (hsent v hv).imp_left List.mem_singleton.mpr

/-- STEP: nobody new is reached. The copies that are gone went to nodes that have the message, and what is
    sent again has the full budget. -/
theorem Inv.same (h : Inv adj B o reached air) (hkept : ∀ c ∈ air, c ∈ air' ∨ c.target ∈ reached)
    (hnew : ∀ c ∈ air', c ∈ air ∨ B ≤ c.budget) : Inv adj B o reached air' where
  origin := h.origin
  nodup := h.nodup
  budget := by
    intro c hc
    have hpos := List.length_pos_of_mem h.origin
    rcases hnew c hc with hc | hb
    · exact h.budget c hc
    · omega
  covered := by
    intro i u hu hi v hv
    rcases h.covered i u hu hi v hv with hr | ⟨c, hc, ht⟩
    · exact .inl hr
    · exact (hkept c hc).symm.imp (fun hr => ht ▸ hr) fun hc' => ⟨c, hc', ht⟩

/-- STEP: a copy reaches a new node, which passes the message on if the copy has hops left. -/
theorem Inv.reach (h : Inv adj B o reached air) {c : Copy ν} (hc : c ∈ air) (hfresh : c.target ∉ reached)
    (hkept : ∀ c' ∈ air, c' ∈ air' ∨ c'.target = c.target)
    (hnew : ∀ c' ∈ air', c' ∈ air ∨ min c.budget B ≤ c'.budget + 1)
    (hpassed : 2 ≤ c.budget → ∀ v, adj c.target v →
      v ∈ reached ∨ v = c.target ∨ ∃ c' ∈ air', c'.target = v) :
    Inv adj B o (reached ++ [c.target]) air' := by
  have hbud := h.budget c hc
  have hpos := List.length_pos_of_mem h.origin
  have hlen : (reached ++ [c.target]).length = reached.length + 1 := by simp
  refine ⟨List.mem_append_left _ h.origin, ?_, ?_, ?_⟩
  · exact List.nodup_append.mpr ⟨h.nodup, List.nodup_singleton _, fun x hx y hy hxy =>
      hfresh (List.mem_singleton.mp hy ▸ hxy ▸ hx)⟩
  · intro c' hc'
    rw [hlen]
    rcases hnew c' hc' with hold | hb
    · exact (h.budget c' hold).trans_le (by omega)
    · omega
  · intro i u hu hi v hv
    by_cases hilt : i < reached.length
    · rw [List.getElem?_append_left hilt] at hu
      rcases h.covered i u hu hi v hv with hr | ⟨c', hc', ht⟩
      · exact .inl (List.mem_append_left _ hr)
      · rcases hkept c' hc' with hc' | heq
        · exact .inr ⟨c', hc', ht⟩
        · exact .inl (List.mem_append_right _ (List.mem_singleton.mpr (ht ▸ heq)))
    · have hieq : i = reached.length := by
        have := (List.getElem?_eq_some_iff.mp hu).1
        omega
      rw [hieq, List.getElem?_concat_length] at hu
      obtain rfl := Option.some.inj hu
      -- a node this early was reached by a copy with two hops left or more
      rcases hpassed (by omega) v hv with hr | rfl | hr
      · exact .inl (List.mem_append_left _ hr)
      · exact .inl (List.mem_append_right _ (List.mem_singleton_self _))
      · exact .inr hr

/-- CORRECT: when no copy is left, everyone connected to the origin has the message, or more than `B` nodes
    do. -/
theorem Inv.covers (h : Inv adj B o reached ∅) :
    (∀ v, Relation.ReflTransGen adj o v → v ∈ reached) ∨ B < reached.length := by
  by_cases hlen : B < reached.length
  · exact .inr hlen
  · refine .inl fun v hv => ?_
    induction hv with
    | refl => exact h.origin
    | @tail u w _ hadj ih =>
      obtain ⟨i, hi⟩ := List.mem_iff_getElem?.mp ih
      have hilt := (List.getElem?_eq_some_iff.mp hi).1
      rcases h.covered i u hi (by omega) w hadj with hr | ⟨c, hc, -⟩
      · exact hr
      · exact absurd hc (Set.notMem_empty c)

end Spread
