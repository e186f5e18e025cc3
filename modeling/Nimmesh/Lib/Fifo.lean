import Mathlib.Data.List.DropRight

/-! @lib fifo | name:Bounded queues | scope:general

    A queue of at most `cap` entries that drops its oldest when it is full: what a bounded cache, a
    bounded log and a bounded set of things seen have in common. A run of pushes leaves the last `cap`
    of everything pushed, so an entry is there until `cap` newer ones have come. -/

namespace Fifo

variable {α β : Type*} {cap : ℕ} {q : List α} {a b : α}

/-- Append an entry; a full queue first drops its front. -/
def push (cap : ℕ) (q : List α) (a : α) : List α := (if cap ≤ q.length then q.tail else q) ++ [a]

theorem length_push_le (hcap : 0 < cap) (h : q.length ≤ cap) (a : α) : (push cap q a).length ≤ cap := by
  unfold push
  split_ifs with hfull
  · rw [List.length_append, List.length_tail, List.length_singleton]
    omega
  · rw [List.length_append, List.length_singleton]
    omega

theorem mem_push_self (cap : ℕ) (q : List α) (a : α) : a ∈ push cap q a :=
  List.mem_append_right _ (List.mem_singleton_self a)

theorem mem_of_mem_push (h : b ∈ push cap q a) : b ∈ q ∨ b = a := by
  unfold push at h
  rcases List.mem_append.mp h with h | h
  · refine .inl ?_
    split_ifs at h
    · exact List.mem_of_mem_tail h
    · exact h
  · exact .inr (List.mem_singleton.mp h)

theorem push_sublist (cap : ℕ) (q : List α) (a : α) : (push cap q a).Sublist (q ++ [a]) := by
  unfold push
  refine List.Sublist.append ?_ (List.Sublist.refl _)
  split_ifs
  · exact List.tail_sublist q
  · exact List.Sublist.refl q

theorem nodup_push (h : q.Nodup) (ha : a ∉ q) : (push cap q a).Nodup := by
  refine (push_sublist cap q a).nodup (List.nodup_append.mpr ⟨h, List.pairwise_singleton _ a, ?_⟩)
  rintro x hx y hy rfl
  exact ha (List.mem_singleton.mp hy ▸ hx)

theorem map_push (f : α → β) (cap : ℕ) (q : List α) (a : α) :
    (push cap q a).map f = push cap (q.map f) (f a) := by
  unfold push
  rw [List.map_append, List.length_map]
  split_ifs
  · rw [List.map_tail]
    rfl
  · rfl

/-- One push leaves the last `cap` of the queue and the entry. -/
theorem push_eq_rtake (hcap : 0 < cap) (h : q.length ≤ cap) (a : α) :
    push cap q a = (q ++ [a]).rtake cap := by
  unfold push List.rtake
  rw [List.length_append, List.length_singleton]
  split_ifs with hfull
  · have hlen : q.length + 1 - cap = 1 := by omega
    have hne : 1 ≤ q.length := by omega
    rw [hlen, List.drop_append_of_le_length hne, List.drop_one]
  · have hlen : q.length + 1 - cap = 0 := by omega
    rw [hlen, List.drop_zero]

/-- What the last `cap` entries of a prefix do not contain, the last `cap` of the whole do not either. -/
theorem rtake_rtake_append (cap : ℕ) (l ys : List α) :
    (l.rtake cap ++ ys).rtake cap = (l ++ ys).rtake cap := by
  unfold List.rtake
  by_cases h : cap ≤ l.length
  · have hsplit : l ++ ys = l.take (l.length - cap) ++ (l.drop (l.length - cap) ++ ys) := by
      rw [← List.append_assoc, List.take_append_drop]
    have hpre : (l.take (l.length - cap)).length = l.length - cap := by
      rw [List.length_take]
      omega
    conv_rhs => rw [hsplit, List.drop_append, List.drop_eq_nil_of_le (by
      rw [hpre, List.length_append, hpre, List.length_append, List.length_drop]
      omega), List.nil_append]
    congr 1
    rw [List.length_append, List.length_append, hpre, List.length_append, List.length_drop]
    omega
  · have hz : l.length - cap = 0 := by omega
    rw [hz, List.drop_zero]

/-- RUN: any number of pushes leaves the last `cap` of the queue and everything pushed. -/
theorem foldl_push (hcap : 0 < cap) : ∀ (xs q : List α), q.length ≤ cap →
    xs.foldl (push cap) q = (q ++ xs).rtake cap
  | [], q, h => by
      rw [List.foldl_nil, List.append_nil, List.rtake, Nat.sub_eq_zero_of_le h, List.drop_zero]
  | x :: xs, q, h => by
      rw [List.foldl_cons, foldl_push hcap xs _ (length_push_le hcap h x), push_eq_rtake hcap h,
        rtake_rtake_append, List.append_assoc, List.singleton_append]

end Fifo
