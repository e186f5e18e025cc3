import Mathlib.Data.List.MinMax

/-! @lib select | name:The first best of a scan | scope:general

    A scan reads items one by one, skips some of them, and keeps the best of the rest: a later one
    replaces what is kept only with a strictly smaller key. What it keeps is Mathlib's `argmin` of the
    items that are not skipped, so the first of the smallest. A map that turns the order around takes it
    to the `argmax` of the image: two scans that rank the same items agree. -/

namespace Select

variable {ι α β κ μ : Type*}

/-- One item of a scan: it is skipped, or it replaces what is kept, or it does not. -/
def keep [LT κ] [DecidableLT κ] (f : ι → Option α) (key : α → κ) (best : Option α) (i : ι) : Option α :=
  match f i with
  | none => best
  | some a => if best.all fun b => key a < key b then some a else best

/-- What is kept, seen through a map that keeps the order of the keys. -/
theorem map_keep [LT κ] [DecidableLT κ] [LT μ] [DecidableLT μ] {key : α → κ} (g : α → β) (key' : β → μ)
    (h : ∀ a b, key' (g a) < key' (g b) ↔ key a < key b) (f : ι → Option α) (best : Option α) (i : ι) :
    (keep f key best i).map g = keep (fun i => (f i).map g) key' (best.map g) i := by
  simp only [keep]
  cases f i with
  | none => rfl
  | some a =>
    cases best with
    | none => rfl
    | some b =>
      by_cases hlt : key a < key b
      · simp [hlt, h]
      · simp [hlt, h]

theorem foldl_keep [Preorder κ] [DecidableLT κ] (f : ι → Option α) (key : α → κ) (l : List ι) :
    l.foldl (keep f key) none = (l.filterMap f).argmin key := by
  induction l using List.reverseRecOn with
  | nil => rfl
  | append_singleton l i ih =>
    rw [List.foldl_append, List.foldl_cons, List.foldl_nil, ih, List.filterMap_append, keep]
    cases hi : f i with
    | none => simp [hi]
    | some a =>
      have hone : [i].filterMap f = [a] := by simp [hi]
      rw [hone, List.argmin_concat]
      cases (l.filterMap f).argmin key <;> simp

/-- Ranking the same items the other way around, and picking the largest. -/
theorem argmax_map [Preorder κ] [DecidableLT κ] [Preorder μ] [DecidableLT μ] {key : α → κ} {g : α → β}
    {key' : β → μ} {l : List α}
    (h : ∀ a ∈ l, ∀ b ∈ l, key' (g a) < key' (g b) ↔ key b < key a) :
    (l.map g).argmax key' = (l.argmin key).map g := by
  induction l using List.reverseRecOn with
  | nil => rfl
  | append_singleton l a ih =>
    have hin : ∀ b ∈ l, b ∈ l ++ [a] := fun b hb => List.mem_append_left _ hb
    rw [List.map_append, List.map_singleton, List.argmax_concat, List.argmin_concat,
      ih fun b hb c hc => h b (hin b hb) c (hin c hc)]
    cases hbest : l.argmin key with
    | none => rfl
    | some b =>
      have hb : b ∈ l := List.argmin_mem hbest
      have hiff := h b (hin b hb) a (List.mem_append_right _ (List.mem_singleton_self a))
      simp only [Option.map_some]
      by_cases hlt : key a < key b
      · rw [if_pos hlt, if_pos (hiff.mpr hlt), Option.map_some]
      · rw [if_neg hlt, if_neg fun hlt' => hlt (hiff.mp hlt'), Option.map_some]

end Select
