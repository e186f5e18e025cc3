import Nimmesh.Swap.Node
import Mathlib.Data.List.MinMax
import Mathlib.Data.List.Lex
import Mathlib.Data.Rat.Cast.Order
import Mathlib.Order.WithBot
import Mathlib.Data.Prod.Lex
import Mathlib.Algebra.Order.Field.Rat
import Mathlib.Algebra.Order.Field.Basic
import Mathlib.Tactic.Positivity

/-! @src swap_node.rs | name:The best rate of a match window | layer:properties

    The fold over the candidates compares two rates by cross-multiplication. On candidates that offer something
    this is the order of the rates as fractions, an offer for no NIM at all above every other, and with the id
    behind it a linear order. So the fold picks the least of a key, in whatever order the candidates came. -/

namespace Nimmesh

namespace IntentMatcher

abbrev Candidate := SwapId × SwapIntent

/-- What a candidate gives for one NIM. -/
def rate (i : SwapIntent) : WithTop ℚ :=
  if i.nimAmount = 0 then ⊤ else ((i.btcAmount.toNat / i.nimAmount.toNat : ℚ) : WithTop ℚ)

/-- The higher rate first, then the smaller id. -/
def key (c : Candidate) : (WithTop ℚ)ᵒᵈ ×ₗ List ℕ := toLex (OrderDual.toDual (rate c.2), c.1.1.map UInt8.toNat)

theorem toNat_pos {v : UInt64} : 0 < v ↔ 0 < v.toNat := UInt64.lt_iff_toNat_lt

theorem toNat_eq_zero {v : UInt64} : v = 0 ↔ v.toNat = 0 := by
  rw [← UInt64.toNat_inj, UInt64.toNat_zero]

/-- Cross-multiplication compares the rates. -/
theorem rate_lt_iff {a b : SwapIntent} (hb : 0 < b.btcAmount) :
    rate a < rate b ↔ a.btcAmount.toNat * b.nimAmount.toNat < b.btcAmount.toNat * a.nimAmount.toNat := by
  rw [toNat_pos] at hb
  rw [rate, rate]
  simp only [toNat_eq_zero]
  split_ifs with hna hnb hnb
  · simp [hna]
  · simp [hna]
  · have hpos : 0 < a.nimAmount.toNat := Nat.pos_of_ne_zero hna
    simp [hnb, hb, hpos]
  · have hapos : (0 : ℚ) < a.nimAmount.toNat := by exact_mod_cast Nat.pos_of_ne_zero hna
    have hbpos : (0 : ℚ) < b.nimAmount.toNat := by exact_mod_cast Nat.pos_of_ne_zero hnb
    rw [WithTop.coe_lt_coe, div_lt_div_iff₀ hapos hbpos]
    exact_mod_cast Iff.rfl

theorem rate_eq_iff {a b : SwapIntent} (ha : 0 < a.btcAmount) (hb : 0 < b.btcAmount) :
    rate a = rate b ↔ a.btcAmount.toNat * b.nimAmount.toNat = b.btcAmount.toNat * a.nimAmount.toNat := by
  have hab := rate_lt_iff (a := a) hb
  have hba := rate_lt_iff (a := b) ha
  rw [← not_iff_not, ← ne_eq, ne_iff_lt_or_gt, hab, hba]
  omega

/-- STEP: the better of two candidates is the one with the smaller key. -/
theorem better_eq {a c : Candidate} (ha : 0 < a.2.btcAmount) (hc : 0 < c.2.btcAmount) :
    better a c = if key c < key a then c else a := by
  have hlt : key c < key a ↔ rate a.2 < rate c.2 ∨ rate c.2 = rate a.2 ∧ idLt c.1 a.1 = true := by
    rw [key, key, Prod.Lex.toLex_lt_toLex, OrderDual.toDual_lt_toDual, OrderDual.toDual_inj, idLt, decide_eq_true_eq]
  rw [better]
  congr 1
  rw [hlt, rate_lt_iff hc, rate_eq_iff hc ha]
  simp

/-- The best of a list that offers something is the one with the least key. -/
theorem foldl_better {c : Candidate} {cs : List Candidate} (h : ∀ d ∈ c :: cs, 0 < d.2.btcAmount) :
    some (cs.foldl better c) = (c :: cs).argmin key := by
  induction cs using List.reverseRecOn with
  | nil => rfl
  | append_singleton cs d ih =>
    have hsub : ∀ x ∈ c :: cs, 0 < x.2.btcAmount := fun x hx => h x (List.mem_append_left [d] hx)
    have hin : cs.foldl better c ∈ c :: cs := List.argmin_mem (ih hsub).symm
    rw [List.foldl_append, List.foldl_cons, List.foldl_nil, ← List.cons_append, List.argmin_concat, ← ih hsub,
      better_eq (hsub _ hin) (h d (by simp))]
    exact apply_ite some _ _ _

/-! ### A window -/

/-- What happens to a matcher. -/
inductive MatcherOp where
  | add (c : Candidate)
  | tick

def step (m : IntentMatcher) : MatcherOp → IntentMatcher
  | .add c => m.addCandidate c.1 c.2
  | .tick => m.tick.2

def added (ops : List MatcherOp) : List Candidate :=
  ops.filterMap fun op => match op with
    | .add c => some c
    | .tick => none

def ticks (ops : List MatcherOp) : ℕ :=
  (ops.filter fun op => match op with
    | .add _ => false
    | .tick => true).length

/-- The matcher while the window of `c` is open. -/
def opened (c : Candidate) (ops : List MatcherOp) : IntentMatcher :=
  ⟨c :: added ops, intentMatchWindowTicks - ticks ops⟩

/-- RUN: while the window is open, the candidates are collected in the order they come. -/
theorem exec_opened (c : Candidate) (ops : List MatcherOp) (hticks : ticks ops < intentMatchWindowTicks)
    (hroom : (c :: added ops).length ≤ maxIntentCandidates) :
    Run.exec step ({} : IntentMatcher) (.add c :: ops) = opened c ops := by
  induction ops using List.reverseRecOn with
  | nil => rfl
  | append_singleton ops op ih =>
    rw [← List.cons_append, Run.exec_append]
    cases op with
    | add d =>
      have hadded : added (ops ++ [.add d]) = added ops ++ [d] := by simp [added]
      have hticked : ticks (ops ++ [.add d]) = ticks ops := by simp [ticks]
      rw [hadded, ← List.cons_append, List.length_append, List.length_singleton] at hroom
      rw [hticked] at hticks
      rw [ih hticks (by omega), opened, opened, hadded, hticked, Run.exec_cons, Run.exec_nil, step, addCandidate]
      have hwindow : intentMatchWindowTicks - ticks ops ≠ 0 := by omega
      rw [if_neg (by simp only; omega), if_neg hwindow]
      rfl
    | tick =>
      have hadded : added (ops ++ [.tick]) = added ops := by simp [added]
      have hticked : ticks (ops ++ [.tick]) = ticks ops + 1 := by simp [ticks]
      rw [hticked] at hticks
      rw [hadded] at hroom
      rw [ih (by omega) hroom, opened, opened, hadded, hticked, Run.exec_cons, Run.exec_nil, step, tick]
      have hzero : intentMatchWindowTicks - ticks ops ≠ 0 := by omega
      have hone : intentMatchWindowTicks - ticks ops ≠ 1 := by omega
      rw [if_neg hzero, if_neg hone]
      rfl

/-- The candidate `id` has the highest rate of all, and among the highest the smallest id. -/
def Best (cs : List Candidate) (id : SwapId) : Prop :=
  ∃ intent, (id, intent) ∈ cs ∧ ∀ d ∈ cs, d.1 ≠ id →
    rate d.2 < rate intent ∨ rate d.2 = rate intent ∧ idLt id d.1 = true

theorem best_of_argmin {cs : List Candidate} {c : Candidate} (h : c ∈ cs.argmin key) : Best cs c.1 := by
  refine ⟨c.2, List.argmin_mem h, fun d hd hne => ?_⟩
  have hkey : key c < key d := by
    refine lt_of_le_of_ne (List.le_of_mem_argmin hd h) fun heq => hne ?_
    have hid := congrArg (fun k => (ofLex k).2) heq
    exact Subtype.ext (List.map_injective_iff.mpr (fun a b hab => UInt8.toNat_inj.mp hab) hid.symm)
  rwa [key, key, Prod.Lex.toLex_lt_toLex, OrderDual.toDual_lt_toDual, OrderDual.toDual_inj, eq_comm,
    ← decide_eq_true_eq (p := c.1.1.map UInt8.toNat < d.1.1.map UInt8.toNat)] at hkey

/-- There is one best candidate, whatever the order. -/
theorem Best.unique {cs cs' : List Candidate} {id id' : SwapId} (h : Best cs id) (h' : Best cs' id')
    (hperm : cs'.Perm cs) : id' = id := by
  obtain ⟨intent, hmem, hbest⟩ := h
  obtain ⟨intent', hmem', hbest'⟩ := h'
  by_contra hne
  have hlt := hbest (id', intent') (hperm.mem_iff.mp hmem') hne
  have hlt' := hbest' (id, intent) (hperm.mem_iff.mpr hmem) (Ne.symm hne)
  simp only [idLt, decide_eq_true_eq] at hlt hlt'
  rcases hlt with hlt | ⟨heq, hid⟩
  · rcases hlt' with hlt' | ⟨heq', -⟩
    · exact lt_asymm hlt hlt'
    · exact hlt.ne heq'.symm
  · rcases hlt' with hlt' | ⟨-, hid'⟩
    · exact hlt'.ne heq.symm
    · exact lt_asymm hid hid'

theorem tick_opened {c : Candidate} {ops : List MatcherOp} (hticks : ticks ops + 1 = intentMatchWindowTicks)
    (hpos : ∀ d ∈ c :: added ops, 0 < d.2.btcAmount) :
    ∃ id, (opened c ops).tick = (some id, {}) ∧ Best (c :: added ops) id := by
  refine ⟨((added ops).foldl better c).1, ?_, best_of_argmin (foldl_better hpos).symm⟩
  have hwindow : intentMatchWindowTicks - ticks ops = 1 := by omega
  rw [tick, opened, hwindow]
  rfl

theorem ticks_append (ops ops' : List MatcherOp) : ticks (ops ++ ops') = ticks ops + ticks ops' := by
  rw [ticks, List.filter_append, List.length_append, ticks, ticks]

/-- CORRECT: the window of the first candidate closes with the last of its ticks and not before. It then gives the
    best of all candidates that came, whatever the order they came in, and leaves nothing behind. -/
theorem match_window (c : Candidate) (ops : List MatcherOp) (hticks : ticks ops + 1 = intentMatchWindowTicks)
    (hroom : (c :: added ops).length ≤ maxIntentCandidates) (hpos : ∀ d ∈ c :: added ops, 0 < d.2.btcAmount) :
    (∀ pre post, ops = pre ++ .tick :: post → (Run.exec step ({} : IntentMatcher) (.add c :: pre)).tick.1 = none) ∧
    ∃ id, (Run.exec step ({} : IntentMatcher) (.add c :: ops)).tick = (some id, {}) ∧ Best (c :: added ops) id ∧
      ∀ c' ops', ticks ops' + 1 = intentMatchWindowTicks → (c' :: added ops').Perm (c :: added ops) →
        (Run.exec step ({} : IntentMatcher) (.add c' :: ops')).tick = (some id, {}) := by
  constructor
  · rintro pre post rfl
    have htick : ticks (.tick :: post) = ticks post + 1 := by simp [ticks]
    have hadd : added (pre ++ .tick :: post) = added pre ++ added post := by simp [added]
    rw [ticks_append, htick] at hticks
    rw [hadd, ← List.cons_append, List.length_append] at hroom
    have hzero : intentMatchWindowTicks - ticks pre ≠ 0 := by omega
    have hone : intentMatchWindowTicks - ticks pre ≠ 1 := by omega
    rw [exec_opened c pre (by omega) (by omega), opened, tick, if_neg hzero, if_neg hone]
  · obtain ⟨id, htick, hbest⟩ := tick_opened hticks hpos
    refine ⟨id, by rw [exec_opened c ops (by omega) hroom, htick], hbest, fun c' ops' hticks' hperm => ?_⟩
    obtain ⟨id', htick', hbest'⟩ := tick_opened hticks' fun d hd => hpos d (hperm.mem_iff.mp hd)
    rw [exec_opened c' ops' (by omega) (by rw [hperm.length_eq]; exact hroom), htick', hbest.unique hbest' hperm]

end IntentMatcher

namespace Sample

def offer (nim btc : UInt64) : SwapIntent where
  gives := .btc
  counterAsset := .nim
  nimAmount := nim
  btcAmount := btc
  expiryHeight := 1000
  minNim := 0
  maxNim := 0
  nimPubkey := ByteArr.fill 32 1
  nimAddress := ByteArr.fill 20 2
  btcPubkey := ByteArr.fill 33 3
  btcAddress := []
  evmAddress := ByteArr.fill 20 0
  networkId := 5
  signature := ByteArr.fill 64 4

def offerId (b : UInt8) : SwapId := ByteArr.fill swapIdLen b

end Sample

/-- Two offers at one rate and a worse one; the smaller id of the two wins, though it came last. -/
theorem sample_match_window :
    (Run.exec IntentMatcher.step ({} : IntentMatcher) [.add (Sample.offerId 9, Sample.offer 100 5), .tick,
      .add (Sample.offerId 3, Sample.offer 100 4), .add (Sample.offerId 7, Sample.offer 200 10)]).tick =
        (some (Sample.offerId 7), {}) := by
  obtain ⟨id, htick, -⟩ := (IntentMatcher.match_window (Sample.offerId 9, Sample.offer 100 5)
    [.tick, .add (Sample.offerId 3, Sample.offer 100 4), .add (Sample.offerId 7, Sample.offer 200 10)]
    (by decide) (by decide) (by decide)).2
  have hid : some id = some (Sample.offerId 7) := (congrArg Prod.fst htick).symm.trans (by decide +kernel)
  rw [htick, hid]

end Nimmesh
