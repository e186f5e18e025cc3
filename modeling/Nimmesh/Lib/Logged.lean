import Nimmesh.Lib.Checked

/-! @lib logged | name:Runs that keep what they accepted | scope:general

    A run with a log of what it accepted on its way, kept also when the run ends early. `Spec good x fits post` says
    when a run goes well, in that it returns and has logged nothing but good entries: exactly if `fits`; and which
    values it then ends with. It composes along a sequence, so that a condition on the input of a whole program is
    put together from those of its steps. -/

namespace Checked

/-- A run and its log. -/
structure Logged (ω ε α : Type) where
  log : List ω
  outcome : Result ε α

namespace Logged

variable {ω ε α β : Type}

/-- Go on with the value, if there is one. -/
def andThen (x : Logged ω ε α) (f : α → Logged ω ε β) : Logged ω ε β :=
  match x.outcome with
  | .ok a => ⟨x.log ++ (f a).log, (f a).outcome⟩
  | .error e => ⟨x.log, .error e⟩

instance : Monad (Logged ω ε) where
  pure a := ⟨[], .ok a⟩
  bind := andThen

/-- A step that logs nothing. -/
def lift (r : Result ε α) : Logged ω ε α := ⟨[], r⟩

def throw (e : ε) : Logged ω ε α := lift (fail e)

/-- A step that logs its entry. -/
def accept (entry : ω) (a : α) : Logged ω ε α := ⟨[entry], .ok a⟩

@[simp] theorem outcome_pure (a : α) : (pure a : Logged ω ε α).outcome = .ok a := rfl

theorem outcome_bind_of_ok {x : Logged ω ε α} {a : α} (h : x.outcome = .ok a) (f : α → Logged ω ε β) :
    (x >>= f).outcome = (f a).outcome := by
  change (andThen x f).outcome = _
  rw [andThen, h]

theorem bind_of_ok {x : Logged ω ε α} {a : α} (h : x.outcome = .ok a) (f : α → Logged ω ε β) :
    x >>= f = ⟨x.log ++ (f a).log, (f a).outcome⟩ := by
  change andThen x f = _
  rw [andThen, h]

theorem bind_of_error {x : Logged ω ε α} {e : Stop ε} (h : x.outcome = .error e) (f : α → Logged ω ε β) :
    x >>= f = ⟨x.log, .error e⟩ := by
  change andThen x f = _
  rw [andThen, h]

/-- The run returns, and all it has accepted is good. -/
structure Sound (good : ω → Prop) (x : Logged ω ε α) : Prop where
  returns : Returns x.outcome
  accepted : ∀ entry ∈ x.log, good entry

theorem sound_bind_iff {good : ω → Prop} {x : Logged ω ε α} {f : α → Logged ω ε β} :
    Sound good (x >>= f) ↔ Sound good x ∧ ∀ a, x.outcome = .ok a → Sound good (f a) := by
  rcases hx : x.outcome with e | a
  · rw [bind_of_error hx]
    constructor
    · rintro ⟨hret, hlog⟩
      exact ⟨⟨by rw [hx]; exact returns_error_iff.mp hret, hlog⟩, fun a ha => by cases ha⟩
    · rintro ⟨⟨hret, hlog⟩, -⟩
      rw [hx] at hret
      exact ⟨returns_error_iff.mp hret, hlog⟩
  · rw [bind_of_ok hx]
    constructor
    · rintro ⟨hret, hlog⟩
      rw [List.forall_mem_append] at hlog
      refine ⟨⟨by rw [hx]; exact returns_ok a, hlog.1⟩, ?_⟩
      rintro b ⟨⟩
      exact ⟨hret, hlog.2⟩
    · rintro ⟨hsound, hnext⟩
      obtain ⟨hret, hlog⟩ := hnext a rfl
      exact ⟨hret, List.forall_mem_append.mpr ⟨hsound.accepted, hlog⟩⟩

/-- The run goes well exactly if `fits`, and then it has a value exactly if `post` holds of it. -/
structure Spec (good : ω → Prop) (x : Logged ω ε α) (fits : Prop) (post : α → Prop) : Prop where
  sound_iff : Sound good x ↔ fits
  ok_iff : fits → ∀ a, x.outcome = .ok a ↔ post a

theorem sound_lift_iff {good : ω → Prop} {r : Result ε α} : Sound good (lift r) ↔ Returns r :=
  ⟨fun h => h.returns, fun h => ⟨h, fun _ hentry => absurd hentry List.not_mem_nil⟩⟩

theorem sound_pure (good : ω → Prop) (a : α) : Sound good (pure a : Logged ω ε α) :=
  sound_lift_iff.mpr (returns_ok a)

theorem sound_throw (good : ω → Prop) (e : ε) : Sound good (throw e : Logged ω ε α) :=
  sound_lift_iff.mpr (returns_fail e)

theorem spec_pure (good : ω → Prop) (a : α) : Spec good (pure a : Logged ω ε α) True (· = a) where
  sound_iff := iff_of_true (sound_pure good a) trivial
  ok_iff _ b := by rw [outcome_pure, Except.ok.injEq, eq_comm]

theorem spec_throw (good : ω → Prop) (e : ε) : Spec good (throw e : Logged ω ε α) True fun _ => False where
  sound_iff := iff_of_true (sound_throw good e) trivial
  ok_iff _ b := by simp [throw, lift, fail]

theorem Spec.congr {good : ω → Prop} {x : Logged ω ε α} {fits fits' : Prop} {post post' : α → Prop}
    (h : Spec good x fits post) (hfits : fits ↔ fits') (hpost : fits → ∀ a, post a ↔ post' a) :
    Spec good x fits' post' where
  sound_iff := h.sound_iff.trans hfits
  ok_iff hf a := (h.ok_iff (hfits.mpr hf) a).trans (hpost (hfits.mpr hf) a)

/-- A sequence goes well if its first step does, and what follows each value that it can have. -/
theorem Spec.sound_bind_iff {good : ω → Prop} {x : Logged ω ε α} {fits : Prop} {post : α → Prop}
    (h : Spec good x fits post) (f : α → Logged ω ε β) :
    Sound good (x >>= f) ↔ fits ∧ ∀ a, post a → Sound good (f a) := by
  rw [Logged.sound_bind_iff, h.sound_iff]
  exact and_congr_right fun hf => forall_congr' fun a => imp_congr_left (h.ok_iff hf a)

/-- STEP: the condition of a sequence, from those of its steps. -/
theorem Spec.bind {good : ω → Prop} {x : Logged ω ε α} {f : α → Logged ω ε β} {fits : Prop} {post : α → Prop}
    {fits' : α → Prop} {post' : α → β → Prop} (h : Spec good x fits post)
    (hnext : fits → ∀ a, post a → Spec good (f a) (fits' a) (post' a)) :
    Spec good (x >>= f) (fits ∧ ∀ a, post a → fits' a) fun b => ∃ a, post a ∧ post' a b where
  sound_iff := by
    rw [h.sound_bind_iff]
    exact and_congr_right fun hf => forall_congr' fun a => imp_congr_right fun ha => (hnext hf a ha).sound_iff
  ok_iff := by
    rintro ⟨hf, hall⟩ b
    constructor
    · intro hb
      rcases hx : x.outcome with e | a
      · rw [bind_of_error hx] at hb
        cases hb
      · rw [outcome_bind_of_ok hx] at hb
        have ha := (h.ok_iff hf a).mp hx
        exact ⟨a, ha, ((hnext hf a ha).ok_iff (hall a ha) b).mp hb⟩
    · rintro ⟨a, ha, hb⟩
      rw [outcome_bind_of_ok ((h.ok_iff hf a).mpr ha)]
      exact ((hnext hf a ha).ok_iff (hall a ha) b).mpr hb

/-- A good entry is logged, and the run goes on. -/
theorem Spec.accept_bind {good : ω → Prop} {entry : ω} {a : α} {f : α → Logged ω ε β} {fits : Prop} {post : β → Prop}
    (hgood : good entry) (h : Spec good (f a) fits post) : Spec good (accept entry a >>= f) fits post where
  sound_iff := by
    rw [Logged.sound_bind_iff, ← h.sound_iff]
    constructor
    · rintro ⟨-, hnext⟩
      exact hnext a rfl
    · intro hnext
      refine ⟨⟨returns_ok a, List.forall_mem_singleton.mpr hgood⟩, ?_⟩
      rintro b ⟨⟩
      exact hnext
  ok_iff hf b := by
    rw [outcome_bind_of_ok rfl]
    exact h.ok_iff hf b

theorem bind_assoc {γ : Type} (x : Logged ω ε α) (f : α → Logged ω ε β) (g : β → Logged ω ε γ) :
    x >>= f >>= g = x >>= fun a => f a >>= g := by
  rcases hx : x.outcome with e | a
  · rw [bind_of_error hx, bind_of_error hx, bind_of_error rfl]
  · rw [bind_of_ok hx, bind_of_ok hx]
    rcases hf : (f a).outcome with e | b
    · rw [bind_of_error hf, bind_of_error rfl]
    · rw [bind_of_ok hf, bind_of_ok rfl, List.append_assoc]

end Logged

end Checked
