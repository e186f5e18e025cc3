import Mathlib.Data.List.Basic

/-! @lib codec | name:Decoders that read back an encoding | scope:general

    A decoder is a state machine on the bytes that are left. `Reads d bytes a` says that `d` reads `a`
    off the front of `bytes`, whatever follows, and leaves the rest: the property that composes. A
    record reads back by one `bind` per field, a counted sequence by `repeatN`. `Starves d bytes` says
    that every strict prefix of `bytes` leaves `d` short; it composes along the same lines. -/

namespace Codec

variable {ε α β : Type}

/-! ### Results -/

theorem ok_bind (a : α) (f : α → Except ε β) : (Except.ok a >>= f) = f a := rfl

theorem error_bind (err : ε) (f : α → Except ε β) : (Except.error err >>= f) = .error err := rfl

/-- A sequence succeeds when each of its steps does. -/
theorem bind_ok_iff {x : Except ε α} {f : α → Except ε β} {b : β} :
    (x >>= f) = .ok b ↔ ∃ a, x = .ok a ∧ f a = .ok b := by
  cases x with
  | error err => simp [error_bind]
  | ok a => simp [ok_bind]

/-! ### Decoders -/

/-- A decoder of `α`: it takes bytes off the front or fails. -/
abbrev Decoder (ε α : Type) := StateT (List UInt8) (Except ε) α

/-- `d` reads `a` off the front of `bytes`, whatever follows. -/
def Reads (d : Decoder ε α) (bytes : List UInt8) (a : α) : Prop :=
  ∀ rest, d (bytes ++ rest) = .ok (a, rest)

theorem Reads.pure (a : α) : Reads (pure a : Decoder ε α) [] a := fun _ => rfl

/-- A decoder goes on where the one before it stopped. -/
theorem Reads.bind_run {d : Decoder ε α} {f : α → Decoder ε β} {bytes : List UInt8} {a : α}
    (h : Reads d bytes a) (rest : List UInt8) : (d >>= f) (bytes ++ rest) = f a rest := by
  change (d (bytes ++ rest) >>= fun p => f p.1 p.2) = _
  rw [h rest]
  rfl

theorem Reads.bind {d : Decoder ε α} {f : α → Decoder ε β} {bytes bytes' : List UInt8} {a : α} {b : β}
    (h : Reads d bytes a) (h' : Reads (f a) bytes' b) : Reads (d >>= f) (bytes ++ bytes') b := by
  intro rest
  rw [List.append_assoc, h.bind_run]
  exact h' rest

/-- The last field of a record. -/
theorem Reads.map {d : Decoder ε α} {f : α → β} {bytes : List UInt8} {a : α} (h : Reads d bytes a) :
    Reads (d >>= fun a => Pure.pure (f a)) bytes (f a) := by
  have hb : Reads (d >>= fun a => Pure.pure (f a)) (bytes ++ []) (f a) := h.bind (Reads.pure (f a))
  rwa [List.append_nil] at hb

/-- What a decoder reads off exactly its own encoding. -/
theorem Reads.run {d : Decoder ε α} {bytes : List UInt8} {a : α} (h : Reads d bytes a) :
    d bytes = .ok (a, []) := by
  have hr := h []
  rwa [List.append_nil] at hr

/-- A sequence of decoders reads what each of them reads, one after the other. -/
theorem bind_run_ok_iff {d : Decoder ε α} {f : α → Decoder ε β} {bytes rest : List UInt8} {b : β} :
    (d >>= f) bytes = .ok (b, rest) ↔ ∃ a mid, d bytes = .ok (a, mid) ∧ f a mid = .ok (b, rest) := by
  have hrun : (d >>= f) bytes = (d bytes >>= fun p => f p.1 p.2) := rfl
  rw [hrun, bind_ok_iff, Prod.exists]

/-- The same decoder `n` times. -/
def repeatN (d : Decoder ε α) : ℕ → Decoder ε (List α)
  | 0 => pure []
  | n + 1 => do
    let a ← d
    let as ← repeatN d n
    return a :: as

/-- A counted sequence reads back if each of its items does. -/
theorem Reads.repeatN {d : Decoder ε α} {encode : α → List UInt8} : ∀ {items : List α},
    (∀ a ∈ items, Reads d (encode a) a) → Reads (repeatN d items.length) (items.flatMap encode) items
  | [], _ => Reads.pure []
  | a :: items, h => by
      have htail := Reads.repeatN fun b hb => h b (List.mem_cons_of_mem a hb)
      rw [List.flatMap_cons]
      exact (h a List.mem_cons_self).bind htail.map

/-! ### Torn inputs -/

/-- `d` fails on every strict prefix of `bytes`. -/
def Starves (d : Decoder ε α) (bytes : List UInt8) : Prop :=
  ∀ pre suf, suf ≠ [] → pre ++ suf = bytes → ∃ err, d pre = .error err

/-- Nothing is a strict prefix of the empty string. -/
theorem Starves.nil (d : Decoder ε α) : Starves d [] := by
  intro pre suf hsuf hcut
  exact absurd (List.append_eq_nil_iff.mp hcut).2 hsuf

/-- A failed decoder fails with whatever follows it. -/
theorem bind_error {d : Decoder ε α} {f : α → Decoder ε β} {bytes : List UInt8} {err : ε}
    (h : d bytes = .error err) : (d >>= f) bytes = .error err := by
  change (d bytes >>= fun p => f p.1 p.2) = _
  rw [h]
  rfl

/-- A strict prefix of two fields ends inside the first or inside the second. -/
theorem Starves.bind {d : Decoder ε α} {f : α → Decoder ε β} {bytes bytes' : List UInt8} {a : α}
    (hs : Starves d bytes) (hr : Reads d bytes a) (hs' : Starves (f a) bytes') :
    Starves (d >>= f) (bytes ++ bytes') := by
  intro pre suf hsuf hcut
  rcases List.append_eq_append_iff.mp hcut with ⟨mid, hmid, htail⟩ | ⟨mid, hmid, htail⟩
  · by_cases hnil : mid = []
    · subst hnil
      rw [List.append_nil] at hmid
      obtain ⟨err, herr⟩ := hs' [] suf hsuf (by simpa using htail)
      refine ⟨err, ?_⟩
      have hrun := hr.bind_run (f := f) []
      rw [List.append_nil, hmid] at hrun
      rw [hrun, herr]
    · obtain ⟨err, herr⟩ := hs pre mid hnil hmid.symm
      exact ⟨err, bind_error herr⟩
  · obtain ⟨err, herr⟩ := hs' mid suf hsuf htail.symm
    exact ⟨err, by rw [hmid, hr.bind_run, herr]⟩

/-- The last field of a record. -/
theorem Starves.map {d : Decoder ε α} {f : α → β} {bytes : List UInt8} (hs : Starves d bytes) :
    Starves (d >>= fun a => Pure.pure (f a)) bytes := by
  intro pre suf hsuf hcut
  obtain ⟨err, herr⟩ := hs pre suf hsuf hcut
  exact ⟨err, bind_error herr⟩

/-- A counted sequence is left short if each of its items is. -/
theorem Starves.repeatN {d : Decoder ε α} {encode : α → List UInt8} {items : List α}
    (hr : ∀ a ∈ items, Reads d (encode a) a) (hs : ∀ a ∈ items, Starves d (encode a)) :
    Starves (Codec.repeatN d items.length) (items.flatMap encode) := by
  induction items with
  | nil => exact Starves.nil _
  | cons a items ih =>
    have htail := ih (fun b hb => hr b (List.mem_cons_of_mem a hb)) fun b hb => hs b (List.mem_cons_of_mem a hb)
    rw [List.flatMap_cons]
    exact (hs a List.mem_cons_self).bind (hr a List.mem_cons_self) htail.map

end Codec
