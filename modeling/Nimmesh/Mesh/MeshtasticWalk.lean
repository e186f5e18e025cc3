import Nimmesh.Mesh.MeshtasticFrame

/-! @src shared/MeshtasticFrame.swift | name:The walk over a radio message | layer:properties

    The reader reads a varint of at most ten bytes modulo 2^64. Whether a search through a message goes well (no trap,
    no varint taken for another number) is said of the bytes alone: which fields the message begins with, where the
    search passes over them, and that the numbers it meets there are in range. -/

namespace Nimmesh.MeshtasticFrame
open Checked Logged

/-! ### The reader -/

theorem toNat_and_low (b : UInt8) : (b &&& 0x7F).toNat = b.toNat % 128 := by
  rw [UInt8.toNat_and]
  exact Nat.and_two_pow_sub_one_eq_mod b.toNat 7

theorem and_high_eq_zero_iff (b : UInt8) : b &&& 0x80 = 0 ↔ b.toNat < 128 := by
  have hall : ∀ i : Fin 256, UInt8.ofFin i &&& 0x80 = 0 ↔ (UInt8.ofFin i).toNat < 128 := by decide +kernel
  exact hall b.toFin

/-- EXACT: the loop of the code is the reader of ten bytes into a word of 64 bits. -/
theorem readVarintFrom_eq (bs : Bytes) {i acc : ℕ} (hi : i ≤ 10) (hacc : acc < 2 ^ (7 * i)) :
    readVarintFrom (7 * i) acc bs = Varint.read 64 (10 - i) i acc bs := by
  induction bs generalizing i acc with
  | nil =>
    rw [readVarintFrom]
    cases 10 - i <;> rfl
  | cons b bs ih =>
    rw [readVarintFrom]
    by_cases hshift : 63 < 7 * i
    · obtain rfl : i = 10 := by omega
      rfl
    · obtain ⟨k, hk⟩ : ∃ k, 10 - i = k + 1 := ⟨9 - i, by omega⟩
      have hsum : acc ||| ((b.toNat % 128) <<< (7 * i)) % 2 ^ 64 = acc + ((b.toNat % 128) <<< (7 * i)) % 2 ^ 64 := by
        rw [Varint.shiftLeft_mod 64 _ (by omega), Nat.or_comm, ← Nat.two_pow_add_eq_or_of_lt hacc, Nat.add_comm]
      have hnext : acc + ((b.toNat % 128) <<< (7 * i)) % 2 ^ 64 < 2 ^ (7 * (i + 1)) := by
        have hle : ((b.toNat % 128) <<< (7 * i)) % 2 ^ 64 ≤ b.toNat % 128 * 2 ^ (7 * i) := by
          rw [← Nat.shiftLeft_eq]
          exact Nat.mod_le _ _
        have hpow : (2 : ℕ) ^ (7 * (i + 1)) = 128 * 2 ^ (7 * i) := by rw [Nat.mul_add, pow_add, Nat.mul_comm]; rfl
        have hmul := Nat.mul_le_mul_right (2 ^ (7 * i)) (show b.toNat % 128 + 1 ≤ 128 by omega)
        rw [Nat.add_mul] at hmul
        omega
      rw [if_neg hshift, hk, Varint.read, toNat_and_low]
      simp only [and_high_eq_zero_iff, hsum]
      rw [show 7 * i + 7 = 7 * (i + 1) by omega, ih (by omega) hnext, show 10 - (i + 1) = k by omega]

/-- A varint that is accepted is taken for the number of its groups. -/
def Exact (entry : Bytes × ℕ) : Prop := Varint.value entry.1 = entry.2

/-- EXACT: how the code reads a varint. -/
theorem readVarint_of_cut {bs gs rest : Bytes} (hcut : Varint.cut bs = some (gs, rest)) (hlen : gs.length ≤ 10) :
    readVarint bs = accept (gs, Varint.value gs % 2 ^ 64) (some (Varint.value gs % 2 ^ 64, rest)) := by
  obtain ⟨hgs, rfl⟩ := Varint.cut_eq_some_iff.mp hcut
  have hread : readVarintFrom 0 0 (gs ++ rest) = some (Varint.value gs % 2 ^ 64, rest) := by
    have hfrom := readVarintFrom_eq (gs ++ rest) (Nat.zero_le 10) (show 0 < 2 ^ (7 * 0) by decide)
    rw [Nat.mul_zero] at hfrom
    rw [hfrom, Varint.read_eq_some_iff 10 (by decide) (by decide)]
    exact ⟨gs, hgs, rfl, hlen, by simp⟩
  rw [readVarint, hread]
  simp

theorem readVarint_of_none {bs : Bytes} (h : ∀ gs rest, Varint.cut bs = some (gs, rest) → 10 < gs.length) :
    readVarint bs = pure none := by
  have hread : readVarintFrom 0 0 bs = none := by
    have hfrom := readVarintFrom_eq bs (Nat.zero_le 10) (show 0 < 2 ^ (7 * 0) by decide)
    rw [Nat.mul_zero] at hfrom
    rw [hfrom, Option.eq_none_iff_forall_ne_some]
    rintro ⟨v, rest⟩ hsome
    obtain ⟨gs, hgs, hbs, hlen, -⟩ := (Varint.read_eq_some_iff 10 (by decide) (by decide)).mp hsome
    exact absurd (h gs rest (Varint.cut_eq_some_iff.mpr ⟨hgs, hbs⟩)) (Nat.not_lt.mpr hlen)
  rw [readVarint, hread]

/-! ### What a message spells -/

/-- A varint of at most ten bytes in front of the bytes. -/
def Leads (gs bs rest : Bytes) : Prop := Varint.IsVarint gs ∧ gs.length ≤ 10 ∧ bs = gs ++ rest

/-- The bytes begin with no varint of a larger number. -/
def Fits (w : ℕ) (bs : Bytes) : Prop := ∀ gs rest, Leads gs bs rest → Varint.value gs < 2 ^ w

/-- The bytes begin with the content of a field; a length prefix is no part of it. -/
def Content (wire : WireType) (bs content rest : Bytes) : Prop :=
  match wire with
  | .varint => Leads content bs rest
  | .fixed32 => content.length = 4 ∧ bs = content ++ rest
  | .fixed64 => content.length = 8 ∧ bs = content ++ rest
  | .lengthDelimited => ∃ gs, Leads gs bs (content ++ rest) ∧ Varint.value gs = content.length

/-- The bytes begin with a field: a key, of its number and wire type, and its content. -/
def Begins (bs : Bytes) (number : ℕ) (wire : WireType) (content rest : Bytes) : Prop :=
  ∃ key after, Leads key bs after ∧ Varint.value key = 8 * number + wire.rawValue ∧ Content wire after content rest

/-- A search for a field comes to this end of the bytes, past fields that are not the one. -/
inductive Reaches (field : ℕ) (wire : WireType) : Bytes → Bytes → Prop
  | here (bs : Bytes) : Reaches field wire bs bs
  | past {bs content rest pos : Bytes} {number : ℕ} {w : WireType} (hfield : Begins bs number w content rest)
      (hother : ¬ (number = field ∧ w = wire)) (hrest : Reaches field wire rest pos) : Reaches field wire bs pos

/-- The content of the first field of this number and wire type. -/
def First (field : ℕ) (wire : WireType) (bs content : Bytes) : Prop :=
  ∃ pos rest, Reaches field wire bs pos ∧ Begins pos field wire content rest

/-- A search for a field comes to the end of the message, or to the field. -/
def Ends (field : ℕ) (wire : WireType) (bs : Bytes) : Prop :=
  Reaches field wire bs [] ∨ ∃ content, First field wire bs content

/-- What is read of a field of this wire type is in range: the value of 64 bits, the length of 63. -/
def ContentFits (wire : WireType) (bs : Bytes) : Prop :=
  match wire with
  | .varint => Fits 64 bs
  | .lengthDelimited => Fits 63 bs
  | _ => True

/-- The numbers of the field that the bytes begin with are in range. -/
def FieldFits (bs : Bytes) : Prop :=
  Fits 64 bs ∧ ∀ key after number wire, Leads key bs after → Varint.value key = 8 * number + wire.rawValue →
    ContentFits wire after

/-- Wherever a search for a field comes to, the numbers of the field there are in range. -/
def WalkFits (field : ℕ) (wire : WireType) (bs : Bytes) : Prop := ∀ pos, Reaches field wire bs pos → FieldFits pos

theorem leads_iff {gs bs rest : Bytes} : Leads gs bs rest ↔ Varint.cut bs = some (gs, rest) ∧ gs.length ≤ 10 := by
  rw [Leads, Varint.cut_eq_some_iff]
  tauto

theorem Leads.unique {gs gs' bs rest rest' : Bytes} (h : Leads gs bs rest) (h' : Leads gs' bs rest') :
    gs = gs' ∧ rest = rest' := by
  have heq := (leads_iff.mp h).1.symm.trans (leads_iff.mp h').1
  cases heq
  exact ⟨rfl, rfl⟩

theorem Leads.ne_nil {gs bs rest : Bytes} (h : Leads gs bs rest) : bs ≠ [] := by
  rintro rfl
  exact h.1.ne_nil (List.append_eq_nil_iff.mp h.2.2.symm).1

/-! ### One field -/

theorem readVarint_of_leads {gs bs rest : Bytes} (h : Leads gs bs rest) (hlt : Varint.value gs < 2 ^ 64) :
    readVarint bs = accept (gs, Varint.value gs) (some (Varint.value gs, rest)) := by
  obtain ⟨hcut, hlen⟩ := leads_iff.mp h
  rw [readVarint_of_cut hcut hlen, Nat.mod_eq_of_lt hlt]

/-- STEP: a varint is wanted, and something done with it. It is read right exactly if it is in range. -/
theorem spec_readVarint_bind {α : Type} {bs : Bytes} {next : Option (ℕ × Bytes) → Walk α} {err : FrameError}
    {fits : Bytes → Bytes → Prop} {post : Bytes → Bytes → α → Prop} (hnone : next none = throw err)
    (hsome : ∀ gs rest, Leads gs bs rest → Varint.value gs < 2 ^ 64 →
      Spec Exact (next (some (Varint.value gs, rest))) (fits gs rest) (post gs rest)) :
    Spec Exact (readVarint bs >>= next) (Fits 64 bs ∧ ∀ gs rest, Leads gs bs rest → fits gs rest)
      fun a => ∃ gs rest, Leads gs bs rest ∧ post gs rest a := by
  by_cases hleads : ∃ gs rest, Leads gs bs rest
  · obtain ⟨gs, rest, hgs⟩ := hleads
    have hall : ∀ P : Bytes → Bytes → Prop, (∀ gs' rest', Leads gs' bs rest' → P gs' rest') ↔ P gs rest := by
      refine fun P => ⟨fun h => h gs rest hgs, fun h gs' rest' hgs' => ?_⟩
      obtain ⟨rfl, rfl⟩ := hgs.unique hgs'
      exact h
    have hex : ∀ P : Bytes → Bytes → Prop, (∃ gs' rest', Leads gs' bs rest' ∧ P gs' rest') ↔ P gs rest := by
      refine fun P => ⟨?_, fun h => ⟨gs, rest, hgs, h⟩⟩
      rintro ⟨gs', rest', hgs', h⟩
      obtain ⟨rfl, rfl⟩ := hgs.unique hgs'
      exact h
    rw [Fits, hall, hall]
    simp only [hex]
    by_cases hlt : Varint.value gs < 2 ^ 64
    · rw [readVarint_of_leads hgs hlt]
      have hread : Exact (gs, Varint.value gs) := rfl
      exact ((hsome gs rest hgs hlt).accept_bind hread).congr (and_iff_right hlt).symm fun _ _ => Iff.rfl
    · obtain ⟨hcut, hlen⟩ := leads_iff.mp hgs
      rw [readVarint_of_cut hcut hlen, bind_of_ok rfl]
      refine ⟨iff_of_false (fun h => ?_) fun h => hlt h.1, fun h => absurd h.1 hlt⟩
      have hexact : Varint.value gs = Varint.value gs % 2 ^ 64 := h.accepted _ List.mem_cons_self
      rw [hexact] at hlt
      exact hlt (Nat.mod_lt _ (by decide))
  · simp only [not_exists] at hleads
    rw [readVarint_of_none fun gs rest hcut => by_contra fun hlen => hleads gs rest (leads_iff.mpr ⟨hcut, by omega⟩)]
    change Spec Exact (next none) _ _
    rw [hnone]
    refine (spec_throw Exact err).congr (iff_of_true trivial ?_) fun _ a => iff_of_false id ?_
    · exact ⟨fun gs rest h => absurd h (hleads gs rest), fun gs rest h => absurd h (hleads gs rest)⟩
    · rintro ⟨gs, rest, h, -⟩
      exact hleads gs rest h

theorem spec_fixed (n : ℕ) (bs : Bytes) (err : FrameError) :
    Spec Exact (if n ≤ bs.length then pure (bs.take n, bs.drop n) else throw err : Walk (Bytes × Bytes)) True
      fun p => p.1.length = n ∧ bs = p.1 ++ p.2 := by
  split_ifs with hn
  · refine (spec_pure Exact _).congr Iff.rfl fun _ p => ?_
    obtain ⟨content, rest⟩ := p
    constructor
    · rintro ⟨⟩
      exact ⟨List.length_take_of_le hn, (List.take_append_drop n bs).symm⟩
    · rintro ⟨hlen, hbs⟩
      rw [hbs, ← hlen, List.take_left, List.drop_left]
  · refine (spec_throw Exact err).congr Iff.rfl fun _ p => iff_of_false id ?_
    rintro ⟨hlen, hbs⟩
    rw [hbs, List.length_append] at hn
    omega

/-- A length in range, and as many bytes behind it. -/
theorem spec_delimited (len : ℕ) (after : Bytes) (err : FrameError) :
    Spec Exact (toInt len >>= fun len => if len ≤ after.length then pure (after.take len, after.drop len)
      else throw err : Walk (Bytes × Bytes)) (len < 2 ^ 63) fun p => p.1.length = len ∧ after = p.1 ++ p.2 := by
  rw [toInt]
  by_cases hlen : len < 2 ^ 63
  · rw [if_pos hlen, bind_of_ok rfl]
    exact (spec_fixed len after err).congr (iff_of_true trivial hlen) fun _ _ => Iff.rfl
  · rw [if_neg hlen, bind_of_error rfl]
    exact ⟨iff_of_false (fun h => not_returns_fault _ h.returns) hlen, fun h => absurd h hlen⟩

/-- EXACT: when a content is read right, and what it is then. -/
theorem spec_fieldContent (wire : WireType) (bs : Bytes) :
    Spec Exact (fieldContent wire bs) (ContentFits wire bs) fun p => Content wire bs p.1 p.2 := by
  cases wire with
  | varint =>
    have hspec : Spec Exact (fieldContent .varint bs) (Fits 64 bs ∧ ∀ gs rest, Leads gs bs rest → True)
        fun p => ∃ gs rest, Leads gs bs rest ∧ (bs.take (bs.length - rest.length), rest) = p :=
      spec_readVarint_bind rfl fun gs rest _ _ => (spec_pure Exact _).congr Iff.rfl fun _ p => eq_comm
    refine hspec.congr (and_iff_left fun _ _ _ => trivial) fun _ p => ?_
    obtain ⟨content, rest⟩ := p
    constructor
    · rintro ⟨gs, rest, hgs, ⟨⟩⟩
      have htake : bs.take (bs.length - rest.length) = gs := by simp [hgs.2.2]
      rw [htake]
      exact hgs
    · intro h
      exact ⟨content, rest, h, by simp [h.2.2]⟩
  | fixed32 => exact spec_fixed 4 bs _
  | fixed64 => exact spec_fixed 8 bs _
  | lengthDelimited =>
    have hspec : Spec Exact (fieldContent .lengthDelimited bs)
        (Fits 64 bs ∧ ∀ gs rest, Leads gs bs rest → Varint.value gs < 2 ^ 63)
        fun p => ∃ gs after, Leads gs bs after ∧ p.1.length = Varint.value gs ∧ after = p.1 ++ p.2 :=
      spec_readVarint_bind rfl fun gs rest _ _ => spec_delimited _ _ _
    refine hspec.congr ?_ fun _ p => ?_
    · exact and_iff_right_of_imp fun h gs rest hgs => (h gs rest hgs).trans (by decide)
    · constructor
      · rintro ⟨gs, after, hgs, hlen, rfl⟩
        exact ⟨gs, hgs, hlen.symm⟩
      · rintro ⟨gs, hgs, hlen⟩
        exact ⟨gs, _, hgs, hlen.symm, rfl⟩

/-- The walker's reading of one field. -/
def nextField (bs : Bytes) : Walk (ℕ × WireType × Bytes × Bytes) := do
  match ← readVarint bs with
  | none => Logged.throw (.malformed "truncated field key")
  | some (key, rest) =>
    match WireType.ofRawValue (key &&& 0x07) with
    | none => Logged.throw (.malformed ("unsupported wire type " ++ toString (key &&& 0x07)))
    | some wire => do
      let (content, rest) ← fieldContent wire rest
      return (key >>> 3, wire, content, rest)

theorem WireType.rawValue_lt (wire : WireType) : wire.rawValue < 8 := by cases wire <;> decide

theorem key_eq_iff {key number : ℕ} {wire : WireType} :
    key = 8 * number + wire.rawValue ↔ WireType.ofRawValue (key &&& 0x07) = some wire ∧ key >>> 3 = number := by
  have hraw : ∀ n : Fin 8, WireType.ofRawValue n = some wire ↔ n.1 = wire.rawValue := by
    cases wire <;> decide
  have hlt := wire.rawValue_lt
  rw [show key &&& 0x07 = key % 8 from Nat.and_two_pow_sub_one_eq_mod key 3, Nat.shiftRight_eq_div_pow,
    hraw ⟨key % 8, Nat.mod_lt _ (by decide)⟩]
  change _ ↔ key % 8 = _ ∧ key / 2 ^ 3 = _
  omega

/-- EXACT: when a field is read right, and what it is then. -/
theorem spec_nextField (bs : Bytes) :
    Spec Exact (nextField bs) (FieldFits bs) fun f => Begins bs f.1 f.2.1 f.2.2.1 f.2.2.2 := by
  have hspec : Spec Exact (nextField bs) (Fits 64 bs ∧ ∀ gs rest, Leads gs bs rest →
        ∀ number wire, Varint.value gs = 8 * number + wire.rawValue → ContentFits wire rest)
      fun f => ∃ gs rest, Leads gs bs rest ∧ Varint.value gs = 8 * f.1 + f.2.1.rawValue ∧
        Content f.2.1 rest f.2.2.1 f.2.2.2 := by
    refine spec_readVarint_bind rfl fun gs rest _ _ => ?_
    simp only
    cases hwire : WireType.ofRawValue (Varint.value gs &&& 0x07) with
    | none =>
      refine (spec_throw Exact _).congr (iff_of_true trivial fun number w hkey => ?_) fun _ f => iff_of_false id ?_
      · rw [(key_eq_iff.mp hkey).1] at hwire
        cases hwire
      · rintro ⟨hkey, -⟩
        rw [(key_eq_iff.mp hkey).1] at hwire
        cases hwire
    | some wire =>
      have hnext : Spec Exact (fieldContent wire rest >>= fun p => pure (Varint.value gs >>> 3, wire, p.1, p.2))
          (ContentFits wire rest ∧ ∀ p : Bytes × Bytes, Content wire rest p.1 p.2 → True)
          fun f => ∃ p : Bytes × Bytes, Content wire rest p.1 p.2 ∧ (Varint.value gs >>> 3, wire, p.1, p.2) = f :=
        (spec_fieldContent wire rest).bind fun _ p _ => (spec_pure Exact _).congr Iff.rfl fun _ f => eq_comm
      refine hnext.congr ?_ fun _ f => ?_
      · constructor
        · rintro ⟨hfits, -⟩ number w hkey
          rw [(key_eq_iff.mp hkey).1] at hwire
          cases hwire
          exact hfits
        · intro hall
          exact ⟨hall _ wire (key_eq_iff.mpr ⟨hwire, rfl⟩), fun _ _ => trivial⟩
      · obtain ⟨number, w, content, after⟩ := f
        constructor
        · rintro ⟨⟨content, after⟩, hcontent, ⟨⟩⟩
          exact ⟨key_eq_iff.mpr ⟨hwire, rfl⟩, hcontent⟩
        · rintro ⟨hkey, hcontent⟩
          obtain ⟨hsame, rfl⟩ := key_eq_iff.mp hkey
          rw [hwire] at hsame
          cases hsame
          exact ⟨(content, after), hcontent, rfl⟩
  refine hspec.congr (and_congr_right fun _ => ?_) fun _ f => Iff.rfl
  exact ⟨fun h key after number wire hkey => h key after hkey number wire, fun h gs rest hgs number wire =>
    h gs rest number wire hgs⟩

/-! ### A search -/

theorem scan_cons {σ : Type} (visit : σ → ℕ → WireType → Bytes → σ × Bool) (fuel : ℕ) (b : UInt8) (bs : Bytes)
    (st : σ) :
    scan visit (fuel + 1) (b :: bs) st = nextField (b :: bs) >>= fun f =>
      if (visit st f.1 f.2.1 f.2.2.1).2 then scan visit fuel f.2.2.2 (visit st f.1 f.2.1 f.2.2.1).1
      else pure (visit st f.1 f.2.1 f.2.2.1).1 := by
  rw [scan, nextField, Logged.bind_assoc]
  congr 1
  funext r
  rcases r with _ | ⟨key, rest⟩
  · rfl
  · simp only
    cases WireType.ofRawValue (key &&& 0x07) with
    | none => rfl
    | some wire =>
      simp only
      rw [Logged.bind_assoc]
      rfl

theorem scan_seek_cons (field : ℕ) (wire : WireType) (fuel : ℕ) (b : UInt8) (bs : Bytes) :
    scan (seek field wire) (fuel + 1) (b :: bs) none = nextField (b :: bs) >>= fun f =>
      if f.1 = field ∧ f.2.1 = wire then pure (some f.2.2.1) else scan (seek field wire) fuel f.2.2.2 none := by
  rw [scan_cons]
  congr 1
  funext f
  by_cases hthis : f.1 = field ∧ f.2.1 = wire
  · rw [seek, if_pos hthis, if_pos hthis]
    rfl
  · rw [seek, if_neg hthis, if_neg hthis]
    rfl

/-- What a search for a field comes to. -/
def Finds (field : ℕ) (wire : WireType) (bs : Bytes) : Option Bytes → Prop
  | none => Reaches field wire bs []
  | some content => First field wire bs content

theorem not_begins_nil {number : ℕ} {w : WireType} {content rest : Bytes} : ¬ Begins [] number w content rest := by
  rintro ⟨key, after, hkey, -⟩
  exact hkey.ne_nil rfl

theorem Begins.rest_lt {bs content rest : Bytes} {number : ℕ} {w : WireType} (h : Begins bs number w content rest) :
    rest.length < bs.length := by
  obtain ⟨key, after, hkey, -, hcontent⟩ := h
  have hpos := List.length_pos_iff.mpr hkey.1.ne_nil
  have hafter : rest.length ≤ after.length := by
    cases w with
    | varint =>
      rw [hcontent.2.2, List.length_append]
      exact Nat.le_add_left _ _
    | fixed32 =>
      rw [hcontent.2, List.length_append]
      exact Nat.le_add_left _ _
    | fixed64 =>
      rw [hcontent.2, List.length_append]
      exact Nat.le_add_left _ _
    | lengthDelimited =>
      obtain ⟨gs, hgs, -⟩ := hcontent
      rw [hgs.2.2, List.length_append, List.length_append]
      omega
  rw [hkey.2.2, List.length_append]
  omega

/-- STEP: a search goes well if the field in front is read right, and if the search goes well behind a field that is
    not the one. -/
theorem walkFits_iff {field : ℕ} {wire : WireType} {bs : Bytes} :
    WalkFits field wire bs ↔ FieldFits bs ∧ ∀ number w content rest, Begins bs number w content rest →
      ¬ (number = field ∧ w = wire) → WalkFits field wire rest := by
  constructor
  · intro h
    exact ⟨h bs (.here bs), fun number w content rest hfield hother pos hpos => h pos (.past hfield hother hpos)⟩
  · rintro ⟨hhere, hpast⟩ pos hpos
    cases hpos with
    | here => exact hhere
    | past hfield hother hrest => exact hpast _ _ _ _ hfield hother pos hrest

theorem finds_iff {field : ℕ} {wire : WireType} {bs : Bytes} (hbs : bs ≠ []) (r : Option Bytes) :
    Finds field wire bs r ↔ ∃ number w content rest, Begins bs number w content rest ∧
      if number = field ∧ w = wire then some content = r else Finds field wire rest r := by
  cases r with
  | none =>
    constructor
    · intro h
      cases h with
      | here => exact absurd rfl hbs
      | past hfield hother hrest => exact ⟨_, _, _, _, hfield, by rwa [if_neg hother]⟩
    · rintro ⟨number, w, content, rest, hfield, hfinds⟩
      split_ifs at hfinds with hthis
      exact .past hfield hthis hfinds
  | some found =>
    constructor
    · rintro ⟨pos, after, hpos, hfound⟩
      cases hpos with
      | here => exact ⟨field, wire, found, after, hfound, by rw [if_pos ⟨rfl, rfl⟩]⟩
      | past hfield hother hrest => exact ⟨_, _, _, _, hfield, by rw [if_neg hother]; exact ⟨pos, after, hrest, hfound⟩⟩
    · rintro ⟨number, w, content, rest, hfield, hfinds⟩
      split_ifs at hfinds with hthis
      · obtain ⟨rfl, rfl⟩ := hthis
        cases hfinds
        exact ⟨bs, rest, .here bs, hfield⟩
      · obtain ⟨pos, after, hpos, hfound⟩ := hfinds
        exact ⟨pos, after, .past hfield hthis hpos, hfound⟩

/-- RUN: when a search goes well, and what it comes to then. -/
theorem spec_scan (field : ℕ) (wire : WireType) {fuel : ℕ} {bs : Bytes} (hfuel : bs.length ≤ fuel) :
    Spec Exact (scan (seek field wire) fuel bs none) (WalkFits field wire bs) (Finds field wire bs) := by
  have hnil : Spec Exact (pure none : Walk (Option Bytes)) (WalkFits field wire []) (Finds field wire []) := by
    refine (spec_pure Exact none).congr (iff_of_true trivial ?_) fun _ r => ?_
    · refine walkFits_iff.mpr ⟨⟨fun gs rest h => absurd rfl h.ne_nil, ?_⟩, ?_⟩
      · exact fun key after number w h => absurd rfl h.ne_nil
      · exact fun number w content rest h => absurd h not_begins_nil
    · cases r with
      | none => exact iff_of_true rfl (.here [])
      | some content =>
        refine iff_of_false (by simp) ?_
        rintro ⟨pos, rest, hpos, hfound⟩
        cases hpos with
        | here => exact not_begins_nil hfound
        | past hfield => exact not_begins_nil hfield
  induction fuel generalizing bs with
  | zero =>
    obtain rfl := List.length_eq_zero_iff.mp (Nat.le_zero.mp hfuel)
    exact hnil
  | succ fuel ih =>
    cases bs with
    | nil => exact hnil
    | cons b bs =>
      have hnext : Spec Exact (scan (seek field wire) (fuel + 1) (b :: bs) none)
          (FieldFits (b :: bs) ∧ ∀ f : ℕ × WireType × Bytes × Bytes, Begins (b :: bs) f.1 f.2.1 f.2.2.1 f.2.2.2 →
            ¬ (f.1 = field ∧ f.2.1 = wire) → WalkFits field wire f.2.2.2)
          fun r => ∃ f : ℕ × WireType × Bytes × Bytes, Begins (b :: bs) f.1 f.2.1 f.2.2.1 f.2.2.2 ∧
            if f.1 = field ∧ f.2.1 = wire then some f.2.2.1 = r else Finds field wire f.2.2.2 r := by
        rw [scan_seek_cons]
        refine (spec_nextField (b :: bs)).bind fun _ f hf => ?_
        have hshort : f.2.2.2.length ≤ fuel := Nat.le_of_lt_succ (hf.rest_lt.trans_le hfuel)
        split_ifs with hthis
        · exact (spec_pure Exact _).congr (iff_of_true trivial fun h => absurd hthis h) fun _ r => eq_comm
        · exact (ih hshort).congr ⟨fun h _ => h, fun h => h hthis⟩ fun _ r => Iff.rfl
      refine hnext.congr (Iff.trans (by simp only [Prod.forall]) walkFits_iff.symm) fun _ r => ?_
      rw [finds_iff (List.cons_ne_nil b bs)]
      simp only [Prod.exists]

theorem spec_firstField (field : ℕ) (wire : WireType) (bs : Bytes) :
    Spec Exact (firstField field wire bs) (WalkFits field wire bs) (Finds field wire bs) :=
  spec_scan field wire le_rfl

/-- What a search finds is a field that was read right. -/
theorem leads_of_first {field : ℕ} {bs raw : Bytes} (hfits : WalkFits field .varint bs)
    (h : First field .varint bs raw) : Leads raw raw [] ∧ Varint.value raw < 2 ^ 64 := by
  obtain ⟨pos, rest, hpos, key, after, hkey, hvalue, hraw⟩ := h
  have hlt : Fits 64 after := (hfits pos hpos).2 key after field .varint hkey hvalue
  exact ⟨⟨hraw.1, hraw.2.1, (List.append_nil raw).symm⟩, hlt raw rest hraw⟩

/-- EXACT: when the number of a field is read right, and what it is then. -/
theorem spec_firstVarint (field : ℕ) (bs : Bytes) : Spec Exact (firstVarint field bs) (WalkFits field .varint bs)
    fun r => ∃ found, Finds field .varint bs found ∧ r = found.map Varint.value := by
  have hspec : Spec Exact (firstVarint field bs)
      (WalkFits field .varint bs ∧ ∀ found, Finds field .varint bs found → True)
      fun r => ∃ found, Finds field .varint bs found ∧ r = found.map Varint.value := by
    refine (spec_firstField field .varint bs).bind fun hfits found hfound => ?_
    cases found with
    | none => exact spec_pure Exact none
    | some raw =>
      obtain ⟨hraw, hlt⟩ := leads_of_first hfits hfound
      simp only
      rw [readVarint_of_leads hraw hlt]
      exact (spec_pure Exact _).accept_bind rfl
  exact hspec.congr (and_iff_left fun _ _ => trivial) fun _ r => Iff.rfl

/-- A search, and what is done with whatever it comes to. -/
theorem sound_firstField_any {α : Type} {field : ℕ} {wire : WireType} {bs : Bytes} {next : Option Bytes → Walk α}
    {good : Prop} (h : ∀ found, Sound Exact (next found) ↔ good) :
    Sound Exact (firstField field wire bs >>= next) ↔ WalkFits field wire bs ∧ (Ends field wire bs → good) := by
  rw [(spec_firstField field wire bs).sound_bind_iff]
  refine and_congr_right fun _ => ?_
  constructor
  · rintro hall (hend | ⟨content, hfound⟩)
    · exact (h none).mp (hall none hend)
    · exact (h (some content)).mp (hall (some content) hfound)
  · intro hgood found hfound
    cases found with
    | none => exact (h none).mpr (hgood (.inl hfound))
    | some content => exact (h (some content)).mpr (hgood (.inr ⟨content, hfound⟩))

theorem sound_firstFixed32_bind {α : Type} {field : ℕ} {bs : Bytes} {next : Option UInt32 → Walk α} {good : Prop}
    (h : ∀ v, Sound Exact (next v) ↔ good) :
    Sound Exact (firstFixed32 field bs >>= next) ↔ WalkFits field .fixed32 bs ∧ (Ends field .fixed32 bs → good) := by
  rw [firstFixed32, Logged.bind_assoc]
  refine sound_firstField_any fun found => ?_
  split
  · exact h _
  · exact h none

/-! ### A frame -/

/-- The numbers on the way to the payload are in range: each search of the decoder through its level of the message
    comes to none that is not, and it makes the next search only where the last has ended. -/
def InRange (bytes : Bytes) : Prop :=
  WalkFits 2 .lengthDelimited bytes ∧ ∀ packet, First 2 .lengthDelimited bytes packet →
    WalkFits 4 .lengthDelimited packet ∧ ∀ data, First 4 .lengthDelimited packet data →
      WalkFits 1 .fixed32 packet ∧ (Ends 1 .fixed32 packet →
        WalkFits 1 .varint data ∧ ∀ port, First 1 .varint data port → Varint.value port = privateAppPortnum →
          WalkFits 2 .lengthDelimited data)

/-- A search for the content of a field, and what is done with it. -/
theorem sound_firstField_bind {α : Type} {field : ℕ} {wire : WireType} {bs : Bytes} {next : Option Bytes → Walk α}
    {good : Bytes → Prop} (hnone : Sound Exact (next none))
    (hsome : ∀ content, Sound Exact (next (some content)) ↔ good content) :
    Sound Exact (firstField field wire bs >>= next) ↔
      WalkFits field wire bs ∧ ∀ content, First field wire bs content → good content := by
  rw [(spec_firstField field wire bs).sound_bind_iff]
  refine and_congr_right fun _ => ?_
  constructor
  · intro hall content hfound
    exact (hsome content).mp (hall (some content) hfound)
  · intro hall found hfound
    cases found with
    | none => exact hnone
    | some content => exact (hsome content).mpr (hall content hfound)

/-- EXACT: decoding goes well exactly if the numbers on the way are in range. -/
theorem sound_decodeFromRadio_iff (bytes : Bytes) : Sound Exact (decodeFromRadio bytes) ↔ InRange bytes := by
  refine sound_firstField_bind (sound_pure Exact none) fun packet => ?_
  refine sound_firstField_bind (sound_pure Exact none) fun data => ?_
  refine sound_firstFixed32_bind fun sender => ?_
  rw [(spec_firstVarint 1 data).sound_bind_iff]
  refine and_congr_right fun _ => ?_
  have hpayload : ∀ next : Option Bytes → Walk (Option Inbound), (∀ r, Sound Exact (next r)) →
      (Sound Exact (firstField 2 .lengthDelimited data >>= next) ↔ WalkFits 2 .lengthDelimited data) := by
    intro next hnext
    exact (sound_firstField_any fun r => iff_of_true (hnext r) trivial).trans (and_iff_left fun _ => trivial)
  have hlast : ∀ portnum : ℕ, ∀ r : Option Bytes, Sound Exact (match r with
      | none => Logged.throw (.malformed "private-app packet with no payload")
      | some payload => pure (some ⟨portnum, payload, sender.getD 0⟩) : Walk (Option Inbound)) := by
    intro portnum r
    cases r with
    | none => exact sound_throw Exact _
    | some payload => exact sound_pure Exact _
  constructor
  · intro hall port hport hprivate
    have hnext := hall (some (Varint.value port)) ⟨some port, hport, rfl⟩
    simp only [hprivate, ne_eq, not_true_eq_false, if_false] at hnext
    exact (hpayload _ (hlast _)).mp hnext
  · rintro hall _ ⟨found, hfound, rfl⟩
    cases found with
    | none => exact sound_pure Exact none
    | some port =>
      simp only [Option.map_some]
      by_cases hprivate : Varint.value port = privateAppPortnum
      · simp only [hprivate, ne_eq, not_true_eq_false, if_false]
        exact (hpayload _ (hlast _)).mpr (hall port hfound hprivate)
      · simp only [ne_eq, hprivate, not_false_eq_true, if_true]
        exact sound_pure Exact none

end Nimmesh.MeshtasticFrame
