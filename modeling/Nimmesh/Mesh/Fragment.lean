import Nimmesh.Mesh.Wire
import Nimmesh.Lib.Table
import Nimmesh.Lib.Word
import Mathlib.Data.List.Sort
import Mathlib.Data.List.GetD
import Mathlib.Data.List.MinMax

/-! @src fragment.rs | name:Fragments and their reassembly | layer:model

    A long message travels as fragments that share an id. The reassembler collects them by id, within
    bounds on their number and age, and gives the message back the moment its set is complete. -/

namespace Nimmesh
open Rlp Word

def fragmentIdLen : ℕ := 8

abbrev FragmentId := ByteArr fragmentIdLen

def fragmentHeaderLen : ℕ := 13

def maxInFlight : ℕ := 128

def reassemblyLifetimeMs : UInt64 := 30000

structure Fragment where
  id : FragmentId
  index : UInt16
  total : UInt16
  originalType : UInt8
  chunk : Bytes
  deriving DecidableEq

def encodeFragment (f : Fragment) : Bytes :=
  f.id.1 ++ beBytesOf 2 f.index.toNat ++ beBytesOf 2 f.total.toNat ++ [f.originalType] ++ f.chunk

/-- Parse a fragment payload; every index lies inside its set. -/
def parseFragment (bytes : Bytes) : Option Fragment :=
  if bytes.length < fragmentHeaderLen then none
  else
    let index := (ofBe (slice bytes 8 2)).toUInt16
    let total := (ofBe (slice bytes 10 2)).toUInt16
    if total = 0 ∨ total ≤ index then none
    else some { id := sliceArr fragmentIdLen bytes 0
                index, total
                originalType := byteAt bytes 12
                chunk := bytes.drop fragmentHeaderLen }

/-- `payload.chunks(n)`, and one empty chunk for an empty payload. -/
def chunks (payload : Bytes) (n : ℕ) : List Bytes :=
  if payload.isEmpty then [[]]
  else (List.range ((payload.length + n - 1) / n)).map fun i => slice payload (i * n) n

/-- Split a message into the payloads of its fragments. -/
def fragmentMessage (originalType : UInt8) (payload : Bytes) (chunkSize : ℕ) (id : FragmentId) :
    List Bytes :=
  let cs := chunks payload (max chunkSize 1)
  let total := (min cs.length 65535).toUInt16
  cs.zipIdx.map fun c =>
    encodeFragment { id, index := c.2.toUInt16, total, originalType, chunk := c.1 }

/-- A message that is being collected. -/
structure Partial where
  total : UInt16
  originalType : UInt8
  chunks : Table UInt16 Bytes := ∅
  createdMs : UInt64

/-- The chunks in the order of their index, as one message. -/
def Partial.message (p : Partial) : Bytes :=
  (p.chunks.entries.insertionSort fun a b => a.1 ≤ b.1).flatMap (·.2)

/-- The messages in flight. -/
abbrev Reassembler := Table FragmentId Partial

namespace Reassembler

/-- Drop what is too old. -/
def gc (r : Reassembler) (nowMs : UInt64) : Reassembler :=
  r.retain fun _ p => satSub nowMs p.createdMs < reassemblyLifetimeMs

/-- Make room: drop the oldest if the bound is reached. -/
def evictIfFull (r : Reassembler) : Reassembler :=
  if r.len < maxInFlight then r
  else match r.entries.argmin fun e => e.2.createdMs.toNat with
    | some oldest => r.erase oldest.1
    | none => r

/-- The set that a fragment goes to: the one in flight under its id, unless that is a different set. -/
def partialFor (r : Reassembler) (f : Fragment) (nowMs : UInt64) : Partial × Reassembler :=
  match r.lookup f.id with
  | some p =>
    if p.total ≠ f.total ∨ p.originalType ≠ f.originalType then
      ({ total := f.total, originalType := f.originalType, createdMs := nowMs },
        evictIfFull (r.erase f.id))
    else (p, r)
  | none =>
    ({ total := f.total, originalType := f.originalType, createdMs := nowMs }, evictIfFull r)

/-- Absorb a fragment; the type and bytes of the message if its set is complete. -/
def accept (r : Reassembler) (f : Fragment) (nowMs : UInt64) : Option (UInt8 × Bytes) × Reassembler :=
  let (p, r) := partialFor (gc r nowMs) f nowMs
  let p := { p with chunks := p.chunks.insert f.index f.chunk }
  if p.chunks.len.toUInt16 ≠ p.total then (none, r.insert f.id p)
  else (some (p.originalType, p.message), r.erase f.id)

end Reassembler

/-! ### Parsing what was written -/

/-- A fragment whose index lies inside its set survives its payload. -/
theorem parse_encodeFragment {f : Fragment} (h : f.index < f.total) :
    parseFragment (encodeFragment f) = some f := by
  obtain ⟨id, index, total, originalType, chunk⟩ := f
  have hn : index.toNat < total.toNat := UInt16.lt_iff_toNat_lt.mp h
  have hword : ∀ w : UInt16, (ofBe (beBytesOf 2 w.toNat)).toUInt16 = w := by
    intro w
    have hlt := w.toNat_lt
    rw [ofBe_beBytesOf, Nat.mod_eq_of_lt (by omega)]
    exact UInt16.toNat_inj.mp (by simp)
  have hform : encodeFragment ⟨id, index, total, originalType, chunk⟩ =
      id.1 ++ (beBytesOf 2 index.toNat ++ (beBytesOf 2 total.toNat ++ (originalType :: chunk))) := by
    simp [encodeFragment]
  have hid : id.1.length = 8 := id.2
  have hindex : slice (encodeFragment ⟨id, index, total, originalType, chunk⟩) 8 2 =
      beBytesOf 2 index.toNat := by
    have hskip := slice_append id.1
      (beBytesOf 2 index.toNat ++ (beBytesOf 2 total.toNat ++ (originalType :: chunk))) 0 2
    rw [hid] at hskip
    rw [hform, hskip]
    exact slice_left (beBytesOf 2 index.toNat) _
  have hahead : (id.1 ++ beBytesOf 2 index.toNat).length = 10 := by
    rw [List.length_append, hid, length_beBytesOf]
  have htotal : slice (encodeFragment ⟨id, index, total, originalType, chunk⟩) 10 2 =
      beBytesOf 2 total.toNat := by
    have hskip := slice_append (id.1 ++ beBytesOf 2 index.toNat)
      (beBytesOf 2 total.toNat ++ (originalType :: chunk)) 0 2
    rw [hahead, List.append_assoc] at hskip
    rw [hform, hskip]
    exact slice_left (beBytesOf 2 total.toNat) _
  have hfront : (id.1 ++ beBytesOf 2 index.toNat ++ beBytesOf 2 total.toNat).length = 12 := by
    rw [List.length_append, hahead, length_beBytesOf]
  have htail : encodeFragment ⟨id, index, total, originalType, chunk⟩ =
      (id.1 ++ beBytesOf 2 index.toNat ++ beBytesOf 2 total.toNat) ++ (originalType :: chunk) := by
    simp [encodeFragment]
  have hbyte : byteAt (encodeFragment ⟨id, index, total, originalType, chunk⟩) 12 = originalType := by
    rw [htail, byteAt, List.getD_append_right _ _ _ _ hfront.le, hfront]
    rfl
  have hchunk : (encodeFragment ⟨id, index, total, originalType, chunk⟩).drop fragmentHeaderLen = chunk := by
    rw [htail, fragmentHeaderLen, List.drop_append, List.drop_eq_nil_of_le (by omega), hfront]
    rfl
  have hlen : fragmentHeaderLen ≤ (encodeFragment ⟨id, index, total, originalType, chunk⟩).length := by
    rw [htail, List.length_append, hfront, List.length_cons, fragmentHeaderLen]
    omega
  have hsender : sliceArr fragmentIdLen (encodeFragment ⟨id, index, total, originalType, chunk⟩) 0 = id := by
    rw [hform]
    exact sliceArr_left id _
  unfold parseFragment
  rw [if_neg (Nat.not_lt.mpr hlen), hindex, htotal, hword, hword, if_neg, hbyte, hchunk, hsender]
  rintro (h0 | hle)
  · rw [h0] at hn
    simp at hn
  · exact absurd (UInt16.le_iff_toNat_le.mp hle) (Nat.not_le.mpr hn)

end Nimmesh
