import Nimmesh.Lib.Rlp

/-! @lib abi | name:Reading a byte string at offsets | scope:general

    Calldata is read by absolute offsets: a head of words, some of which are offsets of their own into a
    tail. `slice?` is the bounds-checked read, and `At b off m` says that `m` stands in `b` at `off`. An
    encoding is a concatenation; `At.left` and `At.right` take it apart, and `At.slice?` reads a part. -/

namespace Abi

variable {b m m' : List UInt8} {off : ℕ}

/-- The `len` bytes at an offset, if they are all there. -/
def slice? (b : List UInt8) (off len : ℕ) : Option (List UInt8) :=
  if off + len ≤ b.length then some ((b.drop off).take len) else none

/-- The bytes `m` stand in `b` at offset `off`. -/
def At (b : List UInt8) (off : ℕ) (m : List UInt8) : Prop :=
  ∃ pre post, b = pre ++ (m ++ post) ∧ pre.length = off

theorem At.all (b : List UInt8) : At b 0 b := ⟨[], [], by simp, rfl⟩

theorem At.left (h : At b off (m ++ m')) : At b off m := by
  obtain ⟨pre, post, rfl, hlen⟩ := h
  exact ⟨pre, m' ++ post, by rw [List.append_assoc], hlen⟩

theorem At.right (h : At b off (m ++ m')) : At b (off + m.length) m' := by
  obtain ⟨pre, post, rfl, rfl⟩ := h
  exact ⟨pre ++ m, post, by simp only [List.append_assoc], List.length_append⟩

theorem At.length_le (h : At b off m) : off + m.length ≤ b.length := by
  obtain ⟨pre, post, rfl, rfl⟩ := h
  simp only [List.length_append]
  omega

/-- What stands at an offset is what a read of its length finds there. -/
theorem At.slice? (h : At b off m) : slice? b off m.length = some m := by
  rw [Abi.slice?, if_pos h.length_le]
  obtain ⟨pre, post, rfl, rfl⟩ := h
  rw [List.drop_left, List.take_left]

end Abi
