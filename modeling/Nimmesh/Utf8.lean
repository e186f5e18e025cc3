import Nimmesh.Packet

/-! @src chat.rs request_uri.rs | name:Texts as bytes | layer:model

    `as_bytes` and `from_utf8`: bytes are a text exactly if they are the encoding of one. -/

namespace Nimmesh

/-- `str::as_bytes`. -/
def utf8Bytes (s : String) : Bytes := s.toByteArray.data.toList

/-- `str::from_utf8`. -/
def fromUtf8 (b : Bytes) : Option String := String.fromUTF8? ⟨b.toArray⟩

/-- CORRECT: what is read as a text are its bytes, and nothing else. -/
theorem fromUtf8_eq_some_iff {b : Bytes} {s : String} : fromUtf8 b = some s ↔ b = utf8Bytes s := by
  rw [fromUtf8, String.fromUTF8?]
  split_ifs with hvalid
  · rw [Option.some.injEq]
    constructor
    · rintro rfl
      rfl
    · rintro rfl
      rfl
  · constructor
    · intro h
      cases h
    · rintro rfl
      exact absurd s.isValidUTF8 hvalid

theorem fromUtf8_utf8Bytes (s : String) : fromUtf8 (utf8Bytes s) = some s := fromUtf8_eq_some_iff.mpr rfl

theorem utf8Bytes_ofList (cs : List Char) : utf8Bytes (String.ofList cs) = cs.flatMap String.utf8EncodeChar := by
  rw [utf8Bytes, String.toByteArray_ofList, List.utf8Encode, List.toList_data_toByteArray]

end Nimmesh
