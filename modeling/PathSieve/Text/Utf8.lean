/-
  Text as bytes.

  Rule text, paths and results cross into a guest as UTF-8 bytes. `encode` always
  succeeds; `decode?` refuses every sequence that is not valid UTF-8, overlong
  forms and surrogates included, and gives back exactly what was encoded
  (`decode?_encode`).
-/

namespace PathSieve.Text.Utf8

/-- The UTF-8 bytes of a text. -/
def encode (text : String) : List UInt8 :=
  text.toByteArray.data.toList

/-- The text whose UTF-8 form the bytes are, if they are one. -/
def decode? (bytes : List UInt8) : Option String :=
  String.fromUTF8? (ByteArray.mk bytes.toArray)

theorem decode?_encode (text : String) : decode? (encode text) = some text := by
  have h : (ByteArray.mk (encode text).toArray) = text.toByteArray := by
    simp [encode]
  unfold decode?
  rw [h, String.fromUTF8?, dif_pos text.isValidUTF8]
  rfl

theorem eq_encode_of_decode? {bytes : List UInt8} {text : String}
    (h : decode? bytes = some text) : bytes = encode text := by
  unfold decode? String.fromUTF8? at h
  split at h
  · injection h with h
    subst h
    simp [encode, String.fromUTF8]
  · simp at h

theorem decode?_eq_some_iff {bytes : List UInt8} {text : String} :
    decode? bytes = some text ↔ bytes = encode text :=
  ⟨eq_encode_of_decode?, fun h => h ▸ decode?_encode text⟩

end PathSieve.Text.Utf8
