/-
Module: KeywordHash.Text.Bytes
Layer: Text
Purpose: The UTF-8 form of a text as a list of bytes, in which keyword lengths and sampled characters are
  counted, and the way back for bytes that came from outside. Both directions lose nothing.
Imports: none
Trusted boundary: none
Main exports: bytes, ofBytes?, length_bytes, bytes_append, ofBytes?_bytes
Open obligations: none
-/

namespace KeywordHash.Text

/-- The UTF-8 bytes of a text. -/
def bytes (text : String) : List UInt8 :=
  text.toUTF8.data.toList

/-- The text that has the given UTF-8 bytes, if they are well formed. -/
def ofBytes? (bs : List UInt8) : Option String :=
  String.fromUTF8? ⟨bs.toArray⟩

/-- Is the byte the code of an ASCII character? -/
def isAscii (b : UInt8) : Bool :=
  b < 128

/-- The byte length of a text is the length of its byte list. -/
theorem length_bytes (text : String) : (bytes text).length = text.utf8ByteSize := by
  simp only [bytes, String.toUTF8_eq_toByteArray, Array.length_toList]
  exact String.size_toByteArray

/-- The bytes of two joined texts are the bytes of the one and then those of the other. -/
theorem bytes_append (s t : String) : bytes (s ++ t) = bytes s ++ bytes t := by
  simp [bytes, String.toByteArray_append, ByteArray.data_append]

/-- Reading back the bytes of a text gives the text. -/
theorem ofBytes?_bytes (text : String) : ofBytes? (bytes text) = some text := by
  have valid : ByteArray.IsValidUTF8 text.toByteArray := text.isValidUTF8
  simp only [ofBytes?, bytes, String.toUTF8_eq_toByteArray, Array.toArray_toList,
    String.fromUTF8?]
  rw [dif_pos valid]
  rfl

end KeywordHash.Text
