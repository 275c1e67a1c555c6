import Sentential.Text.Basic

/-!
# Texts and bytes

Files and streams hold bytes, which are read as UTF-8.
-/

namespace Sentential

/-- A sequence of bytes. -/
abbrev Bytes := List UInt8

namespace Text

/-- The bytes of a text. -/
def toBytes (t : Text) : Bytes :=
  t.flatMap String.utf8EncodeChar

/-- The text that bytes spell, if they are well-formed. -/
def ofBytes? (bytes : Bytes) : Option Text :=
  (String.fromUTF8? bytes.toByteArray).map String.toList

end Text

end Sentential
