/-!
# UTF-8

Texts as bytes and back.
-/

namespace Runbook

/-- The text that bytes encode, if they encode one. -/
def decodeUtf8? (bytes : List UInt8) : Option String :=
  String.fromUTF8? ⟨bytes.toArray⟩

/-- The bytes of a text. -/
def encodeUtf8 (s : String) : List UInt8 :=
  s.toUTF8.data.toList

end Runbook
