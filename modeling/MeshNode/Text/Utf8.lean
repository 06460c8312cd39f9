/-!
# UTF-8

Texts as octets and back; octets that are no UTF-8 give no text.
-/

namespace MeshNode.Text

/-- The octets of a text. -/
def utf8 (s : String) : List UInt8 := s.toUTF8.toList

/-- The text of some octets, if they are UTF-8. -/
def ofUtf8? (bytes : List UInt8) : Option String := String.fromUTF8? ⟨bytes.toArray⟩

/-- The octets of one character. -/
def utf8Char (c : Char) : List UInt8 := String.utf8EncodeChar c

end MeshNode.Text
