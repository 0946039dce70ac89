/-
  Bytes: text as it is stored

  Text is read and written as the bytes of its UTF-8 form. `Bytes.toString?`
  reads them back and refuses bytes that are no such form, and `Bytes.lines`
  cuts bytes behind each line feed.
-/

namespace LineCalc

/-- A sequence of bytes. -/
abbrev Bytes := List UInt8

namespace Bytes

/-- The bytes of a text. -/
def ofString (s : String) : Bytes := s.toUTF8.data.toList

/-- The text whose bytes these are, if there is one. -/
def toString? (bytes : Bytes) : Option String := String.fromUTF8? ⟨bytes.toArray⟩

/-- The byte that ends a line. -/
def lineFeed : UInt8 := 10

/-- The lines of a sequence of bytes, each with the line feed that ends it. The
last one may lack it, and there is no empty line behind the last line feed. -/
def lines : Bytes → List Bytes
  | [] => []
  | b :: rest =>
    if b = lineFeed then [b] :: lines rest
    else
      match lines rest with
      | [] => [[b]]
      | line :: others => (b :: line) :: others

/-- A text is read back from its bytes. -/
theorem toString?_ofString (s : String) : toString? (ofString s) = some s :=
  dif_pos (c := s.toByteArray.IsValidUTF8) s.isValidUTF8

/-- Bytes that are a text's are the bytes of that text. -/
theorem ofString_of_toString? {bytes : Bytes} {s : String} (h : toString? bytes = some s) :
    ofString s = bytes := by
  unfold toString? String.fromUTF8? at h
  split at h
  · cases h
    simp [ofString, String.fromUTF8]
  · cases h

theorem ofString_append (s t : String) : ofString (s ++ t) = ofString s ++ ofString t := by
  simp [ofString]

end Bytes

end LineCalc
