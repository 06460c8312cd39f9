/-!
# Splitting text

Pieces of a text between occurrences of one character, and the lines of a text.
-/

namespace MeshNode.Text

/-- The pieces between occurrences of `sep`: always one more than there are occurrences. -/
def splitAt (sep : Char) : List Char → List (List Char)
  | [] => [[]]
  | c :: rest =>
    if c = sep then [] :: splitAt sep rest
    else match splitAt sep rest with
      | piece :: pieces => (c :: piece) :: pieces
      | [] => [[c]]

/-- The text before and after the first character of a class, which `after` still begins with. -/
def breakAt (p : Char → Bool) (s : List Char) : List Char × List Char :=
  (s.takeWhile (! p ·), s.dropWhile (! p ·))

/-- The text before and after the first occurrence of `sep`, if there is one. -/
def splitFirst? (sep : Char) (s : List Char) : Option (List Char × List Char) :=
  match breakAt (· == sep) s with
  | (before, _ :: after) => some (before, after)
  | (_, []) => none

/-- The text before and after the last occurrence of `sep`, if there is one. -/
def splitLast? (sep : Char) (s : List Char) : Option (List Char × List Char) :=
  match breakAt (· == sep) s.reverse with
  | (after, _ :: before) => some (before.reverse, after.reverse)
  | (_, []) => none

/-- A line without the carriage return that ends it. -/
def dropReturn (line : List Char) : List Char :=
  match line.reverse with
  | '\r' :: rest => rest.reverse
  | _ => line

/-- The lines of a text: each newline ends one, alone or after a carriage return, and text
after the last newline is a line too. -/
def lines (s : List Char) : List (List Char) :=
  let pieces := splitAt '\n' s
  let ended := pieces.dropLast.map dropReturn
  match pieces.getLast? with
  | some [] => ended
  | some tail => ended ++ [tail]
  | none => ended

/-- The text of some lines, each with a newline at its end. -/
def ofLines (ls : List String) : String := String.join (ls.map (· ++ "\n"))

end MeshNode.Text
