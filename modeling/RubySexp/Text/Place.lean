namespace RubySexp

/-!
# Places in a Text

A reader that stops hands back the part of the text it had not read. That part decides the
place: how many characters stand before it, on which line and in which column.
-/

/-- A place in a text: characters before it, counted from 0, and its line and column, counted
from 1. Only a line feed ends a line. -/
structure Place where
  offset : Nat
  line : Nat
  column : Nat
  deriving DecidableEq, Repr

/-- The place behind `before`. -/
def Place.behind (before : List Char) : Place where
  offset := before.length
  line := before.count '\n' + 1
  column := (before.reverse.takeWhile (· != '\n')).length + 1

/-- The place in `text` at which its ending `rest` starts. -/
def Place.ofRest (text rest : List Char) : Place :=
  Place.behind (text.take (text.length - rest.length))

end RubySexp
