import RubySexp.Json.Basic

namespace RubySexp

/-!
# Locations

Where in the source a node stands. A dump states four numbers, and nothing checks that they
are numbers, so they are kept as the JSON data they were.
-/

/-- The span of a node: lines from 1, columns from 0, the last column excluded. -/
structure Location where
  startLine : Json := .int 1
  startColumn : Json := .int 0
  endLine : Json := .int 1
  endColumn : Json := .int 0

namespace Location

/-- The names of the four numbers, in order. -/
def keys : List String := ["start_line", "start_column", "end_line", "end_column"]

def components (l : Location) : List Json := [l.startLine, l.startColumn, l.endLine, l.endColumn]

/-- Whole lines from `first` to `last`. -/
def lines (first last : Json) : Location := ⟨first, .int 0, last, .int 0⟩

/-- The start, as messages show it. -/
def format (l : Location) : List Char :=
  l.startLine.render .spelled ++ ':' :: l.startColumn.render .spelled

/-- The text of a location inside data. -/
def render (l : Location) : List Char :=
  let parts := (keys.zip l.components).map fun (key, j) => key.toList ++ '=' :: j.render .data
  "Location(".toList ++ Json.commaSeparated parts ++ [')']

def same (a b : Location) : Bool := Json.sameItems a.components b.components

/-- The location that a dump states: four items in order, or an object with some of the four
keys, where a missing one stands for the start of the first line. -/
def ofJson? : Json → Option Location
  | .array [a, b, c, d] => some ⟨a, b, c, d⟩
  | .object entries =>
    if entries.all fun (key, _) => keys.contains key then
      let part (key : String) (absent : Int) := (Json.lookup? key entries).getD (.int absent)
      some ⟨part "start_line" 1, part "start_column" 0, part "end_line" 1, part "end_column" 0⟩
    else none
  | _ => none

end Location

end RubySexp
