import RubySexp.Fault
import RubySexp.Node.Tree
import RubySexp.Sexp.Tag

namespace RubySexp

/-!
# Values

What a conversion yields and what printed text is read as: expressions, the Ruby values inside
them, and data that has no Ruby form but can still reach the output. The name of a symbol and the
source of a regular expression come from the fields of nodes and are kept as they are there.
-/

/-- An expression, a Ruby value, or data without a Ruby form. -/
inductive Value where
  | scalar (s : Scalar)
  | rational (q : Rat)
  | symbol (name : Tree)
  | range (first last excludeEnd : Value)
  /-- A regular expression with its option bits: 1 ignores case, 2 allows layout, 4 lets the
  dot match line ends, 32 is without encoding. -/
  | regexp (source : Tree) (options : Nat)
  | imaginary (re im : Value)
  | sexp (tag : Tag) (kids : List Value) (line maxLine : Json)
  | list (items : List Value)
  | tuple (items : List Value)
  | mapping (entries : List (String × Value))
  | span (l : Location)
  | node (n : Node)

/-- An expression: a tag, the kids behind it, and the lines of the source it came from. -/
structure Sexp where
  tag : Tag
  kids : List Value
  line : Json := .null
  maxLine : Json := .null

def Sexp.toValue (s : Sexp) : Value := .sexp s.tag s.kids s.line s.maxLine

namespace Value

@[match_pattern] abbrev nil : Value := .scalar .null

@[match_pattern] abbrev bool (b : Bool) : Value := .scalar (.bool b)

@[match_pattern] abbrev int (n : Int) : Value := .scalar (.int n)

@[match_pattern] abbrev text (s : String) : Value := .scalar (.text s)

/-- The symbol with a given name. -/
@[match_pattern] abbrev sym (name : String) : Value := .symbol (.text name)

def asSexp? : Value → Option Sexp
  | .sexp tag kids line maxLine => some ⟨tag, kids, line, maxLine⟩
  | _ => none

/-- Whether the value is an expression with one of the tags. -/
def isA (tags : List Tag) : Value → Bool
  | .sexp tag _ _ _ => tags.contains tag
  | _ => false

/-- The items of a value that can be taken apart. An expression starts with its tag. -/
def items : Value → Except Fault (List Value)
  | .list items | .tuple items => .ok items
  | .sexp tag kids _ _ => .ok (.sym tag.name :: kids)
  | _ => .error .wrongType

/-- Nothing, falsehood, zero and whatever is empty count as false. -/
def truthy : Value → Bool
  | .scalar s => s.truthy
  | .rational q => q.num != 0
  | .list items | .tuple items => !items.isEmpty
  | .mapping entries => !entries.isEmpty
  | _ => true

end Value

mutual

/-- JSON data as a value. -/
def Json.toValue : Json → Value
  | .scalar s => .scalar s
  | .array items => .list (Json.toValues items)
  | .object entries => .mapping (Json.toEntries entries)

def Json.toValues : List Json → List Value
  | [] => []
  | item :: rest => item.toValue :: Json.toValues rest

def Json.toEntries : List (String × Json) → List (String × Value)
  | [] => []
  | (key, data) :: rest => (key, data.toValue) :: Json.toEntries rest

end

mutual

/-- The content of a field as a value. -/
def Tree.toValue : Tree → Value
  | .scalar s => .scalar s
  | .tuple items => .tuple (Tree.toValues items)
  | .span l => .span l
  | .node kind location fields => .node ⟨kind, location, fields⟩

def Tree.toValues : List Tree → List Value
  | [] => []
  | item :: rest => item.toValue :: Tree.toValues rest

end

end RubySexp
