import RubySexp.Location
import RubySexp.Node.Field
import RubySexp.Node.Kind

namespace RubySexp

/-!
# Trees

The content of a node's field: a scalar, a sequence, a location or a node. Nothing ties the
content to the field it stands in, so every function on trees says what it does with content
that does not fit.
-/

/-- The content of a field, or a whole loaded tree. -/
inductive Tree where
  | scalar (s : Scalar)
  | tuple (items : List Tree)
  | span (l : Location)
  | node (kind : Kind) (location : Option Location) (fields : List (Field × Tree))

/-- A node: its kind, its location if the dump gives one, and its fields in declared order. -/
structure Node where
  kind : Kind
  location : Option Location
  fields : List (Field × Tree)

namespace Tree

@[match_pattern] abbrev null : Tree := .scalar .null

@[match_pattern] abbrev bool (b : Bool) : Tree := .scalar (.bool b)

@[match_pattern] abbrev int (n : Int) : Tree := .scalar (.int n)

@[match_pattern] abbrev text (s : String) : Tree := .scalar (.text s)

def ofNode (n : Node) : Tree := .node n.kind n.location n.fields

def asNode? : Tree → Option Node
  | .node kind location fields => some ⟨kind, location, fields⟩
  | _ => none

/-- Whether the tree is a node of a kind. -/
def isA (kind : Kind) : Tree → Bool
  | .node k _ _ => k == kind
  | _ => false

def isNull : Tree → Bool
  | .null => true
  | _ => false

/-- The word for the type of a tree in messages: the kind of a node. -/
def typeName : Tree → String
  | .scalar s => s.typeName
  | .tuple _ => "tuple"
  | .span _ => "Location"
  | .node kind _ _ => kind.name

/-- The location of a node. -/
def location? : Tree → Option Location
  | .node _ location _ => location
  | _ => none

/-- Scalars count as false as scalars do, and so does the empty sequence. -/
def truthy : Tree → Bool
  | .scalar s => s.truthy
  | .tuple items => !items.isEmpty
  | .span _ | .node .. => true

/-- A location that may be missing. -/
def ofLocation? : Option Location → Tree
  | some l => .span l
  | none => .null

/-- The text of a location that may be missing. -/
def locationText : Option Location → List Char
  | some l => l.render
  | none => Scalar.null.render .data

/-- Items in round brackets; a lone item is followed by a comma. -/
def bracketed : List (List Char) → List Char
  | [item] => '(' :: (item ++ [',', ')'])
  | items => '(' :: (Json.commaSeparated items ++ [')'])

mutual

/-- The text of a tree; only a text that stands alone may be spelled out. -/
def render (style : Style) : Tree → List Char
  | .scalar s => s.render style
  | .tuple items => bracketed (renderItems items)
  | .span l => l.render
  | .node kind location fields =>
    let place := "location=".toList ++ locationText location
    kind.name.toList ++ '(' :: (Json.commaSeparated (place :: renderFields fields) ++ [')'])

def renderItems : List Tree → List (List Char)
  | [] => []
  | item :: rest => render .data item :: renderItems rest

def renderFields : List (Field × Tree) → List (List Char)
  | [] => []
  | (field, tree) :: rest =>
    (field.label.toList ++ '=' :: render .data tree) :: renderFields rest

end

mutual

/-- Equality by value. -/
def same : Tree → Tree → Bool
  | .scalar a, .scalar b => a.same b
  | .tuple a, .tuple b => sameItems a b
  | .span a, .span b => a.same b
  | .node k l fs, .node k' l' fs' =>
    k == k' && sameLocation l l' && sameFields fs fs'
  | _, _ => false

def sameItems : List Tree → List Tree → Bool
  | [], [] => true
  | a :: as, b :: bs => same a b && sameItems as bs
  | _, _ => false

def sameFields : List (Field × Tree) → List (Field × Tree) → Bool
  | [], [] => true
  | (f, a) :: as, (g, b) :: bs => f == g && same a b && sameFields as bs
  | _, _ => false

def sameLocation : Option Location → Option Location → Bool
  | none, none => true
  | some a, some b => a.same b
  | _, _ => false

end

mutual

/-- How many nodes stand below each other at most. -/
def height : Tree → Nat
  | .scalar _ | .span _ => 0
  | .tuple items => heightItems items
  | .node _ _ fields => heightFields fields + 1

def heightItems : List Tree → Nat
  | [] => 0
  | item :: rest => max (height item) (heightItems rest)

def heightFields : List (Field × Tree) → Nat
  | [] => 0
  | (_, tree) :: rest => max (height tree) (heightFields rest)

end

end Tree

namespace Node

/-- The content of a field. -/
def get? (n : Node) (field : Field) : Option Tree :=
  (n.fields.find? (·.1 == field)).map (·.2)

end Node

end RubySexp
