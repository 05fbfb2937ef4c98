import RubySexp.Scalar

namespace RubySexp

/-!
# JSON Data

JSON data with what a dump needs of it: integers and floats stay apart, and an object keeps its
entries in the order in which they stand. Data is written in brackets and braces with quoted
texts, and compared by value: the order of an object's entries does not count.
-/

/-- JSON data. -/
inductive Json where
  | scalar (s : Scalar)
  | array (items : List Json)
  | object (entries : List (String × Json))

namespace Json

def null : Json := .scalar .null

def int (n : Int) : Json := .scalar (.int n)

/-- The value of a key. -/
def lookup? (key : String) (entries : List (String × Json)) : Option Json :=
  (entries.find? (·.1 == key)).map (·.2)

/-- Adds an entry behind the others; a key that is there keeps its place and takes the new
value. -/
def insert (key : String) (value : Json) : List (String × Json) → List (String × Json)
  | [] => [(key, value)]
  | (k, v) :: rest => if k == key then (k, value) :: rest else (k, v) :: insert key value rest

/-- The entries as an object keeps them: each key once, where it first stood, with the value
given last. -/
def ofEntries (entries : List (String × Json)) : Json :=
  .object (entries.foldl (fun kept (k, v) => insert k v kept) [])

/-- Joins the texts of the parts with a comma and a space. -/
def commaSeparated (parts : List (List Char)) : List Char := [',', ' '].intercalate parts

mutual

/-- The text of data; only a text that stands alone may be spelled out. -/
def render (style : Style) : Json → List Char
  | .scalar s => s.render style
  | .array items => '[' :: (commaSeparated (renderItems items) ++ [']'])
  | .object entries => '{' :: (commaSeparated (renderEntries entries) ++ ['}'])

def renderItems : List Json → List (List Char)
  | [] => []
  | item :: rest => render .data item :: renderItems rest

def renderEntries : List (String × Json) → List (List Char)
  | [] => []
  | (key, value) :: rest =>
    (Quoted.text key.toList ++ [':', ' '] ++ render .data value) :: renderEntries rest

end

mutual

/-- Equality by value. -/
def same : Json → Json → Bool
  | .scalar a, .scalar b => a.same b
  | .array a, .array b => sameItems a b
  | .object a, .object b => a.length == b.length && sameEntries a b
  | _, _ => false

def sameItems : List Json → List Json → Bool
  | [], [] => true
  | a :: as, b :: bs => same a b && sameItems as bs
  | _, _ => false

/-- Whether each entry of the first list is in the second. -/
def sameEntries : List (String × Json) → List (String × Json) → Bool
  | [], _ => true
  | (key, a) :: rest, others =>
    (match lookup? key others with
    | some b => same a b
    | none => false) && sameEntries rest others

end

end Json

end RubySexp
