import RubySexp.Fault
import RubySexp.Json.Reader
import RubySexp.Node.Schema

namespace RubySexp

/-!
# Loading a Dump

A dumped node is an object whose `type` names the kind and whose other keys are fields. Keys
that the kind does not declare are skipped, and the skips are recorded in the order in which
they happen, up to the point where loading fails. Arrays become sequences, `location` and the
fields that hold places become locations, and a field left out takes its default.
-/

/-- Why data is not a dumped tree. -/
inductive LoadError where
  | notJson (e : Json.TextError)
  /-- An object that does not name its kind. -/
  | noKind (keys : List String)
  | unknownKind (word : Scalar)
  /-- A kind that is named by an array or an object. -/
  | compoundKind
  | badLocation (data : Json)
  | missingFields (kind : Kind) (fields : List Field)

/-- A key that was skipped because its kind does not declare it. -/
structure Skip where
  kind : Kind
  key : String
  deriving DecidableEq, Repr

def Skip.message (s : Skip) : String := "Skipping " ++ s.kind.name ++ "." ++ s.key

namespace LoadError

/-- Inserts a text into texts in ascending order. -/
def insertSorted (s : String) : List String → List String
  | [] => [s]
  | t :: rest => if t < s then t :: insertSorted s rest else s :: t :: rest

def sorted (texts : List String) : List String := texts.foldr insertSorted []

/-- Quoted names as an enumeration: `'a'`, `'a' and 'b'`, `'a', 'b', and 'c'`. -/
def enumeration (names : List String) : String :=
  let quoted := names.map fun name => "'" ++ name ++ "'"
  match quoted with
  | [] => ""
  | [a] => a
  | [a, b] => a ++ " and " ++ b
  | _ => ", ".intercalate quoted.dropLast ++ ", and " ++ quoted.getLast?.getD ""

def message : LoadError → String
  | .notJson e => "Invalid JSON: " ++ e.message
  | .noKind keys =>
    let data := Json.array ((sorted keys).map fun key => .scalar (.text key))
    "Node mapping has no 'type' key: " ++ String.ofList (data.render .data)
  | .unknownKind word => "Unknown node kind: " ++ String.ofList (word.render .spelled)
  | .compoundKind => "The kind of a node is not a word"
  | .badLocation data => "Invalid location: " ++ String.ofList (data.render .spelled)
  | .missingFields kind fields =>
    let count := toString fields.length
    let noun := if fields.length = 1 then "argument" else "arguments"
    "Invalid " ++ kind.name ++ ": " ++ kind.name ++ ".__init__() missing " ++ count ++
      " required keyword-only " ++ noun ++ ": " ++ enumeration (fields.map Field.label)

/-- The fault behind an error that is not reported as an error of the dump: a kind that is an array
or an object is not even looked up. -/
def fault? : LoadError → Option Fault
  | .compoundKind => some .wrongType
  | _ => none

end LoadError

/-- A load in progress: the keys skipped so far, and the result. -/
structure Loading (α : Type) where
  skipped : List Skip
  result : Except LoadError α

namespace Loading

def fail {α : Type} (e : LoadError) : Loading α := ⟨[], .error e⟩

def skip (kind : Kind) (key : String) : Loading Unit := ⟨[⟨kind, key⟩], .ok ()⟩

/-- Skips add up; a failure ends the load. -/
protected def bind {α β : Type} (m : Loading α) (f : α → Loading β) : Loading β :=
  match m.result with
  | .ok a =>
    let next := f a
    ⟨m.skipped ++ next.skipped, next.result⟩
  | .error e => ⟨m.skipped, .error e⟩

instance : Monad Loading where
  pure a := ⟨[], .ok a⟩
  bind := Loading.bind

end Loading

/-- A part of a node as the dump gives it. -/
inductive Part where
  | location (l : Option Location)
  | field (field : Field) (tree : Tree)

namespace Part

def location? : Part → Option (Option Location)
  | .location l => some l
  | .field .. => none

def content? (field : Field) : Part → Option Tree
  | .field f tree => if f == field then some tree else none
  | .location _ => none

end Part

namespace Tree

/-- The kind that an object names. -/
def kindOf (entries : List (String × Json)) : Except LoadError Kind :=
  match Json.lookup? "type" entries with
  | none | some (.scalar .null) => .error (.noKind (entries.map (·.1)))
  | some (.scalar (.text name)) =>
    match Kind.ofName? name with
    | some kind => .ok kind
    | none => .error (.unknownKind (.text name))
  | some (.scalar word) => .error (.unknownKind word)
  | some (.array _) | some (.object _) => .error .compoundKind

/-- The declared field with a given label. -/
def fieldOf? (kind : Kind) (key : String) : Option Field :=
  (kind.slots.find? (·.field.label == key)).map (·.field)

/-- The location that data states; nothing states that there is none. -/
def loadLocation : Json → Loading (Option Location)
  | .scalar .null => pure none
  | data =>
    match Location.ofJson? data with
    | some l => pure (some l)
    | none => .fail (.badLocation data)

/-- Puts the parts of a node into declared order and fills in defaults. -/
def assemble (kind : Kind) (parts : List Part) : Except LoadError Tree :=
  let content (slot : Slot) : Option Tree :=
    (parts.findSome? (·.content? slot.field)).or slot.default
  let missing := kind.slots.filter fun slot => (content slot).isNone
  if missing.isEmpty then
    let location := (parts.findSome? Part.location?).getD (some {})
    .ok (.node kind location (kind.slots.filterMap fun slot => (content slot).map (slot.field, ·)))
  else .error (.missingFields kind (missing.map (·.field)))

mutual

/-- Loads a tree from JSON data. -/
def load : Json → Loading Tree
  | .scalar s => pure (.scalar s)
  | .array items => do return .tuple (← loadItems items)
  | .object entries =>
    match kindOf entries with
    | .error e => .fail e
    | .ok kind => do
      let parts ← loadParts kind entries
      ⟨[], assemble kind parts⟩

def loadItems : List Json → Loading (List Tree)
  | [] => pure []
  | item :: rest => do
    let tree ← load item
    return tree :: (← loadItems rest)

def loadParts (kind : Kind) : List (String × Json) → Loading (List Part)
  | [] => pure []
  | (key, data) :: rest =>
    if key == "type" then loadParts kind rest
    else if key == "location" then do
      let location ← loadLocation data
      return .location location :: (← loadParts kind rest)
    else
      match fieldOf? kind key with
      | none => do
        Loading.skip kind key
        loadParts kind rest
      | some field => do
        let tree ← if field.isLocation then ofLocation? <$> loadLocation data else load data
        return .field field tree :: (← loadParts kind rest)

end

/-- Loads a tree from JSON text. -/
def loadText (text : String) : Loading Tree :=
  match Json.read text with
  | .ok data => load data
  | .error e => .fail (.notJson e)

end Tree

end RubySexp
