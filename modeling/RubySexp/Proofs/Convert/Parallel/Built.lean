import RubySexp.Proofs.Convert.Parallel.View

/-!
# What a Rule Makes

Most rules build an expression with a tag of their own, a list or a name. The others hand on the
conversion of one part, or make a handler or a string. A rule is described by this together with
how its results in two conversions compare: once it is known what every rule makes, the tags and the
lines of results follow.
-/

namespace RubySexp

/-- Whether a tag marks a clause or an element, and no expression. -/
def Tag.isClause : Tag → Bool
  | .resbody | .kwsplat | .kwrest => true
  | _ => false

def Tag.isOwn (tag : Tag) : Bool := tag != .str && !tag.isClause

/-- The field whose conversion can be that of a node of this kind. -/
def Kind.handedOn : Kind → Option Field
  | .programNode | .beginNode | .ensureNode | .elseNode => some .statements
  | .parenthesesNode | .blockNode => some .body
  | .blockParametersNode => some .parameters
  | .matchWriteNode => some .call
  | .shareableConstantNode => some .write
  | .pinnedVariableNode => some .variable
  | _ => none

/-- The field whose text a node of this kind is as a string. -/
def Kind.textField : Kind → Option Field
  | .stringNode => some .unescaped
  | .sourceFileNode => some .filepath
  | _ => none

/-- The conversion of a node can have the tag of the conversion of a part: of the one that its kind
hands on, or of a single statement. -/
inductive Node.HandsOn (n : Node) : Tree → Prop
  | field {field : Field} {part : Tree} (hfield : n.kind.handedOn = some field)
      (hpart : n.get field = .ok part) : HandsOn n part
  | statement {body part : Tree} (hkind : n.kind = .statementsNode)
      (hbody : n.get .body = .ok body) (hpart : body.elements = .ok [part]) : HandsOn n part

lemma Node.HandsOn.height_lt {n : Node} {part : Tree} (h : n.HandsOn part) :
    part.height < (Tree.ofNode n).height := by
  cases h with
  | field _ hpart => exact Tree.height_lt_of_node_get hpart
  | statement _ hbody hpart =>
    exact (Tree.height_le_of_elements hpart List.mem_cons_self).trans_lt
      (Tree.height_lt_of_node_get hbody)

namespace Convert

inductive Built (conv : Conversion) (scope : Scope) (n : Node) : Value → Prop
  | nil : Built conv scope n .nil
  | list (items : List Value) : Built conv scope n (.list items)
  | symbol (name : Tree) : Built conv scope n (.symbol name)
  | text (content : String) (line maxLine : Json) :
      Built conv scope n (.sexp .str [.text content] line maxLine)
  | own {tag : Tag} (h : tag.isOwn = true) (kids : List Value) (line maxLine : Json) :
      Built conv scope n (.sexp tag kids line maxLine)
  /-- The text of a field, whatever stands there. -/
  | field {field : Field} {tree : Tree} (hfield : n.kind.textField = some field)
      (hget : n.get field = .ok tree) (line maxLine : Json) :
      Built conv scope n (.sexp .str [tree.toValue] line maxLine)
  | handler (hkind : n.kind = .rescueNode) (kids : List Value) (line maxLine : Json) :
      Built conv scope n (.sexp .resbody kids line maxLine)
  | part {part : Tree} {v : Value} (h : n.HandsOn part) (hv : conv scope part = .ok v) :
      Built conv scope n v
  /-- Parameters with the names that only the block has. -/
  | extended {part : Tree} {parameters v : Value} {names : List Value} {line maxLine : Json}
      (h : n.HandsOn part) (hparameters : conv scope part = .ok parameters)
      (hv : extendParameters parameters [.sexp .shadow names line maxLine] = .ok v) :
      Built conv scope n v
  /-- A string is embedded as it is. -/
  | embedded {body : Tree} {v : Value} (hkind : n.kind = .embeddedStatementsNode)
      (hget : n.get .statements = .ok body) (hv : conv scope body = .ok v)
      (hstr : isStr v = true) : Built conv scope n v

/-- The outcomes of the rule of a node in two conversions: they are the same in a view, and the
result is of a form that a rule can make. -/
abbrev Makes (φ : View) (conv : Conversion) (scope : Scope) (n : Node) :
    Except Fault Value → Except Fault Value → Prop :=
  φ.Side fun v w => φ.Same v w ∧ Built conv scope n v

end Convert

end RubySexp
