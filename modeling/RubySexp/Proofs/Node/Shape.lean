import Mathlib.Tactic
import RubySexp.Node.Schema
import RubySexp.Convert.Basic

/-!
# Shapes of Trees

What the fields of each kind of node are meant to hold, and which kinds of nodes are meant to
stand in which places. A tree is typed if the fields hold data of their types. It is well placed
if also the nodes stand where the syntax of Ruby puts them. Beyond that it is strict if nothing is
missing or left empty that the syntax asks for, and assignable if exceptions are assigned to targets
only.
-/

namespace RubySexp

/-- The place of a node in the tree around it, as far as it decides which kinds may stand there. -/
inductive Role where
  /-- A whole tree. -/
  | root
  /-- Whatever converts to an expression of its own. -/
  | expression
  /-- The statements of a clause. -/
  | statements
  /-- The statements of the program, of which there may be none. -/
  | topLevel
  | arguments
  | block
  /-- What is declared between the bars of a block. -/
  | blockParameters
  | parameters
  /-- A positional parameter, or targets that take one apart. -/
  | positional
  /-- The rest among targets that take a parameter apart. -/
  | positionalRest
  | parameterName
  | optionalParameter
  | parameterRest
  | keyword
  | keywordRest
  | blockParameter
  | blockLocal
  /-- A handler in the chain of a body. -/
  | handler
  /-- What an exception is assigned to. -/
  | caught
  /-- What is done otherwise: the branch behind a condition. -/
  | otherwise
  /-- A clause of a choice. -/
  | clause
  /-- An element of a hash or of a pattern of one. -/
  | element
  /-- The value of a pair, which shorthand may leave out. -/
  | pairValue
  /-- The rest among the targets of an assignment. -/
  | targetRest
  /-- The rest in a pattern of a sequence. -/
  | patternRest
  /-- The rest in a pattern of a hash. -/
  | patternKeywordRest
  /-- A node that is only read for its name. -/
  | named
  | call
  | constantPath
  deriving DecidableEq, Repr

inductive Content where
  | text
  | optionalText
  /-- A text of at least one character. -/
  | name
  | integer
  /-- An integer that is not zero. -/
  | denominator
  | float
  | flag
  /-- A location, or nothing. -/
  | place
  | texts
  | one (role : Role)
  | optional (role : Role)
  | many (role : Role)
  /-- A sequence of nodes, at least one. -/
  | filled (role : Role)
  /-- Arguments, at least one. -/
  | given (role : Role)
  deriving DecidableEq, Repr

namespace Kind

/-- Kinds that are known to the parser but have no conversion anywhere. -/
def isUnsupported : Kind → Bool
  | .missingNode | .itLocalVariableReadNode | .itParametersNode => true
  | _ => false

/-- Whether a node of this kind converts to an expression of its own. The others are lists, names
or nothing, or are taken apart by the node around them. -/
def isExpression : Kind → Bool
  | .argumentsNode | .assocNode | .assocSplatNode | .blockNode | .blockLocalVariableNode
  | .blockParameterNode | .elseNode | .implicitNode | .implicitRestNode | .itParametersNode
  | .keywordRestParameterNode | .noKeywordsParameterNode | .numberedParametersNode | .programNode
  | .requiredParameterNode | .restParameterNode => false
  | _ => true

def isTarget : Kind → Bool
  | .callTargetNode | .classVariableTargetNode | .constantPathTargetNode | .constantTargetNode
  | .globalVariableTargetNode | .indexTargetNode | .instanceVariableTargetNode
  | .localVariableTargetNode => true
  | _ => false

end Kind

namespace Role

def splatted : Role → Role
  | .positional | .positionalRest | .parameterName => .parameterName
  | .patternRest => .named
  | _ => .expression

def target : Role → Role
  | .positional | .parameterName => .positional
  | _ => .expression

def rest : Role → Role
  | .positional | .parameterName => .positionalRest
  | _ => .targetRest

def spread : Role → Role
  | .patternKeywordRest => .named
  | _ => .expression

def body : Role → Content
  | .topLevel => .many .expression
  | _ => .filled .expression

end Role

namespace Kind

def regexpContents : List (Field × Content) :=
  [(.ignoreCase, .flag), (.extended, .flag), (.multiLine, .flag), (.ascii8bit, .flag),
    (.once, .flag)]

/-- What the fields of a node hold, in order. For a few kinds it depends on where the node
stands. -/
def contents (role : Role) : Kind → List (Field × Content)
  | .aliasGlobalVariableNode => [(.newName, .one .named), (.oldName, .one .named)]
  | .aliasMethodNode => [(.newName, .one .expression), (.oldName, .one .expression)]
  | .alternationPatternNode | .andNode | .orNode =>
    [(.left, .one .expression), (.right, .one .expression)]
  | .argumentsNode => [(.arguments, .given .expression)]
  | .arrayNode => [(.elements, .many .expression), (.openingLoc, .place)]
  | .arrayPatternNode =>
    [(.constant, .optional .expression), (.requireds, .many .expression),
      (.rest, .optional .patternRest), (.posts, .many .expression)]
  | .assocNode => [(.key, .one .expression), (.value, .optional .pairValue)]
  | .assocSplatNode => [(.value, .optional role.spread)]
  | .backReferenceReadNode => [(.name, .name)]
  | .beginNode =>
    [(.statements, .optional .expression), (.rescueClause, .optional .handler),
      (.elseClause, .optional .otherwise), (.ensureClause, .optional .expression)]
  | .blockArgumentNode => [(.expression, .optional .expression)]
  | .blockLocalVariableNode | .classVariableReadNode | .classVariableTargetNode
  | .constantReadNode | .constantTargetNode | .globalVariableReadNode | .globalVariableTargetNode
  | .instanceVariableReadNode | .instanceVariableTargetNode | .requiredKeywordParameterNode
  | .requiredParameterNode => [(.name, .text)]
  | .blockNode | .lambdaNode =>
    [(.locals, .texts), (.parameters, .optional .blockParameters), (.body, .optional .expression)]
  | .blockParameterNode | .keywordRestParameterNode | .restParameterNode =>
    [(.name, .optionalText)]
  | .blockParametersNode => [(.parameters, .optional .parameters), (.locals, .many .blockLocal)]
  | .breakNode | .nextNode | .returnNode | .yieldNode => [(.arguments, .optional .arguments)]
  | .callAndWriteNode | .callOrWriteNode =>
    [(.receiver, .optional .expression), (.readName, .text), (.writeName, .text),
      (.value, .one .expression), (.safeNavigation, .flag)]
  | .callNode =>
    [(.receiver, .optional .expression), (.name, .text), (.arguments, .optional .arguments),
      (.block, .optional .block), (.safeNavigation, .flag), (.variableCall, .flag)]
  | .callOperatorWriteNode =>
    [(.receiver, .optional .expression), (.readName, .text), (.writeName, .text),
      (.binaryOperator, .text), (.value, .one .expression), (.safeNavigation, .flag)]
  | .callTargetNode => [(.receiver, .one .expression), (.name, .text), (.safeNavigation, .flag)]
  | .capturePatternNode => [(.value, .one .expression), (.target, .one .named)]
  | .caseMatchNode | .caseNode =>
    [(.predicate, .optional .expression), (.conditions, .many .clause),
      (.elseClause, .optional .otherwise)]
  | .classNode =>
    [(.constantPath, .one .expression), (.superclass, .optional .expression),
      (.body, .optional .expression), (.locals, .texts)]
  | .classVariableAndWriteNode | .classVariableOrWriteNode | .classVariableWriteNode
  | .constantAndWriteNode | .constantOrWriteNode | .constantWriteNode
  | .globalVariableAndWriteNode | .globalVariableOrWriteNode | .globalVariableWriteNode
  | .instanceVariableAndWriteNode | .instanceVariableOrWriteNode | .instanceVariableWriteNode
  | .optionalKeywordParameterNode | .optionalParameterNode =>
    [(.name, .text), (.value, .one .expression)]
  | .classVariableOperatorWriteNode | .constantOperatorWriteNode
  | .globalVariableOperatorWriteNode | .instanceVariableOperatorWriteNode =>
    [(.name, .text), (.binaryOperator, .text), (.value, .one .expression)]
  | .constantPathAndWriteNode | .constantPathOrWriteNode | .constantPathWriteNode =>
    [(.target, .one .constantPath), (.value, .one .expression)]
  | .constantPathNode | .constantPathTargetNode =>
    [(.parent, .optional .expression), (.name, .text)]
  | .constantPathOperatorWriteNode =>
    [(.target, .one .constantPath), (.binaryOperator, .text), (.value, .one .expression)]
  | .defNode =>
    [(.name, .text), (.receiver, .optional .expression), (.parameters, .optional .parameters),
      (.body, .optional .expression), (.locals, .texts)]
  | .definedNode => [(.value, .one .expression)]
  | .elseNode | .embeddedStatementsNode | .ensureNode | .postExecutionNode | .preExecutionNode =>
    [(.statements, .optional .expression)]
  | .embeddedVariableNode | .pinnedVariableNode => [(.variable, .one .expression)]
  | .falseNode | .forwardingArgumentsNode | .forwardingParameterNode | .implicitRestNode
  | .itLocalVariableReadNode | .itParametersNode | .missingNode | .nilNode
  | .noKeywordsParameterNode | .redoNode | .retryNode | .selfNode | .sourceEncodingNode
  | .sourceLineNode | .trueNode => []
  | .findPatternNode =>
    [(.constant, .optional .expression), (.left, .one .patternRest),
      (.requireds, .many .expression), (.right, .one .patternRest)]
  | .flipFlopNode | .rangeNode =>
    [(.left, .optional .expression), (.right, .optional .expression), (.excludeEnd, .flag)]
  | .floatNode => [(.value, .float)]
  | .forNode =>
    [(.index, .one .expression), (.collection, .one .expression),
      (.statements, .optional .expression)]
  | .forwardingSuperNode => [(.block, .optional .block)]
  | .hashNode | .keywordHashNode => [(.elements, .many .element)]
  | .hashPatternNode =>
    [(.constant, .optional .expression), (.elements, .many .element),
      (.rest, .optional .patternKeywordRest)]
  | .ifNode =>
    [(.predicate, .one .expression), (.statements, .optional .expression),
      (.subsequent, .optional .otherwise)]
  | .imaginaryNode => [(.numeric, .one .expression)]
  | .implicitNode => [(.value, .optional .expression)]
  | .inNode => [(.pattern, .one .expression), (.statements, .optional .statements)]
  | .indexAndWriteNode | .indexOrWriteNode =>
    [(.receiver, .optional .expression), (.arguments, .optional .arguments),
      (.block, .optional .block), (.value, .one .expression), (.safeNavigation, .flag)]
  | .indexOperatorWriteNode =>
    [(.receiver, .optional .expression), (.arguments, .optional .arguments),
      (.block, .optional .block), (.binaryOperator, .text), (.value, .one .expression),
      (.safeNavigation, .flag)]
  | .indexTargetNode =>
    [(.receiver, .one .expression), (.arguments, .optional .arguments),
      (.block, .optional .block)]
  | .integerNode => [(.value, .integer)]
  | .interpolatedMatchLastLineNode | .interpolatedRegularExpressionNode =>
    regexpContents ++ [(.parts, .many .expression)]
  | .interpolatedStringNode | .interpolatedSymbolNode | .interpolatedXStringNode =>
    [(.parts, .many .expression)]
  | .localVariableAndWriteNode | .localVariableOrWriteNode | .localVariableWriteNode =>
    [(.name, .text), (.value, .one .expression), (.depth, .integer)]
  | .localVariableOperatorWriteNode =>
    [(.name, .text), (.binaryOperator, .text), (.value, .one .expression), (.depth, .integer)]
  | .localVariableReadNode | .localVariableTargetNode => [(.name, .text), (.depth, .integer)]
  | .matchLastLineNode | .regularExpressionNode => regexpContents ++ [(.unescaped, .text)]
  | .matchPredicateNode | .matchRequiredNode =>
    [(.value, .one .expression), (.pattern, .one .expression)]
  | .matchWriteNode => [(.call, .one .call), (.targets, .many .expression)]
  | .moduleNode =>
    [(.constantPath, .one .expression), (.body, .optional .expression), (.locals, .texts)]
  | .multiTargetNode =>
    [(.lefts, .many role.target), (.rest, .optional role.rest), (.rights, .many role.target)]
  | .multiWriteNode =>
    [(.lefts, .many .expression), (.rest, .optional .targetRest), (.rights, .many .expression),
      (.value, .one .expression)]
  | .numberedParametersNode => [(.maximum, .integer)]
  | .numberedReferenceReadNode => [(.number, .integer)]
  | .parametersNode =>
    [(.requireds, .many .positional), (.optionals, .many .optionalParameter),
      (.rest, .optional .parameterRest), (.posts, .many .positional),
      (.keywords, .many .keyword), (.keywordRest, .optional .keywordRest),
      (.block, .optional .blockParameter)]
  | .parenthesesNode => [(.body, .optional .expression)]
  | .pinnedExpressionNode => [(.expression, .one .expression)]
  | .programNode => [(.locals, .texts), (.statements, .one .topLevel)]
  | .rationalNode => [(.numerator, .integer), (.denominator, .denominator)]
  | .rescueModifierNode => [(.expression, .one .expression), (.rescueExpression, .one .expression)]
  | .rescueNode =>
    [(.exceptions, .many .expression), (.reference, .optional .caught),
      (.statements, .optional .statements), (.subsequent, .optional .handler)]
  | .shareableConstantNode => [(.write, .one .expression)]
  | .singletonClassNode =>
    [(.expression, .one .expression), (.body, .optional .expression), (.locals, .texts)]
  | .sourceFileNode => [(.filepath, .text)]
  | .splatNode => [(.expression, .optional role.splatted)]
  | .statementsNode => [(.body, role.body)]
  | .stringNode | .symbolNode | .xStringNode => [(.unescaped, .text)]
  | .superNode => [(.arguments, .optional .arguments), (.block, .optional .block)]
  | .undefNode => [(.names, .filled .expression)]
  | .unlessNode =>
    [(.predicate, .one .expression), (.statements, .optional .expression),
      (.elseClause, .optional .otherwise)]
  | .untilNode | .whileNode =>
    [(.predicate, .one .expression), (.statements, .optional .expression),
      (.beginModifier, .flag)]
  | .whenNode => [(.conditions, .many .expression), (.statements, .optional .statements)]

def isNamed (kind : Kind) : Bool :=
  (contents .root kind).any fun (field, content) =>
    field == .name && (content == .text || content == .name)

end Kind

/-- How much is asked of a tree besides the types of its fields. -/
structure Rigour where
  /-- The nodes stand in their places, and no body of statements is empty. -/
  placed : Bool
  /-- Nothing is left out that the syntax asks for. -/
  sound : Bool
  /-- An exception is assigned to nothing but a target. -/
  assigned : Bool
  deriving DecidableEq, Repr

namespace Rigour

/-- Only the types of the fields. -/
def typed : Rigour := ⟨false, false, false⟩

/-- Types and places. -/
def wellPlaced : Rigour := ⟨true, false, false⟩

/-- Types and places, and exceptions go to targets. -/
def assignable : Rigour := ⟨true, false, true⟩

/-- Types, places, and nothing left out. -/
def strict : Rigour := ⟨true, true, false⟩

variable (r : Rigour)

/-- Whether a node of a kind may stand for an expression. Where not all is asked for, so may one
that converts to nothing. -/
def takesExpression (kind : Kind) : Bool :=
  kind.isExpression ||
    !r.sound && [.implicitNode, .implicitRestNode, .programNode].contains kind

/-- Whether a node of a kind may stand in a place. Where not all is asked for, an expression may
stand for what is then only taken apart. -/
def takes (role : Role) (kind : Kind) : Bool :=
  match role with
  | .root => r.takesExpression kind || kind == .programNode
  | .expression => r.takesExpression kind
  | .statements | .topLevel => kind == .statementsNode || !r.sound && r.takesExpression kind
  | .arguments => kind == .argumentsNode || !r.sound && r.takesExpression kind
  | .block =>
    kind == .blockNode || kind == .blockArgumentNode || !r.sound && r.takesExpression kind
  | .blockParameters =>
    [.blockParametersNode, .numberedParametersNode, .itParametersNode].contains kind
  | .parameters => kind == .parametersNode
  | .positional => [.requiredParameterNode, .multiTargetNode, .splatNode].contains kind
  | .positionalRest => kind == .splatNode || kind == .implicitRestNode
  | .parameterName =>
    kind == .requiredParameterNode || !r.sound && [.multiTargetNode, .splatNode].contains kind
  | .optionalParameter => kind == .optionalParameterNode
  | .parameterRest => kind == .restParameterNode || kind == .implicitRestNode
  | .keyword => kind == .requiredKeywordParameterNode || kind == .optionalKeywordParameterNode
  | .keywordRest =>
    [.keywordRestParameterNode, .forwardingParameterNode, .noKeywordsParameterNode].contains kind
  | .blockParameter => kind == .blockParameterNode
  | .blockLocal => kind == .blockLocalVariableNode
  | .handler => kind == .rescueNode
  | .caught => if r.assigned then kind.isTarget else r.takesExpression kind
  | .otherwise => r.takesExpression kind || kind == .elseNode
  | .clause => kind == .whenNode || kind == .inNode
  | .element =>
    kind == .assocNode || kind == .assocSplatNode || !r.sound && r.takesExpression kind
  | .pairValue => r.takesExpression kind || kind == .implicitNode
  | .targetRest | .patternRest => r.takesExpression kind || kind == .implicitRestNode
  | .patternKeywordRest =>
    kind == .assocSplatNode || kind == .noKeywordsParameterNode ||
      !r.sound && (r.takesExpression kind || kind == .assocNode)
  | .named => kind.isNamed || !r.sound && r.takesExpression kind
  | .call => kind == .callNode
  | .constantPath => kind == .constantPathNode

def admits (role : Role) (kind : Kind) : Bool := !r.placed || r.takes role kind

end Rigour

namespace Content

def node? : Content → Option Role
  | .one role | .optional role => some role
  | _ => none

/-- What each item of a sequence is meant to be, if a sequence is meant. -/
def item? : Content → Option Content
  | .many role | .filled role | .given role => some (.one role)
  | .texts => some .text
  | _ => none

def mayBeEmpty (r : Rigour) : Content → Bool
  | .filled _ => !r.placed
  | .given _ => !r.sound
  | _ => true

/-- Whether a scalar is what is meant. A truth value counts as an integer and an integer as a
float. -/
def allows (r : Rigour) : Content → Scalar → Bool
  | .text, .text _ | .optionalText, .text _ | .optionalText, .null => true
  | .name, .text s => !r.sound || s != ""
  | .integer, .int _ | .integer, .bool _ => true
  | .denominator, .int n => !r.sound || n != 0
  | .denominator, .bool b => !r.sound || b
  | .float, .float _ | .float, .int _ | .float, .bool _ => true
  | .flag, .bool _ => true
  | .place, .null | .optional _, .null => true
  | _, _ => false

end Content

def Location.isNumbered : Option Location → Bool
  | some ⟨.scalar (.int _), _, .scalar (.int _), _⟩ => true
  | _ => false

/-- Whether a call matches a literal string or regular expression against nothing. -/
def Node.isBareMatch (n : Node) : Bool :=
  match n.kind, n.get? .name, n.get? .receiver, n.get? .arguments with
  | .callNode, some (.text "=~"), some receiver, some .null =>
    receiver.isA .stringNode || receiver.isA .regularExpressionNode
  | _, _, _, _ => false

namespace Tree

mutual

def holds (r : Rigour) (content : Content) : Tree → Bool
  | .scalar s => content.allows r s
  | .span _ => content == .place
  | .tuple items =>
    match content.item? with
    | some item => (content.mayBeEmpty r || !items.isEmpty) && holdsItems r item items
    | none => false
  | .node kind location fields =>
    match content.node? with
    | some role =>
      r.admits role kind && Location.isNumbered location &&
        !(r.sound && Node.isBareMatch ⟨kind, location, fields⟩) &&
        holdsFields r (kind.contents role) fields
    | none => false

def holdsItems (r : Rigour) (content : Content) : List Tree → Bool
  | [] => true
  | item :: rest => holds r content item && holdsItems r content rest

def holdsFields (r : Rigour) : List (Field × Content) → List (Field × Tree) → Bool
  | [], [] => true
  | (field, content) :: contents, (field', tree) :: rest =>
    field == field' && holds r content tree && holdsFields r contents rest
  | _, _ => false

end

/-- Whether a tree has the shape that is asked for in a place. -/
def fits (r : Rigour) (role : Role) (tree : Tree) : Bool := tree.holds r (.one role)

end Tree

/-! ### What is known of a tree that fits -/

lemma Location.eq_some_of_isNumbered {place : Option Location} (h : isNumbered place = true) :
    ∃ l first last, place = some l ∧ l.startLine = .scalar (.int first) ∧
      l.endLine = .scalar (.int last) := by
  unfold isNumbered at h
  split at h
  · exact ⟨_, _, _, rfl, rfl, rfl⟩
  · cases h

lemma Kind.contents_fields (role : Role) (kind : Kind) :
    (kind.contents role).map (·.1) = kind.slots.map (·.field) := by
  cases kind <;> rfl

lemma Kind.contents_eq_expression {role : Role} {kind : Kind}
    (hsplatted : role.splatted = .expression) (htarget : role.target = .expression)
    (hrest : role.rest = .targetRest) (hspread : role.spread = .expression)
    (hbody : role.body = .filled .expression ∨ kind ≠ .statementsNode) :
    kind.contents .expression = kind.contents role := by
  cases kind <;> first
    | rfl
    | (simp only [contents, hsplatted, htarget, hrest, hspread]; rfl)
    | (simp only [contents, hbody.resolve_right (not_not.mpr rfl)]; rfl)

lemma Kind.lookup_body (role : Role) {kind : Kind} (h : kind ≠ .statementsNode) :
    (kind.contents role).lookup .body = none ∨
      ∃ place, (kind.contents role).lookup .body = some (.optional place) := by
  cases kind <;> first | exact Or.inl rfl | exact Or.inr ⟨_, rfl⟩ | contradiction

namespace Tree

variable {r : Rigour} {content : Content} {field : Field}

lemma holdsItems_iff {items : List Tree} :
    holdsItems r content items = true ↔ ∀ item ∈ items, item.holds r content = true := by
  induction items with
  | nil => simp [holdsItems]
  | cons first rest ih => simp [holdsItems, ih]

lemma find?_of_holdsFields {contents : List (Field × Content)} {fields : List (Field × Tree)}
    (h : holdsFields r contents fields = true) (hc : contents.lookup field = some content) :
    ∃ tree, fields.find? (·.1 == field) = some (field, tree) ∧ tree.holds r content = true := by
  induction contents generalizing fields with
  | nil => cases hc
  | cons first contents ih =>
    obtain ⟨label, meant⟩ := first
    rcases fields with _ | ⟨⟨label', tree⟩, rest⟩
    · cases h
    · simp only [holdsFields, Bool.and_eq_true, beq_iff_eq] at h
      obtain ⟨⟨rfl, htree⟩, hrest⟩ := h
      rw [List.lookup_cons] at hc
      by_cases hlabel : field = label
      · subst hlabel
        simp only [BEq.rfl, Option.some.injEq] at hc
        exact ⟨tree, by simp, hc ▸ htree⟩
      · have hne : (field == label) = false := by simpa using hlabel
        rw [hne] at hc
        obtain ⟨found, hfind, hfound⟩ := ih hrest hc
        refine ⟨found, ?_, hfound⟩
        rw [List.find?_cons_of_neg (by simpa using Ne.symm hlabel), hfind]

lemma mem_of_holdsFields {contents : List (Field × Content)} {fields : List (Field × Tree)}
    {tree : Tree} (h : holdsFields r contents fields = true) (htree : (field, tree) ∈ fields) :
    ∃ content, (field, content) ∈ contents ∧ tree.holds r content = true := by
  induction contents generalizing fields with
  | nil => cases fields <;> simp_all [holdsFields]
  | cons first contents ih =>
    obtain ⟨label, meant⟩ := first
    rcases fields with _ | ⟨⟨label', tree'⟩, rest⟩
    · cases h
    · simp only [holdsFields, Bool.and_eq_true, beq_iff_eq] at h
      obtain ⟨⟨rfl, hfirst⟩, hrest⟩ := h
      rcases List.mem_cons.mp htree with heq | htree
      · cases heq
        exact ⟨meant, by simp, hfirst⟩
      · obtain ⟨found, hmem, hfound⟩ := ih hrest htree
        exact ⟨found, by simp [hmem], hfound⟩

lemma eq_singleton_of_holdsFields {fields : List (Field × Tree)}
    (h : holdsFields r [(field, content)] fields = true) :
    ∃ tree, fields = [(field, tree)] ∧ tree.holds r content = true := by
  rcases fields with _ | ⟨⟨label, tree⟩, _ | ⟨second, rest⟩⟩
  · cases h
  · simp only [holdsFields, Bool.and_eq_true, beq_iff_eq, and_true] at h
    obtain ⟨rfl, htree⟩ := h
    exact ⟨tree, rfl, htree⟩
  · simp [holdsFields] at h

variable {n : Node} {role : Role} {tree : Tree}

lemma fits_node : (ofNode n).fits r role = true ↔
    r.admits role n.kind = true ∧ Location.isNumbered n.location = true ∧
      ¬(r.sound = true ∧ n.isBareMatch = true) ∧
      holdsFields r (n.kind.contents role) n.fields = true := by
  have hnode : (ofNode n).fits r role = (r.admits role n.kind && Location.isNumbered n.location &&
      !(r.sound && n.isBareMatch) && holdsFields r (n.kind.contents role) n.fields) := by
    simp only [fits, ofNode, holds, Content.node?]
  rw [hnode]
  simp only [Bool.and_eq_true, Bool.not_eq_true', Bool.and_eq_false_iff, not_and,
    Bool.not_eq_true, and_assoc]
  grind

lemma fits_of_contents_eq {role' : Role} (h : (ofNode n).fits r role = true)
    (hadmits : r.admits role' n.kind = true)
    (hcontents : n.kind.contents role' = n.kind.contents role) :
    (ofNode n).fits r role' = true := by
  obtain ⟨-, hplace, hbare, hfields⟩ := fits_node.1 h
  exact fits_node.2 ⟨hadmits, hplace, hbare, hcontents ▸ hfields⟩

lemma exists_get_of_fits (h : (ofNode n).fits r role = true)
    (hc : (n.kind.contents role).lookup field = some content) :
    ∃ tree, n.get field = .ok tree ∧ tree.holds r content = true := by
  obtain ⟨tree, hfind, htree⟩ := find?_of_holdsFields (fits_node.1 h).2.2.2 hc
  refine ⟨tree, ?_, htree⟩
  simp [Node.get, Node.get?, hfind]

lemma get_error_of_fits (h : (ofNode n).fits r role = true)
    (hc : (n.kind.contents role).lookup field = none) : n.get field = .error .noSuchPart := by
  unfold Node.get
  split
  · next found hfound =>
    obtain ⟨⟨_, tree⟩, hfind, rfl⟩ := Option.map_eq_some_iff.mp hfound
    obtain ⟨content, hmem, -⟩ :=
      mem_of_holdsFields (fits_node.1 h).2.2.2 (List.mem_of_find?_eq_some hfind)
    have hfield := List.find?_some hfind
    simp only [beq_iff_eq] at hfield
    rw [List.lookup_eq_none_iff] at hc
    have hne := hc _ hmem
    simp [hfield] at hne
  · rfl

lemma holds_of_get (h : (ofNode n).fits r role = true) (hget : n.get field = .ok tree) :
    ∃ content, tree.holds r content = true := by
  unfold Node.get at hget
  split at hget
  · next found hfound =>
    cases hget
    obtain ⟨⟨_, tree⟩, hfind, rfl⟩ := Option.map_eq_some_iff.mp hfound
    obtain ⟨content, -, htree⟩ :=
      mem_of_holdsFields (fits_node.1 h).2.2.2 (List.mem_of_find?_eq_some hfind)
    exact ⟨content, htree⟩
  · cases hget

/-! ### Contents of each sort -/

lemma eq_text_of_holds (h : tree.holds r .text = true) : ∃ s, tree = .text s := by
  rcases tree with ⟨_ | _ | _ | _ | s⟩ | _ | _ | _
  case scalar.text => exact ⟨s, rfl⟩
  all_goals cases h

lemma eq_tuple_of_holds {item : Content} (h : tree.holds r content = true)
    (hitem : content.item? = some item) :
    ∃ items, tree = .tuple items ∧ (content.mayBeEmpty r = true ∨ items ≠ []) ∧
      ∀ part ∈ items, part.holds r item = true := by
  cases tree with
  | tuple items =>
    simp only [holds, hitem, Bool.and_eq_true, Bool.or_eq_true, holdsItems_iff] at h
    refine ⟨items, rfl, h.1.imp_right ?_, h.2⟩
    rintro hempty rfl
    cases hempty
  | scalar s => cases content <;> cases hitem <;> cases s <;> cases h
  | span l => cases content <;> cases hitem <;> cases h
  | node kind location fields => cases content <;> cases hitem <;> cases h

end Tree

end RubySexp
