import RubySexp.Proofs.Convert.Parallel.Call
import RubySexp.Proofs.Convert.Parallel.Definition
import RubySexp.Proofs.Convert.Parallel.Interpolation
import RubySexp.Proofs.Convert.Parallel.Parameter
import RubySexp.Proofs.Convert.Parallel.Pattern
import RubySexp.Proofs.Convert.Parallel.Variable

/-!
# All Rules Side by Side

Every rule makes one of the few things that a rule can make, and keeps two conversions alike. What
holds of one step holds of conversions at every height.
-/

namespace RubySexp.Convert

/-- **What a rule makes**: the rule of a node keeps two conversions alike, if the tags of class
variables and the paths of source files are, and its result has one of the forms that a rule gives
to results. -/
theorem Parallel.rule_makes {φ : View} {g : Scope → Tree → Tree} {R : Scope → Scope → Prop}
    {Q : Tree → Prop} {conv conv' : Conversion} {s s' : Scope} {n n' : Node}
    (h : Parallel φ g R Q conv conv') (hs : R s s') (hn : Beside φ g Q s n n')
    (hrecast : g s (.ofNode n) = .ofNode n')
    (hclause : n.isClause = true → OpenClause g (.ofNode n))
    (hwrite : n.kind.writesClassVariable = true →
      φ.tag (Variable.classVar.writeTag s) = φ.tag (Variable.classVar.writeTag s'))
    (hfile : n.kind = .sourceFileNode → φ.Like (Convert.sourceFile s n)
      (Convert.sourceFile s' n')) :
    Makes φ conv s n (rule conv s n) (rule conv' s' n') := by
  rcases n with ⟨kind, location, fields⟩
  rcases n' with ⟨kind', location', fields'⟩
  obtain rfl : kind' = kind := hn.kind
  cases kind' with
  -- structure
  | programNode | elseNode | blockNode | matchWriteNode | pinnedVariableNode
  | shareableConstantNode => exact handOn h hs hn rfl rfl
  | statementsNode => exact block h hs hn hrecast rfl
  | parenthesesNode | ensureNode => exact orNil h hs hn rfl rfl
  | beginNode => exact beginBody h hs hn rfl
  | rescueNode =>
    exact rescueClause h hs hn hrecast rfl fun _ hget => hclause (Node.isClause_of_exceptions hget)
  | rescueModifierNode => exact rescueModifier h hs hn
  -- calls
  | callNode => exact call h hs hn rfl
  | argumentsNode =>
    exact (h.convertItems hs hn rfl).bind fun list list' _ hlist =>
      .ok ⟨View.same_list.mpr hlist, .list list⟩
  | blockArgumentNode => exact blockArgument h hs hn
  | blockParametersNode => exact blockParameters h hs hn rfl rfl
  | blockLocalVariableNode | requiredParameterNode => exact nameOf hn rfl
  | lambdaNode => exact lambda h hs hn rfl rfl
  | superNode => exact superCall h hs hn rfl
  | forwardingSuperNode => exact forwardingSuper h hs hn rfl
  | yieldNode => exact yieldCall h hs hn
  | callOrWriteNode | callAndWriteNode => exact callWrite h hs hn rfl (by simp)
  | callOperatorWriteNode =>
    exact (nameIn hn rfl).bind fun operator operator' _ hoperator => callWrite h hs hn rfl hoperator
  | indexOrWriteNode | indexAndWriteNode => exact indexWrite h hs hn rfl (by simp)
  | indexOperatorWriteNode =>
    exact (nameIn hn rfl).bind fun operator operator' _ hoperator =>
      indexWrite h hs hn rfl hoperator
  | callTargetNode => exact callTarget h hs hn
  | indexTargetNode => exact indexTarget h hs hn
  | definedNode | pinnedExpressionNode => exact unary h hs hn rfl rfl
  | andNode | orNode | alternationPatternNode | aliasMethodNode => exact binary h hs hn rfl rfl rfl
  -- literals
  | integerNode | floatNode | xStringNode | numberedReferenceReadNode =>
    exact dataLiteral hn rfl rfl
  | stringNode => exact string hn rfl
  | symbolNode =>
    exact (nameIn hn rfl).bind fun name name' _ hname => own hn rfl (by simpa using hname)
  | rationalNode => exact rational hn
  | imaginaryNode => exact imaginary h hs hn
  | regularExpressionNode => exact regexp hn
  | matchLastLineNode => exact matchLastLine hn
  | interpolatedStringNode | interpolatedXStringNode | interpolatedSymbolNode =>
    exact interpolated h hs hn _
  | interpolatedRegularExpressionNode => exact interpolatedRegexp h hs hn
  | interpolatedMatchLastLineNode => exact interpolatedMatch h hs hn
  | embeddedStatementsNode => exact embeddedStatements h hs hn rfl
  | embeddedVariableNode => exact embeddedVariable h hs hn
  | trueNode | falseNode | nilNode | selfNode | redoNode | retryNode | forwardingArgumentsNode
  | forwardingParameterNode => exact own hn rfl .nil
  | arrayNode =>
    exact (h.convertItems hs hn rfl).bind fun list list' _ hlist => own hn rfl hlist
  | hashNode | keywordHashNode =>
    exact (pairs h hs hn).bind fun list list' _ hlist => own hn rfl hlist
  | assocNode => exact assoc h hs hn rfl
  | assocSplatNode => exact assocSplat h hs hn rfl
  | implicitNode | implicitRestNode => exact .ok ⟨by simp, .nil⟩
  | noKeywordsParameterNode => exact .ok ⟨by simp, .symbol _⟩
  | rangeNode => exact range h hs hn
  | sourceFileNode => exact sourceFile rfl (hfile rfl)
  | sourceLineNode => exact sourceLine hn
  | sourceEncodingNode => exact sourceEncoding hn
  -- variables and constants
  | localVariableReadNode => exact localRead hn
  | instanceVariableReadNode | classVariableReadNode | globalVariableReadNode
  | constantReadNode | requiredKeywordParameterNode => exact named hn rfl rfl
  | localVariableWriteNode | instanceVariableWriteNode | globalVariableWriteNode
  | constantWriteNode => exact variableWrite h hs hn rfl rfl
  | localVariableOrWriteNode | instanceVariableOrWriteNode | globalVariableOrWriteNode
  | constantOrWriteNode | localVariableAndWriteNode | instanceVariableAndWriteNode
  | globalVariableAndWriteNode | constantAndWriteNode =>
    exact variableLogicWrite h hs hn rfl rfl rfl
  | localVariableOperatorWriteNode | instanceVariableOperatorWriteNode
  | globalVariableOperatorWriteNode | constantOperatorWriteNode =>
    exact variableOperatorWrite h hs hn rfl rfl
  | localVariableTargetNode | instanceVariableTargetNode | globalVariableTargetNode
  | constantTargetNode => exact named hn rfl rfl
  | classVariableWriteNode => exact variableWrite h hs hn rfl (hwrite rfl)
  | classVariableOrWriteNode | classVariableAndWriteNode =>
    exact variableLogicWrite h hs hn rfl rfl (hwrite rfl)
  | classVariableOperatorWriteNode => exact variableOperatorWrite h hs hn rfl (hwrite rfl)
  | classVariableTargetNode => exact named hn (Variable.isOwn_writeTag _ s) (hwrite rfl)
  | backReferenceReadNode => exact backReference hn
  | constantPathNode => exact constantPath h hs hn
  | constantPathWriteNode => exact constantPathWrite h hs hn rfl
  | constantPathOrWriteNode | constantPathAndWriteNode =>
    exact constantPathLogicWrite h hs hn rfl rfl
  | constantPathOperatorWriteNode => exact constantPathOperatorWrite h hs hn rfl
  | constantPathTargetNode =>
    exact (constantPath h hs hn).bind fun v v' _ hv => own hn rfl (by simpa using hv.1)
  -- multiple assignment
  | multiWriteNode => exact multiWrite h hs hn rfl rfl
  | multiTargetNode => exact multiTarget h hs hn rfl
  | splatNode => exact splat h hs hn
  -- control flow
  | ifNode | unlessNode => exact conditional h hs hn rfl rfl
  | whileNode | untilNode => exact loop h hs hn rfl
  | forNode => exact forLoop h hs hn
  | caseNode | caseMatchNode => exact caseOf h hs hn
  | whenNode => exact whenClause h hs hn (hclause rfl)
  | returnNode | breakNode | nextNode => exact jump h hs hn rfl
  | flipFlopNode => exact flipFlop h hs hn
  | preExecutionNode | postExecutionNode => exact execution h hs hn _
  -- definitions
  | defNode => exact method h hs hn rfl
  | parametersNode => exact parameters h hs hn rfl
  | optionalParameterNode => exact optionalParameter h hs hn rfl
  | restParameterNode | keywordRestParameterNode | blockParameterNode => exact restParameter hn _
  | optionalKeywordParameterNode => exact optionalKeyword h hs hn rfl
  | classNode => exact classDefinition h hs hn rfl
  | moduleNode => exact moduleDefinition h hs hn rfl
  | singletonClassNode => exact singletonClass h hs hn rfl
  | aliasGlobalVariableNode => exact aliasGlobal h hn
  | undefNode => exact undefine h hs hn
  -- patterns
  | inNode => exact inClause h hs hn (hclause rfl)
  | matchPredicateNode | matchRequiredNode => exact patternMatch h hs hn rfl
  | arrayPatternNode => exact arrayPattern h hs hn rfl rfl rfl
  | findPatternNode => exact findPattern h hs hn rfl
  | hashPatternNode => exact hashPattern h hs hn rfl
  | capturePatternNode => exact capturePattern h hs hn rfl
  -- kinds without a conversion
  | missingNode | itLocalVariableReadNode | itParametersNode | numberedParametersNode =>
    obtain rfl : location' = location := hn.location
    exact .error _

/-! ### Whole conversions side by side -/

/-- The conversion of trees and one of their recasts begin alike and take steps that are alike. The
other conversion may change the scope when it comes to a node. -/
structure SideBySide (φ : View) (g : Scope → Tree → Tree) (R : Scope → Scope → Prop)
    (P : Tree → Prop) (enter : Scope → Node → Scope) (other : Nat → Conversion) : Prop
    extends Recast g where
  inParameters : ∀ {s s'}, R s s' → s'.inParameters = s.inParameters
  below : ∀ {s s'}, R s s' → ∀ kind field, R (scopeBelow kind field s) (scopeBelow kind field s')
  held : ∀ {tree field part}, P tree → tree.get field = .ok part → part.Held P
  clause : ∀ {n : Node}, P (.ofNode n) → n.isClause = true → OpenClause g (.ofNode n)
  place : ∀ {tree l}, P tree → tree.location? = some l → φ.place l
  leaf : ∀ k s {tree : Tree}, tree.asNode? = none → other k s tree = leaf tree
  step : ∀ k s n, other (k + 1) s (.ofNode n) = rule (other k) (enter s n) n
  entered : ∀ {s s'} n, R s s' → R s (enter s' n)
  write : ∀ {s s' n n'}, R s s' → g s (.ofNode n) = .ofNode n' →
    n.kind.writesClassVariable = true →
    φ.tag (Variable.classVar.writeTag s) = φ.tag (Variable.classVar.writeTag (enter s' n'))
  file : ∀ {s s' n n'}, P (.ofNode n) → R s s' → g s (.ofNode n) = .ofNode n' →
    n.kind = .sourceFileNode →
    φ.Like (sourceFile s n) (sourceFile (enter s' n') n')

lemma eq_nil_of_leaf {tree : Tree} {v : Value} (h : leaf tree = .ok v) : v = .nil := by
  unfold leaf at h
  split at h
  · cases h
    rfl
  · cases h

lemma Recast.leaf_eq {g : Scope → Tree → Tree} (h : Recast g) (scope : Scope) {tree : Tree}
    (htree : tree.asNode? = none) : leaf (g scope tree) = leaf tree := by
  cases tree with
  | scalar s => rw [h.scalar]
  | span l => rw [h.span]
  | tuple items =>
    rw [h.tuple]
    rfl
  | node kind location fields => cases htree

/-- **Conversions that take their steps alike stay alike**, at every height. -/
theorem SideBySide.parallel {φ : View} {g : Scope → Tree → Tree} {R : Scope → Scope → Prop}
    {P : Tree → Prop} {enter : Scope → Node → Scope} {other : Nat → Conversion}
    (h : SideBySide φ g R P enter other) (k : Nat) :
    Parallel φ g R (fun tree => tree.height ≤ k ∧ P tree) (convertAt k) (other k) := by
  -- All but the last condition holds at every height.
  have hat : ∀ k, (∀ {s s' tree}, R s s' → tree.height ≤ k ∧ P tree →
        φ.Like (convertAt k s tree) (other k s' (g s tree))) →
      Parallel φ g R (fun tree => tree.height ≤ k ∧ P tree) (convertAt k) (other k) := by
    intro k hconv
    refine ⟨h.toRecast, h.inParameters, h.below, ?_, ?_, fun ht => h.place ht.2, hconv⟩
    · rintro tree field part ⟨hheight, htree⟩ hget
      exact (h.held htree hget).upTo ((Tree.height_lt_of_get hget).le.trans hheight)
    · rintro tree exceptions ⟨-, htree⟩ hexceptions
      cases tree with
      | node kind location fields =>
        exact h.clause (n := ⟨kind, location, fields⟩) htree
          (Node.isClause_of_exceptions hexceptions)
      | _ => cases hexceptions
  have hleaf : ∀ k s s' {tree : Tree}, tree.asNode? = none →
      φ.Like (convertAt k s tree) (other k s' (g s tree)) := by
    intro k s s' tree htree
    rw [convertAt_leaf htree, h.leaf k s' (h.asNode?_none s htree), h.leaf_eq s htree]
    refine .of_eq rfl fun v hv => ?_
    rw [eq_nil_of_leaf hv]
    simp
  induction k with
  | zero =>
    refine hat 0 ?_
    rintro s s' tree - ⟨hheight, -⟩
    refine hleaf 0 s s' ?_
    cases tree with
    | node kind location fields => simp [Tree.height] at hheight
    | _ => rfl
  | succ k ih =>
    refine hat (k + 1) ?_
    rintro s s' tree hs ⟨hheight, htree⟩
    rcases hnode : tree.asNode? with _ | n
    · exact hleaf (k + 1) s s' hnode
    · obtain rfl := Tree.eq_ofNode hnode
      obtain ⟨n', heq, hkind, hlocation, hdata, hpart⟩ := h.node s n
      have hheld : ∀ {field part}, n.get field = .ok part →
          part.Held fun tree => tree.height ≤ k ∧ P tree := by
        intro field part hget
        have hget' : (Tree.ofNode n).get field = .ok part := hget
        have hlt := (Tree.height_lt_of_node_get hget).trans_le hheight
        exact (h.held htree hget').upTo (Nat.le_of_lt_succ hlt)
      have hbeside : Beside φ g (fun tree => tree.height ≤ k ∧ P tree) s n n' :=
        ⟨hkind, hlocation, hdata _, hpart, hheld, fun _ => h.place htree⟩
      rw [heq, h.step]
      exact (ih.rule_makes (h.entered n' hs) hbeside heq (h.clause htree) (h.write hs heq)
        (h.file htree hs heq)).mono fun _ _ _ => And.left

end RubySexp.Convert
