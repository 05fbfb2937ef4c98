import RubySexp.Proofs.Convert.Census.Call
import RubySexp.Proofs.Convert.Census.Literal
import RubySexp.Proofs.Convert.Census.Target

/-!
# The Rules Keep the Count

Rule by rule: a node is converted to a value that holds as many of a construct as the parts of the
node that were converted for it, and one more if the node is one itself.
-/

namespace RubySexp.Convert.Census

open Value (Kept KeptAll Yielded)

variable {c : Construct} {conv : Conversion} {s : Scope} {n : Node} {v : Value} {k k' : Nat}

lemma yielded_of_kept (h : Kept c v k) (hk : k = k') : Yielded c false v k' := hk ▸ h

lemma rule_yielded (h : Setting c conv s .ordinary n) (hv : rule conv s n = .ok v) :
    Yielded c n.kind.isList v
      (c.ofKind n.kind + n.shares c s.inParameters .ordinary (n.kind.slots.map Slot.field)) := by
  -- The shares of a kind that counts for nothing itself follow a zero.
  have hzero : ∀ k, k = 0 + k := fun k => (Nat.zero_add k).symm
  obtain ⟨kind, location, fields⟩ := n
  cases kind with
  -- Structure
  | programNode | elseNode | blockNode | matchWriteNode | shareableConstantNode
  | pinnedVariableNode => exact yielded_of_kept (h.convertField rfl hv) (hzero _)
  | statementsNode => exact yielded_of_kept (h.block rfl hv) (hzero _)
  | parenthesesNode | ensureNode => exact yielded_of_kept (h.orNil rfl hv) (hzero _)
  | beginNode => exact yielded_of_kept (h.beginBody rfl rfl rfl rfl hv) (hzero _)
  | rescueNode => exact yielded_of_kept (h.handler rfl rfl rfl hv) rfl
  | rescueModifierNode => exact yielded_of_kept (h.rescueModifier rfl rfl hv) rfl
  -- Calls
  | callNode => exact yielded_of_kept (h.call rfl hv) (hzero _)
  | argumentsNode =>
    obtain ⟨vs, hvs, hv⟩ := exists_ok_of_bind hv
    cases hv
    exact ⟨vs, rfl, (h.convertItems rfl hvs).cast (hzero _)⟩
  | blockArgumentNode => exact yielded_of_kept (h.blockArgument rfl hv) rfl
  | blockParametersNode => exact yielded_of_kept (h.blockParameters rfl rfl hv) (hzero _)
  | lambdaNode => exact yielded_of_kept (h.lambda rfl rfl hv) rfl
  | superNode => exact yielded_of_kept (h.superCall rfl rfl hv) rfl
  | forwardingSuperNode => exact yielded_of_kept (h.forwardingSuper rfl hv) rfl
  | yieldNode => exact yielded_of_kept (h.yieldCall rfl hv) rfl
  | callOrWriteNode | callAndWriteNode =>
    exact yielded_of_kept (h.callWrite rfl rfl (.symbol _) hv) (hzero _)
  | callOperatorWriteNode =>
    obtain ⟨operator, hoperator, hv⟩ := exists_ok_of_bind hv
    exact yielded_of_kept (h.callWrite rfl rfl (kept_nameIn hoperator) hv) (hzero _)
  | indexOrWriteNode | indexAndWriteNode =>
    exact yielded_of_kept (h.indexWrite rfl rfl rfl (.symbol _) hv) (hzero _)
  | indexOperatorWriteNode =>
    obtain ⟨operator, hoperator, hv⟩ := exists_ok_of_bind hv
    exact yielded_of_kept (h.indexWrite rfl rfl rfl (kept_nameIn hoperator) hv) (hzero _)
  | callTargetNode => exact yielded_of_kept (h.callTarget rfl hv) (hzero _)
  | indexTargetNode => exact yielded_of_kept (h.indexTarget rfl rfl hv) (hzero _)
  | definedNode | pinnedExpressionNode => exact yielded_of_kept (h.unary rfl rfl hv) rfl
  | andNode | orNode | alternationPatternNode | aliasMethodNode =>
    exact yielded_of_kept (h.binary rfl rfl rfl hv) rfl
  -- Literals
  | integerNode | floatNode | stringNode | xStringNode | numberedReferenceReadNode =>
    exact yielded_of_kept (kept_content hv) rfl
  | rationalNode => exact yielded_of_kept (kept_rational hv) rfl
  | imaginaryNode => exact yielded_of_kept (h.imaginary rfl rfl hv) (hzero _)
  | symbolNode =>
    obtain ⟨name, hname, hv⟩ := exists_ok_of_bind hv
    exact yielded_of_kept (kept_build_data (KeptAll.single (kept_nameIn hname)).tally hv) rfl
  | regularExpressionNode => exact yielded_of_kept (kept_regexp hv) rfl
  | matchLastLineNode => exact yielded_of_kept (kept_matchLastLine hv) rfl
  | interpolatedStringNode | interpolatedXStringNode | interpolatedSymbolNode =>
    exact yielded_of_kept (h.interpolated rfl hv) (hzero _)
  | interpolatedRegularExpressionNode =>
    exact yielded_of_kept (h.interpolatedRegexp rfl hv) (hzero _)
  | interpolatedMatchLastLineNode =>
    exact yielded_of_kept (h.interpolatedMatch rfl hv) (hzero _)
  | embeddedStatementsNode => exact yielded_of_kept (h.embeddedStatements rfl hv) (hzero _)
  | embeddedVariableNode => exact yielded_of_kept (h.embeddedVariable rfl hv) (hzero _)
  | trueNode | falseNode | nilNode | selfNode | redoNode | retryNode | forwardingArgumentsNode
  | forwardingParameterNode => exact yielded_of_kept (kept_build_data rfl hv) rfl
  | arrayNode =>
    obtain ⟨vs, hvs, hv⟩ := exists_ok_of_bind hv
    exact yielded_of_kept (kept_build rfl (h.convertItems rfl hvs).tally hv) rfl
  | hashNode | keywordHashNode =>
    obtain ⟨vs, hvs, hv⟩ := exists_ok_of_bind hv
    exact yielded_of_kept (kept_build rfl (h.pairs rfl hvs).tally hv) rfl
  | assocNode =>
    obtain ⟨vs, rfl, hvs⟩ := h.assoc rfl rfl hv
    exact ⟨vs, rfl, hvs.cast (hzero _)⟩
  | assocSplatNode =>
    obtain ⟨vs, rfl, hvs⟩ := h.assocSplat rfl hv
    exact ⟨vs, rfl, hvs.cast (hzero _)⟩
  | implicitNode | implicitRestNode =>
    cases hv
    exact yielded_of_kept (.scalar .null) rfl
  | rangeNode => exact yielded_of_kept (h.range rfl rfl hv) (hzero _)
  | sourceFileNode => exact yielded_of_kept (kept_sourceFile hv) rfl
  | sourceLineNode => exact yielded_of_kept (kept_sourceLine hv) rfl
  | sourceEncodingNode => exact yielded_of_kept (kept_sourceEncoding hv) rfl
  -- Variables and constants
  | localVariableReadNode => exact yielded_of_kept (kept_localRead hv) rfl
  | backReferenceReadNode => exact yielded_of_kept (kept_backReference hv) rfl
  | localVariableWriteNode | instanceVariableWriteNode | classVariableWriteNode
  | globalVariableWriteNode | constantWriteNode =>
    exact yielded_of_kept (h.variableWrite rfl hv) (hzero _)
  | localVariableOrWriteNode | localVariableAndWriteNode | instanceVariableOrWriteNode
  | instanceVariableAndWriteNode | classVariableOrWriteNode | classVariableAndWriteNode
  | globalVariableOrWriteNode | globalVariableAndWriteNode | constantOrWriteNode
  | constantAndWriteNode => exact yielded_of_kept (h.variableLogicWrite rfl rfl hv) rfl
  | localVariableOperatorWriteNode | instanceVariableOperatorWriteNode
  | classVariableOperatorWriteNode | globalVariableOperatorWriteNode | constantOperatorWriteNode =>
    exact yielded_of_kept (h.variableOperatorWrite rfl hv) (hzero _)
  | localVariableTargetNode | instanceVariableTargetNode | classVariableTargetNode
  | globalVariableTargetNode | constantTargetNode =>
    exact yielded_of_kept (kept_named hv) (ofTag_writeTag _ s)
  | instanceVariableReadNode | classVariableReadNode | globalVariableReadNode | constantReadNode
  | requiredKeywordParameterNode => exact yielded_of_kept (kept_named hv) rfl
  | constantPathNode => exact yielded_of_kept (h.constantPath rfl hv) (hzero _)
  | constantPathWriteNode => exact yielded_of_kept (h.constantPathWrite rfl rfl hv) rfl
  | constantPathOrWriteNode | constantPathAndWriteNode =>
    exact yielded_of_kept (h.constantPathLogicWrite rfl rfl rfl hv) rfl
  | constantPathOperatorWriteNode =>
    exact yielded_of_kept (h.constantPathOperatorWrite rfl rfl hv) rfl
  | constantPathTargetNode =>
    obtain ⟨path, hpath, hv⟩ := exists_ok_of_bind hv
    exact yielded_of_kept (kept_build rfl (KeptAll.single (h.constantPath rfl hpath)).tally hv) rfl
  -- Multiple assignment
  | multiWriteNode => exact yielded_of_kept (h.multiWrite rfl rfl rfl rfl hv) rfl
  | multiTargetNode => exact yielded_of_kept (h.multiTarget rfl rfl rfl hv) rfl
  | splatNode => exact yielded_of_kept (h.splat rfl hv) (hzero _)
  -- Control flow
  | ifNode => exact yielded_of_kept (h.conditional rfl rfl rfl hv) rfl
  | unlessNode =>
    refine yielded_of_kept (h.conditional rfl rfl rfl hv) ?_
    rw [Nat.add_comm (share c s .ordinary ⟨.unlessNode, location, fields⟩ .elseClause)]
    rfl
  | whileNode | untilNode => exact yielded_of_kept (h.loop rfl rfl rfl hv) rfl
  | forNode => exact yielded_of_kept (h.forLoop rfl rfl rfl hv) rfl
  | caseNode | caseMatchNode => exact yielded_of_kept (h.caseOf rfl rfl rfl hv) rfl
  | whenNode => exact yielded_of_kept (h.whenClause rfl rfl hv) rfl
  | returnNode | breakNode | nextNode => exact yielded_of_kept (h.jump rfl rfl hv) rfl
  | flipFlopNode => exact yielded_of_kept (h.flipFlop rfl rfl hv) rfl
  | preExecutionNode | postExecutionNode => exact yielded_of_kept (h.execution rfl hv) rfl
  -- Definitions
  | defNode => exact yielded_of_kept (h.method rfl rfl rfl hv) rfl
  | parametersNode =>
    exact yielded_of_kept (h.parameters rfl rfl rfl rfl rfl rfl rfl hv) (hzero _)
  | requiredParameterNode | blockLocalVariableNode => exact yielded_of_kept (kept_nameIn hv) rfl
  | optionalParameterNode => exact yielded_of_kept (h.optionalParameter rfl hv) (hzero _)
  | restParameterNode | keywordRestParameterNode | blockParameterNode =>
    exact yielded_of_kept (kept_restParameter hv) rfl
  | noKeywordsParameterNode =>
    cases hv
    exact yielded_of_kept (.symbol _) rfl
  | optionalKeywordParameterNode => exact yielded_of_kept (h.optionalKeyword rfl hv) (hzero _)
  | classNode => exact yielded_of_kept (h.classDefinition rfl rfl rfl hv) rfl
  | moduleNode => exact yielded_of_kept (h.moduleDefinition rfl rfl hv) rfl
  | singletonClassNode => exact yielded_of_kept (h.singletonClass rfl rfl hv) rfl
  | aliasGlobalVariableNode => exact yielded_of_kept (h.aliasGlobal rfl rfl hv) rfl
  | undefNode => exact yielded_of_kept (h.undefine rfl hv) (hzero _)
  -- Patterns
  | inNode => exact yielded_of_kept (h.inClause rfl rfl hv) rfl
  | matchPredicateNode | matchRequiredNode =>
    exact yielded_of_kept (h.patternMatch rfl rfl hv) rfl
  | arrayPatternNode =>
    rw [Node.shares_eq_sum]
    exact yielded_of_kept (h.arrayPattern rfl rfl rfl rfl hv) rfl
  | findPatternNode =>
    rw [Node.shares_eq_sum]
    exact yielded_of_kept (h.findPattern rfl rfl rfl rfl hv) rfl
  | hashPatternNode => exact yielded_of_kept (h.hashPattern rfl rfl rfl hv) rfl
  | capturePatternNode => exact yielded_of_kept (h.capturePattern rfl rfl hv) (hzero _)
  -- Kinds without a conversion
  | missingNode | itLocalVariableReadNode | itParametersNode | numberedParametersNode => cases hv

end RubySexp.Convert.Census
