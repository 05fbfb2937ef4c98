import RubySexp.Node.Tree

namespace RubySexp

/-!
# Schema

The fields that each kind of node declares, in order, and what stands in a field that a dump
leaves out. A field without such a default has to be given.
-/

/-- A declared field and its default, if it has one. -/
structure Slot where
  field : Field
  default : Option Tree

namespace Slot

def required (field : Field) : Slot := ⟨field, none⟩

def nullable (field : Field) : Slot := ⟨field, some .null⟩

def flag (field : Field) : Slot := ⟨field, some (.bool false)⟩

def sequence (field : Field) : Slot := ⟨field, some (.tuple [])⟩

end Slot

namespace Kind

/-- The option flags of every kind of regular expression. -/
def regexpFlags : List Slot :=
  [.flag .ignoreCase, .flag .extended, .flag .multiLine, .flag .ascii8bit, .flag .once]

/-- The fields that a kind declares. -/
def slots : Kind → List Slot
  | .aliasGlobalVariableNode | .aliasMethodNode => [.required .newName, .required .oldName]
  | .alternationPatternNode | .andNode | .orNode => [.required .left, .required .right]
  | .argumentsNode => [.sequence .arguments]
  | .arrayNode => [.sequence .elements, .nullable .openingLoc]
  | .arrayPatternNode =>
    [.nullable .constant, .sequence .requireds, .nullable .rest, .sequence .posts]
  | .assocNode => [.required .key, .nullable .value]
  | .assocSplatNode | .implicitNode => [.nullable .value]
  | .backReferenceReadNode | .blockLocalVariableNode | .classVariableReadNode
  | .classVariableTargetNode | .constantReadNode | .constantTargetNode
  | .globalVariableReadNode | .globalVariableTargetNode | .instanceVariableReadNode
  | .instanceVariableTargetNode | .requiredKeywordParameterNode | .requiredParameterNode =>
    [.required .name]
  | .beginNode =>
    [.nullable .statements, .nullable .rescueClause, .nullable .elseClause,
      .nullable .ensureClause]
  | .blockArgumentNode | .splatNode => [.nullable .expression]
  | .blockNode | .lambdaNode => [.sequence .locals, .nullable .parameters, .nullable .body]
  | .blockParameterNode | .keywordRestParameterNode | .restParameterNode => [.nullable .name]
  | .blockParametersNode => [.nullable .parameters, .sequence .locals]
  | .breakNode | .nextNode | .returnNode | .yieldNode => [.nullable .arguments]
  | .callAndWriteNode | .callOrWriteNode =>
    [.nullable .receiver, .required .readName, .required .writeName, .required .value,
      .flag .safeNavigation]
  | .callNode =>
    [.nullable .receiver, .required .name, .nullable .arguments, .nullable .block,
      .flag .safeNavigation, .flag .variableCall]
  | .callOperatorWriteNode =>
    [.nullable .receiver, .required .readName, .required .writeName,
      .required .binaryOperator, .required .value, .flag .safeNavigation]
  | .callTargetNode => [.required .receiver, .required .name, .flag .safeNavigation]
  | .capturePatternNode => [.required .value, .required .target]
  | .caseMatchNode | .caseNode =>
    [.nullable .predicate, .sequence .conditions, .nullable .elseClause]
  | .classNode =>
    [.required .constantPath, .nullable .superclass, .nullable .body, .sequence .locals]
  | .classVariableAndWriteNode | .classVariableOrWriteNode | .classVariableWriteNode
  | .constantAndWriteNode | .constantOrWriteNode | .constantWriteNode
  | .globalVariableAndWriteNode | .globalVariableOrWriteNode | .globalVariableWriteNode
  | .instanceVariableAndWriteNode | .instanceVariableOrWriteNode | .instanceVariableWriteNode
  | .optionalKeywordParameterNode | .optionalParameterNode =>
    [.required .name, .required .value]
  | .classVariableOperatorWriteNode | .constantOperatorWriteNode
  | .globalVariableOperatorWriteNode | .instanceVariableOperatorWriteNode =>
    [.required .name, .required .binaryOperator, .required .value]
  | .constantPathAndWriteNode | .constantPathOrWriteNode | .constantPathWriteNode =>
    [.required .target, .required .value]
  | .constantPathNode | .constantPathTargetNode => [.nullable .parent, .required .name]
  | .constantPathOperatorWriteNode =>
    [.required .target, .required .binaryOperator, .required .value]
  | .defNode =>
    [.required .name, .nullable .receiver, .nullable .parameters, .nullable .body,
      .sequence .locals]
  | .definedNode | .floatNode | .integerNode => [.required .value]
  | .elseNode | .embeddedStatementsNode | .ensureNode | .postExecutionNode
  | .preExecutionNode =>
    [.nullable .statements]
  | .embeddedVariableNode | .pinnedVariableNode => [.required .variable]
  | .falseNode | .forwardingArgumentsNode | .forwardingParameterNode | .implicitRestNode
  | .itLocalVariableReadNode | .itParametersNode | .missingNode | .nilNode
  | .noKeywordsParameterNode | .redoNode | .retryNode | .selfNode | .sourceEncodingNode
  | .sourceLineNode | .trueNode =>
    []
  | .findPatternNode =>
    [.nullable .constant, .required .left, .sequence .requireds, .required .right]
  | .flipFlopNode | .rangeNode => [.nullable .left, .nullable .right, .flag .excludeEnd]
  | .forNode => [.required .index, .required .collection, .nullable .statements]
  | .forwardingSuperNode => [.nullable .block]
  | .hashNode | .keywordHashNode => [.sequence .elements]
  | .hashPatternNode => [.nullable .constant, .sequence .elements, .nullable .rest]
  | .ifNode => [.required .predicate, .nullable .statements, .nullable .subsequent]
  | .imaginaryNode => [.required .numeric]
  | .inNode => [.required .pattern, .nullable .statements]
  | .indexAndWriteNode | .indexOrWriteNode =>
    [.nullable .receiver, .nullable .arguments, .nullable .block, .required .value,
      .flag .safeNavigation]
  | .indexOperatorWriteNode =>
    [.nullable .receiver, .nullable .arguments, .nullable .block, .required .binaryOperator,
      .required .value, .flag .safeNavigation]
  | .indexTargetNode => [.required .receiver, .nullable .arguments, .nullable .block]
  | .interpolatedMatchLastLineNode | .interpolatedRegularExpressionNode =>
    regexpFlags ++ [.sequence .parts]
  | .interpolatedStringNode | .interpolatedSymbolNode | .interpolatedXStringNode =>
    [.sequence .parts]
  | .localVariableAndWriteNode | .localVariableOrWriteNode | .localVariableWriteNode =>
    [.required .name, .required .value, ⟨.depth, some (.int 0)⟩]
  | .localVariableOperatorWriteNode =>
    [.required .name, .required .binaryOperator, .required .value, ⟨.depth, some (.int 0)⟩]
  | .localVariableReadNode | .localVariableTargetNode =>
    [.required .name, ⟨.depth, some (.int 0)⟩]
  | .matchLastLineNode | .regularExpressionNode => regexpFlags ++ [.required .unescaped]
  | .matchPredicateNode | .matchRequiredNode => [.required .value, .required .pattern]
  | .matchWriteNode => [.required .call, .sequence .targets]
  | .moduleNode => [.required .constantPath, .nullable .body, .sequence .locals]
  | .multiTargetNode => [.sequence .lefts, .nullable .rest, .sequence .rights]
  | .multiWriteNode => [.sequence .lefts, .nullable .rest, .sequence .rights, .required .value]
  | .numberedParametersNode => [.required .maximum]
  | .numberedReferenceReadNode => [.required .number]
  | .parametersNode =>
    [.sequence .requireds, .sequence .optionals, .nullable .rest, .sequence .posts,
      .sequence .keywords, .nullable .keywordRest, .nullable .block]
  | .parenthesesNode => [.nullable .body]
  | .pinnedExpressionNode => [.required .expression]
  | .programNode => [.sequence .locals, .required .statements]
  | .rationalNode => [.required .numerator, ⟨.denominator, some (.int 1)⟩]
  | .rescueModifierNode => [.required .expression, .required .rescueExpression]
  | .rescueNode =>
    [.sequence .exceptions, .nullable .reference, .nullable .statements, .nullable .subsequent]
  | .shareableConstantNode => [.required .write]
  | .singletonClassNode => [.required .expression, .nullable .body, .sequence .locals]
  | .sourceFileNode => [⟨.filepath, some (.text "")⟩]
  | .statementsNode => [.sequence .body]
  | .stringNode | .symbolNode | .xStringNode => [.required .unescaped]
  | .superNode => [.nullable .arguments, .nullable .block]
  | .undefNode => [.sequence .names]
  | .unlessNode => [.required .predicate, .nullable .statements, .nullable .elseClause]
  | .untilNode | .whileNode => [.required .predicate, .nullable .statements, .flag .beginModifier]
  | .whenNode => [.sequence .conditions, .nullable .statements]

end Kind

end RubySexp
