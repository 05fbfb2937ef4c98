namespace RubySexp

/-!
# Node Kinds

The kinds of nodes in a dumped syntax tree, in the order of their names.
-/

/-- The kind of a syntax tree node. -/
inductive Kind where
  | aliasGlobalVariableNode
  | aliasMethodNode
  | alternationPatternNode
  | andNode
  | argumentsNode
  | arrayNode
  | arrayPatternNode
  | assocNode
  | assocSplatNode
  | backReferenceReadNode
  | beginNode
  | blockArgumentNode
  | blockLocalVariableNode
  | blockNode
  | blockParameterNode
  | blockParametersNode
  | breakNode
  | callAndWriteNode
  | callNode
  | callOperatorWriteNode
  | callOrWriteNode
  | callTargetNode
  | capturePatternNode
  | caseMatchNode
  | caseNode
  | classNode
  | classVariableAndWriteNode
  | classVariableOperatorWriteNode
  | classVariableOrWriteNode
  | classVariableReadNode
  | classVariableTargetNode
  | classVariableWriteNode
  | constantAndWriteNode
  | constantOperatorWriteNode
  | constantOrWriteNode
  | constantPathAndWriteNode
  | constantPathNode
  | constantPathOperatorWriteNode
  | constantPathOrWriteNode
  | constantPathTargetNode
  | constantPathWriteNode
  | constantReadNode
  | constantTargetNode
  | constantWriteNode
  | defNode
  | definedNode
  | elseNode
  | embeddedStatementsNode
  | embeddedVariableNode
  | ensureNode
  | falseNode
  | findPatternNode
  | flipFlopNode
  | floatNode
  | forNode
  | forwardingArgumentsNode
  | forwardingParameterNode
  | forwardingSuperNode
  | globalVariableAndWriteNode
  | globalVariableOperatorWriteNode
  | globalVariableOrWriteNode
  | globalVariableReadNode
  | globalVariableTargetNode
  | globalVariableWriteNode
  | hashNode
  | hashPatternNode
  | ifNode
  | imaginaryNode
  | implicitNode
  | implicitRestNode
  | inNode
  | indexAndWriteNode
  | indexOperatorWriteNode
  | indexOrWriteNode
  | indexTargetNode
  | instanceVariableAndWriteNode
  | instanceVariableOperatorWriteNode
  | instanceVariableOrWriteNode
  | instanceVariableReadNode
  | instanceVariableTargetNode
  | instanceVariableWriteNode
  | integerNode
  | interpolatedMatchLastLineNode
  | interpolatedRegularExpressionNode
  | interpolatedStringNode
  | interpolatedSymbolNode
  | interpolatedXStringNode
  | itLocalVariableReadNode
  | itParametersNode
  | keywordHashNode
  | keywordRestParameterNode
  | lambdaNode
  | localVariableAndWriteNode
  | localVariableOperatorWriteNode
  | localVariableOrWriteNode
  | localVariableReadNode
  | localVariableTargetNode
  | localVariableWriteNode
  | matchLastLineNode
  | matchPredicateNode
  | matchRequiredNode
  | matchWriteNode
  | missingNode
  | moduleNode
  | multiTargetNode
  | multiWriteNode
  | nextNode
  | nilNode
  | noKeywordsParameterNode
  | numberedParametersNode
  | numberedReferenceReadNode
  | optionalKeywordParameterNode
  | optionalParameterNode
  | orNode
  | parametersNode
  | parenthesesNode
  | pinnedExpressionNode
  | pinnedVariableNode
  | postExecutionNode
  | preExecutionNode
  | programNode
  | rangeNode
  | rationalNode
  | redoNode
  | regularExpressionNode
  | requiredKeywordParameterNode
  | requiredParameterNode
  | rescueModifierNode
  | rescueNode
  | restParameterNode
  | retryNode
  | returnNode
  | selfNode
  | shareableConstantNode
  | singletonClassNode
  | sourceEncodingNode
  | sourceFileNode
  | sourceLineNode
  | splatNode
  | statementsNode
  | stringNode
  | superNode
  | symbolNode
  | trueNode
  | undefNode
  | unlessNode
  | untilNode
  | whenNode
  | whileNode
  | xStringNode
  | yieldNode
  deriving DecidableEq, Repr

namespace Kind

/-- The name under which a dump knows a kind. -/
def name : Kind → String
  | .aliasGlobalVariableNode => "AliasGlobalVariableNode"
  | .aliasMethodNode => "AliasMethodNode"
  | .alternationPatternNode => "AlternationPatternNode"
  | .andNode => "AndNode"
  | .argumentsNode => "ArgumentsNode"
  | .arrayNode => "ArrayNode"
  | .arrayPatternNode => "ArrayPatternNode"
  | .assocNode => "AssocNode"
  | .assocSplatNode => "AssocSplatNode"
  | .backReferenceReadNode => "BackReferenceReadNode"
  | .beginNode => "BeginNode"
  | .blockArgumentNode => "BlockArgumentNode"
  | .blockLocalVariableNode => "BlockLocalVariableNode"
  | .blockNode => "BlockNode"
  | .blockParameterNode => "BlockParameterNode"
  | .blockParametersNode => "BlockParametersNode"
  | .breakNode => "BreakNode"
  | .callAndWriteNode => "CallAndWriteNode"
  | .callNode => "CallNode"
  | .callOperatorWriteNode => "CallOperatorWriteNode"
  | .callOrWriteNode => "CallOrWriteNode"
  | .callTargetNode => "CallTargetNode"
  | .capturePatternNode => "CapturePatternNode"
  | .caseMatchNode => "CaseMatchNode"
  | .caseNode => "CaseNode"
  | .classNode => "ClassNode"
  | .classVariableAndWriteNode => "ClassVariableAndWriteNode"
  | .classVariableOperatorWriteNode => "ClassVariableOperatorWriteNode"
  | .classVariableOrWriteNode => "ClassVariableOrWriteNode"
  | .classVariableReadNode => "ClassVariableReadNode"
  | .classVariableTargetNode => "ClassVariableTargetNode"
  | .classVariableWriteNode => "ClassVariableWriteNode"
  | .constantAndWriteNode => "ConstantAndWriteNode"
  | .constantOperatorWriteNode => "ConstantOperatorWriteNode"
  | .constantOrWriteNode => "ConstantOrWriteNode"
  | .constantPathAndWriteNode => "ConstantPathAndWriteNode"
  | .constantPathNode => "ConstantPathNode"
  | .constantPathOperatorWriteNode => "ConstantPathOperatorWriteNode"
  | .constantPathOrWriteNode => "ConstantPathOrWriteNode"
  | .constantPathTargetNode => "ConstantPathTargetNode"
  | .constantPathWriteNode => "ConstantPathWriteNode"
  | .constantReadNode => "ConstantReadNode"
  | .constantTargetNode => "ConstantTargetNode"
  | .constantWriteNode => "ConstantWriteNode"
  | .defNode => "DefNode"
  | .definedNode => "DefinedNode"
  | .elseNode => "ElseNode"
  | .embeddedStatementsNode => "EmbeddedStatementsNode"
  | .embeddedVariableNode => "EmbeddedVariableNode"
  | .ensureNode => "EnsureNode"
  | .falseNode => "FalseNode"
  | .findPatternNode => "FindPatternNode"
  | .flipFlopNode => "FlipFlopNode"
  | .floatNode => "FloatNode"
  | .forNode => "ForNode"
  | .forwardingArgumentsNode => "ForwardingArgumentsNode"
  | .forwardingParameterNode => "ForwardingParameterNode"
  | .forwardingSuperNode => "ForwardingSuperNode"
  | .globalVariableAndWriteNode => "GlobalVariableAndWriteNode"
  | .globalVariableOperatorWriteNode => "GlobalVariableOperatorWriteNode"
  | .globalVariableOrWriteNode => "GlobalVariableOrWriteNode"
  | .globalVariableReadNode => "GlobalVariableReadNode"
  | .globalVariableTargetNode => "GlobalVariableTargetNode"
  | .globalVariableWriteNode => "GlobalVariableWriteNode"
  | .hashNode => "HashNode"
  | .hashPatternNode => "HashPatternNode"
  | .ifNode => "IfNode"
  | .imaginaryNode => "ImaginaryNode"
  | .implicitNode => "ImplicitNode"
  | .implicitRestNode => "ImplicitRestNode"
  | .inNode => "InNode"
  | .indexAndWriteNode => "IndexAndWriteNode"
  | .indexOperatorWriteNode => "IndexOperatorWriteNode"
  | .indexOrWriteNode => "IndexOrWriteNode"
  | .indexTargetNode => "IndexTargetNode"
  | .instanceVariableAndWriteNode => "InstanceVariableAndWriteNode"
  | .instanceVariableOperatorWriteNode => "InstanceVariableOperatorWriteNode"
  | .instanceVariableOrWriteNode => "InstanceVariableOrWriteNode"
  | .instanceVariableReadNode => "InstanceVariableReadNode"
  | .instanceVariableTargetNode => "InstanceVariableTargetNode"
  | .instanceVariableWriteNode => "InstanceVariableWriteNode"
  | .integerNode => "IntegerNode"
  | .interpolatedMatchLastLineNode => "InterpolatedMatchLastLineNode"
  | .interpolatedRegularExpressionNode => "InterpolatedRegularExpressionNode"
  | .interpolatedStringNode => "InterpolatedStringNode"
  | .interpolatedSymbolNode => "InterpolatedSymbolNode"
  | .interpolatedXStringNode => "InterpolatedXStringNode"
  | .itLocalVariableReadNode => "ItLocalVariableReadNode"
  | .itParametersNode => "ItParametersNode"
  | .keywordHashNode => "KeywordHashNode"
  | .keywordRestParameterNode => "KeywordRestParameterNode"
  | .lambdaNode => "LambdaNode"
  | .localVariableAndWriteNode => "LocalVariableAndWriteNode"
  | .localVariableOperatorWriteNode => "LocalVariableOperatorWriteNode"
  | .localVariableOrWriteNode => "LocalVariableOrWriteNode"
  | .localVariableReadNode => "LocalVariableReadNode"
  | .localVariableTargetNode => "LocalVariableTargetNode"
  | .localVariableWriteNode => "LocalVariableWriteNode"
  | .matchLastLineNode => "MatchLastLineNode"
  | .matchPredicateNode => "MatchPredicateNode"
  | .matchRequiredNode => "MatchRequiredNode"
  | .matchWriteNode => "MatchWriteNode"
  | .missingNode => "MissingNode"
  | .moduleNode => "ModuleNode"
  | .multiTargetNode => "MultiTargetNode"
  | .multiWriteNode => "MultiWriteNode"
  | .nextNode => "NextNode"
  | .nilNode => "NilNode"
  | .noKeywordsParameterNode => "NoKeywordsParameterNode"
  | .numberedParametersNode => "NumberedParametersNode"
  | .numberedReferenceReadNode => "NumberedReferenceReadNode"
  | .optionalKeywordParameterNode => "OptionalKeywordParameterNode"
  | .optionalParameterNode => "OptionalParameterNode"
  | .orNode => "OrNode"
  | .parametersNode => "ParametersNode"
  | .parenthesesNode => "ParenthesesNode"
  | .pinnedExpressionNode => "PinnedExpressionNode"
  | .pinnedVariableNode => "PinnedVariableNode"
  | .postExecutionNode => "PostExecutionNode"
  | .preExecutionNode => "PreExecutionNode"
  | .programNode => "ProgramNode"
  | .rangeNode => "RangeNode"
  | .rationalNode => "RationalNode"
  | .redoNode => "RedoNode"
  | .regularExpressionNode => "RegularExpressionNode"
  | .requiredKeywordParameterNode => "RequiredKeywordParameterNode"
  | .requiredParameterNode => "RequiredParameterNode"
  | .rescueModifierNode => "RescueModifierNode"
  | .rescueNode => "RescueNode"
  | .restParameterNode => "RestParameterNode"
  | .retryNode => "RetryNode"
  | .returnNode => "ReturnNode"
  | .selfNode => "SelfNode"
  | .shareableConstantNode => "ShareableConstantNode"
  | .singletonClassNode => "SingletonClassNode"
  | .sourceEncodingNode => "SourceEncodingNode"
  | .sourceFileNode => "SourceFileNode"
  | .sourceLineNode => "SourceLineNode"
  | .splatNode => "SplatNode"
  | .statementsNode => "StatementsNode"
  | .stringNode => "StringNode"
  | .superNode => "SuperNode"
  | .symbolNode => "SymbolNode"
  | .trueNode => "TrueNode"
  | .undefNode => "UndefNode"
  | .unlessNode => "UnlessNode"
  | .untilNode => "UntilNode"
  | .whenNode => "WhenNode"
  | .whileNode => "WhileNode"
  | .xStringNode => "XStringNode"
  | .yieldNode => "YieldNode"

/-- Every kind, in the order of their names. -/
def all : List Kind := [
  .aliasGlobalVariableNode, .aliasMethodNode, .alternationPatternNode, .andNode, .argumentsNode,
  .arrayNode, .arrayPatternNode, .assocNode, .assocSplatNode, .backReferenceReadNode,
  .beginNode, .blockArgumentNode, .blockLocalVariableNode, .blockNode, .blockParameterNode,
  .blockParametersNode, .breakNode, .callAndWriteNode, .callNode, .callOperatorWriteNode,
  .callOrWriteNode, .callTargetNode, .capturePatternNode, .caseMatchNode, .caseNode, .classNode,
  .classVariableAndWriteNode, .classVariableOperatorWriteNode, .classVariableOrWriteNode,
  .classVariableReadNode, .classVariableTargetNode, .classVariableWriteNode,
  .constantAndWriteNode, .constantOperatorWriteNode, .constantOrWriteNode,
  .constantPathAndWriteNode, .constantPathNode, .constantPathOperatorWriteNode,
  .constantPathOrWriteNode, .constantPathTargetNode, .constantPathWriteNode, .constantReadNode,
  .constantTargetNode, .constantWriteNode, .defNode, .definedNode, .elseNode,
  .embeddedStatementsNode, .embeddedVariableNode, .ensureNode, .falseNode, .findPatternNode,
  .flipFlopNode, .floatNode, .forNode, .forwardingArgumentsNode, .forwardingParameterNode,
  .forwardingSuperNode, .globalVariableAndWriteNode, .globalVariableOperatorWriteNode,
  .globalVariableOrWriteNode, .globalVariableReadNode, .globalVariableTargetNode,
  .globalVariableWriteNode, .hashNode, .hashPatternNode, .ifNode, .imaginaryNode, .implicitNode,
  .implicitRestNode, .inNode, .indexAndWriteNode, .indexOperatorWriteNode, .indexOrWriteNode,
  .indexTargetNode, .instanceVariableAndWriteNode, .instanceVariableOperatorWriteNode,
  .instanceVariableOrWriteNode, .instanceVariableReadNode, .instanceVariableTargetNode,
  .instanceVariableWriteNode, .integerNode, .interpolatedMatchLastLineNode,
  .interpolatedRegularExpressionNode, .interpolatedStringNode, .interpolatedSymbolNode,
  .interpolatedXStringNode, .itLocalVariableReadNode, .itParametersNode, .keywordHashNode,
  .keywordRestParameterNode, .lambdaNode, .localVariableAndWriteNode,
  .localVariableOperatorWriteNode, .localVariableOrWriteNode, .localVariableReadNode,
  .localVariableTargetNode, .localVariableWriteNode, .matchLastLineNode, .matchPredicateNode,
  .matchRequiredNode, .matchWriteNode, .missingNode, .moduleNode, .multiTargetNode,
  .multiWriteNode, .nextNode, .nilNode, .noKeywordsParameterNode, .numberedParametersNode,
  .numberedReferenceReadNode, .optionalKeywordParameterNode, .optionalParameterNode, .orNode,
  .parametersNode, .parenthesesNode, .pinnedExpressionNode, .pinnedVariableNode,
  .postExecutionNode, .preExecutionNode, .programNode, .rangeNode, .rationalNode, .redoNode,
  .regularExpressionNode, .requiredKeywordParameterNode, .requiredParameterNode,
  .rescueModifierNode, .rescueNode, .restParameterNode, .retryNode, .returnNode, .selfNode,
  .shareableConstantNode, .singletonClassNode, .sourceEncodingNode, .sourceFileNode,
  .sourceLineNode, .splatNode, .statementsNode, .stringNode, .superNode, .symbolNode, .trueNode,
  .undefNode, .unlessNode, .untilNode, .whenNode, .whileNode, .xStringNode, .yieldNode]

/-- The kind with a given name. -/
def ofName? (name : String) : Option Kind := all.find? (·.name == name)

end Kind

end RubySexp
