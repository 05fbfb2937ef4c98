import RubySexp.Convert.Call
import RubySexp.Convert.Control
import RubySexp.Convert.Definition
import RubySexp.Convert.Interpolation
import RubySexp.Convert.Parameter
import RubySexp.Convert.Pattern

namespace RubySexp.Convert

/-!
# The Rule of Each Kind

Which rule converts a node is decided by its kind alone. A few kinds have no rule.
-/

/-- The fault of content that has no conversion. -/
def unsupported (tree : Tree) (reason : Option String) : Fault :=
  .unsupported tree.typeName tree.location? reason

/-- The conversion of a node, by the conversion of the trees below it. -/
def rule (conv : Conversion) (scope : Scope) (n : Node) : Except Fault Value :=
  match n.kind with
  -- Structure
  | .programNode => convertField conv scope n .statements
  | .statementsNode => block conv scope (.ofNode n)
  | .parenthesesNode => orNil conv scope n .body
  | .beginNode => beginBody conv scope n
  | .rescueNode => handler conv scope (.ofNode n)
  | .rescueModifierNode => rescueModifier conv scope n
  | .ensureNode => orNil conv scope n .statements
  | .elseNode => convertField conv scope n .statements
  -- Calls
  | .callNode => call conv scope n
  | .argumentsNode => do return .list (← convertItems conv scope n .arguments)
  | .blockArgumentNode => blockArgument conv scope n
  | .blockNode => convertField conv scope n .body
  | .blockParametersNode => blockParameters conv scope n
  | .blockLocalVariableNode => nameIn n .name
  | .lambdaNode => lambda conv scope n
  | .superNode => superCall conv scope n
  | .forwardingSuperNode => forwardingSuper conv scope n
  | .forwardingArgumentsNode | .forwardingParameterNode => build n.location .forwardArgs []
  | .yieldNode => yieldCall conv scope n
  | .callOrWriteNode => callWrite conv scope n (.sym "||")
  | .callAndWriteNode => callWrite conv scope n (.sym "&&")
  | .callOperatorWriteNode => do callWrite conv scope n (← nameIn n .binaryOperator)
  | .indexOrWriteNode => indexWrite conv scope n (.sym "||")
  | .indexAndWriteNode => indexWrite conv scope n (.sym "&&")
  | .indexOperatorWriteNode => do indexWrite conv scope n (← nameIn n .binaryOperator)
  | .callTargetNode => callTarget conv scope n
  | .indexTargetNode => indexTarget conv scope n
  | .matchWriteNode => convertField conv scope n .call
  | .definedNode => unary conv scope n .definedTest .value
  | .andNode => binary conv scope n .and .left .right
  | .orNode => binary conv scope n .or .left .right
  -- Literals
  | .integerNode | .floatNode => do build n.location .lit [(← n.get .value).toValue]
  | .rationalNode => rational n
  | .imaginaryNode => imaginary conv scope n
  | .stringNode => do build n.location .str [(← n.get .unescaped).toValue]
  | .xStringNode => do build n.location .xstr [(← n.get .unescaped).toValue]
  | .symbolNode => do build n.location .lit [← nameIn n .unescaped]
  | .regularExpressionNode => regexp n
  | .matchLastLineNode => matchLastLine n
  | .interpolatedStringNode => interpolated conv scope n .string
  | .interpolatedXStringNode => interpolated conv scope n .command
  | .interpolatedSymbolNode => interpolated conv scope n .symbol
  | .interpolatedRegularExpressionNode => interpolatedRegexp conv scope n
  | .interpolatedMatchLastLineNode => interpolatedMatch conv scope n
  | .embeddedStatementsNode => embeddedStatements conv scope n
  | .embeddedVariableNode => embeddedVariable conv scope n
  | .trueNode => build n.location .trueLit []
  | .falseNode => build n.location .falseLit []
  | .nilNode => build n.location .nilLit []
  | .selfNode => build n.location .selfRef []
  | .arrayNode => do build n.location .array (← convertItems conv scope n .elements)
  | .hashNode | .keywordHashNode => do build n.location .hash (← pairs conv scope n .elements)
  | .assocNode => assoc conv scope n
  | .assocSplatNode => assocSplat conv scope n
  | .implicitNode => .ok .nil
  | .rangeNode => range conv scope n
  | .sourceFileNode => sourceFile scope n
  | .sourceLineNode => sourceLine n
  | .sourceEncodingNode => sourceEncoding n
  -- Variables and constants
  | .localVariableReadNode => localRead n
  | .localVariableWriteNode => variableWrite conv scope n .localVar
  | .localVariableOrWriteNode => variableLogicWrite conv scope n .opAsgnOr .localVar
  | .localVariableAndWriteNode => variableLogicWrite conv scope n .opAsgnAnd .localVar
  | .localVariableOperatorWriteNode => variableOperatorWrite conv scope n .localVar
  | .localVariableTargetNode => variableTarget scope n .localVar
  | .instanceVariableReadNode => variableRead n .instanceVar
  | .instanceVariableWriteNode => variableWrite conv scope n .instanceVar
  | .instanceVariableOrWriteNode => variableLogicWrite conv scope n .opAsgnOr .instanceVar
  | .instanceVariableAndWriteNode => variableLogicWrite conv scope n .opAsgnAnd .instanceVar
  | .instanceVariableOperatorWriteNode => variableOperatorWrite conv scope n .instanceVar
  | .instanceVariableTargetNode => variableTarget scope n .instanceVar
  | .classVariableReadNode => variableRead n .classVar
  | .classVariableWriteNode => variableWrite conv scope n .classVar
  | .classVariableOrWriteNode => variableLogicWrite conv scope n .opAsgnOr .classVar
  | .classVariableAndWriteNode => variableLogicWrite conv scope n .opAsgnAnd .classVar
  | .classVariableOperatorWriteNode => variableOperatorWrite conv scope n .classVar
  | .classVariableTargetNode => variableTarget scope n .classVar
  | .globalVariableReadNode => variableRead n .globalVar
  | .globalVariableWriteNode => variableWrite conv scope n .globalVar
  | .globalVariableOrWriteNode => variableLogicWrite conv scope n .opAsgnOr .globalVar
  | .globalVariableAndWriteNode => variableLogicWrite conv scope n .opAsgnAnd .globalVar
  | .globalVariableOperatorWriteNode => variableOperatorWrite conv scope n .globalVar
  | .globalVariableTargetNode => variableTarget scope n .globalVar
  | .numberedReferenceReadNode => do build n.location .nthRef [(← n.get .number).toValue]
  | .backReferenceReadNode => backReference n
  | .constantReadNode => variableRead n .constant
  | .constantWriteNode => variableWrite conv scope n .constant
  | .constantOrWriteNode => variableLogicWrite conv scope n .opAsgnOr .constant
  | .constantAndWriteNode => variableLogicWrite conv scope n .opAsgnAnd .constant
  | .constantOperatorWriteNode => variableOperatorWrite conv scope n .constant
  | .constantTargetNode => variableTarget scope n .constant
  | .constantPathNode => constantPath conv scope n
  | .constantPathWriteNode => constantPathWrite conv scope n
  | .constantPathOrWriteNode => constantPathLogicWrite conv scope n .opAsgnOr
  | .constantPathAndWriteNode => constantPathLogicWrite conv scope n .opAsgnAnd
  | .constantPathOperatorWriteNode => constantPathOperatorWrite conv scope n
  | .constantPathTargetNode => do build n.location .constant [← constantPath conv scope n]
  | .shareableConstantNode => convertField conv scope n .write
  -- Multiple assignment
  | .multiWriteNode => multiWrite conv scope n
  | .multiTargetNode => multiTarget conv scope n
  | .splatNode => splat conv scope n
  | .implicitRestNode => .ok .nil
  -- Control flow
  | .ifNode => conditional conv scope n .statements .subsequent
  | .unlessNode => conditional conv scope n .elseClause .statements
  | .whileNode => loop conv scope n .whileLoop
  | .untilNode => loop conv scope n .untilLoop
  | .forNode => forLoop conv scope n
  | .caseNode | .caseMatchNode => caseOf conv scope n
  | .whenNode => whenClause conv scope n
  | .returnNode => jump conv scope n .returnJump
  | .breakNode => jump conv scope n .breakJump
  | .nextNode => jump conv scope n .nextJump
  | .redoNode => build n.location .redoJump []
  | .retryNode => build n.location .retryJump []
  | .flipFlopNode => flipFlop conv scope n
  | .preExecutionNode => execution conv scope n .preexe
  | .postExecutionNode => execution conv scope n .postexe
  -- Definitions
  | .defNode => method conv scope n
  | .parametersNode => parameters conv scope n
  | .requiredParameterNode => nameIn n .name
  | .optionalParameterNode => optionalParameter conv scope n
  | .restParameterNode => restParameter n ['*']
  | .keywordRestParameterNode => restParameter n ['*', '*']
  | .noKeywordsParameterNode => .ok (.sym "**nil")
  | .blockParameterNode => restParameter n ['&']
  | .requiredKeywordParameterNode => named n .kwarg
  | .optionalKeywordParameterNode => optionalKeyword conv scope n
  | .classNode => classDefinition conv scope n
  | .moduleNode => moduleDefinition conv scope n
  | .singletonClassNode => singletonClass conv scope n
  | .aliasMethodNode => binary conv scope n .aliasName .newName .oldName
  | .aliasGlobalVariableNode => aliasGlobal n
  | .undefNode => undefine conv scope n
  -- Patterns
  | .inNode => inClause conv scope n
  | .matchPredicateNode | .matchRequiredNode => patternMatch conv scope n
  | .arrayPatternNode => arrayPattern conv scope n
  | .findPatternNode => findPattern conv scope n
  | .hashPatternNode => hashPattern conv scope n
  | .capturePatternNode => capturePattern conv scope n
  | .alternationPatternNode => binary conv scope n .or .left .right
  | .pinnedVariableNode => convertField conv scope n .variable
  | .pinnedExpressionNode => unary conv scope n .beginExpr .expression
  -- Kinds without a conversion
  | .missingNode => .error (unsupported (.ofNode n) (some "source has syntax errors"))
  | .itLocalVariableReadNode | .itParametersNode | .numberedParametersNode =>
    .error (unsupported (.ofNode n) none)

end RubySexp.Convert
