import RubySexp.Convert.Literal
import RubySexp.Convert.Target

namespace RubySexp.Convert

/-!
# Patterns

Clauses that match a pattern, and the patterns themselves. Rests in patterns are symbols with a
mark, as they are among parameters.
-/

variable (conv : Conversion) (scope : Scope) (n : Node)

def inClause : Except Fault Value := do
  let body ← clauseBody conv scope (← n.get .statements)
  let pattern ← convertField conv scope n .pattern
  build n.location .inClause (pattern :: body)

/-- A match of a value against one pattern: a choice with one clause. -/
def patternMatch : Except Fault Value := do
  let pattern ← convertField conv scope n .pattern
  let clause ← build n.location .inClause [pattern, .nil]
  let value ← convertField conv scope n .value
  build n.location .caseOf [value, clause, .nil]

/-- A rest in a pattern of a sequence. -/
def patternRest (rest : Tree) : Except Fault Value := do
  if rest.isA .splatNode then
    let expression ← rest.get .expression
    if expression.isNull then return .sym "*" else markedName ['*'] expression
  else return .sym "*"

/-- The rest of a pattern of a hash. -/
def patternKeywordRest (rest : Tree) : Except Fault Value := do
  if rest.isA .noKeywordsParameterNode then build rest.location? .kwrest [.sym "**nil"]
  else
    let value ← rest.get .value
    if value.isNull then build rest.location? .kwrest [.sym "**"]
    else build rest.location? .kwrest [← markedName ['*', '*'] value]

def arrayPattern : Except Fault Value := do
  let requireds ← convertItems conv scope n .requireds
  let restTree ← n.get .rest
  let rest ← if restTree.isNull then pure [] else do pure [← patternRest restTree]
  let posts ← convertItems conv scope n .posts
  let constant ← convertField conv scope n .constant
  build n.location .arrayPat (constant :: (requireds ++ rest ++ posts))

def findPattern : Except Fault Value := do
  let constant ← convertField conv scope n .constant
  let left ← patternRest (← n.get .left)
  let requireds ← convertItems conv scope n .requireds
  let right ← patternRest (← n.get .right)
  build n.location .findPat ([constant, left] ++ requireds ++ [right])

def hashPattern : Except Fault Value := do
  let elements ← pairs conv scope n .elements
  let restTree ← n.get .rest
  let rest ← if restTree.isNull then pure [] else do pure [← patternKeywordRest restTree]
  let constant ← convertField conv scope n .constant
  build n.location .hashPat (constant :: (elements ++ rest))

/-- A pattern that names what it matches. -/
def capturePattern : Except Fault Value := do
  let name ← (← n.get .target).get .name
  let value ← convertField conv scope n .value
  build n.location .lasgn [.symbol name, value]

end RubySexp.Convert
