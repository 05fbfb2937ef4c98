namespace RubySexp

/-!
# Fields

The names of the fields that nodes have besides their location.
-/

/-- A field of a syntax tree node. -/
inductive Field where
  | arguments
  | ascii8bit
  | beginModifier
  | binaryOperator
  | block
  | body
  | call
  | collection
  | conditions
  | constant
  | constantPath
  | denominator
  | depth
  | elements
  | elseClause
  | ensureClause
  | exceptions
  | excludeEnd
  | expression
  | extended
  | filepath
  | ignoreCase
  | index
  | key
  | keywordRest
  | keywords
  | left
  | lefts
  | locals
  | maximum
  | multiLine
  | name
  | names
  | newName
  | number
  | numerator
  | numeric
  | oldName
  | once
  | openingLoc
  | optionals
  | parameters
  | parent
  | parts
  | pattern
  | posts
  | predicate
  | readName
  | receiver
  | reference
  | requireds
  | rescueClause
  | rescueExpression
  | rest
  | right
  | rights
  | safeNavigation
  | statements
  | subsequent
  | superclass
  | target
  | targets
  | unescaped
  | value
  | variable
  | variableCall
  | write
  | writeName
  deriving DecidableEq, Repr

namespace Field

/-- The name under which a dump knows a field. -/
def label : Field → String
  | .arguments => "arguments"
  | .ascii8bit => "ascii_8bit"
  | .beginModifier => "begin_modifier"
  | .binaryOperator => "binary_operator"
  | .block => "block"
  | .body => "body"
  | .call => "call"
  | .collection => "collection"
  | .conditions => "conditions"
  | .constant => "constant"
  | .constantPath => "constant_path"
  | .denominator => "denominator"
  | .depth => "depth"
  | .elements => "elements"
  | .elseClause => "else_clause"
  | .ensureClause => "ensure_clause"
  | .exceptions => "exceptions"
  | .excludeEnd => "exclude_end"
  | .expression => "expression"
  | .extended => "extended"
  | .filepath => "filepath"
  | .ignoreCase => "ignore_case"
  | .index => "index"
  | .key => "key"
  | .keywordRest => "keyword_rest"
  | .keywords => "keywords"
  | .left => "left"
  | .lefts => "lefts"
  | .locals => "locals"
  | .maximum => "maximum"
  | .multiLine => "multi_line"
  | .name => "name"
  | .names => "names"
  | .newName => "new_name"
  | .number => "number"
  | .numerator => "numerator"
  | .numeric => "numeric"
  | .oldName => "old_name"
  | .once => "once"
  | .openingLoc => "opening_loc"
  | .optionals => "optionals"
  | .parameters => "parameters"
  | .parent => "parent"
  | .parts => "parts"
  | .pattern => "pattern"
  | .posts => "posts"
  | .predicate => "predicate"
  | .readName => "read_name"
  | .receiver => "receiver"
  | .reference => "reference"
  | .requireds => "requireds"
  | .rescueClause => "rescue_clause"
  | .rescueExpression => "rescue_expression"
  | .rest => "rest"
  | .right => "right"
  | .rights => "rights"
  | .safeNavigation => "safe_navigation"
  | .statements => "statements"
  | .subsequent => "subsequent"
  | .superclass => "superclass"
  | .target => "target"
  | .targets => "targets"
  | .unescaped => "unescaped"
  | .value => "value"
  | .variable => "variable"
  | .variableCall => "variable_call"
  | .write => "write"
  | .writeName => "write_name"

/-- Whether the field holds the place of a part of the source. -/
def isLocation : Field → Bool
  | .openingLoc => true
  | _ => false

end Field

end RubySexp
