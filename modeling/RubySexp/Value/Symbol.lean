namespace RubySexp

/-!
# Plain Symbols

A symbol is written without quotes when its name is an identifier, a variable, a special global
or an operator of Ruby.
-/

namespace Symbol

def isLetter (c : Char) : Bool :=
  ('a' ≤ c && c ≤ 'z') || ('A' ≤ c && c ≤ 'Z')

def isDecimal (c : Char) : Bool := '0' ≤ c && c ≤ '9'

/-- A character that can start an identifier: every letter outside ASCII counts. -/
def startsIdentifier (c : Char) : Bool := isLetter c || c == '_' || 0x80 ≤ c.toNat

def continuesIdentifier (c : Char) : Bool := startsIdentifier c || isDecimal c

def isIdentifier : List Char → Bool
  | [] => false
  | c :: cs => startsIdentifier c && cs.all continuesIdentifier

/-- An identifier, perhaps with a question mark, an exclamation mark or an equals sign behind. -/
def isMethodName (cs : List Char) : Bool :=
  isIdentifier cs ||
    match cs.getLast? with
    | some c => (c == '?' || c == '!' || c == '=') && isIdentifier cs.dropLast
    | none => false

/-- The one-character names of special globals. -/
def specialGlobals : List Char := "~*$?!@/\\;,.=:<>\"&`'+0".toList

/-- What can stand behind the dollar sign of a global. -/
def isGlobalName : List Char → Bool
  | [] => false
  | [c] => isIdentifier [c] || isDecimal c || specialGlobals.contains c
  | ['-', c] => isLetter c || isDecimal c || c == '_'
  | cs => isIdentifier cs || cs.all isDecimal

/-- The operators that are method names. -/
def operators : List (List Char) :=
  ["[]", "[]=", "*", "**", "-", "+", "-@", "+@", "/", "%", "~", "^", "&", "|", "`", "!", "!=",
    "!~", "<=>", "<<", "<=", "<", ">>", ">=", ">", "==", "===", "=~"].map String.toList

/-- Whether a symbol with this name is written without quotes. -/
def isPlain (cs : List Char) : Bool :=
  isMethodName cs || operators.contains cs ||
    match cs with
    | '@' :: '@' :: rest => isIdentifier rest
    | '@' :: rest => isIdentifier rest
    | '$' :: rest => isGlobalName rest
    | _ => false

end Symbol

end RubySexp
