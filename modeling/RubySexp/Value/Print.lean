import RubySexp.Value.Basic
import RubySexp.Value.Symbol

namespace RubySexp

/-!
# Printing Values

Expressions are written `s(:tag, kid, ...)`, with a line mark behind them where lines are asked
for. The Ruby values inside are written as Ruby's `inspect` does; data without a Ruby form is
written as data, and whatever stands inside it too.

Printing itself is total. Values that were built from content of the wrong type, such as a symbol
that is named by a number, have no text; `printable` tells the values that have one apart.
-/

namespace Value

/-- The text of a symbol. An empty sequence as a name counts as the empty name. -/
def symbolText : Tree → List Char
  | .text name =>
    ':' :: if Symbol.isPlain name.toList then name.toList else RubyQuoted.text name.toList
  | _ => ':' :: RubyQuoted.text []

/-- A source with a backslash in front of each slash that has none; `behind` is the character
before the text. -/
def escapeSlashes (behind : Char) : List Char → List Char
  | [] => []
  | c :: cs =>
    if c == '/' && behind != '\\' then '\\' :: '/' :: escapeSlashes c cs
    else c :: escapeSlashes c cs

/-- The option letters in the order in which they are written, with their bits. -/
def regexpLetters : List (Char × Nat) := [('m', 4), ('i', 1), ('x', 2), ('n', 32)]

/-- The text of a regular expression. -/
def regexpText (source : List Char) (options : Nat) : List Char :=
  '/' :: (escapeSlashes ' ' source ++
    '/' :: (regexpLetters.filter fun (_, bit) => options &&& bit != 0).map (·.1))

/-- The text of a rational number. -/
def rationalText (style : Style) (q : Rat) : List Char :=
  match style with
  | .ruby => '(' :: (intText q.num ++ '/' :: natText q.den ++ [')'])
  | .data => "Fraction(".toList ++ intText q.num ++ [',', ' '] ++ natText q.den ++ [')']
  | .spelled => if q.den = 1 then intText q.num else intText q.num ++ '/' :: natText q.den

/-- The number a float stands for with its sign taken away. -/
def magnitude (x : Float) : Float :=
  if (Binary64.ofFloat x).isNegative then Float.ofBits (x.toBits - 0x8000000000000000) else x

/-- Whether the imaginary part of a number is written with a minus sign, and its text behind the
sign. Only numbers have one. -/
def imaginaryPart? : Value → Option (Bool × List Char)
  | .scalar (.bool b) => some (false, (Scalar.bool b).render .ruby)
  | .scalar (.int n) => some (n < 0, natText n.natAbs)
  | .scalar (.float x) =>
    some ((Binary64.ofFloat x).isNegative, (Scalar.float (magnitude x)).render .ruby)
  | .rational q => some (q.num < 0, rationalText .ruby (mkRat q.num.natAbs q.den))
  | _ => none

/-- The imaginary part in front of the unit. A text that does not end in a digit is multiplied
with it. -/
def imaginaryText (part : Value) : List Char :=
  match imaginaryPart? part with
  | some (negative, digits) =>
    let times := match digits.getLast? with
      | some c => if Symbol.isDecimal c then [] else ['*']
      | none => []
    (if negative then '-' else '+') :: (digits ++ times ++ ['i'])
  | none => []

mutual

/-- The text of a value in a style. Line marks are written, where asked for, behind the
expression itself and behind the expressions that are its kids. -/
def render (lines : Bool) (style : Style) : Value → List Char
  | .scalar s => s.render style
  | .rational q => rationalText style q
  | .symbol name =>
    match style, name with
    | .spelled, .text s => s.toList
    | _, _ => symbolText name
  | .range first last excludeEnd =>
    let dots := if excludeEnd.truthy then ['.', '.', '.'] else ['.', '.']
    render false .spelled first ++ dots ++ render false .spelled last
  | .regexp source options =>
    match source with
    | .text s => regexpText s.toList options
    | _ => []
  | .imaginary re im => '(' :: (render false .ruby re ++ imaginaryText im ++ [')'])
  | .sexp tag kids line _ =>
    let mark := match lines, line with
      | false, _ | true, .scalar .null => []
      | true, line => ".line(".toList ++ line.render .spelled ++ [')']
    's' :: '(' :: (Json.commaSeparated ((':' :: tag.name.toList) :: renderItems lines .ruby kids) ++
      ')' :: mark)
  | .list items => '[' :: (Json.commaSeparated (renderItems false .data items) ++ [']'])
  | .tuple items => Tree.bracketed (renderItems false .data items)
  | .mapping entries => '{' :: (Json.commaSeparated (renderEntries entries) ++ ['}'])
  | .span l => l.render
  | .node n => (Tree.ofNode n).render .data

def renderItems (lines : Bool) (style : Style) : List Value → List (List Char)
  | [] => []
  | item :: rest => render lines style item :: renderItems lines style rest

def renderEntries : List (String × Value) → List (List Char)
  | [] => []
  | (key, value) :: rest =>
    (Quoted.text key.toList ++ [':', ' '] ++ render false .data value) :: renderEntries rest

end

mutual

/-- Whether a value has a text in a style. -/
def printable (style : Style) : Value → Bool
  | .symbol (.text _) => true
  | .symbol (.tuple []) => style != .spelled
  | .symbol _ => false
  | .range first last _ => printable .spelled first && printable .spelled last
  | .regexp (.text _) _ => true
  | .regexp _ _ => false
  | .imaginary re im => printable .ruby re && (imaginaryPart? im).isSome
  | .sexp _ kids _ _ => printableItems .ruby kids
  | .list items | .tuple items => printableItems .data items
  | .mapping entries => printableEntries entries
  | .scalar _ | .rational _ | .span _ | .node _ => true

def printableItems (style : Style) : List Value → Bool
  | [] => true
  | item :: rest => printable style item && printableItems style rest

def printableEntries : List (String × Value) → Bool
  | [] => true
  | (_, value) :: rest => printable .data value && printableEntries rest

end

/-- The text of a value, as Ruby's `inspect` writes it. -/
def inspect (v : Value) : Except Fault String :=
  if v.printable .ruby then .ok (String.ofList (v.render false .ruby)) else .error .wrongType

/-- The text of a value with line marks. -/
def inspectWithLines (v : Value) : Except Fault String :=
  if v.printable .ruby then .ok (String.ofList (v.render true .ruby)) else .error .wrongType

end Value

end RubySexp
