import RubySexp.Number.Layout
import RubySexp.Number.Quantity
import RubySexp.Text.Quoted
import RubySexp.Text.RubyQuoted

namespace RubySexp

/-!
# Scalars

The values that a dumped tree holds besides nodes and sequences, and that reach the output as
they are. The same scalar is written in three styles: as Ruby's `inspect` does, as data, and
spelled out, where a text stands without quotes.
-/

/-- Nothing, a truth value, a number or a text. -/
inductive Scalar where
  | null
  | bool (b : Bool)
  | int (n : Int)
  | float (x : Float)
  | text (s : String)

/-- How a value is written. -/
inductive Style where
  /-- As Ruby's `inspect` writes it. -/
  | ruby
  /-- As data without a Ruby form. -/
  | data
  /-- As data, but a text stands without quotes. -/
  | spelled
  deriving DecidableEq, Repr

namespace Scalar

/-- The word for the type of a scalar in messages. -/
def typeName : Scalar → String
  | .null => "NoneType"
  | .bool _ => "bool"
  | .int _ => "int"
  | .float _ => "float"
  | .text _ => "str"

/-- Nothing, falsehood, zero and the empty text count as false. -/
def truthy : Scalar → Bool
  | .null => false
  | .bool b => b
  | .int n => n != 0
  | .float x => !(Quantity.ofFloat x).same (.ofInt 0)
  | .text s => s != ""

/-- The quantity of a number; a truth value counts as 0 or 1. -/
def quantity? : Scalar → Option Quantity
  | .bool b => some (.ofInt (if b then 1 else 0))
  | .int n => some (.ofInt n)
  | .float x => some (.ofFloat x)
  | .null | .text _ => none

/-- Equality by value: numbers of different types can be equal. -/
def same (a b : Scalar) : Bool :=
  match a, b with
  | .null, .null => true
  | .text s, .text t => s == t
  | a, b =>
    match a.quantity?, b.quantity? with
    | some p, some q => p.same q
    | _, _ => false

def render (style : Style) : Scalar → List Char
  | .null => (if style == .ruby then "nil" else "None").toList
  | .bool true => (if style == .ruby then "true" else "True").toList
  | .bool false => (if style == .ruby then "false" else "False").toList
  | .int n => intText n
  | .float x => (if style == .ruby then FloatLayout.ruby else FloatLayout.data).text x
  | .text s =>
    match style with
    | .ruby => RubyQuoted.text s.toList
    | .data => Quoted.text s.toList
    | .spelled => s.toList

end Scalar

end RubySexp
