import RubySexp.Location

namespace RubySexp

/-!
# Faults

Why a tree cannot be converted, or an operation on an expression cannot be carried out. Only
the first is about a construct that has no conversion; the others say that some content does not
fit the place in which it stands.
-/

/-- Why an operation fails. -/
inductive Fault where
  /-- A node of a kind that has no conversion, or content that is no node. -/
  | unsupported (kind : String) (position : Option Location) (reason : Option String)
  /-- A part is asked of content that does not have it. -/
  | noSuchPart
  /-- Content is used as what it is not: as a sequence, a number or a text. -/
  | wrongType
  /-- An item of an empty sequence is asked for. -/
  | noItem
  | zeroDenominator
  /-- A number is infinite, or too large, where a finite one is needed. -/
  | tooLarge
  /-- A float that is no number is taken for a ratio. -/
  | notANumber
  /-- A text does not state a rational number. -/
  | notRational (text : String)
  /-- A text does not state an integer. -/
  | notInteger (text : String)
  /-- A path holds a character that no path can hold. -/
  | nullInPath
  /-- The value of an expression is replaced that does not have exactly one. -/
  | notSingle (shown : String)
  | unknownTag (name : String)

namespace Fault

def message : Fault → String
  | .unsupported kind position reason =>
    let place := match position with
      | some l => " at " ++ String.ofList l.format
      | none => ""
    let detail := match reason with
      | some text => ": " ++ text
      | none => ""
    "Unsupported node " ++ kind ++ place ++ detail
  | .noSuchPart => "No such part"
  | .wrongType => "Wrong type of content"
  | .noItem => "No such item"
  | .zeroDenominator => "A denominator is zero"
  | .tooLarge => "A number is too large"
  | .notANumber => "cannot convert NaN to integer ratio"
  | .notRational text =>
    "Invalid literal for Fraction: " ++ String.ofList (Scalar.render .data (.text text))
  | .notInteger text =>
    "invalid literal for int() with base 10: " ++ String.ofList (Scalar.render .data (.text text))
  | .nullInPath => "embedded null byte"
  | .notSingle shown => "Expected single value sexp, got " ++ shown
  | .unknownTag name => "Unknown sexp tag: " ++ String.ofList (Scalar.render .data (.text name))

end Fault

end RubySexp
