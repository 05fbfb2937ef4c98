import RubySexp.Json.Basic
import RubySexp.Text.Place

namespace RubySexp

/-!
# Reading JSON Text

The grammar is that of JSON with three more number words, `NaN`, `Infinity` and `-Infinity`.
A number without fraction and exponent is an integer of any size. Each scanner works on the
part of the text that is still to be read; where it has to stop it hands back that part, and
the reader turns it into a place at the end.
-/

namespace Json

/-- What is wrong with a text that is not JSON. -/
inductive Problem where
  | noValue
  | noName
  | noColon
  | noComma
  | extraData
  | openString
  | controlCharacter
  | unknownEscape
  | brokenCode
  | byteOrderMark
  deriving DecidableEq, Repr

def Problem.message : Problem → String
  | .noValue => "Expecting value"
  | .noName => "Expecting property name enclosed in double quotes"
  | .noColon => "Expecting ':' delimiter"
  | .noComma => "Expecting ',' delimiter"
  | .extraData => "Extra data"
  | .openString => "Unterminated string starting at"
  | .controlCharacter => "Invalid control character at"
  | .unknownEscape => "Invalid \\escape"
  | .brokenCode => "Invalid \\uXXXX escape"
  | .byteOrderMark => "Unexpected UTF-8 BOM (decode using utf-8-sig)"

/-- Why and where a text is not JSON. -/
structure TextError where
  problem : Problem
  place : Place
  deriving DecidableEq, Repr

def TextError.message (e : TextError) : String :=
  let line := toString e.place.line
  let column := toString e.place.column
  let offset := toString e.place.offset
  e.problem.message ++ ": line " ++ line ++ " column " ++ column ++ " (char " ++ offset ++ ")"

/-- A problem, and the part of the text at whose start it was found. -/
abbrev Stop := Problem × List Char

def isSpace (c : Char) : Bool := c == ' ' || c == '\t' || c == '\n' || c == '\r'

def skipSpace (cs : List Char) : List Char := cs.dropWhile isSpace

/-! ### Strings -/

/-- The value of four hexadecimal digits. -/
def fourHex? (a b c d : Char) : Option Nat :=
  if [a, b, c, d].all RubyQuoted.isHex then some (RubyQuoted.hexNumber [a, b, c, d]) else none

/-- The character of a code point; a surrogate outside a pair becomes the replacement
character. -/
def codeChar (n : Nat) : Char := if 0xd800 ≤ n && n ≤ 0xdfff then '\ufffd' else Char.ofNat n

/-- The character that a letter stands for after a backslash. -/
def escaped? (c : Char) : Option Char :=
  match c with
  | '"' => some '"'
  | '\\' => some '\\'
  | '/' => some '/'
  | 'b' => some '\x08'
  | 'f' => some '\x0c'
  | 'n' => some '\n'
  | 'r' => some '\r'
  | 't' => some '\t'
  | _ => none

/-- A second code behind a high surrogate, if the text goes on with one and does not end right
behind it: its value and what follows it. Stops at the `u` of a code that is not hexadecimal. -/
def pairedCode : List Char → Except Stop (Option (Nat × List Char))
  | '\\' :: 'u' :: a :: b :: c :: d :: e :: rest =>
    match fourHex? a b c d with
    | some low => .ok (some (low, e :: rest))
    | none => .error (.brokenCode, 'u' :: a :: b :: c :: d :: e :: rest)
  | _ => .ok none

/-- Reads the rest of a string up to its closing quote, at most `fuel` characters and escapes
of it. The string's opening quote, with all that follows, is `opening`. -/
def stringTail (opening : List Char) : Nat → List Char → Except Stop (List Char × List Char)
  | 0, _ => .error (.openString, opening)
  | _ + 1, [] => .error (.openString, opening)
  | fuel + 1, c :: cs =>
    let goOn (out : Char) (rest : List Char) : Except Stop (List Char × List Char) := do
      let (tail, rest) ← stringTail opening fuel rest
      return (out :: tail, rest)
    if c == '"' then .ok ([], cs)
    else if c == '\\' then
      match cs with
      | [] => .error (.openString, opening)
      | 'u' :: a :: b :: x :: d :: e :: rest =>
        match fourHex? a b x d with
        | none => .error (.brokenCode, cs)
        | some code =>
          if 0xd800 ≤ code && code ≤ 0xdbff then do
            match ← pairedCode (e :: rest) with
            | some (low, after) =>
              if 0xdc00 ≤ low && low ≤ 0xdfff then
                goOn (Char.ofNat (0x10000 + (code - 0xd800) * 0x400 + (low - 0xdc00))) after
              else goOn (codeChar code) (e :: rest)
            | none => goOn (codeChar code) (e :: rest)
          else goOn (codeChar code) (e :: rest)
      | 'u' :: _ => .error (.brokenCode, cs)
      | e :: rest =>
        match escaped? e with
        | some out => goOn out rest
        | none => .error (.unknownEscape, c :: cs)
    else if c.toNat < 0x20 then .error (.controlCharacter, c :: cs)
    else goOn c cs

/-- Reads a string whose opening quote is the first character of `opening`. -/
def string (opening : List Char) : Except Stop (String × List Char) := do
  let (cs, rest) ← stringTail opening opening.length (opening.drop 1)
  return (String.ofList cs, rest)

/-! ### Numbers and words -/

def isDecimal (c : Char) : Bool := '0' ≤ c && c ≤ '9'

def decimalValue (cs : List Char) : Nat := cs.foldl (fun n c => 10 * n + (c.toNat - 48)) 0

/-- The digits in front of the point: a zero alone, or digits that start with another one. -/
def wholeDigits : List Char → List Char
  | [] => []
  | c :: cs => if c == '0' then ['0'] else if isDecimal c then c :: cs.takeWhile isDecimal else []

/-- The digits of a fraction, if a point and at least one digit follow. -/
def fractionDigits : List Char → List Char
  | '.' :: cs => cs.takeWhile isDecimal
  | _ => []

/-- The sign and digits of an exponent: nothing unless a digit follows. -/
def exponentPart? : List Char → Option (Bool × List Char × List Char)
  | c :: cs =>
    if c == 'e' || c == 'E' then
      let (negative, digits) := match cs with
        | '-' :: rest => (true, rest)
        | '+' :: rest => (false, rest)
        | rest => (false, rest)
      let run := digits.takeWhile isDecimal
      if run.isEmpty then none else some (negative, run, digits.drop run.length)
    else none
  | [] => none

/-- A number: an integer, or a float if it has a fraction or an exponent. -/
def number? (cs : List Char) : Option (Scalar × List Char) :=
  let negative := cs.head? == some '-'
  let unsigned := if negative then cs.drop 1 else cs
  let whole := wholeDigits unsigned
  if whole.isEmpty then none
  else
    let rest := unsigned.drop whole.length
    let fraction := fractionDigits rest
    let rest := if fraction.isEmpty then rest else rest.drop (fraction.length + 1)
    let coefficient := decimalValue (whole ++ fraction)
    match exponentPart? rest with
    | some (down, digits, rest) =>
      let power : Int := if down then -decimalValue digits else decimalValue digits
      some (.float (Binary64.ofDecimal negative coefficient (power - fraction.length)), rest)
    | none =>
      if fraction.isEmpty then
        some (.int (if negative then -coefficient else coefficient), rest)
      else some (.float (Binary64.ofDecimal negative coefficient (-fraction.length)), rest)

/-- The words of the grammar and what they stand for. -/
def words : List (String × Scalar) :=
  [("null", .null), ("true", .bool true), ("false", .bool false),
    ("NaN", .float (Float.ofBits 0x7ff8000000000000)),
    ("Infinity", .float (Float.ofBits 0x7ff0000000000000)),
    ("-Infinity", .float (Float.ofBits 0xfff0000000000000))]

/-- The word at the start of a text. -/
def word? (cs : List Char) : Option (Scalar × List Char) :=
  (words.find? fun (w, _) => w.toList.isPrefixOf cs).map fun (w, s) => (s, cs.drop w.length)

/-! ### Values -/

mutual

/-- Reads a value. The fuel bounds how deep and how long the text can be read. -/
def value : Nat → List Char → Except Stop (Json × List Char)
  | 0, cs => .error (.noValue, cs)
  | _ + 1, [] => .error (.noValue, [])
  | fuel + 1, c :: cs =>
    if c == '"' then do
      let (s, rest) ← string (c :: cs)
      return (.scalar (.text s), rest)
    else if c == '{' then
      match skipSpace cs with
      | '}' :: rest => .ok (.object [], rest)
      | rest => do
        let (entries, rest) ← members fuel rest
        return (ofEntries entries, rest)
    else if c == '[' then
      match skipSpace cs with
      | ']' :: rest => .ok (.array [], rest)
      | rest => do
        let (items, rest) ← elements fuel rest
        return (.array items, rest)
    else
      match word? (c :: cs), number? (c :: cs) with
      | some (s, rest), _ => .ok (.scalar s, rest)
      | none, some (s, rest) => .ok (.scalar s, rest)
      | none, none => .error (.noValue, c :: cs)

/-- Reads the rest of an array that has a further item. -/
def elements : Nat → List Char → Except Stop (List Json × List Char)
  | 0, cs => .error (.noValue, cs)
  | fuel + 1, cs => do
    let (item, rest) ← value fuel cs
    match skipSpace rest with
    | ']' :: rest => return ([item], rest)
    | ',' :: rest =>
      let (items, rest) ← elements fuel (skipSpace rest)
      return (item :: items, rest)
    | rest => .error (.noComma, rest)

/-- Reads the rest of an object that has a further entry. -/
def members : Nat → List Char → Except Stop (List (String × Json) × List Char)
  | 0, cs => .error (.noName, cs)
  | _ + 1, [] => .error (.noName, [])
  | fuel + 1, c :: cs =>
    if c == '"' then do
      let (key, rest) ← string (c :: cs)
      match skipSpace rest with
      | ':' :: rest =>
        let (item, rest) ← value fuel (skipSpace rest)
        match skipSpace rest with
        | '}' :: rest => return ([(key, item)], rest)
        | ',' :: rest =>
          let (entries, rest) ← members fuel (skipSpace rest)
          return ((key, item) :: entries, rest)
        | rest => .error (.noComma, rest)
      | rest => .error (.noColon, rest)
    else .error (.noName, c :: cs)

end

/-- Reads a text that is one JSON value with white space around it. -/
def readChars (cs : List Char) : Except Stop Json :=
  match cs with
  | '\ufeff' :: _ => .error (.byteOrderMark, cs)
  | _ => do
    let (json, rest) ← value (2 * cs.length + 2) (skipSpace cs)
    match skipSpace rest with
    | [] => return json
    | rest => .error (.extraData, rest)

/-- Reads JSON text. -/
def read (text : String) : Except TextError Json :=
  (readChars text.toList).mapError fun (problem, rest) =>
    ⟨problem, Place.ofRest text.toList rest⟩

end Json

end RubySexp
