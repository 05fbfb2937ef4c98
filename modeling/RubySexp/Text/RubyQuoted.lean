import RubySexp.Number.Layout

namespace RubySexp

/-!
# Quoted Text in Ruby

Ruby writes a text in double quotes. The quote, the backslash and the control characters that
have a letter of their own are written with a backslash; a number sign is, where it would start
an interpolation; the remaining control characters are written by their code point. Reading
takes all of this back, and also the spellings that a person may use: codes in braces, two
hexadecimal digits, and a backslash in front of a character that needs none.
-/

namespace RubyQuoted

/-- The letter that stands for a character after a backslash. -/
def letterFor? (c : Char) : Option Char :=
  match c with
  | '"' => some '"'
  | '\\' => some '\\'
  | '\n' => some 'n'
  | '\t' => some 't'
  | '\r' => some 'r'
  | '\x0c' => some 'f'
  | '\x0b' => some 'v'
  | '\x07' => some 'a'
  | '\x08' => some 'b'
  | '\x1b' => some 'e'
  | _ => none

/-- Whether a text that follows a number sign makes it start an interpolation. -/
def opensInterpolation : List Char → Bool
  | c :: _ => c == '{' || c == '$' || c == '@'
  | [] => false

/-- One character between the quotes, given the text behind it. -/
def charText (c : Char) (behind : List Char) : List Char :=
  match letterFor? c with
  | some letter => ['\\', letter]
  | none =>
    if c == '#' && opensInterpolation behind then ['\\', '#']
    else if c.toNat < 0x20 || c.toNat == 0x7f then
      '\\' :: 'u' :: (hexText 4 c.toNat).map Char.toUpper
    else [c]

/-- The text between the quotes. -/
def escape : List Char → List Char
  | [] => []
  | c :: cs => charText c cs ++ escape cs

/-- The text in quotes. -/
def text (cs : List Char) : List Char := '"' :: (escape cs ++ ['"'])

/-- The value of a hexadecimal digit. -/
def hexValue? (c : Char) : Option Nat :=
  if '0' ≤ c && c ≤ '9' then some (c.toNat - 48)
  else if 'a' ≤ c && c ≤ 'f' then some (c.toNat - 87)
  else if 'A' ≤ c && c ≤ 'F' then some (c.toNat - 55)
  else none

def isHex (c : Char) : Bool := (hexValue? c).isSome

/-- The number that a run of hexadecimal digits stands for. -/
def hexNumber (cs : List Char) : Nat :=
  cs.foldl (fun n c => 16 * n + (hexValue? c).getD 0) 0

/-- The numbers in a row of hexadecimal numbers with spaces between them; the first argument
holds the digits of the number being read. -/
def hexNumbers (current : List Char) : List Char → List Nat
  | [] => if current.isEmpty then [] else [hexNumber current]
  | c :: cs =>
    if c == ' ' then
      (if current.isEmpty then [] else [hexNumber current]) ++ hexNumbers [] cs
    else hexNumbers (current ++ [c]) cs

/-- The character with a code point, or the number where there is none. A surrogate, which no
text holds, becomes the replacement character. -/
def charAt (n : Nat) : Except Nat Char :=
  if n < 0x110000 then .ok (if 0xd800 ≤ n && n ≤ 0xdfff then '\ufffd' else Char.ofNat n)
  else .error n

/-- The character for which a letter stands after a backslash; others stand for themselves. -/
def charFor (c : Char) : Char :=
  match c with
  | 'n' => '\n'
  | 't' => '\t'
  | 'r' => '\r'
  | 'f' => '\x0c'
  | 'v' => '\x0b'
  | 'a' => '\x07'
  | 'b' => '\x08'
  | 'e' => '\x1b'
  | 's' => ' '
  | '0' => '\x00'
  | c => c

/-- Codes in braces: at least one hexadecimal digit or space, up to the closing brace. -/
def bracedCodes? : List Char → Option (List Nat × List Char)
  | '{' :: cs =>
    let inside := cs.takeWhile fun c => isHex c || c == ' '
    match cs.dropWhile fun c => isHex c || c == ' ' with
    | '}' :: rest => if inside.isEmpty then none else some (hexNumbers [] inside, rest)
    | _ => none
  | _ => none

/-- Exactly four hexadecimal digits. -/
def fourDigits? (cs : List Char) : Option (Nat × List Char) :=
  let digits := cs.take 4
  if digits.length = 4 ∧ digits.all isHex then some (hexNumber digits, cs.drop 4) else none

/-- One or two hexadecimal digits. -/
def twoDigits? (cs : List Char) : Option (Nat × List Char) :=
  let digits := (cs.take 2).takeWhile isHex
  if digits.isEmpty then none else some (hexNumber digits, cs.drop digits.length)

/-- What the text behind a backslash stands for, and what follows it. -/
def afterBackslash : List Char → Except Nat (List Char) × List Char
  | [] => (.ok ['\\'], [])
  | c :: cs =>
    let plain : Except Nat (List Char) × List Char := (.ok [charFor c], cs)
    let single (n : Nat) : Except Nat (List Char) := (charAt n).map fun c => [c]
    if c == 'u' then
      match bracedCodes? cs, fourDigits? cs with
      | some (codes, rest), _ => (codes.mapM charAt, rest)
      | none, some (code, rest) => (single code, rest)
      | none, none => plain
    else if c == 'x' then
      match twoDigits? cs with
      | some (code, rest) => (single code, rest)
      | none => plain
    else plain

/-- Reads the text between quotes, at most `fuel` characters and escapes of it. -/
def unescapeWithin : Nat → List Char → Except Nat (List Char)
  | 0, _ => .ok []
  | _ + 1, [] => .ok []
  | fuel + 1, c :: cs =>
    if c == '\\' then do
      let (out, rest) := afterBackslash cs
      return (← out) ++ (← unescapeWithin fuel rest)
    else do
      return c :: (← unescapeWithin fuel cs)

/-- Reads the text between quotes. Fails with a code point that no character has. -/
def unescape (cs : List Char) : Except Nat (List Char) := unescapeWithin cs.length cs

end RubyQuoted

end RubySexp
