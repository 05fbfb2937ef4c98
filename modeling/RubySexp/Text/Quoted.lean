import RubySexp.Number.Layout
import RubySexp.Text.Printable

namespace RubySexp

/-!
# Quoted Text in Data

Text inside data that has no Ruby form stands in single quotes, or in double quotes when it
holds a single quote and no double quote. Whatever is not printable is written by its code
point, in two, four or eight hexadecimal digits.
-/

namespace Quoted

/-- The quote that surrounds a text. -/
def quoteFor (cs : List Char) : Char :=
  if cs.contains '\'' && !cs.contains '"' then '"' else '\''

/-- A character that is not printed as it is, by its code point. -/
def codeText (c : Char) : List Char :=
  let n := c.toNat
  if n ≤ 0xff then '\\' :: 'x' :: hexText 2 n
  else if n ≤ 0xffff then '\\' :: 'u' :: hexText 4 n
  else '\\' :: 'U' :: hexText 8 n

/-- One character between the quotes. -/
def charText (quote c : Char) : List Char :=
  if c == quote || c == '\\' then ['\\', c]
  else if c == '\t' then ['\\', 't']
  else if c == '\n' then ['\\', 'n']
  else if c == '\r' then ['\\', 'r']
  else if isPrintable c then [c]
  else codeText c

/-- The text in quotes. -/
def text (cs : List Char) : List Char :=
  let quote := quoteFor cs
  quote :: (cs.flatMap (charText quote) ++ [quote])

end Quoted

end RubySexp
