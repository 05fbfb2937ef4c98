namespace RubySexp

/-!
# Blanks

Two classes of white space. Between the parts of a printed expression only five characters may
stand; a plain symbol ends at any white space that a text can hold.
-/

/-- White space that separates the parts of a printed expression. -/
def isGap (c : Char) : Bool :=
  c == ' ' || c == '\t' || c == '\x0c' || c == '\r' || c == '\n'

/-- White space of any kind: the characters of the separator classes, the line and paragraph
ends, and the four information separators. -/
def isBlank (c : Char) : Bool :=
  let n := c.toNat
  (0x9 ≤ n && n ≤ 0xd) || (0x1c ≤ n && n ≤ 0x20) || n == 0x85 || n == 0xa0 || n == 0x1680 ||
    (0x2000 ≤ n && n ≤ 0x200a) || n == 0x2028 || n == 0x2029 || n == 0x202f || n == 0x205f ||
    n == 0x3000

end RubySexp
