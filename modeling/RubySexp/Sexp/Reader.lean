import RubySexp.Sexp.Term
import RubySexp.Text.Place

namespace RubySexp

/-!
# Reading Printed Expressions

The reader goes through the text token by token. Its state is what has been read: the items of the
expressions that are still open, and what is due next. The state decides which tokens are looked
for, so the same characters can be different tokens in different places, and a text that has none
of them is wrong at that place. White space may stand between any two tokens.

The states stand for those of the LALR parser that lark builds from the grammar of expressions; what
is not in the grammar follows lark's documentation: in each state only the terminals that it admits
are looked for, those of higher priority first, and an error is reported at the first character or
token with which no text goes on, or where the last token starts if the text ends too early.
-/

/-- The tokens of printed expressions. -/
inductive Token where
  /-- The letter `s` with its opening bracket. -/
  | openSexp
  | close
  | comma
  | dot
  | key (k : LineKey)
  /-- The opening bracket of a mark. -/
  | openMark
  | number (n : Int)
  | atom (a : Atom)
  deriving DecidableEq, Repr

/-- How much of a line mark has been read. -/
inductive MarkPart where
  | dot
  | key (k : LineKey)
  | opened (k : LineKey)
  | numbered (k : LineKey) (n : Int)
  deriving DecidableEq, Repr

/-- What has been read. The items of the open expressions are `outer`, innermost first, and of
each the latest item first. -/
inductive ReadState where
  /-- A value is due. Inside an expression a closing bracket may come in its place. -/
  | value (outer : List (List Term))
  /-- A value has been read. -/
  | behind (outer : List (List Term)) (last : Term)
  /-- A mark is being read behind an expression with these items and marks. -/
  | mark (outer : List (List Term)) (items : List Term) (marks : List (LineKey × Int))
    (part : MarkPart)

namespace ReadState

/-- The token of a single bracket. -/
def bracket? (c : Char) (token : Token) : List Char → Option (Token × List Char)
  | d :: rest => if d == c then some (token, rest) else none
  | [] => none

/-- The token at the start of a text where a value is due. -/
def valueToken? (inside : Bool) : List Char → Option (Token × List Char)
  | 's' :: '(' :: rest => some (.openSexp, rest)
  | ')' :: rest => if inside then some (.close, rest) else none
  | cs => (Atom.scan? cs).map fun (a, rest) => (.atom a, rest)

/-- The token behind a value. Marks may follow only an expression. -/
def tokenBehind? (inside : Bool) (last : Term) : List Char → Option (Token × List Char)
  | ',' :: rest => if inside then some (.comma, rest) else none
  | ')' :: rest => if inside then some (.close, rest) else none
  | '.' :: rest =>
    match last with
    | .sexp .. => some (.dot, rest)
    | .atom _ => none
  | _ => none

/-- The next token of a mark. -/
def markToken? (part : MarkPart) (cs : List Char) : Option (Token × List Char) :=
  match part with
  | .dot =>
    match cs with
    | 'l' :: 'i' :: 'n' :: 'e' :: rest => some (.key .line, rest)
    | 'm' :: 'a' :: 'x' :: '_' :: 'l' :: 'i' :: 'n' :: 'e' :: rest => some (.key .maxLine, rest)
    | _ => none
  | .key _ => bracket? '(' .openMark cs
  | .opened _ => (Atom.integer? cs).map fun (n, rest) => (.number n, rest)
  | .numbered .. => bracket? ')' .close cs

/-- The token at the start of a text in a state. -/
def scan? (state : ReadState) (cs : List Char) : Option (Token × List Char) :=
  match state with
  | .value outer => valueToken? (!outer.isEmpty) cs
  | .behind outer last => tokenBehind? (!outer.isEmpty) last cs
  | .mark _ _ _ part => markToken? part cs

/-- The state behind a token. -/
def advance? : ReadState → Token → Option ReadState
  | .value outer, .openSexp => some (.value ([] :: outer))
  | .value outer, .atom a => some (.behind outer (.atom a))
  | .value (items :: outer), .close => some (.behind outer (.sexp items.reverse []))
  | .behind (items :: outer) last, .comma => some (.value ((last :: items) :: outer))
  | .behind (items :: outer) last, .close =>
    some (.behind outer (.sexp (last :: items).reverse []))
  | .behind outer (.sexp items marks), .dot => some (.mark outer items marks .dot)
  | .mark outer items marks .dot, .key k => some (.mark outer items marks (.key k))
  | .mark outer items marks (.key k), .openMark => some (.mark outer items marks (.opened k))
  | .mark outer items marks (.opened k), .number n =>
    some (.mark outer items marks (.numbered k n))
  | .mark outer items marks (.numbered k n), .close =>
    some (.behind outer (.sexp items (marks ++ [(k, n)])))
  | _, _ => none

/-- The term of a text that may end here. -/
def finished? : ReadState → Option Term
  | .behind [] last => some last
  | _ => none

/-- One token further. -/
def step? (state : ReadState) (cs : List Char) : Option (ReadState × List Char) := do
  let (token, rest) ← state.scan? cs
  return (← state.advance? token, rest)

/-- Reads the rest of a text, at most `fuel` tokens of it. Fails with the part of the text that is
wrong at its start. A text that ends too early is wrong where its last token starts, `latest`. -/
def run (fuel : Nat) (state : ReadState) (latest cs : List Char) : Except (List Char) Term :=
  match fuel, cs.dropWhile isGap with
  | _, [] =>
    match state.finished? with
    | some term => .ok term
    | none => .error latest
  | 0, rest => .error rest
  | fuel + 1, rest =>
    match state.step? rest with
    | some (next, after) => run fuel next rest after
    | none => .error rest

end ReadState

/-- The term that a text spells. A token has at least one character. -/
def Term.read (cs : List Char) : Except (List Char) Term :=
  ReadState.run cs.length (.value []) cs cs

/-- Why a text is not a printed expression. -/
inductive ReadError where
  | misplaced (place : Place)
  | noValue (problem : Term.Problem)
  deriving DecidableEq, Repr

namespace ReadError

def message : ReadError → String
  | .misplaced place =>
    "Invalid sexp at " ++ toString place.line ++ ":" ++ toString place.column
  | .noValue problem => problem.message

/-- How many characters stand before the wrong place. -/
def offset? : ReadError → Option Nat
  | .misplaced place => some place.offset
  | .noValue _ => none

end ReadError

/-- The value that a text prints. -/
def Value.read (text : String) : Except ReadError Value :=
  match Term.read text.toList with
  | .error rest => .error (.misplaced (.ofRest text.toList rest))
  | .ok term =>
    match term.value with
    | .ok v => .ok v
    | .error problem => .error (.noValue problem)

end RubySexp
