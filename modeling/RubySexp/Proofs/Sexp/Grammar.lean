import Mathlib.Tactic
import RubySexp.Value.Basic

/-!
# The Grammar of Expressions

Which kids an expression may have, by its tag: the first and the last ones one by one, and between
them any number of a sort. A value conforms if it is a Ruby value, or an expression that the grammar
permits and whose kids conform. Sequences and other data without a Ruby form never do.
-/

namespace RubySexp

namespace Value

/-- Whether the value is an expression or nothing. -/
def isBranch : Value → Bool
  | .sexp .. | .nil => true
  | _ => false

end Value

inductive Seat where
  | any
  /-- An expression or nothing. -/
  | branch
  | nothing
  | symbol
  | text
  | integer
  | zero
  | flag
  /-- A Ruby value that is something. -/
  | value
  | tagged (tags : List Tag)
  | either (a b : Seat)
  deriving DecidableEq, Repr

namespace Seat

def accepts : Seat → Value → Bool
  | .any, _ => true
  | .branch, v => v.isBranch
  | .nothing, .nil => true
  | .symbol, .symbol (.text _) => true
  | .text, .text _ => true
  | .integer, .int _ => true
  | .zero, .int n => n == 0
  | .flag, .bool _ => true
  | .value, v => !v.isBranch
  | .tagged tags, v => v.isA tags
  | .either a b, v => a.accepts v || b.accepts v
  | _, _ => false

@[simp] lemma accepts_branch (v : Value) : Seat.branch.accepts v = v.isBranch := rfl

def symbolOr (tags : List Tag) : Seat := .either .symbol (.tagged tags)

/-- What stands among parameters. Nothing is left where a trailing comma implies a rest. -/
def parameter : Seat :=
  .either .nothing (symbolOr [.lasgn, .masgn, .kwarg, .forwardArgs, .shadow])

def blockHead : Seat :=
  .tagged [.call, .safeCall, .attrasgn, .safeAttrasgn, .superCall, .zsuperCall, .lambdaHead,
    .preexe, .postexe]

def acceptsEach : List Seat → List Value → Bool
  | [], [] => true
  | seat :: seats, v :: vs => seat.accepts v && acceptsEach seats vs
  | _, _ => false

end Seat

/-- The kids of an expression in order: first ones, any number of a sort within bounds, and last
ones. -/
structure Layout where
  front : List Seat
  repeated : Seat
  atLeast : Nat
  atMost : Option Nat
  back : List Seat
  deriving DecidableEq, Repr

namespace Layout

def exactly (seats : List Seat) : Layout := ⟨seats, .any, 0, some 0, []⟩

def upTo (seats : List Seat) (last : Seat) : Layout := ⟨seats, last, 0, some 1, []⟩

def atLeastThen (seats : List Seat) (count : Nat) (seat : Seat) : Layout :=
  ⟨seats, seat, count, none, []⟩

def between (first : List Seat) (count : Nat) (seat : Seat) (last : List Seat) : Layout :=
  ⟨first, seat, count, none, last⟩

def accepts (l : Layout) (kids : List Value) : Bool :=
  let rest := kids.drop l.front.length
  let count := rest.length - l.back.length
  Seat.acceptsEach l.front (kids.take l.front.length) && decide (l.atLeast ≤ count) &&
    l.atMost.all (decide <| count ≤ ·) && (rest.take count).all l.repeated.accepts &&
    Seat.acceptsEach l.back (rest.drop count)

end Layout

namespace Tag

open Seat Layout

/-- How the kids of an expression with this tag may be laid out. -/
def layouts : Tag → List Layout
  -- structure and literals
  | .block => [atLeastThen [] 2 branch]
  | .beginExpr | .definedTest | .toAry | .undefName => [exactly [branch]]
  | .nilLit | .trueLit | .falseLit | .selfRef | .redoJump | .retryJump | .forwardArgs
  | .lambdaHead | .preexe | .postexe => [exactly []]
  | .lit | .nthRef => [exactly [value]]
  | .str | .xstr => [exactly [text]]
  | .dstr | .dxstr | .dsym => [atLeastThen [text] 1 branch]
  | .dregx | .dregxOnce => [atLeastThen [text] 1 branch, between [text] 1 branch [integer]]
  | .evstr | .splat | .kwsplat | .blockPass | .zsuperCall => [upTo [] branch]
  | .array | .hash | .arglist | .superCall | .yieldCall => [atLeastThen [] 0 any]
  | .dot2 | .dot3 | .flip2 | .flip3 | .and | .or | .opAsgnOr | .opAsgnAnd | .ensure | .aliasName =>
    [exactly [branch, branch]]
  -- variables and assignments
  | .lvar | .ivar | .cvar | .gvar | .colon3 | .backRef | .kwrest => [exactly [symbol]]
  | .constant => [exactly [symbol], upTo [tagged [.colon2, .colon3]] branch]
  | .lasgn | .iasgn | .cvdecl | .cvasgn | .gasgn | .kwarg => [upTo [symbol] branch]
  | .cdecl => [upTo [symbolOr [.colon2, .colon3]] branch]
  | .colon2 => [exactly [branch, symbol]]
  | .opAsgn => [exactly [branch, symbol, branch]]
  | .opAsgn1 => [exactly [branch, tagged [.arglist], symbol, branch]]
  | .opAsgn2 | .safeOpAsgn2 => [exactly [branch, symbol, symbol, branch]]
  | .masgn => [upTo [tagged [.array]] branch, atLeastThen [] 0 (symbolOr [.masgn])]
  | .svalue => [exactly [any]]
  -- calls
  | .call | .safeCall | .attrasgn | .safeAttrasgn => [atLeastThen [branch, symbol] 0 any]
  | .iter => [upTo [blockHead, either zero (tagged [.args])] branch]
  | .args => [atLeastThen [] 0 parameter]
  | .shadow => [atLeastThen [] 0 symbol]
  | .matchLast => [exactly [tagged [.lit]]]
  | .match2 => [exactly [branch, any]]
  | .match3 => [exactly [any, branch]]
  -- control flow
  | .ifElse => [exactly [branch, branch, branch]]
  | .whileLoop | .untilLoop => [exactly [branch, branch, flag]]
  | .forLoop => [upTo [branch, branch] branch]
  | .caseOf => [between [branch] 0 (tagged [.whenClause, .inClause]) [branch]]
  | .whenClause | .resbody => [atLeastThen [tagged [.array]] 1 branch]
  | .inClause => [atLeastThen [branch] 1 branch]
  | .returnJump | .breakJump | .nextJump => [upTo [] any]
  | .rescue =>
    [between [] 1 (tagged [.resbody]) [], between [branch] 1 (tagged [.resbody]) [],
      between [] 1 (tagged [.resbody]) [branch], between [branch] 1 (tagged [.resbody]) [branch]]
  -- definitions
  | .defn => [atLeastThen [symbol, tagged [.args]] 1 branch]
  | .defs => [atLeastThen [branch, symbol, tagged [.args]] 1 branch]
  | .classDef => [atLeastThen [either symbol branch, branch] 0 branch]
  | .moduleDef => [atLeastThen [either symbol branch] 0 branch]
  | .sclass => [atLeastThen [branch] 0 branch]
  | .aliasGlobal => [exactly [symbol, symbol]]
  -- patterns
  | .arrayPat => [atLeastThen [branch] 0 (either symbol branch)]
  | .findPat => [between [branch, symbol] 0 branch [symbol]]
  | .hashPat => [atLeastThen [branch] 0 any]

def permits (tag : Tag) (kids : List Value) : Bool := tag.layouts.any (·.accepts kids)

end Tag

namespace Value

mutual

/-- Whether a value is a Ruby value or an expression, and so are all values inside it. -/
def conforms : Value → Bool
  | .scalar _ | .rational _ | .symbol (.text _) | .regexp (.text _) _ => true
  | .range first last excludeEnd => first.conforms && last.conforms && excludeEnd.conforms
  | .imaginary re im => re.conforms && im.conforms
  | .sexp tag kids _ _ => tag.permits kids && conformsAll kids
  | _ => false

def conformsAll : List Value → Bool
  | [] => true
  | v :: rest => v.conforms && conformsAll rest

end

lemma conformsAll_iff {vs : List Value} : conformsAll vs = true ↔ ∀ v ∈ vs, v.conforms = true := by
  induction vs with
  | nil => simp [conformsAll]
  | cons first rest ih => simp [conformsAll, ih]

lemma conforms_sexp {tag : Tag} {kids : List Value} {line maxLine : Json} :
    (Value.sexp tag kids line maxLine).conforms = true ↔
      tag.permits kids = true ∧ ∀ kid ∈ kids, kid.conforms = true := by
  simp [conforms, conformsAll_iff]

end Value

/-! ### Laying out kids -/

lemma Seat.length_eq_of_acceptsEach {seats : List Seat} {kids : List Value}
    (h : acceptsEach seats kids = true) : seats.length = kids.length := by
  induction seats generalizing kids with
  | nil => cases kids <;> simp_all [acceptsEach]
  | cons seat seats ih =>
    cases kids with
    | nil => cases h
    | cons kid kids =>
      simp only [acceptsEach, Bool.and_eq_true] at h
      simp [ih h.2]

namespace Layout

variable {l : Layout} {first middle last : List Value}

lemma accepts_append (hfirst : Seat.acceptsEach l.front first = true)
    (hmiddle : ∀ kid ∈ middle, l.repeated.accepts kid = true)
    (hlast : Seat.acceptsEach l.back last = true) (hleast : l.atLeast ≤ middle.length)
    (hmost : ∀ count, l.atMost = some count → middle.length ≤ count) :
    l.accepts (first ++ (middle ++ last)) = true := by
  have hfront := Seat.length_eq_of_acceptsEach hfirst
  have hback := Seat.length_eq_of_acceptsEach hlast
  have hcount : (middle ++ last).length - l.back.length = middle.length := by
    rw [List.length_append]
    omega
  have hbound : l.atMost.all (decide <| middle.length ≤ ·) = true := by
    cases hcase : l.atMost with
    | none => rfl
    | some count => simpa using hmost count hcase
  simp only [accepts, hfront, List.drop_left, List.take_left, hcount, hfirst, hlast, hleast,
    hbound, decide_true, Bool.true_and, Bool.and_true]
  simpa using hmiddle

end Layout

namespace Tag

open Seat Layout

variable {tag : Tag}

lemma permits_of_accepts {l : Layout} {kids : List Value} (hl : l ∈ tag.layouts)
    (hkids : l.accepts kids = true) : tag.permits kids = true :=
  List.any_eq_true.mpr ⟨l, hl, hkids⟩

lemma permits_args {kids : List Value} : Tag.args.permits kids = true ↔
    ∀ kid ∈ kids, Seat.parameter.accepts kid = true := by
  simp [permits, layouts, atLeastThen, Layout.accepts, Seat.acceptsEach]

lemma permits_block {kids : List Value} : Tag.block.permits kids = true ↔
    2 ≤ kids.length ∧ ∀ kid ∈ kids, kid.isBranch = true := by
  simp [permits, layouts, atLeastThen, Layout.accepts, Seat.acceptsEach, Seat.accepts]

end Tag

end RubySexp
