import RubySexp.Value.Basic

namespace RubySexp

/-!
# Equality of Values

Two notions. Plain equality compares numbers by the quantity they stand for, so that an integer
and a float can be equal. Inside an expression, and between the parts of an imaginary number, the
type counts as well: `s(:lit, 1)` and `s(:lit, 1.0)` are different. Lines never count.
-/

namespace Value

/-- The quantity of a number. -/
def quantity? : Value → Option Quantity
  | .scalar s => s.quantity?
  | .rational q => some (.exact q)
  | _ => none

/-- Whether two values are of one type. Nodes are of one type if they are of one kind. -/
def sameType : Value → Value → Bool
  | .scalar a, .scalar b => a.typeName == b.typeName
  | .rational _, .rational _ => true
  | .symbol _, .symbol _ => true
  | .range .., .range .. => true
  | .regexp .., .regexp .. => true
  | .imaginary .., .imaginary .. => true
  | .sexp .., .sexp .. => true
  | .list _, .list _ => true
  | .tuple _, .tuple _ => true
  | .mapping _, .mapping _ => true
  | .span _, .span _ => true
  | .node a, .node b => a.kind == b.kind
  | _, _ => false

/-- The value of a key. -/
def lookup? (key : String) (entries : List (String × Value)) : Option Value :=
  (entries.find? (·.1 == key)).map (·.2)

mutual

/-- Plain equality. -/
def same : Value → Value → Bool
  | .scalar a, .scalar b => a.same b
  | .symbol a, .symbol b => a.same b
  | .range a b c, .range a' b' c' => same a a' && same b b' && same c c'
  | .regexp a m, .regexp b n => a.same b && m == n
  | .imaginary a b, .imaginary a' b' =>
    (sameType a a' && same a a') && (sameType b b' && same b b')
  | .sexp t kids _ _, .sexp t' kids' _ _ => t == t' && sameKids kids kids'
  | .list a, .list b => sameItems a b
  | .tuple a, .tuple b => sameItems a b
  | .mapping a, .mapping b => a.length == b.length && sameEntries a b
  | .span a, .span b => a.same b
  | .node a, .node b => (Tree.ofNode a).same (Tree.ofNode b)
  | a, b =>
    match a.quantity?, b.quantity? with
    | some p, some q => p.same q
    | _, _ => false
termination_by structural a => a

def sameItems : List Value → List Value → Bool
  | [], [] => true
  | a :: as, b :: bs => same a b && sameItems as bs
  | _, _ => false
termination_by structural as => as

/-- Equality of the kids of two expressions, in which the types count. -/
def sameKids : List Value → List Value → Bool
  | [], [] => true
  | a :: as, b :: bs => (sameType a b && same a b) && sameKids as bs
  | _, _ => false
termination_by structural as => as

/-- Whether each entry of the first list is in the second. -/
def sameEntries : List (String × Value) → List (String × Value) → Bool
  | [], _ => true
  | (key, a) :: rest, others =>
    (match lookup? key others with
    | some b => same a b
    | none => false) && sameEntries rest others
termination_by structural entries => entries

end

/-- Whether JSON data can be part of a key: arrays and objects cannot. -/
def isKeyData : Json → Bool
  | .scalar _ => true
  | .array _ | .object _ => false

mutual

/-- Whether the content of a field can be part of a key. -/
def isKeyTree : Tree → Bool
  | .scalar _ => true
  | .tuple items => isKeyTrees items
  | .span l => l.components.all isKeyData
  | .node _ location fields =>
    (location.all fun l => l.components.all isKeyData) && isKeyFields fields

def isKeyTrees : List Tree → Bool
  | [] => true
  | item :: rest => isKeyTree item && isKeyTrees rest

def isKeyFields : List (Field × Tree) → Bool
  | [] => true
  | (_, tree) :: rest => isKeyTree tree && isKeyFields rest

end

mutual

/-- Whether a value can be a key of a table: it holds no list and no mapping. -/
def isKey : Value → Bool
  | .scalar _ | .rational _ => true
  | .symbol name => isKeyTree name
  | .range first last excludeEnd => isKey first && isKey last && isKey excludeEnd
  | .regexp source _ => isKeyTree source
  | .imaginary re im => isKey re && isKey im
  | .sexp _ kids _ _ => areKeys kids
  | .list _ | .mapping _ => false
  | .tuple items => areKeys items
  | .span l => l.components.all isKeyData
  | .node n => isKeyTree (Tree.ofNode n)

def areKeys : List Value → Bool
  | [] => true
  | item :: rest => isKey item && areKeys rest

end

/-- For each value the index of the first value that is equal to it. -/
def groups (values : List Value) : Except Fault (List Nat) :=
  if values.all isKey then
    .ok (values.zipIdx.map fun (v, i) => ((values.take i).findIdx? (same · v)).getD i)
  else .error .wrongType

/-- Sum of two numbers, or what two texts or two sequences make when put together. -/
def join (a b : Value) : Except Fault Value :=
  match a, b with
  | .text s, .text t => .ok (.text (s ++ t))
  | .scalar (.float x), .scalar (.float y) => .ok (.scalar (.float (x + y)))
  | .scalar (.float x), .scalar s => do return .scalar (.float (x + (← floatOf (← whole s))))
  | .scalar s, .scalar (.float y) => do return .scalar (.float ((← floatOf (← whole s)) + y))
  | .scalar s, .scalar t => do return .int ((← whole s) + (← whole t))
  | a, b => do
    match a, b with
    | .list _, _ | _, .list _ => .error .wrongType
    | _, _ => return .tuple ((← a.items) ++ (← b.items))
where
  /-- An integer; truth values count as 0 and 1. -/
  whole : Scalar → Except Fault Int
    | .int n => .ok n
    | .bool b => .ok (if b then 1 else 0)
    | _ => .error .wrongType
  /-- The float nearest to an integer, if it is finite. -/
  floatOf (n : Int) : Except Fault Float :=
    let x := Binary64.ofDecimal (n < 0) n.natAbs 0
    match Binary64.ofFloat x with
    | .infinity _ => .error .tooLarge
    | _ => .ok x

end Value

end RubySexp
