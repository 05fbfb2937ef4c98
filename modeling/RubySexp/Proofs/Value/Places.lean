import Mathlib.Tactic
import RubySexp.Value.Basic

/-!
# Where Expressions Stand

Every expression in a value has two lines, and these can be the lines of one place in a source. A
value comes from some places if this holds of all expressions in it, whatever they stand in.
-/

namespace RubySexp

def Sexp.StandsAt (s : Sexp) (l : Location) : Prop := s.line = l.startLine ∧ s.maxLine = l.endLine

namespace Value

mutual

/-- The expressions at and below a value, whatever they stand in. -/
@[simp] def sexps : Value → List Sexp
  | .sexp tag kids line maxLine => ⟨tag, kids, line, maxLine⟩ :: sexpsOf kids
  | .range first last excludeEnd => sexps first ++ (sexps last ++ sexps excludeEnd)
  | .imaginary re im => sexps re ++ sexps im
  | .list items | .tuple items => sexpsOf items
  | .mapping entries => sexpsOfEntries entries
  | .scalar _ | .rational _ | .symbol _ | .regexp .. | .span _ | .node _ => []

@[simp] def sexpsOf : List Value → List Sexp
  | [] => []
  | v :: vs => sexps v ++ sexpsOf vs

@[simp] def sexpsOfEntries : List (String × Value) → List Sexp
  | [] => []
  | (_, v) :: rest => sexps v ++ sexpsOfEntries rest

end

/-- Every expression in a value has the lines of one of the places. -/
def ComesFrom (places : Location → Prop) (v : Value) : Prop :=
  ∀ s ∈ v.sexps, ∃ l, places l ∧ s.StandsAt l

variable {places : Location → Prop}

lemma mem_sexpsOf {vs : List Value} {s : Sexp} : s ∈ sexpsOf vs ↔ ∃ v ∈ vs, s ∈ v.sexps := by
  induction vs with
  | nil => simp
  | cons v vs ih => simp [ih]

lemma forall_mem_sexpsOf {vs : List Value} {Q : Sexp → Prop} :
    (∀ s ∈ sexpsOf vs, Q s) ↔ ∀ v ∈ vs, ∀ s ∈ v.sexps, Q s := by
  constructor
  · intro h v hv s hs
    exact h s (mem_sexpsOf.mpr ⟨v, hv, hs⟩)
  · intro h s hs
    obtain ⟨v, hv, hs⟩ := mem_sexpsOf.mp hs
    exact h v hv s hs

@[simp] lemma comesFrom_sexp {tag : Tag} {kids : List Value} {line maxLine : Json} :
    (Value.sexp tag kids line maxLine).ComesFrom places ↔
      (∃ l, places l ∧ line = l.startLine ∧ maxLine = l.endLine) ∧
        ∀ kid ∈ kids, kid.ComesFrom places := by
  simp only [ComesFrom, sexps, List.forall_mem_cons, forall_mem_sexpsOf, Sexp.StandsAt]

@[simp] lemma comesFrom_list {items : List Value} :
    (Value.list items).ComesFrom places ↔ ∀ item ∈ items, item.ComesFrom places := by
  simp only [ComesFrom, sexps, forall_mem_sexpsOf]

@[simp] lemma comesFrom_tuple {items : List Value} :
    (Value.tuple items).ComesFrom places ↔ ∀ item ∈ items, item.ComesFrom places := by
  simp only [ComesFrom, sexps, forall_mem_sexpsOf]

@[simp] lemma comesFrom_imaginary {re im : Value} :
    (Value.imaginary re im).ComesFrom places ↔ re.ComesFrom places ∧ im.ComesFrom places := by
  simp only [ComesFrom, sexps, List.forall_mem_append]

@[simp] lemma comesFrom_range {first last excludeEnd : Value} :
    (Value.range first last excludeEnd).ComesFrom places ↔
      first.ComesFrom places ∧ last.ComesFrom places ∧ excludeEnd.ComesFrom places := by
  simp only [ComesFrom, sexps, List.forall_mem_append]

lemma comesFrom_of_sexps {v : Value} (h : v.sexps = []) : v.ComesFrom places := by
  simp [ComesFrom, h]

@[simp] lemma comesFrom_scalar (s : Scalar) : (Value.scalar s).ComesFrom places :=
  comesFrom_of_sexps (by simp)

@[simp] lemma comesFrom_rational (q : Rat) : (Value.rational q).ComesFrom places :=
  comesFrom_of_sexps (by simp)

@[simp] lemma comesFrom_symbol (name : Tree) : (Value.symbol name).ComesFrom places :=
  comesFrom_of_sexps (by simp)

@[simp] lemma comesFrom_regexp (source : Tree) (options : Nat) :
    (Value.regexp source options).ComesFrom places :=
  comesFrom_of_sexps (by simp)

mutual

lemma sexps_toValue : ∀ tree : Tree, tree.toValue.sexps = []
  | .scalar _ | .span _ | .node .. => by simp [Tree.toValue]
  | .tuple items => by simp [Tree.toValue, sexpsOf_toValues items]

lemma sexpsOf_toValues : ∀ items : List Tree, sexpsOf (Tree.toValues items) = []
  | [] => by simp [Tree.toValues]
  | item :: rest => by simp [Tree.toValues, sexps_toValue item, sexpsOf_toValues rest]

end

mutual

lemma sexps_ofJson : ∀ data : Json, data.toValue.sexps = []
  | .scalar _ => by simp [Json.toValue]
  | .array items => by simp [Json.toValue, sexpsOf_ofJson items]
  | .object entries => by simp [Json.toValue, sexpsOfEntries_ofJson entries]

lemma sexpsOf_ofJson : ∀ items : List Json, sexpsOf (Json.toValues items) = []
  | [] => by simp [Json.toValues]
  | item :: rest => by simp [Json.toValues, sexps_ofJson item, sexpsOf_ofJson rest]

lemma sexpsOfEntries_ofJson : ∀ entries : List (String × Json),
    sexpsOfEntries (Json.toEntries entries) = []
  | [] => by simp [Json.toEntries]
  | (key, data) :: rest => by
    simp [Json.toEntries, sexps_ofJson data, sexpsOfEntries_ofJson rest]

end

@[simp] lemma comesFrom_toValue (tree : Tree) : tree.toValue.ComesFrom places :=
  comesFrom_of_sexps (sexps_toValue tree)

@[simp] lemma comesFrom_ofJson (data : Json) : data.toValue.ComesFrom places :=
  comesFrom_of_sexps (sexps_ofJson data)

lemma comesFrom_everywhere (v : Value) : v.ComesFrom fun _ => True :=
  fun s _ => ⟨{ startLine := s.line, endLine := s.maxLine }, trivial, rfl, rfl⟩

/-- An expression on the first line of a source. -/
def atTop (tag : Tag) (kids : List Value) : Value :=
  .sexp tag kids (.scalar (.int 1)) (.scalar (.int 1))

end Value

/-- A node on the first line of a source. -/
def Tree.atTop (kind : Kind) (fields : List (Field × Tree)) : Tree :=
  .node kind (some {}) fields

end RubySexp
