import Mathlib.Tactic
import RubySexp.Value.Basic

/-!
# Induction over Expressions

What holds of every value that is no expression, and of an expression whenever it holds of its
kids, holds of every value. Lists and other data inside a value are not entered.
-/

namespace RubySexp.Value

mutual

theorem sexpInduction {motive : Value → Prop} (atom : ∀ v, v.asSexp? = none → motive v)
    (sexp : ∀ tag kids line maxLine, (∀ kid ∈ kids, motive kid) →
      motive (.sexp tag kids line maxLine)) : ∀ v, motive v
  | .sexp tag kids line maxLine =>
    sexp tag kids line maxLine (sexpInductionKids atom sexp kids)
  | .scalar _ | .rational _ | .symbol _ | .range .. | .regexp .. | .imaginary ..
  | .list _ | .tuple _ | .mapping _ | .span _ | .node _ => atom _ rfl

theorem sexpInductionKids {motive : Value → Prop} (atom : ∀ v, v.asSexp? = none → motive v)
    (sexp : ∀ tag kids line maxLine, (∀ kid ∈ kids, motive kid) →
      motive (.sexp tag kids line maxLine)) : ∀ kids : List Value, ∀ kid ∈ kids, motive kid
  | [] => List.forall_mem_nil _
  | first :: rest =>
    List.forall_mem_cons.mpr
      ⟨sexpInduction atom sexp first, sexpInductionKids atom sexp rest⟩

end

end RubySexp.Value
