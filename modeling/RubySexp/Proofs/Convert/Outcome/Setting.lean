import RubySexp.Proofs.Convert.Outcome.Basic

/-!
# Outcomes: What a Rule Can Rely On

What the conversion of a tree yields is decided by its place. A rule is applied in a setting: the
conversion of the trees below yields what their places say. From this follow the outcomes of the
helpers that all rules share.
-/

namespace RubySexp

/-! ### What a place yields -/

def Value.Extends (r : Rigour) : Value → Prop
  | .sexp tag kids line maxLine =>
    ∀ extra, extra.Sits r .branch → (Value.sexp tag (kids ++ [extra]) line maxLine).IsExpression r
  | _ => False

inductive Yield where
  | expression
  | orNothing
  /-- Something that is taken apart. -/
  | items
  /-- An expression that takes the assigned value as one more kid. -/
  | target
  | seat (s : Seat)

def Yield.Meets (r : Rigour) : Yield → Value → Prop
  | .expression, v => v.IsExpression r
  | .orNothing, v => v.IsExpression r ∨ v = .nil
  | .items, v =>
    (r.sound = true → ∃ items, v.items = .ok items ∧ items ≠ []) ∧
      ∀ items, v.items = .ok items → ∀ kid ∈ items, kid.Sits r .any
  | .target, v => v.IsExpression r ∧ (r.assigned = true → v.Extends r)
  | .seat s, v => v.Sits r s

lemma Yield.meets_list {r : Rigour} {items : List Value} (hne : r.sound = true → items ≠ [])
    (h : ∀ v ∈ items, v.Sits r .any) : Yield.items.Meets r (.list items) :=
  ⟨fun hr => ⟨items, rfl, hne hr⟩, by rintro _ ⟨⟩; exact h⟩

lemma Yield.meets_items {r : Rigour} {v : Value} (h : v.IsExpression r) (hloose : r.sound = false) :
    Yield.items.Meets r v := by
  refine ⟨by simp [hloose], fun items hitems kid hkid => ?_⟩
  rcases h.cases with ⟨tag, kids, line, maxLine, rfl⟩ | ⟨-, rfl⟩
  · cases hitems
    rcases List.mem_cons.mp hkid with rfl | hkid
    · exact (Value.sits_symbol _).any
    · exact ⟨rfl, fun hr => (Value.conforms_sexp.mp (h.sits.conforms hr)).2 kid hkid⟩
  · cases hitems

namespace Role

/-- What the conversion of a tree in a place yields. Trees in the other places are taken apart and
never converted as a whole. -/
def yield : Role → Option Yield
  | .expression | .call => some .expression
  | .root | .topLevel | .block | .otherwise | .pairValue | .targetRest => some .orNothing
  | .arguments | .element => some .items
  | .caught => some .target
  | .parameters => some (.seat (.tagged [.args]))
  | .positional => some (.seat (.symbolOr [.masgn]))
  | .optionalParameter => some (.seat (.tagged [.lasgn]))
  | .parameterRest => some (.seat (.either .nothing .symbol))
  | .keyword => some (.seat (.tagged [.kwarg]))
  | .keywordRest => some (.seat (.symbolOr [.forwardArgs]))
  | .blockParameter | .blockLocal => some (.seat .symbol)
  | .clause => some (.seat (.tagged [.whenClause, .inClause]))
  | .constantPath => some (.seat (.tagged [.colon2, .colon3]))
  | .statements | .blockParameters | .positionalRest | .parameterName | .handler | .patternRest
  | .patternKeywordRest | .named => none

def isPositional : Role → Bool
  | .positional | .parameterRest => true
  | _ => false

end Role

namespace Convert

structure Setting (r : Rigour) (E : Fault → Prop) (n : Node) (conv : Conversion) : Prop where
  placed : r.placed = true
  place : Location.isNumbered n.location = true
  /-- Of a tree that is not strict every fault may occur. -/
  excuse : r.sound = false → ∀ e, E e
  /-- A kind without a conversion is a fault that may occur. -/
  unsupported : n.kind.isUnsupported = true → ∀ reason, E (unsupported (.ofNode n) reason)
  nothing : ∀ scope, conv scope .null = .ok .nil
  below : ∀ {scope role yield tree}, tree.Within n → tree.fits r role = true →
    role.yield = some yield → scope.inParameters = role.isPositional →
    Outcome E (yield.Meets r) (conv scope tree)
  /-- Numbered parameters are never converted. -/
  declared : ∀ {scope tree}, tree.Within n → tree.fits r .blockParameters = true →
    tree.isA .numberedParametersNode = false → scope.inParameters = false →
    Outcome E (fun v : Value => v.Sits r (.tagged [.args])) (conv scope tree)

variable {r : Rigour} {E : Fault → Prop} {n : Node} {conv : Conversion} {scope : Scope}
  {field : Field} {content : Content} {role : Role} {yield : Yield} {tree : Tree}

/-! ### Fields -/

lemma get_outcome {m : Node} (hm : (Tree.ofNode m).Under n) (h : m.Keeps r field content) :
    Outcome E (fun tree => tree.Within n ∧ tree.holds r content = true) (m.get field) := by
  obtain ⟨tree, hget, htree⟩ := h
  rw [hget]
  exact ⟨hm.get hget, htree⟩

lemma own_outcome (h : n.Keeps r field content) :
    Outcome E (fun tree => tree.Within n ∧ tree.holds r content = true) (n.get field) :=
  get_outcome (Tree.Under.refl n) h

lemma statements_error (conv : Conversion) (scope : Scope) {m : Node}
    (h : (Tree.ofNode m).fits r role = true) (hkind : m.kind ≠ .statementsNode) :
    ∃ e, statements conv scope (.ofNode m) = .error e := by
  have hunfold : statements conv scope (.ofNode m) =
      (m.get .body >>= convertAll conv scope) := rfl
  rw [hunfold]
  rcases Kind.lookup_body role hkind with hnone | ⟨place, hsome⟩
  · rw [Tree.get_error_of_fits h hnone]
    exact ⟨_, rfl⟩
  · obtain ⟨part, hget, hpart⟩ := Tree.exists_get_of_fits h hsome
    rw [hget]
    rcases Tree.null_or_fits_of_holds hpart with rfl | hfits
    · exact ⟨_, rfl⟩
    · obtain ⟨inner, rfl⟩ := Tree.eq_ofNode_of_fits hfits
      exact ⟨_, rfl⟩

namespace Setting

variable (S : Setting r E n conv)

include S

lemma loose {α : Type} (hr : r.sound = false) (x : Except Fault α) :
    Outcome E (fun _ => True) x := by
  cases x with
  | ok a => trivial
  | error e => exact S.excuse hr e

lemma optional (hw : tree.Within n) (h : tree.holds r (.optional role) = true)
    (hy : role.yield = some yield) (hs : scope.inParameters = role.isPositional) :
    Outcome E (fun v => v = .nil ∨ yield.Meets r v) (conv scope tree) := by
  rcases Tree.null_or_fits_of_holds h with rfl | hfits
  · rw [S.nothing]
    exact Or.inl rfl
  · exact (S.below hw hfits hy hs).mono fun v hv => Or.inr hv

lemma child (h : n.Keeps r field (.one role)) (hy : role.yield = some yield)
    (hs : scope.inParameters = role.isPositional) :
    Outcome E (yield.Meets r) (convertField conv scope n field) :=
  (own_outcome h).bind fun _ ht => S.below ht.1 ht.2 hy hs

lemma optionalChild (h : n.Keeps r field (.optional role)) (hy : role.yield = some yield)
    (hs : scope.inParameters = role.isPositional) :
    Outcome E (fun v => v = .nil ∨ yield.Meets r v) (convertField conv scope n field) :=
  (own_outcome h).bind fun _ ht => S.optional ht.1 ht.2 hy hs

lemma all (hw : tree.Within n) (h : tree.holds r content = true)
    (hitem : content.item? = some (.one role)) (hy : role.yield = some yield)
    (hs : scope.inParameters = role.isPositional) :
    Outcome E (fun vs => (content.mayBeEmpty r = true ∨ vs ≠ []) ∧ ∀ v ∈ vs, yield.Meets r v)
      (convertAll conv scope tree) := by
  obtain ⟨items, rfl, hempty, hitems⟩ := Tree.eq_tuple_of_holds h hitem
  have hall : ∀ part ∈ items, Outcome E (yield.Meets r) (conv scope part) := by
    intro part hpart
    obtain ⟨m, rfl⟩ := Tree.eq_ofNode_of_fits (hitems part hpart)
    exact S.below (hw.item hpart) (hitems _ hpart) hy hs
  refine (Outcome.mapM hall).mono fun vs hvs => ⟨hempty.imp_right fun hne => ?_, hvs.2⟩
  rwa [ne_eq, ← List.length_eq_zero_iff, hvs.1, List.length_eq_zero_iff]

lemma items (h : n.Keeps r field content) (hitem : content.item? = some (.one role))
    (hy : role.yield = some yield) (hs : scope.inParameters = role.isPositional) :
    Outcome E (fun vs => (content.mayBeEmpty r = true ∨ vs ≠ []) ∧ ∀ v ∈ vs, yield.Meets r v)
      (convertItems conv scope n field) :=
  (own_outcome h).bind fun _ ht => S.all ht.1 ht.2 hitem hy hs

lemma optionalItem (hw : tree.Within n) (h : tree.holds r (.optional role) = true)
    (hy : role.yield = some yield) (hs : scope.inParameters = role.isPositional) :
    Outcome E (fun vs => vs.length ≤ 1 ∧ ∀ v ∈ vs, yield.Meets r v)
      (convertIfPresent conv scope tree) := by
  rcases Tree.null_or_fits_of_holds h with rfl | hfits
  · exact atMostOne_nil _
  · simp only [convertIfPresent, Tree.isNull_of_fits hfits, Bool.false_eq_true, if_false]
    exact (S.below hw hfits hy hs).bind fun v hv => .pure (atMostOne_singleton hv)

lemma optionalItems (h : n.Keeps r field (.optional role)) (hy : role.yield = some yield)
    (hs : scope.inParameters = role.isPositional) :
    Outcome E (fun vs => vs.length ≤ 1 ∧ ∀ v ∈ vs, yield.Meets r v)
      (convertOptional conv scope n field) :=
  (own_outcome h).bind fun _ ht => S.optionalItem ht.1 ht.2 hy hs

/-! ### Expressions below the node -/

section Expressions

variable (hscope : scope.inParameters = false)

include hscope

lemma expression (h : n.Keeps r field (.one .expression)) :
    Outcome E (fun v : Value => v.IsExpression r) (convertField conv scope n field) :=
  S.child h rfl hscope

lemma branch (h : n.Keeps r field (.optional .expression)) :
    Outcome E (fun v : Value => v.Sits r .branch) (convertField conv scope n field) := by
  refine (S.optionalChild h rfl hscope).mono ?_
  rintro v (rfl | hv)
  · exact Value.sits_nil
  · exact Value.IsExpression.sits hv

lemma otherwise (h : n.Keeps r field (.optional .otherwise)) :
    Outcome E (fun v : Value => v.Sits r .branch) (convertField conv scope n field) := by
  refine (S.optionalChild h rfl hscope).mono ?_
  rintro v (rfl | hv | rfl)
  · exact Value.sits_nil
  · exact Value.IsExpression.sits hv
  · exact Value.sits_nil

lemma expressions (h : n.Keeps r field (.many .expression)) :
    Outcome E (fun vs => ∀ v ∈ vs, v.IsExpression r) (convertItems conv scope n field) :=
  (S.items h rfl rfl hscope).mono fun _ hvs => hvs.2

lemma ifPresent (h : n.Keeps r field (.optional .expression)) :
    Outcome E (fun vs => vs.length ≤ 1 ∧ ∀ v ∈ vs, v.Sits r .branch)
      (convertOptional conv scope n field) :=
  (S.optionalItems h rfl hscope).mono fun _ hvs =>
    ⟨hvs.1, fun v hv => Value.IsExpression.sits (hvs.2 v hv)⟩

omit hscope in
lemma takenApart {v : Value} (hv : Yield.items.Meets r v) :
    Outcome E (fun vs => (r.sound = true → vs ≠ []) ∧ ∀ v ∈ vs, v.Sits r .any) v.items := by
  cases hitems : v.items with
  | ok items =>
    refine ⟨fun hr => ?_, hv.2 items hitems⟩
    obtain ⟨items', hitems', hne⟩ := hv.1 hr
    cases hitems.symm.trans hitems'
    exact hne
  | error e =>
    refine S.excuse ?_ e
    by_contra hr
    obtain ⟨items, hitems', -⟩ := hv.1 (by simpa using hr)
    cases hitems.symm.trans hitems'

lemma arguments (hw : tree.Within n) (h : tree.holds r (.optional .arguments) = true) :
    Outcome E (fun vs => (r.sound = true → tree.isNull = false → vs ≠ []) ∧
      ∀ v ∈ vs, v.Sits r .any) (arguments conv scope tree) := by
  rcases Tree.null_or_fits_of_holds h with rfl | hfits
  · exact ⟨fun _ => nofun, nofun⟩
  · simp only [Convert.arguments, Tree.isNull_of_fits hfits, Bool.false_eq_true, if_false]
    refine (S.below hw hfits rfl hscope).bind fun v hv => (S.takenApart hv).mono ?_
    exact fun vs hvs => ⟨fun hr _ => hvs.1 hr, hvs.2⟩

/-! ### Bodies -/

lemma statements {m : Node} (hm : (Tree.ofNode m).Under n) (h : m.Keeps r .body content)
    (hitem : content.item? = some (.one .expression)) :
    Outcome E (fun vs => (content.mayBeEmpty r = true ∨ vs ≠ []) ∧ ∀ v ∈ vs, v.IsExpression r)
      (statements conv scope (.ofNode m)) :=
  (get_outcome hm h).bind fun _ ht => S.all ht.1 ht.2 hitem rfl hscope

lemma clauseBody (hw : tree.Within n) (h : tree.holds r (.optional .statements) = true) :
    Outcome E (fun vs => 1 ≤ vs.length ∧ ∀ v ∈ vs, v.Sits r .branch)
      (clauseBody conv scope tree) := by
  rcases Tree.null_or_fits_of_holds h with rfl | hfits
  · exact ⟨le_rfl, by simpa using Value.sits_nil⟩
  · obtain ⟨m, rfl⟩ := Tree.eq_ofNode_of_fits hfits
    by_cases hkind : m.kind = .statementsNode
    · have hbody : m.Keeps r .body (.filled .expression) :=
        Tree.exists_get_of_fits hfits (by rw [hkind]; rfl)
      refine (S.statements hscope hw.under hbody rfl).bind fun vs hvs => .pure ?_
      have hne : vs ≠ [] := hvs.1.resolve_left (by simp [Content.mayBeEmpty, S.placed])
      rw [if_neg (by simpa using hne)]
      exact ⟨List.length_pos_iff.mpr hne, fun v hv => (hvs.2 v hv).sits⟩
    · have hloose : r.sound = false := by
        have := (Tree.fits_node.mp hfits).1
        simp only [Rigour.admits, S.placed, Rigour.takes, beq_eq_false_iff_ne.mpr hkind] at this
        simp_all
      obtain ⟨e, he⟩ := statements_error conv scope hfits hkind
      rw [Convert.clauseBody, he]
      exact S.excuse hloose e

lemma block (h : n.Keeps r .body content) (hitem : content.item? = some (.one .expression)) :
    Outcome E (fun v => v.IsExpression r ∨ content.mayBeEmpty r = true ∧ v = .nil)
      (block conv scope (.ofNode n)) := by
  refine (S.statements hscope (.refl n) h hitem).bind fun vs hvs => ?_
  rcases vs with _ | ⟨first, _ | ⟨second, rest⟩⟩
  · exact .pure (Or.inr ⟨hvs.1.resolve_right (by simp), rfl⟩)
  · exact .pure (Or.inl (hvs.2 first (by simp)))
  · refine .build S.place fun line maxLine => Or.inl ?_
    exact Value.isExpression_atLeast .block rfl [] (first :: second :: rest) trivial (by simp)
      (fun v hv => (hvs.2 v hv).sits) line maxLine

end Expressions

end Setting

end Convert

end RubySexp
