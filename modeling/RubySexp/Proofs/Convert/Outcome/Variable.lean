import RubySexp.Proofs.Convert.Outcome.Literal

/-!
# Outcomes of Variables and Constants
-/

namespace RubySexp.Convert

variable {r : Rigour} {E : Fault → Prop} {n : Node} {conv : Conversion} {scope : Scope}
  {field : Field} {tree : Tree}

lemma isExpression_read (sort : Variable) {label : Value} (h : label.Sits r .symbol) :
    ∀ line maxLine, (Value.sexp sort.readTag [label] line maxLine).IsExpression r := by
  cases sort with
  | localVar => exact Value.isExpression_exactly .lvar rfl ⟨h, trivial⟩
  | instanceVar => exact Value.isExpression_exactly .ivar rfl ⟨h, trivial⟩
  | classVar => exact Value.isExpression_exactly .cvar rfl ⟨h, trivial⟩
  | globalVar => exact Value.isExpression_exactly .gvar rfl ⟨h, trivial⟩
  | constant =>
    intro line maxLine
    have hlayout : Layout.exactly [.symbol] ∈ Tag.constant.ownLayouts := by decide
    exact Value.isExpression_layout hlayout [label] [] [] ⟨h, trivial⟩ nofun trivial le_rfl
      (fun _ _ => Nat.zero_le _) line maxLine

lemma isExpression_write (sort : Variable) (scope : Scope) {label : Value} (more : List Value)
    (h : label.Sits r .symbol) (hmore : more.length ≤ 1 ∧ ∀ kid ∈ more, kid.Sits r .branch) :
    ∀ line maxLine,
      (Value.sexp (sort.writeTag scope) ([label] ++ more) line maxLine).IsExpression r := by
  cases sort with
  | localVar => exact Value.isExpression_upTo .lasgn rfl [label] more ⟨h, trivial⟩ hmore
  | instanceVar => exact Value.isExpression_upTo .iasgn rfl [label] more ⟨h, trivial⟩ hmore
  | classVar =>
    simp only [Variable.writeTag]
    split
    · exact Value.isExpression_upTo .cvasgn rfl [label] more ⟨h, trivial⟩ hmore
    · exact Value.isExpression_upTo .cvdecl rfl [label] more ⟨h, trivial⟩ hmore
  | globalVar => exact Value.isExpression_upTo .gasgn rfl [label] more ⟨h, trivial⟩ hmore
  | constant => exact Value.isExpression_upTo .cdecl rfl [label] more ⟨h.left, trivial⟩ hmore

lemma implicitList_outcome {m : Node} {v : Value} (hw : (Tree.ofNode m).Within n)
    (hplace : Location.isNumbered m.location = true)
    (h : m.Keeps r .elements (.many .expression)) (hv : v.Sits r .branch) :
    Outcome E (fun v : Value => v.Sits r .branch) (implicitList m v) := by
  refine (get_outcome hw.under h).bind fun tree ht => ?_
  obtain ⟨items, rfl, -, -⟩ := Tree.eq_tuple_of_holds ht.2 rfl
  refine Outcome.mono (P := fun v : Value => v.IsExpression r) (.build hplace ?_) fun _ h => h.sits
  refine Value.isExpression_exactly .svalue rfl ⟨⟨rfl, fun hr => ?_⟩, trivial⟩
  have hconforms := hv.conforms hr
  split
  · split
    · exact (Value.conforms_sexp.mp hconforms).2 _ (by simp)
    · exact hconforms
  · exact hconforms

namespace Setting

variable (S : Setting r E n conv)

include S

lemma variableRead (sort : Variable) (h : n.Keeps r .name .text) :
    Outcome E (fun v : Value => v.IsExpression r) (variableRead n sort) :=
  (nameIn_outcome h).bind fun _ hv => .build S.place (isExpression_read sort hv)

lemma variableTarget (sort : Variable) (h : n.Keeps r .name .text) :
    Outcome E (Yield.target.Meets r) (variableTarget scope n sort) := by
  refine (nameIn_outcome h).bind fun label hv => ?_
  refine .build S.place fun line maxLine => ⟨?_, fun _ extra hextra => ?_⟩
  · exact isExpression_write sort scope [] hv (atMostOne_nil _) line maxLine
  · exact isExpression_write sort scope [extra] hv (atMostOne_singleton hextra) line maxLine

lemma localRead (h : n.Keeps r .name .text) :
    Outcome E (fun v : Value => v.IsExpression r) (localRead n) := by
  refine (own_outcome h).bind fun tree ht => ?_
  obtain ⟨label, rfl⟩ := Tree.eq_text_of_holds ht.2
  simp only
  split
  · exact .build S.place (Value.isExpression_atLeast .call rfl [.nil, .sym label] []
      ⟨Value.sits_nil, Value.sits_symbol label, trivial⟩ le_rfl nofun)
  · exact S.variableRead .localVar h

lemma backReference (h : n.Keeps r .name .name) :
    Outcome E (fun v : Value => v.IsExpression r) (backReference n) := by
  refine (own_outcome h).bind fun tree ht => ?_
  obtain ⟨label, rfl, hne⟩ := Tree.eq_name_of_holds ht.2
  cases hlast : label.toList.getLast? with
  | some c =>
    simp only [hlast]
    exact .build S.place
      (Value.isExpression_exactly .backRef rfl ⟨Value.sits_symbol _, trivial⟩)
  | none =>
    simp only [hlast]
    refine S.excuse ?_ _
    by_contra hr
    refine hne (by simpa using hr) ?_
    simpa using hlast

variable (hscope : scope.inParameters = false)

include hscope

/-! ### Assigned values -/

lemma assignedValue (hw : tree.Within n) (h : tree.fits r .expression = true) :
    Outcome E (fun v : Value => v.Sits r .branch) (assignedValue conv scope tree) := by
  refine (S.below hw h rfl hscope).bind fun v hv => ?_
  have hv : v.Sits r .branch := Value.IsExpression.sits hv
  obtain ⟨m, rfl⟩ := Tree.eq_ofNode_of_fits h
  by_cases hkind : m.kind = .arrayNode
  · have hopening : m.Keeps r .openingLoc .place :=
      Tree.exists_get_of_fits h (by rw [hkind]; rfl)
    have helements : m.Keeps r .elements (.many .expression) :=
      Tree.exists_get_of_fits h (by rw [hkind]; rfl)
    have hbeq : (m.kind == .arrayNode) = true := by simp [hkind]
    simp only [Tree.asNode?, Tree.ofNode, hbeq, if_true]
    refine (get_outcome hw.under hopening).bind fun opening _ => ?_
    split
    · exact implicitList_outcome hw (Tree.fits_node.mp h).2.1 helements hv
    · exact .pure hv
  · simp only [Tree.asNode?, Tree.ofNode, beq_eq_false_iff_ne.mpr hkind, Bool.false_eq_true,
      if_false]
    exact .pure hv

lemma assignedField (h : n.Keeps r .value (.one .expression)) {f : Value → Except Fault Value}
    (hf : ∀ v, v.Sits r .branch → Outcome E (fun v : Value => v.IsExpression r) (f v)) :
    Outcome E (fun v : Value => v.IsExpression r)
      (n.get .value >>= fun tree => Convert.assignedValue conv scope tree >>= f) :=
  (own_outcome h).bind fun _ ht => (S.assignedValue hscope ht.1 ht.2).bind hf

/-! ### Assignments -/

lemma variableWrite (sort : Variable) (hname : n.Keeps r .name .text)
    (hvalue : n.Keeps r .value (.one .expression)) :
    Outcome E (fun v : Value => v.IsExpression r) (variableWrite conv scope n sort) :=
  (nameIn_outcome hname).bind fun _ hl => S.assignedField hscope hvalue fun v hv =>
    .build S.place (isExpression_write sort scope [v] hl (atMostOne_singleton hv))

lemma variableLogicWrite {tag : Tag} (htag : tag = .opAsgnOr ∨ tag = .opAsgnAnd) (sort : Variable)
    (hname : n.Keeps r .name .text) (hvalue : n.Keeps r .value (.one .expression)) :
    Outcome E (fun v : Value => v.IsExpression r) (variableLogicWrite conv scope n tag sort) := by
  refine (nameIn_outcome hname).bind fun label hl => .build_bind S.place fun line maxLine => ?_
  refine (S.expression hscope hvalue).bind fun v hv => .build_bind S.place fun line' maxLine' => ?_
  have hread := (isExpression_read sort hl line maxLine).sits
  have hwrite :=
    (isExpression_write sort scope [v] hl (atMostOne_singleton hv.sits) line' maxLine').sits
  rcases htag with rfl | rfl
  · exact .build S.place (Value.isExpression_exactly .opAsgnOr rfl ⟨hread, hwrite, trivial⟩)
  · exact .build S.place (Value.isExpression_exactly .opAsgnAnd rfl ⟨hread, hwrite, trivial⟩)

lemma variableOperatorWrite (sort : Variable) (hname : n.Keeps r .name .text)
    (hoperator : n.Keeps r .binaryOperator .text) (hvalue : n.Keeps r .value (.one .expression)) :
    Outcome E (fun v : Value => v.IsExpression r) (variableOperatorWrite conv scope n sort) := by
  refine (nameIn_outcome hname).bind fun label hl => .build_bind S.place fun line maxLine => ?_
  refine (nameIn_outcome hoperator).bind fun operator ho => ?_
  refine (S.expression hscope hvalue).bind fun v hv => .build_bind S.place fun line' maxLine' => ?_
  have hread := (isExpression_read sort hl line maxLine).sits
  have hcall := Value.isExpression_atLeast .call rfl [_, operator] [v] ⟨hread, ho, trivial⟩
    (Nat.zero_le _) (by simpa using hv.sits.any) line' maxLine'
  exact .build S.place (isExpression_write sort scope [_] hl (atMostOne_singleton hcall.sits))

/-! ### Paths of constants -/

lemma constantPath (hparent : n.Keeps r .parent (.optional .expression))
    (hname : n.Keeps r .name .text) :
    Outcome E (fun v : Value => v.IsExpression r ∧ v.isA [.colon2, .colon3] = true)
      (constantPath conv scope n) := by
  refine (own_outcome hparent).bind fun tree ht => ?_
  rcases Tree.null_or_fits_of_holds ht.2 with rfl | hfits
  · refine (nameIn_outcome hname).bind fun label hl => .build S.place fun _ _ => ⟨?_, rfl⟩
    have hkids : Value.SitEach r [.symbol] [label] := ⟨hl, trivial⟩
    exact Value.isExpression_exactly .colon3 rfl hkids _ _
  · simp only [Tree.isNull_of_fits hfits, Bool.false_eq_true, if_false]
    refine (S.below ht.1 hfits rfl hscope).bind fun outer houter => ?_
    refine (nameIn_outcome hname).bind fun label hl => .build S.place fun _ _ => ⟨?_, rfl⟩
    have hkids : Value.SitEach r [.branch, .symbol] [outer, label] :=
      ⟨Value.IsExpression.sits houter, hl, trivial⟩
    exact Value.isExpression_exactly .colon2 rfl hkids _ _

lemma constantPathTarget (hparent : n.Keeps r .parent (.optional .expression))
    (hname : n.Keeps r .name .text) :
    Outcome E (Yield.target.Meets r)
      (do build n.location .constant [← Convert.constantPath conv scope n]) := by
  refine (S.constantPath hscope hparent hname).bind fun path hpath => ?_
  have hseat : path.Sits r (.tagged [.colon2, .colon3]) := ⟨hpath.2, hpath.1.sits.conforms⟩
  have htarget : ∀ more : List Value, (more.length ≤ 1 ∧ ∀ kid ∈ more, kid.Sits r .branch) →
      ∀ line maxLine, (Value.sexp .constant ([path] ++ more) line maxLine).IsExpression r := by
    intro more hmore line maxLine
    have hlayout : Layout.upTo [.tagged [.colon2, .colon3]] .branch ∈ Tag.constant.ownLayouts := by
      decide
    have := Value.isExpression_layout hlayout [path] more [] ⟨hseat, trivial⟩ hmore.2 trivial
      (Nat.zero_le _) (by rintro _ ⟨⟩; exact hmore.1) line maxLine
    rwa [List.append_nil] at this
  refine .build S.place fun line maxLine => ⟨?_, fun _ extra hextra => ?_⟩
  · exact htarget [] (atMostOne_nil _) line maxLine
  · exact htarget [extra] (atMostOne_singleton hextra) line maxLine

lemma constantPathWrite (htarget : n.Keeps r .target (.one .constantPath))
    (hvalue : n.Keeps r .value (.one .expression)) :
    Outcome E (fun v : Value => v.IsExpression r) (constantPathWrite conv scope n) :=
  (S.child htarget rfl hscope).bind fun target ht => S.assignedField hscope hvalue fun v hv =>
    .build S.place (Value.isExpression_upTo .cdecl rfl [target] [v] ⟨.right ht, trivial⟩
      (atMostOne_singleton hv))

lemma constantPathLogicWrite {tag : Tag} (htag : tag = .opAsgnOr ∨ tag = .opAsgnAnd)
    (htarget : n.Keeps r .target (.one .constantPath))
    (hvalue : n.Keeps r .value (.one .expression)) :
    Outcome E (fun v : Value => v.IsExpression r) (constantPathLogicWrite conv scope n tag) := by
  refine (S.child htarget rfl hscope).bind fun target ht => ?_
  refine (S.expression hscope hvalue).bind fun v hv => ?_
  have htarget : target.Sits r .branch := .branch ht
  rcases htag with rfl | rfl
  · exact .build S.place (Value.isExpression_exactly .opAsgnOr rfl ⟨htarget, hv.sits, trivial⟩)
  · exact .build S.place (Value.isExpression_exactly .opAsgnAnd rfl ⟨htarget, hv.sits, trivial⟩)

lemma constantPathOperatorWrite (htarget : n.Keeps r .target (.one .constantPath))
    (hoperator : n.Keeps r .binaryOperator .text) (hvalue : n.Keeps r .value (.one .expression)) :
    Outcome E (fun v : Value => v.IsExpression r) (constantPathOperatorWrite conv scope n) := by
  refine (S.child htarget rfl hscope).bind fun target ht => ?_
  refine (nameIn_outcome hoperator).bind fun operator ho => ?_
  refine (S.expression hscope hvalue).bind fun v hv => .build S.place ?_
  have htarget : target.Sits r .branch := .branch ht
  exact Value.isExpression_exactly .opAsgn rfl ⟨htarget, ho, hv.sits, trivial⟩

end Setting

end RubySexp.Convert
