import RubySexp.Proofs.Convert.Outcome.Target

/-!
# Outcomes of Patterns
-/

namespace RubySexp.Convert

variable {r : Rigour} {E : Fault → Prop} {n : Node} {conv : Conversion} {scope : Scope}
  {tree : Tree}

namespace Setting

variable (S : Setting r E n conv) (hscope : scope.inParameters = false)

include S

/-! ### Rests -/

lemma patternRest (hw : tree.Within n) (h : tree.fits r .patternRest = true) :
    Outcome E (fun v : Value => v.Sits r .symbol) (patternRest tree) := by
  unfold Convert.patternRest
  split
  · next hkind =>
    obtain ⟨m, rfl⟩ := Tree.eq_ofNode_of_fits h
    have hexpression : m.Keeps r .expression (.optional .named) :=
      Tree.exists_get_of_fits h (by rw [Tree.kind_of_isA hkind]; rfl)
    refine (get_outcome hw.under hexpression).bind fun expression he => ?_
    rcases Tree.null_or_fits_of_holds he.2 with rfl | hfits
    · exact .pure (Value.sits_symbol _)
    · simp only [Tree.isNull_of_fits hfits, Bool.false_eq_true, if_false]
      exact markedName ['*'] ((S.name hfits).mono fun _ _ => trivial)
  · exact .pure (Value.sits_symbol _)

lemma patternKeywordValue (h : tree.fits r .patternKeywordRest = true)
    (hkind : tree.isA .noKeywordsParameterNode = false) :
    Outcome E (fun value : Tree => value.isNull = false →
      Outcome E (fun _ => True) (value.get .name)) (tree.get .value) := by
  obtain ⟨m, rfl⟩ := Tree.eq_ofNode_of_fits h
  by_cases hr : r.sound = true
  · have hkind : m.kind = .assocSplatNode := by
      have hkind : m.kind ≠ .noKeywordsParameterNode := by simpa [Tree.isA, Tree.ofNode] using hkind
      simpa [Rigour.admits, S.placed, Rigour.takes, hr, hkind] using (Tree.fits_node.mp h).1
    have hvalue : m.Keeps r .value (.optional .named) :=
      Tree.exists_get_of_fits h (by rw [hkind]; rfl)
    obtain ⟨value, hget, hvalue⟩ := hvalue
    have hget : (Tree.ofNode m).get .value = .ok value := hget
    rw [hget]
    intro hnull
    rcases Tree.null_or_fits_of_holds hvalue with rfl | hfits
    · cases hnull
    · exact (S.name hfits).mono fun _ _ => trivial
  · have hr : r.sound = false := by simpa using hr
    exact (S.loose hr _).mono fun value _ _ => S.loose hr _

lemma patternKeywordRest (h : tree.fits r .patternKeywordRest = true) :
    Outcome E (fun v : Value => v.IsExpression r) (patternKeywordRest tree) := by
  have hplace := Tree.isNumbered_of_fits h
  have hrest : ∀ {label : Value}, label.Sits r .symbol →
      Outcome E (fun v : Value => v.IsExpression r) (build tree.location? .kwrest [label]) :=
    fun hl => .build hplace (Value.isExpression_exactly .kwrest rfl ⟨hl, trivial⟩)
  unfold Convert.patternKeywordRest
  split
  · exact hrest (Value.sits_symbol _)
  · next hkind =>
    refine (S.patternKeywordValue h (by simpa using hkind)).bind fun value hv => ?_
    split
    · exact hrest (Value.sits_symbol _)
    · next hnull =>
      exact (markedName ['*', '*'] (hv (by simpa using hnull))).bind fun _ hl => hrest hl

/-! ### Patterns and clauses -/

include hscope

lemma inClause (hpattern : n.Keeps r .pattern (.one .expression))
    (hbody : n.Keeps r .statements (.optional .statements)) :
    Outcome E (fun v : Value => v.IsExpression r ∧ v.isA [.whenClause, .inClause] = true)
      (inClause conv scope n) := by
  refine (own_outcome hbody).bind fun tree ht => ?_
  refine (S.clauseBody hscope ht.1 ht.2).bind fun body hb => ?_
  refine (S.expression hscope hpattern).bind fun pattern hp => ?_
  refine .build S.place fun line maxLine => ⟨?_, rfl⟩
  exact Value.isExpression_atLeast .inClause rfl [pattern] body ⟨hp.sits, trivial⟩ hb.1 hb.2
    line maxLine

lemma patternMatch (hvalue : n.Keeps r .value (.one .expression))
    (hpattern : n.Keeps r .pattern (.one .expression)) :
    Outcome E (fun v : Value => v.IsExpression r) (patternMatch conv scope n) := by
  refine (S.expression hscope hpattern).bind fun pattern hp => ?_
  refine .build_bind S.place fun line maxLine => ?_
  have hclause := Value.isExpression_atLeast .inClause rfl [pattern] [.nil]
    ⟨hp.sits, trivial⟩ le_rfl
    (List.forall_mem_singleton.mpr Value.sits_nil) line maxLine
  refine (S.expression hscope hvalue).bind fun value hv => .build S.place ?_
  have hlayout : Layout.between [.branch] 0 (.tagged [.whenClause, .inClause]) [.branch] ∈
      Tag.caseOf.ownLayouts := by decide
  exact Value.isExpression_between .caseOf hlayout [value] [_] [.nil] ⟨hv.sits, trivial⟩
    (Nat.zero_le _) (List.forall_mem_singleton.mpr (hclause.tagged rfl)) ⟨Value.sits_nil, trivial⟩

lemma arrayPattern (hconstant : n.Keeps r .constant (.optional .expression))
    (hrequireds : n.Keeps r .requireds (.many .expression))
    (hrest : n.Keeps r .rest (.optional .patternRest))
    (hposts : n.Keeps r .posts (.many .expression)) :
    Outcome E (fun v : Value => v.IsExpression r) (arrayPattern conv scope n) := by
  refine (S.expressions hscope hrequireds).bind fun requireds hr => ?_
  refine (own_outcome hrest).bind fun tree ht => ?_
  have hfinish : ∀ rest : List Value, (∀ v ∈ rest, v.Sits r .symbol) →
      Outcome E (fun v : Value => v.IsExpression r) (do
        let posts ← convertItems conv scope n .posts
        let constant ← convertField conv scope n .constant
        build n.location .arrayPat (constant :: (requireds ++ rest ++ posts))) := by
    intro rest hrest
    refine (S.expressions hscope hposts).bind fun posts hp => ?_
    refine (S.branch hscope hconstant).bind fun constant hc => .build S.place ?_
    refine Value.isExpression_atLeast .arrayPat rfl [constant] (requireds ++ rest ++ posts)
      ⟨hc, trivial⟩ (Nat.zero_le _) ?_
    simp only [List.forall_mem_append]
    exact ⟨⟨fun v hv => (hr v hv).sits.right, fun v hv => (hrest v hv).left⟩,
      fun v hv => (hp v hv).sits.right⟩
  rcases Tree.null_or_fits_of_holds ht.2 with rfl | hfits
  · exact hfinish [] (List.forall_mem_nil _)
  · simp only [Tree.isNull_of_fits hfits, Bool.false_eq_true, if_false]
    exact (S.patternRest ht.1 hfits).bind fun v hv =>
      hfinish [v] (List.forall_mem_singleton.mpr hv)

lemma findPattern (hconstant : n.Keeps r .constant (.optional .expression))
    (hleft : n.Keeps r .left (.one .patternRest))
    (hrequireds : n.Keeps r .requireds (.many .expression))
    (hright : n.Keeps r .right (.one .patternRest)) :
    Outcome E (fun v : Value => v.IsExpression r) (findPattern conv scope n) := by
  refine (S.branch hscope hconstant).bind fun constant hc => ?_
  refine (own_outcome hleft).bind fun tree ht => (S.patternRest ht.1 ht.2).bind fun left hl => ?_
  refine (S.expressions hscope hrequireds).bind fun requireds hq => ?_
  refine (own_outcome hright).bind fun tree ht => (S.patternRest ht.1 ht.2).bind fun right hr => ?_
  rw [List.append_assoc]
  have hlayout :
      Layout.between [.branch, .symbol] 0 .branch [.symbol] ∈ Tag.findPat.ownLayouts := by
    decide
  exact .build S.place
    (Value.isExpression_between .findPat hlayout [constant, left] requireds [right]
      ⟨hc, hl, trivial⟩ (Nat.zero_le _) (fun v hv => (hq v hv).sits) ⟨hr, trivial⟩)

lemma hashPattern (hconstant : n.Keeps r .constant (.optional .expression))
    (helements : n.Keeps r .elements (.many .element))
    (hrest : n.Keeps r .rest (.optional .patternKeywordRest)) :
    Outcome E (fun v : Value => v.IsExpression r) (hashPattern conv scope n) := by
  refine (S.pairs hscope helements).bind fun elements he => ?_
  refine (own_outcome hrest).bind fun tree ht => ?_
  have hfinish : ∀ rest : List Value, (∀ v ∈ rest, v.Sits r .any) →
      Outcome E (fun v : Value => v.IsExpression r) (do
        let constant ← convertField conv scope n .constant
        build n.location .hashPat (constant :: (elements ++ rest))) := by
    intro rest hrest
    refine (S.branch hscope hconstant).bind fun constant hc => .build S.place ?_
    exact Value.isExpression_atLeast .hashPat rfl [constant] (elements ++ rest) ⟨hc, trivial⟩
      (Nat.zero_le _) (List.forall_mem_append.mpr ⟨he, hrest⟩)
  rcases Tree.null_or_fits_of_holds ht.2 with rfl | hfits
  · exact hfinish [] (List.forall_mem_nil _)
  · simp only [Tree.isNull_of_fits hfits, Bool.false_eq_true, if_false]
    exact (S.patternKeywordRest hfits).bind fun v hv =>
      hfinish [v] (List.forall_mem_singleton.mpr hv.sits.any)

lemma capturePattern (hvalue : n.Keeps r .value (.one .expression))
    (htarget : n.Keeps r .target (.one .named)) :
    Outcome E (fun v : Value => v.IsExpression r) (capturePattern conv scope n) := by
  refine (own_outcome htarget).bind fun target ht => (S.name ht.2).bind ?_
  rintro _ ⟨label, rfl⟩
  exact (S.expression hscope hvalue).bind fun v hv => .build S.place
    (Value.isExpression_upTo .lasgn rfl [.sym label] [v] ⟨Value.sits_symbol label, trivial⟩
      (atMostOne_singleton hv.sits))

end Setting

end RubySexp.Convert
