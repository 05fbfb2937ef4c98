import RubySexp.Proofs.Convert.Outcome.Variable

/-!
# Outcomes of Control Flow
-/

namespace RubySexp.Convert

variable {r : Rigour} {E : Fault → Prop} {n : Node} {conv : Conversion} {scope : Scope}
  {tree : Tree}

/-! ### Chains of handlers -/

lemma fits_of_mem_handlers (hplaced : r.placed = true) {tree : Tree}
    (h : tree.fits r .handler = true) (hunder : tree.Under n) {clause : Tree}
    (hclause : clause ∈ handlers tree) : clause.fits r .handler = true ∧ clause.Under n := by
  have hkeeps : ∀ m : Node, (Tree.ofNode m).fits r .handler = true →
      m.Keeps r .subsequent (.optional .handler) := by
    intro m hm
    have hkind : m.kind = .rescueNode := by
      simpa [Rigour.admits, hplaced, Rigour.takes] using (Tree.fits_node.mp hm).1
    exact Tree.exists_get_of_fits hm (by rw [hkind]; rfl)
  induction tree using handlers_induction with
  | leaf tree hnode =>
    obtain ⟨m, rfl⟩ := Tree.eq_ofNode_of_fits h
    cases hnode
  | last m fault hlast =>
    obtain ⟨next, hget, -⟩ := hkeeps m h
    cases hlast.symm.trans hget
  | next m next hget ih =>
    rw [handlers_ofNode hget] at hclause
    rcases List.mem_cons.mp hclause with rfl | hclause
    · exact ⟨h, hunder⟩
    obtain ⟨_, hget', hnext⟩ := hkeeps m h
    cases hget.symm.trans hget'
    rcases Tree.null_or_fits_of_holds hnext with rfl | hfits
    · cases hclause
    · exact ih hfits (hunder.get hget).under hclause

lemma statements_of_body {tag : Tag} {kids : List Value} {line maxLine : Json}
    (h : (Value.sexp tag kids line maxLine).conforms = true) :
    1 ≤ (if tag == .block then kids else [.sexp tag kids line maxLine]).length ∧
      ∀ v ∈ if tag == .block then kids else [.sexp tag kids line maxLine],
        v.isBranch = true ∧ v.conforms = true := by
  by_cases htag : tag = .block
  · subst htag
    obtain ⟨hpermits, hkids⟩ := Value.conforms_sexp.mp h
    obtain ⟨hlength, hbranch⟩ := Tag.permits_block.mp hpermits
    exact ⟨(Nat.le_succ 1).trans hlength, fun v hv => ⟨hbranch v hv, hkids v hv⟩⟩
  · simpa [htag, Value.isBranch] using h

namespace Setting

variable (S : Setting r E n conv) (hscope : scope.inParameters = false)

include S

section Fields

variable {first second : Field}
  (hfirst : Outcome E (fun v : Value => v.Sits r .branch) (convertField conv scope n first))
  (hsecond : Outcome E (fun v : Value => v.Sits r .branch) (convertField conv scope n second))

include hfirst

lemma unary {tag : Tag} (htag : tag.ownLayouts = [.exactly [.branch]]) :
    Outcome E (fun v : Value => v.IsExpression r) (unary conv scope n tag first) :=
  hfirst.bind fun _ hv => .build S.place (Value.isExpression_exactly tag htag ⟨hv, trivial⟩)

include hsecond

lemma binary {tag : Tag} (htag : tag.ownLayouts = [.exactly [.branch, .branch]]) :
    Outcome E (fun v : Value => v.IsExpression r) (binary conv scope n tag first second) :=
  hfirst.bind fun _ ha => hsecond.bind fun _ hb =>
    .build S.place (Value.isExpression_exactly tag htag ⟨ha, hb, trivial⟩)

end Fields

include hscope

lemma conditional {yes no : Field} (hpredicate : n.Keeps r .predicate (.one .expression))
    (hyes : Outcome E (fun v : Value => v.Sits r .branch) (convertField conv scope n yes))
    (hno : Outcome E (fun v : Value => v.Sits r .branch) (convertField conv scope n no)) :
    Outcome E (fun v : Value => v.IsExpression r) (conditional conv scope n yes no) :=
  (S.expression hscope hpredicate).bind fun _ hp => hyes.bind fun _ hy => hno.bind fun _ hn =>
    .build S.place (Value.isExpression_exactly .ifElse rfl ⟨hp.sits, hy, hn, trivial⟩)

lemma loop {tag : Tag} (htag : tag.ownLayouts = [.exactly [.branch, .branch, .flag]])
    (hpredicate : n.Keeps r .predicate (.one .expression))
    (hbody : n.Keeps r .statements (.optional .expression))
    (hflag : n.Keeps r .beginModifier .flag) :
    Outcome E (fun v : Value => v.IsExpression r) (loop conv scope n tag) := by
  refine (S.expression hscope hpredicate).bind fun predicate hp => ?_
  refine (S.branch hscope hbody).bind fun body hb => (own_outcome hflag).bind fun flag _ => ?_
  have htested : (Value.bool !flag.truthy).Sits r .flag := ⟨rfl, fun _ => rfl⟩
  exact .build S.place (Value.isExpression_exactly tag htag ⟨hp.sits, hb, htested, trivial⟩)

lemma forLoop (hcollection : n.Keeps r .collection (.one .expression))
    (hindex : n.Keeps r .index (.one .expression))
    (hbody : n.Keeps r .statements (.optional .expression)) :
    Outcome E (fun v : Value => v.IsExpression r) (forLoop conv scope n) := by
  refine (S.expression hscope hcollection).bind fun collection hc => ?_
  refine (S.expression hscope hindex).bind fun index hi => ?_
  exact (S.ifPresent hscope hbody).bind fun body hb => .build S.place
    (Value.isExpression_upTo .forLoop rfl [_, _] body ⟨hc.sits, hi.sits, trivial⟩ hb)

lemma caseOf (hpredicate : n.Keeps r .predicate (.optional .expression))
    (hclauses : n.Keeps r .conditions (.many .clause))
    (helse : n.Keeps r .elseClause (.optional .otherwise)) :
    Outcome E (fun v : Value => v.IsExpression r) (caseOf conv scope n) := by
  refine (S.branch hscope hpredicate).bind fun predicate hp => ?_
  refine (S.items hclauses rfl rfl hscope).bind fun clauses hc => ?_
  refine (S.otherwise hscope helse).bind fun last hl => .build S.place ?_
  have hlayout : Layout.between [.branch] 0 (.tagged [.whenClause, .inClause]) [.branch] ∈
      Tag.caseOf.ownLayouts := by decide
  exact Value.isExpression_between .caseOf hlayout [predicate] clauses [last] ⟨hp, trivial⟩
    (Nat.zero_le _) hc.2 ⟨hl, trivial⟩

lemma whenClause (hconditions : n.Keeps r .conditions (.many .expression))
    (hbody : n.Keeps r .statements (.optional .statements)) :
    Outcome E (fun v : Value => v.IsExpression r ∧ v.isA [.whenClause, .inClause] = true)
      (whenClause conv scope n) := by
  refine (S.expressions hscope hconditions).bind fun conditions hc => ?_
  refine .build_bind S.place fun line maxLine => ?_
  have hlist := Value.isExpression_atLeast .array rfl [] conditions trivial (Nat.zero_le _)
    (fun v hv => (hc v hv).sits.any) line maxLine
  refine (own_outcome hbody).bind fun tree ht => ?_
  refine (S.clauseBody hscope ht.1 ht.2).bind fun body hb => .build S.place fun line maxLine => ?_
  exact ⟨Value.isExpression_atLeast .whenClause rfl [_] body ⟨hlist.tagged rfl, trivial⟩ hb.1 hb.2
    line maxLine, rfl⟩

lemma jump {tag : Tag} (htag : tag.ownLayouts = [.upTo [] .any])
    (harguments : n.Keeps r .arguments (.optional .arguments)) :
    Outcome E (fun v : Value => v.IsExpression r) (jump conv scope n tag) := by
  have hjump : ∀ more : List Value, (more.length ≤ 1 ∧ ∀ v ∈ more, v.Sits r .any) →
      Outcome E (fun v : Value => v.IsExpression r) (build n.location tag more) :=
    fun more h => .build S.place (Value.isExpression_upTo tag htag [] more trivial h)
  refine (own_outcome harguments).bind fun list hl => ?_
  by_cases hnull : list.isNull = true
  · simp only [hnull, if_true]
    exact hjump [] (atMostOne_nil _)
  · simp only [hnull, Bool.false_eq_true, if_false]
    refine (S.arguments hscope hl.1 hl.2).bind fun given hg => ?_
    rcases given with _ | ⟨value, _ | ⟨second, rest⟩⟩
    · refine S.excuse ?_ _
      by_contra hr
      exact hg.1 (by simpa using hr) (by simpa using hnull) rfl
    · have hvalue : value.Sits r .any := hg.2 value (by simp)
      simp only
      split
      · refine .build_bind S.place fun line maxLine => hjump [_] ⟨by simp, ?_⟩
        have hmarked : Value.SitEach r [.any] [value] := ⟨hvalue, trivial⟩
        simpa using (Value.isExpression_exactly .svalue rfl hmarked line maxLine).sits.any
      · exact hjump [value] ⟨by simp, by simpa using hvalue⟩
    · refine .build_bind S.place fun line maxLine => hjump [_] ⟨by simp, ?_⟩
      simpa using (Value.isExpression_atLeast .array rfl [] (value :: second :: rest) trivial
        (Nat.zero_le _) hg.2 line maxLine).sits.any

lemma flipFlop (hleft : n.Keeps r .left (.optional .expression))
    (hright : n.Keeps r .right (.optional .expression)) (hend : n.Keeps r .excludeEnd .flag) :
    Outcome E (fun v : Value => v.IsExpression r) (flipFlop conv scope n) := by
  refine (own_outcome hend).bind fun excludeEnd _ => ?_
  refine S.binary (S.branch hscope hleft) (S.branch hscope hright) ?_
  split <;> rfl

/-! ### Handlers -/

lemma caught (hw : tree.Within n) (h : tree.fits r .caught = true) :
    Outcome E (fun v : Value => v.Sits r .any) (caught conv scope tree) := by
  refine (S.below hw h rfl hscope).bind fun target ht => ?_
  obtain ⟨htarget, hextends⟩ := ht
  rcases htarget.cases with ⟨tag, kids, line, maxLine, rfl⟩ | ⟨hloose, rfl⟩
  · refine .build_bind (Tree.isNumbered_of_fits h) fun line' maxLine' => .pure ⟨rfl, fun hr => ?_⟩
    have hexception : (Value.sexp .gvar [.sym "$!"] line' maxLine').Sits r .branch :=
      ⟨rfl, fun _ => rfl⟩
    exact (hextends hr _ hexception).sits.conforms hr
  · exact S.excuse hloose _

lemma handler (hunder : tree.Under n) (h : tree.fits r .handler = true) :
    Outcome E (fun v : Value => v.IsExpression r ∧ v.isA [.resbody] = true)
      (handler conv scope tree) := by
  have hplace := Tree.isNumbered_of_fits h
  obtain ⟨m, rfl⟩ := Tree.eq_ofNode_of_fits h
  have hkind : m.kind = .rescueNode := by
    simpa [Rigour.admits, S.placed, Rigour.takes] using (Tree.fits_node.mp h).1
  have hexceptions : m.Keeps r .exceptions (.many .expression) :=
    Tree.exists_get_of_fits h (by rw [hkind]; rfl)
  have hreference : m.Keeps r .reference (.optional .caught) :=
    Tree.exists_get_of_fits h (by rw [hkind]; rfl)
  have hbody : m.Keeps r .statements (.optional .statements) :=
    Tree.exists_get_of_fits h (by rw [hkind]; rfl)
  refine (get_outcome hunder hexceptions).bind fun list hl => ?_
  refine (S.all hl.1 hl.2 rfl rfl hscope).bind fun exceptions he => ?_
  have hexceptions : ∀ v ∈ exceptions, v.Sits r .any :=
    fun v hv => Value.Sits.any (Value.IsExpression.sits (he.2 v hv))
  refine (get_outcome hunder hreference).bind fun reference hr => ?_
  have hrest : ∀ target : List Value, (∀ v ∈ target, v.Sits r .any) →
      Outcome E (fun v : Value => v.IsExpression r ∧ v.isA [.resbody] = true) (do
        let body ← Convert.clauseBody conv scope (← (Tree.ofNode m).get .statements)
        let list ← build (Tree.ofNode m).location? .array (exceptions ++ target)
        build (Tree.ofNode m).location? .resbody (list :: body)) := by
    intro target ht
    refine (get_outcome hunder hbody).bind fun statements hs => ?_
    refine (S.clauseBody hscope hs.1 hs.2).bind fun body hb => ?_
    refine .build_bind hplace fun line maxLine => .build hplace fun line' maxLine' => ?_
    have hlist := Value.isExpression_atLeast .array rfl [] (exceptions ++ target) trivial
      (Nat.zero_le _) (List.forall_mem_append.mpr ⟨hexceptions, ht⟩) line maxLine
    exact ⟨Value.isExpression_atLeast .resbody rfl [_] body ⟨hlist.tagged rfl, trivial⟩ hb.1 hb.2
      line' maxLine', rfl⟩
  rcases Tree.null_or_fits_of_holds hr.2 with rfl | hfits
  · exact hrest [] (List.forall_mem_nil _)
  · simp only [Tree.isNull_of_fits hfits, Bool.false_eq_true, if_false]
    exact (S.caught hscope hr.1 hfits).bind fun target ht => hrest [target] (by simpa using ht)

lemma rescueModifier (hbody : n.Keeps r .rescueExpression (.one .expression))
    (hexpression : n.Keeps r .expression (.one .expression)) :
    Outcome E (fun v : Value => v.IsExpression r) (rescueModifier conv scope n) := by
  refine .build_bind S.place fun line maxLine => ?_
  have hlist := Value.isExpression_atLeast (r := r) .array rfl [] [] trivial le_rfl nofun
    line maxLine
  refine (S.expression hscope hbody).bind fun body hb => ?_
  refine .build_bind S.place fun line' maxLine' => ?_
  have hclause := Value.isExpression_atLeast .resbody rfl [_] [body] ⟨hlist.tagged rfl, trivial⟩
    le_rfl (by simpa using hb.sits) line' maxLine'
  refine (S.expression hscope hexpression).bind fun expression he => .build S.place ?_
  have hlayout : Layout.between [.branch] 1 (.tagged [.resbody]) [] ∈ Tag.rescue.ownLayouts := by
    decide
  exact Value.isExpression_between .rescue hlayout [expression] [_] [] ⟨he.sits, trivial⟩ le_rfl
    (by simpa using hclause.tagged rfl) trivial

lemma followedBy {body : Value} (hbody : body.IsExpression r) (hw : tree.Within n)
    (h : tree.fits r .otherwise = true) :
    Outcome E (fun v : Value => v.IsExpression r) (followedBy conv scope n body tree) := by
  rcases hbody.cases with ⟨tag, kids, line, maxLine, rfl⟩ | ⟨hloose, rfl⟩
  · refine (S.below hw h rfl hscope).bind fun last hl => .build S.place ?_
    have hlast : last.Sits r .branch := by
      rcases hl with hl | rfl
      · exact hl.sits
      · exact Value.sits_nil
    refine Value.isExpression_sexp (by decide) (by decide) fun hr => ?_
    obtain ⟨hlength, hbranches⟩ := statements_of_body (hbody.sits.conforms hr)
    refine ⟨Tag.permits_block.mpr ⟨?_, ?_⟩, ?_⟩
    · rw [List.length_append, List.length_singleton]
      exact Nat.succ_le_succ hlength
    · exact List.forall_mem_append.mpr
        ⟨fun v hv => (hbranches v hv).1, by simpa using hlast.accepts⟩
    · exact List.forall_mem_append.mpr
        ⟨fun v hv => (hbranches v hv).2, by simpa using hlast.conforms hr⟩
  · exact S.excuse hloose _

end Setting

lemma isExpression_rescue {head clauses last : List Value}
    (hhead : head.length ≤ 1 ∧ ∀ v ∈ head, v.Sits r .branch) (hne : 1 ≤ clauses.length)
    (hclauses : ∀ v ∈ clauses, v.Sits r (.tagged [.resbody]))
    (hlast : last.length ≤ 1 ∧ ∀ v ∈ last, v.Sits r .branch) :
    ∀ line maxLine,
      (Value.sexp .rescue (head ++ (clauses ++ last)) line maxLine).IsExpression r := by
  have hseats : ∀ {vs : List Value}, (vs.length ≤ 1 ∧ ∀ v ∈ vs, v.Sits r .branch) →
      Value.SitEach r [] vs ∨ Value.SitEach r [.branch] vs := by
    rintro (_ | ⟨v, _ | ⟨w, rest⟩⟩) ⟨hlength, hvs⟩
    · exact Or.inl trivial
    · exact Or.inr ⟨hvs v (by simp), trivial⟩
    · simp at hlength
  have hrescue : ∀ {front back : List Seat},
      Layout.between front 1 (.tagged [.resbody]) back ∈ Tag.rescue.ownLayouts →
      Value.SitEach r front head → Value.SitEach r back last →
      ∀ line maxLine,
        (Value.sexp .rescue (head ++ (clauses ++ last)) line maxLine).IsExpression r :=
    fun hlayout hfront hback =>
      Value.isExpression_between .rescue hlayout head clauses last hfront hne hclauses hback
  rcases hseats hhead with hfront | hfront <;> rcases hseats hlast with hback | hback
  · exact hrescue (by decide) hfront hback
  · exact hrescue (by decide) hfront hback
  · exact hrescue (by decide) hfront hback
  · exact hrescue (by decide) hfront hback

namespace Setting

variable (S : Setting r E n conv) (hscope : scope.inParameters = false)

include S hscope

lemma handled {statements : Tree} {body : Value} (hbody : body.IsExpression r)
    (hstatements : statements.holds r (.optional .expression) = true)
    (hrescue : n.Keeps r .rescueClause (.optional .handler))
    (helse : n.Keeps r .elseClause (.optional .otherwise)) :
    Outcome E (fun v : Value => v.IsExpression r) (handled conv scope n statements body) := by
  refine (own_outcome hrescue).bind fun clause hc => (own_outcome helse).bind fun otherwise ho => ?_
  rcases Tree.null_or_fits_of_holds hc.2 with rfl | hclause
  · rcases Tree.null_or_fits_of_holds ho.2 with rfl | hotherwise
    · exact .pure hbody
    · simp only [Tree.isNull_of_fits hotherwise, Bool.false_eq_true, if_false]
      exact S.followedBy hscope hbody ho.1 hotherwise
  · have hall : ∀ tree ∈ handlers clause,
        Outcome E (fun v : Value => v.IsExpression r ∧ v.isA [.resbody] = true)
          (Convert.handler conv scope tree) := by
      intro tree htree
      obtain ⟨hfits, hunder⟩ := fits_of_mem_handlers S.placed hclause hc.1.under htree
      exact S.handler hscope hunder hfits
    have hsome : 1 ≤ (handlers clause).length := by
      obtain ⟨m, rfl⟩ := Tree.eq_ofNode_of_fits hclause
      simp [Tree.ofNode, handlers]
    simp only [Tree.isNull_of_fits hclause, Bool.false_eq_true, if_false]
    refine (Outcome.mapM hall).bind fun clauses hclauses => ?_
    refine (S.optionalItem ho.1 ho.2 rfl hscope).bind fun last hl => ?_
    have hlast : last.length ≤ 1 ∧ ∀ v ∈ last, v.Sits r .branch := by
      refine ⟨hl.1, fun v hv => ?_⟩
      rcases hl.2 v hv with h | rfl
      · exact h.sits
      · exact Value.sits_nil
    rw [List.append_assoc]
    refine .build ?_ (isExpression_rescue ?_ ?_ ?_ hlast)
    · rcases Tree.null_or_fits_of_holds hstatements with rfl | hfits
      · exact Tree.isNumbered_of_fits hclause
      · simpa only [Tree.isNull_of_fits hfits, Bool.false_eq_true, if_false] using
          Tree.isNumbered_of_fits hfits
    · split
      · exact atMostOne_nil _
      · exact atMostOne_singleton hbody.sits
    · rw [hclauses.1]
      exact hsome
    · exact fun v hv => ⟨(hclauses.2 v hv).2, (hclauses.2 v hv).1.sits.conforms⟩

lemma orNil {field : Field} (h : n.Keeps r field (.optional .expression)) :
    Outcome E (fun v : Value => v.IsExpression r) (orNil conv scope n field) := by
  refine (own_outcome h).bind fun tree ht => ?_
  rcases Tree.null_or_fits_of_holds ht.2 with rfl | hfits
  · exact .build S.place (Value.isExpression_exactly .nilLit rfl trivial)
  · simp only [Tree.isNull_of_fits hfits, Bool.false_eq_true, if_false]
    exact S.below ht.1 hfits rfl hscope

lemma beginBody (hstatements : n.Keeps r .statements (.optional .expression))
    (hrescue : n.Keeps r .rescueClause (.optional .handler))
    (helse : n.Keeps r .elseClause (.optional .otherwise))
    (hensure : n.Keeps r .ensureClause (.optional .expression)) :
    Outcome E (fun v : Value => v.IsExpression r) (beginBody conv scope n) := by
  refine (own_outcome hstatements).bind fun statements hs => ?_
  have hrest : ∀ body : Value, body.IsExpression r →
      Outcome E (fun v : Value => v.IsExpression r) (do
        let result ← Convert.handled conv scope n statements body
        let ensureClause ← n.get .ensureClause
        if ensureClause.isNull then return result
        else
          let last ← conv scope ensureClause
          build ensureClause.location? .ensure [result, last]) := by
    intro body hbody
    refine (S.handled hscope hbody hs.2 hrescue helse).bind fun result hr => ?_
    refine (own_outcome hensure).bind fun clause hc => ?_
    rcases Tree.null_or_fits_of_holds hc.2 with rfl | hfits
    · exact .pure hr
    · simp only [Tree.isNull_of_fits hfits, Bool.false_eq_true, if_false]
      refine (S.below hc.1 hfits rfl hscope).bind fun last hl => ?_
      exact .build (Tree.isNumbered_of_fits hfits) (Value.isExpression_exactly .ensure rfl
        ⟨hr.sits, Value.IsExpression.sits hl, trivial⟩)
  rcases Tree.null_or_fits_of_holds hs.2 with rfl | hfits
  · refine .build_bind S.place fun line maxLine => hrest _ ?_
    have hkids : Value.SitEach r [] [] := trivial
    exact Value.isExpression_exactly .nilLit rfl hkids line maxLine
  · simp only [Tree.isNull_of_fits hfits, Bool.false_eq_true, if_false]
    exact (S.below hs.1 hfits rfl hscope).bind hrest

end Setting

end RubySexp.Convert
