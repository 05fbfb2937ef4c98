import RubySexp.Proofs.Convert.Outcome.Variable

/-!
# Outcomes of Calls
-/

namespace RubySexp.Convert

variable {r : Rigour} {E : Fault → Prop} {n : Node} {conv : Conversion} {scope : Scope}
  {field : Field} {tree : Tree}

structure TakesBlock (r : Rigour) (tag : Tag) (kids : List Value) : Prop where
  head : Seat.blockHead.accepts (.sexp tag kids .null .null) = true
  alone : ∀ line maxLine, (Value.sexp tag kids line maxLine).IsExpression r
  added : ∀ last : Value, last.Sits r .branch →
    ∀ line maxLine, (Value.sexp tag (kids ++ [last]) line maxLine).IsExpression r

def IsCall (tag : Tag) : Prop :=
  tag = .call ∨ tag = .safeCall ∨ tag = .attrasgn ∨ tag = .safeAttrasgn

lemma isExpression_call {tag : Tag} (htag : IsCall tag) {subject label : Value}
    (hsubject : subject.Sits r .branch) (hlabel : label.Sits r .symbol) (given : List Value)
    (hgiven : ∀ v ∈ given, v.Sits r .any) :
    ∀ line maxLine, (Value.sexp tag ([subject, label] ++ given) line maxLine).IsExpression r := by
  have hkids : Value.SitEach r [.branch, .symbol] [subject, label] := ⟨hsubject, hlabel, trivial⟩
  rcases htag with rfl | rfl | rfl | rfl
  · exact Value.isExpression_atLeast .call rfl _ given hkids (Nat.zero_le _) hgiven
  · exact Value.isExpression_atLeast .safeCall rfl _ given hkids (Nat.zero_le _) hgiven
  · exact Value.isExpression_atLeast .attrasgn rfl _ given hkids (Nat.zero_le _) hgiven
  · exact Value.isExpression_atLeast .safeAttrasgn rfl _ given hkids (Nat.zero_le _) hgiven

lemma takesBlock_call {tag : Tag} (htag : IsCall tag) {subject label : Value}
    (hsubject : subject.Sits r .branch) (hlabel : label.Sits r .symbol) (given : List Value)
    (hgiven : ∀ v ∈ given, v.Sits r .any) : TakesBlock r tag ([subject, label] ++ given) := by
  refine ⟨?_, isExpression_call htag hsubject hlabel given hgiven, fun last hlast => ?_⟩
  · rcases htag with rfl | rfl | rfl | rfl <;> rfl
  · rw [List.append_assoc]
    refine isExpression_call htag hsubject hlabel (given ++ [last]) ?_
    exact List.forall_mem_append.mpr ⟨hgiven, by simpa using hlast.any⟩

namespace Setting

variable (S : Setting r E n conv) (hscope : scope.inParameters = false)

include S hscope

/-! ### Blocks -/

lemma blockSlot (hw : tree.Within n) (h : tree.holds r (.optional .blockParameters) = true) :
    Outcome E (fun v : Value => v.Sits r (.either .zero (.tagged [.args])))
      (blockSlot conv scope tree) := by
  have hzero : (Value.int 0).Sits r (.either .zero (.tagged [.args])) := ⟨rfl, fun _ => rfl⟩
  rcases Tree.null_or_fits_of_holds h with rfl | hfits
  · exact hzero
  · simp only [Convert.blockSlot, Tree.isNull_of_fits hfits, Bool.false_or]
    split
    · exact hzero
    · next hnumbered =>
      exact (S.declared hw hfits (by simpa using hnumbered) hscope).mono fun _ hv => hv.right

lemma attachBlock {tag : Tag} {kids : List Value} (hcall : TakesBlock r tag kids)
    (hblock : n.Keeps r .block (.optional .block)) :
    Outcome E (fun v : Value => v.IsExpression r)
      (build n.location tag kids >>= attachBlock conv scope n) := by
  refine .build_bind S.place fun line maxLine => ?_
  refine (own_outcome hblock).bind fun block hb => ?_
  rcases Tree.null_or_fits_of_holds hb.2 with rfl | hfits
  · exact .pure (hcall.alone line maxLine)
  · have hlast : Outcome E (fun v : Value => v.Sits r .branch) (conv scope block) := by
      refine (S.below hb.1 hfits rfl hscope).mono ?_
      rintro v (hv | rfl)
      · exact hv.sits
      · exact Value.sits_nil
    simp only [Tree.isNull_of_fits hfits, Bool.false_eq_true, if_false]
    split
    · next hkind =>
      obtain ⟨m, rfl⟩ := Tree.eq_ofNode_of_fits hfits
      have hkind := Tree.kind_of_isA hkind
      have hparameters : m.Keeps r .parameters (.optional .blockParameters) :=
        Tree.exists_get_of_fits hfits (by rw [hkind]; rfl)
      have hbody : m.Keeps r .body (.optional .expression) :=
        Tree.exists_get_of_fits hfits (by rw [hkind]; rfl)
      refine (get_outcome hb.1.under hparameters).bind fun declared hd => ?_
      refine (S.blockSlot hscope hd.1 hd.2).bind fun parameters hp => ?_
      refine (get_outcome hb.1.under hbody).bind fun body _ => ?_
      have hhead : (Value.sexp tag kids line maxLine).Sits r Seat.blockHead :=
        ⟨hcall.head, (hcall.alone line maxLine).sits.conforms⟩
      have hiter : ∀ body : List Value, (body.length ≤ 1 ∧ ∀ v ∈ body, v.Sits r .branch) →
          Outcome E (fun v : Value => v.IsExpression r)
            (build n.location .iter ([.sexp tag kids line maxLine, parameters] ++ body)) :=
        fun body hbody => .build S.place
          (Value.isExpression_upTo .iter rfl [_, parameters] body ⟨hhead, hp, trivial⟩ hbody)
      split
      · exact hiter [] (atMostOne_nil _)
      · exact hlast.bind fun v hv => hiter [v] (atMostOne_singleton hv)
    · exact hlast.bind fun v hv => .pure (hcall.added v hv line maxLine)

/-! ### Calls of methods -/

lemma plainCall {label receiver : Tree} (hlabel : label.holds r .text = true)
    (hw : receiver.Within n) (hreceiver : receiver.holds r (.optional .expression) = true)
    (hsafe : n.Keeps r .safeNavigation .flag)
    (harguments : n.Keeps r .arguments (.optional .arguments))
    (hblock : n.Keeps r .block (.optional .block)) :
    Outcome E (fun v : Value => v.IsExpression r) (plainCall conv scope n label receiver) := by
  obtain ⟨spelling, rfl⟩ := Tree.eq_text_of_holds hlabel
  refine (own_outcome hsafe).bind fun safe _ => ?_
  refine (S.optional hw hreceiver rfl hscope).bind fun subject hs => ?_
  have hsubject : subject.Sits r .branch := by
    rcases hs with rfl | hs
    · exact Value.sits_nil
    · exact Value.IsExpression.sits hs
  refine (own_outcome harguments).bind fun list hl => ?_
  refine (S.arguments hscope hl.1 hl.2).bind fun given hgiven => ?_
  refine S.attachBlock hscope
    (takesBlock_call ?_ hsubject (Value.sits_symbol spelling) given hgiven.2)
    hblock
  unfold IsCall
  split <;> simp

lemma literalMatch {receiver : Tree} (hw : receiver.Within n)
    (hreceiver : receiver.fits r .expression = true)
    (harguments : n.Keeps r .arguments (.optional .arguments))
    (hgiven : r.sound = true → n.get .arguments ≠ .ok .null) :
    Outcome E (fun v : Value => v.IsExpression r) (literalMatch conv scope n receiver) := by
  obtain ⟨list, hget, hlist⟩ := harguments
  have hwithin : list.Within n := (Tree.Under.refl n).get hget
  unfold Convert.literalMatch
  rw [hget]
  refine (S.arguments hscope hwithin hlist).bind fun given hv => ?_
  rcases given with _ | ⟨argument, rest⟩
  · refine S.excuse ?_ _
    by_contra hr
    have hr : r.sound = true := by simpa using hr
    refine hv.1 hr ?_ rfl
    rcases Tree.null_or_fits_of_holds hlist with rfl | hfits
    · exact absurd hget (hgiven hr)
    · exact Tree.isNull_of_fits hfits
  · have hargument : argument.Sits r .any := hv.2 argument (by simp)
    refine (S.below hw hreceiver rfl hscope).bind fun subject hs => ?_
    have hsubject : subject.Sits r .branch := Value.IsExpression.sits hs
    split
    · exact .build S.place
        (Value.isExpression_exactly .match3 rfl ⟨hargument, hsubject, trivial⟩)
    · exact .build S.place
        (Value.isExpression_exactly .match2 rfl ⟨hsubject, hargument, trivial⟩)

lemma call (hkind : n.kind = .callNode) (hlabel : n.Keeps r .name .text)
    (hreceiver : n.Keeps r .receiver (.optional .expression))
    (harguments : n.Keeps r .arguments (.optional .arguments))
    (hblock : n.Keeps r .block (.optional .block)) (hsafe : n.Keeps r .safeNavigation .flag)
    (hbare : ¬(r.sound = true ∧ n.isBareMatch = true)) :
    Outcome E (fun v : Value => v.IsExpression r) (call conv scope n) := by
  obtain ⟨label, hgetLabel, htext⟩ := hlabel
  obtain ⟨receiver, hgetReceiver, hr⟩ := hreceiver
  have hwithin : receiver.Within n := (Tree.Under.refl n).get hgetReceiver
  have hplain := S.plainCall hscope htext hwithin hr hsafe harguments hblock
  obtain ⟨spelling, rfl⟩ := Tree.eq_text_of_holds htext
  unfold Convert.call
  rw [hgetLabel, hgetReceiver]
  show Outcome E _ (if (spelling == "=~") &&
      (receiver.isA .stringNode || receiver.isA .regularExpressionNode) then
    Convert.literalMatch conv scope n receiver else Convert.plainCall conv scope n _ receiver)
  split
  · next hmatch =>
    simp only [Bool.and_eq_true, beq_iff_eq] at hmatch
    obtain ⟨rfl, hliteral⟩ := hmatch
    rcases Tree.null_or_fits_of_holds hr with rfl | hfits
    · cases hliteral
    · refine S.literalMatch hscope hwithin hfits harguments fun hs hnull => hbare ⟨hs, ?_⟩
      simp [Node.isBareMatch, hkind, Node.get?_of_get hgetLabel, Node.get?_of_get hgetReceiver,
        Node.get?_of_get hnull, hliteral]
  · exact hplain

lemma superCall (harguments : n.Keeps r .arguments (.optional .arguments))
    (hblock : n.Keeps r .block (.optional .block)) :
    Outcome E (fun v : Value => v.IsExpression r) (superCall conv scope n) := by
  refine (own_outcome harguments).bind fun list hl => ?_
  refine (S.arguments hscope hl.1 hl.2).bind fun given hgiven => ?_
  have hcall : ∀ given : List Value, (∀ v ∈ given, v.Sits r .any) →
      ∀ line maxLine, (Value.sexp .superCall given line maxLine).IsExpression r :=
    fun given h => Value.isExpression_atLeast .superCall rfl [] given trivial (Nat.zero_le _) h
  refine S.attachBlock hscope ⟨rfl, hcall given hgiven.2, fun last hlast => ?_⟩ hblock
  exact hcall _ (List.forall_mem_append.mpr ⟨hgiven.2, by simpa using hlast.any⟩)

lemma forwardingSuper (hblock : n.Keeps r .block (.optional .block)) :
    Outcome E (fun v : Value => v.IsExpression r) (forwardingSuper conv scope n) := by
  have hcall : ∀ more : List Value, (more.length ≤ 1 ∧ ∀ v ∈ more, v.Sits r .branch) →
      ∀ line maxLine, (Value.sexp .zsuperCall more line maxLine).IsExpression r :=
    fun more h => Value.isExpression_upTo .zsuperCall rfl [] more trivial h
  exact S.attachBlock hscope
    ⟨rfl, hcall [] (atMostOne_nil _), fun last hlast => hcall [last] (atMostOne_singleton hlast)⟩
    hblock

lemma yieldCall (harguments : n.Keeps r .arguments (.optional .arguments)) :
    Outcome E (fun v : Value => v.IsExpression r) (yieldCall conv scope n) :=
  (own_outcome harguments).bind fun _ hl => (S.arguments hscope hl.1 hl.2).bind fun given hgiven =>
    .build S.place
      (Value.isExpression_atLeast .yieldCall rfl [] given trivial (Nat.zero_le _) hgiven.2)

lemma lambda (hparameters : n.Keeps r .parameters (.optional .blockParameters))
    (hbody : n.Keeps r .body (.optional .expression)) :
    Outcome E (fun v : Value => v.IsExpression r) (lambda conv scope n) := by
  refine (own_outcome hparameters).bind fun declared hd => ?_
  refine (S.blockSlot hscope hd.1 hd.2).bind fun parameters hp => ?_
  refine .build_bind S.place fun line maxLine => ?_
  have hhead : (Value.sexp .lambdaHead [] line maxLine).Sits r Seat.blockHead :=
    ⟨rfl, fun _ => rfl⟩
  exact (S.ifPresent hscope hbody).bind fun body hb => .build S.place
    (Value.isExpression_upTo .iter rfl [_, parameters] body ⟨hhead, hp, trivial⟩ hb)

lemma execution {tag : Tag} (htag : tag = .preexe ∨ tag = .postexe)
    (hbody : n.Keeps r .statements (.optional .expression)) :
    Outcome E (fun v : Value => v.IsExpression r) (execution conv scope n tag) := by
  refine .build_bind S.place fun line maxLine => ?_
  have hhead : (Value.sexp tag [] line maxLine).Sits r Seat.blockHead := by
    rcases htag with rfl | rfl <;> exact ⟨rfl, fun _ => rfl⟩
  have hzero : (Value.int 0).Sits r (.either .zero (.tagged [.args])) := ⟨rfl, fun _ => rfl⟩
  exact (S.ifPresent hscope hbody).bind fun body hb => .build S.place
    (Value.isExpression_upTo .iter rfl [_, _] body ⟨hhead, hzero, trivial⟩ hb)

lemma blockArgument (h : n.Keeps r .expression (.optional .expression)) :
    Outcome E (fun v : Value => v.IsExpression r) (blockArgument conv scope n) :=
  (S.ifPresent hscope h).bind fun kids hkids => .build S.place
    (Value.isExpression_upTo .blockPass rfl [] kids trivial hkids)

/-! ### Assignments through calls -/

lemma callWrite {operator : Value} (hoperator : operator.Sits r .symbol)
    (hsafe : n.Keeps r .safeNavigation .flag)
    (hreceiver : n.Keeps r .receiver (.optional .expression)) (hlabel : n.Keeps r .writeName .text)
    (hvalue : n.Keeps r .value (.one .expression)) :
    Outcome E (fun v : Value => v.IsExpression r) (callWrite conv scope n operator) := by
  refine (own_outcome hsafe).bind fun safe _ => ?_
  refine (S.branch hscope hreceiver).bind fun receiver hr => ?_
  refine (nameIn_outcome hlabel).bind fun label hl => ?_
  refine (S.expression hscope hvalue).bind fun v hv => ?_
  have hkids :
      Value.SitEach r [.branch, .symbol, .symbol, .branch] [receiver, label, operator, v] :=
    ⟨hr, hl, hoperator, hv.sits, trivial⟩
  split
  · exact .build S.place (Value.isExpression_exactly .safeOpAsgn2 rfl hkids)
  · exact .build S.place (Value.isExpression_exactly .opAsgn2 rfl hkids)

lemma indexWrite {operator : Value} (hoperator : operator.Sits r .symbol)
    (hreceiver : n.Keeps r .receiver (.optional .expression))
    (harguments : n.Keeps r .arguments (.optional .arguments))
    (hvalue : n.Keeps r .value (.one .expression)) :
    Outcome E (fun v : Value => v.IsExpression r) (indexWrite conv scope n operator) := by
  refine (own_outcome harguments).bind fun indices hi => ?_
  refine (S.arguments hscope hi.1 hi.2).bind fun given hgiven => ?_
  have hplace : Location.isNumbered
      (if indices.truthy then indices.location? else n.location) = true := by
    split
    · next htruthy =>
      rcases Tree.null_or_fits_of_holds hi.2 with rfl | hfits
      · cases htruthy
      · exact Tree.isNumbered_of_fits hfits
    · exact S.place
  refine .build_bind hplace fun line maxLine => ?_
  have hlist := Value.isExpression_atLeast .arglist rfl [] given trivial (Nat.zero_le _) hgiven.2
    line maxLine
  refine (S.branch hscope hreceiver).bind fun receiver hr => ?_
  refine (S.expression hscope hvalue).bind fun v hv => .build S.place ?_
  exact Value.isExpression_exactly .opAsgn1 rfl
    ⟨hr, hlist.tagged rfl, hoperator, hv.sits, trivial⟩

lemma callTarget (hsafe : n.Keeps r .safeNavigation .flag)
    (hreceiver : n.Keeps r .receiver (.one .expression)) (hlabel : n.Keeps r .name .text) :
    Outcome E (Yield.target.Meets r) (callTarget conv scope n) := by
  refine (own_outcome hsafe).bind fun safe _ => ?_
  refine (S.expression hscope hreceiver).bind fun receiver hr => ?_
  refine (nameIn_outcome hlabel).bind fun label hl => ?_
  refine .build S.place fun line maxLine => ?_
  have htag : IsCall (if safe.truthy then .safeAttrasgn else .attrasgn) := by
    unfold IsCall
    split <;> simp
  refine ⟨isExpression_call htag hr.sits hl [] nofun line maxLine, fun _ extra hextra => ?_⟩
  exact isExpression_call htag hr.sits hl [extra] (by simpa using hextra.any) line maxLine

lemma indexTarget (hreceiver : n.Keeps r .receiver (.one .expression))
    (harguments : n.Keeps r .arguments (.optional .arguments)) :
    Outcome E (Yield.target.Meets r) (indexTarget conv scope n) := by
  refine (S.expression hscope hreceiver).bind fun receiver hr => ?_
  refine (own_outcome harguments).bind fun list hl => ?_
  refine (S.arguments hscope hl.1 hl.2).bind fun given hgiven => ?_
  have htag : IsCall .attrasgn := by simp [IsCall]
  have hlabel : (Value.sym "[]=").Sits r .symbol := Value.sits_symbol _
  refine .build S.place fun line maxLine => ⟨?_, fun _ extra hextra => ?_⟩
  · exact isExpression_call htag hr.sits hlabel given hgiven.2 line maxLine
  · rw [List.append_assoc]
    refine isExpression_call htag hr.sits hlabel (given ++ [extra]) ?_ line maxLine
    exact List.forall_mem_append.mpr ⟨hgiven.2, by simpa using hextra.any⟩

end Setting

end RubySexp.Convert
