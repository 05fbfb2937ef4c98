import RubySexp.Proofs.Convert.Outcome.Target

/-!
# Outcomes of Definitions and Parameters
-/

namespace RubySexp

namespace Value

variable {r : Rigour} {v : Value}

lemma Sits.weaken {a b : Seat} (h : v.Sits r a) (hab : a.accepts v = true → b.accepts v = true) :
    v.Sits r b := ⟨hab h.accepts, h.conforms⟩

lemma Sits.parameter {tags : List Tag} (h : v.Sits r (.tagged tags))
    (htags : tags ⊆ [.lasgn, .masgn, .kwarg, .forwardArgs, .shadow]) : v.Sits r .parameter := by
  refine h.weaken fun haccepts => ?_
  cases v with
  | sexp tag kids line maxLine =>
    have hmem : tag ∈ tags := by simpa [Seat.accepts, isA] using haccepts
    simpa [Seat.parameter, Seat.symbolOr, Seat.accepts, isA] using htags hmem
  | _ => cases haccepts

lemma Sits.parameter_of_symbolOr {tags : List Tag} (h : v.Sits r (.symbolOr tags))
    (htags : tags ⊆ [.lasgn, .masgn, .kwarg, .forwardArgs, .shadow]) : v.Sits r .parameter := by
  rcases Bool.or_eq_true_iff.mp h.accepts with hsymbol | htagged
  · exact Sits.right (Sits.left ⟨hsymbol, h.conforms⟩)
  · exact Sits.parameter ⟨htagged, h.conforms⟩ htags

lemma Sits.parameter_of_symbol (h : v.Sits r .symbol) : v.Sits r .parameter := .right (.left h)

lemma Sits.parameter_of_rest (h : v.Sits r (.either .nothing .symbol)) : v.Sits r .parameter := by
  rcases Bool.or_eq_true_iff.mp h.accepts with hnothing | hsymbol
  · exact Sits.left ⟨hnothing, h.conforms⟩
  · exact parameter_of_symbol ⟨hsymbol, h.conforms⟩

lemma Sits.eq_args (h : v.Sits r (.tagged [.args])) :
    ∃ kids line maxLine, v = .sexp .args kids line maxLine := by
  cases v with
  | sexp tag kids line maxLine =>
    have htag : tag = .args := by simpa [Seat.accepts, isA] using h.accepts
    exact ⟨kids, line, maxLine, htag ▸ rfl⟩
  | _ => cases h.accepts

lemma isExpression_args_concat {kids : List Value} {line maxLine : Json} {last : Value}
    (h : (Value.sexp .args kids line maxLine).Sits r (.tagged [.args]))
    (hlast : last.Sits r .parameter) :
    (Value.sexp .args (kids ++ [last]) line maxLine).IsExpression r := by
  refine isExpression_sexp (by decide) (by decide) (fun hr => ?_) line maxLine
  obtain ⟨hpermits, hkids⟩ := conforms_sexp.mp (h.conforms hr)
  have hseats := Tag.permits_args.mp hpermits
  refine ⟨Tag.permits_args.mpr ?_, ?_⟩
  · exact List.forall_mem_append.mpr ⟨hseats, List.forall_mem_singleton.mpr hlast.accepts⟩
  · exact List.forall_mem_append.mpr ⟨hkids, List.forall_mem_singleton.mpr (hlast.conforms hr)⟩

end Value

namespace Convert

variable {r : Rigour} {E : Fault → Prop} {n : Node} {conv : Conversion} {scope : Scope}
  {tree : Tree}

lemma restParameter_outcome (mark : List Char) (h : n.Keeps r .name .optionalText) :
    Outcome E (fun v : Value => v.Sits r .symbol) (restParameter n mark) :=
  (own_outcome h).bind fun _ _ => .pure (Value.sits_symbol _)

namespace Setting

variable (S : Setting r E n conv) (hscope : scope.inParameters = false)

include S hscope

/-! ### Parameters -/

lemma parameterList (hrequireds : n.Keeps r .requireds (.many .positional))
    (hoptionals : n.Keeps r .optionals (.many .optionalParameter))
    (hrest : n.Keeps r .rest (.optional .parameterRest))
    (hposts : n.Keeps r .posts (.many .positional))
    (hkeywords : n.Keeps r .keywords (.many .keyword))
    (hkeywordRest : n.Keeps r .keywordRest (.optional .keywordRest))
    (hblock : n.Keeps r .block (.optional .blockParameter)) :
    Outcome E (fun vs => ∀ v ∈ vs, v.Sits r .parameter) (parameterList conv scope n) := by
  have hpositional : ∀ {field}, n.Keeps r field (.many .positional) →
      Outcome E (fun vs => ∀ v ∈ vs, v.Sits r .parameter)
        (convertItems conv { scope with inParameters := true } n field) := fun hk =>
    (S.items hk rfl rfl rfl).mono fun _ hvs v hv =>
      Value.Sits.parameter_of_symbolOr (hvs.2 v hv) (by decide)
  refine (hpositional hrequireds).bind fun requireds h₁ => ?_
  refine (S.items hoptionals rfl rfl hscope).bind fun optionals h₂ => ?_
  refine (S.optionalItems hrest rfl rfl).bind fun rest h₃ => ?_
  refine (hpositional hposts).bind fun posts h₄ => ?_
  refine (S.items hkeywords rfl rfl hscope).bind fun keywords h₅ => ?_
  refine (S.optionalItems hkeywordRest rfl hscope).bind fun keywordRest h₆ => ?_
  refine (S.optionalItems hblock rfl hscope).bind fun block h₇ => .pure ?_
  simp only [List.forall_mem_append]
  refine ⟨⟨⟨⟨⟨⟨h₁, ?_⟩, ?_⟩, h₄⟩, ?_⟩, ?_⟩, ?_⟩
  · exact fun v hv => Value.Sits.parameter (h₂.2 v hv) (by decide)
  · exact fun v hv => Value.Sits.parameter_of_rest (h₃.2 v hv)
  · exact fun v hv => Value.Sits.parameter (h₅.2 v hv) (by decide)
  · exact fun v hv => Value.Sits.parameter_of_symbolOr (h₆.2 v hv) (by decide)
  · exact fun v hv => Value.Sits.parameter_of_symbol (h₇.2 v hv)

omit hscope in
lemma parameters (h : Outcome E (fun vs => ∀ v ∈ vs, v.Sits r .parameter)
    (Convert.parameterList conv scope n)) :
    Outcome E (fun v : Value => v.IsExpression r ∧ v.isA [.args] = true)
      (parameters conv scope n) :=
  h.bind fun kids hk => .build S.place fun line maxLine =>
    ⟨Value.isExpression_atLeast .args rfl [] kids trivial (Nat.zero_le _) hk line maxLine, rfl⟩

lemma optionalParameter (hname : n.Keeps r .name .text)
    (hvalue : n.Keeps r .value (.one .expression)) :
    Outcome E (fun v : Value => v.IsExpression r ∧ v.isA [.lasgn] = true)
      (optionalParameter conv scope n) := by
  refine (nameIn_outcome hname).bind fun label hl => ?_
  refine (S.expression hscope hvalue).bind fun v hv => .build S.place fun line maxLine => ⟨?_, rfl⟩
  exact Value.isExpression_upTo .lasgn rfl [label] [v] ⟨hl, trivial⟩ (atMostOne_singleton hv.sits)
    line maxLine

lemma optionalKeyword (hname : n.Keeps r .name .text)
    (hvalue : n.Keeps r .value (.one .expression)) :
    Outcome E (fun v : Value => v.IsExpression r ∧ v.isA [.kwarg] = true)
      (optionalKeyword conv scope n) := by
  refine (nameIn_outcome hname).bind fun label hl => ?_
  refine (S.expression hscope hvalue).bind fun v hv => .build S.place fun line maxLine => ⟨?_, rfl⟩
  exact Value.isExpression_upTo .kwarg rfl [label] [v] ⟨hl, trivial⟩ (atMostOne_singleton hv.sits)
    line maxLine

omit hscope in
lemma requiredKeyword (hname : n.Keeps r .name .text) :
    Outcome E (fun v : Value => v.IsExpression r ∧ v.isA [.kwarg] = true) (named n .kwarg) := by
  refine (nameIn_outcome hname).bind fun label hl => .build S.place fun line maxLine => ⟨?_, rfl⟩
  exact Value.isExpression_upTo .kwarg rfl [label] [] ⟨hl, trivial⟩ (atMostOne_nil _) line maxLine

lemma blockParameters (hlocals : n.Keeps r .locals (.many .blockLocal))
    (hparameters : n.Keeps r .parameters (.optional .parameters)) :
    Outcome E (fun v : Value => v.IsExpression r ∧ v.isA [.args] = true)
      (blockParameters conv scope n) := by
  refine (own_outcome hlocals).bind fun locals hl => ?_
  have hrest : ∀ shadow : List Value, (shadow.length ≤ 1 ∧ ∀ v ∈ shadow, v.Sits r .parameter) →
      Outcome E (fun v : Value => v.IsExpression r ∧ v.isA [.args] = true) (do
        let declared ← n.get .parameters
        if declared.isNull then build n.location .args shadow
        else
          let parameters ← conv scope declared
          if shadow.isEmpty then return parameters else extendParameters parameters shadow) := by
    intro shadow hs
    refine (own_outcome hparameters).bind fun declared hd => ?_
    rcases Tree.null_or_fits_of_holds hd.2 with rfl | hfits
    · refine .build S.place fun line maxLine => ⟨?_, rfl⟩
      exact Value.isExpression_atLeast .args rfl [] shadow trivial (Nat.zero_le _) hs.2 line maxLine
    · simp only [Tree.isNull_of_fits hfits, Bool.false_eq_true, if_false]
      refine (S.below hd.1 hfits rfl hscope).bind fun parameters hp => ?_
      have hp : parameters.Sits r (.tagged [.args]) := hp
      obtain ⟨kids, line, maxLine, rfl⟩ := hp.eq_args
      rcases shadow with _ | ⟨last, _ | ⟨second, rest⟩⟩
      · exact .pure ⟨⟨hp.branch, nofun, trivial⟩, rfl⟩
      · exact ⟨Value.isExpression_args_concat hp (hs.2 last (by simp)), rfl⟩
      · exact absurd hs.1 (by simp)
  split
  · refine (S.all hl.1 hl.2 rfl rfl hscope).bind fun names hn => ?_
    refine .build_bind S.place fun line maxLine => hrest [_] ⟨le_rfl, ?_⟩
    have hshadow : (Value.sexp .shadow names line maxLine).Sits r (.tagged [.shadow]) :=
      Value.IsExpression.tagged (Value.isExpression_atLeast .shadow rfl [] names trivial
        (Nat.zero_le _) hn.2 line maxLine) rfl
    exact List.forall_mem_singleton.mpr (hshadow.parameter (by decide))
  · exact hrest [] (atMostOne_nil _)

/-! ### Definitions -/

lemma definitionBody (hw : tree.Within n) (h : tree.holds r (.optional .expression) = true) :
    Outcome E (fun vs => (tree.isNull = false → 1 ≤ vs.length) ∧ ∀ v ∈ vs, v.Sits r .branch)
      (definitionBody conv scope tree) := by
  rcases Tree.null_or_fits_of_holds h with rfl | hfits
  · exact ⟨nofun, nofun⟩
  · simp only [Convert.definitionBody, Tree.isNull_of_fits hfits, Bool.false_eq_true, if_false]
    split
    · next hkind =>
      obtain ⟨m, rfl⟩ := Tree.eq_ofNode_of_fits hfits
      have hbody : m.Keeps r .body (.filled .expression) :=
        Tree.exists_get_of_fits hfits (by rw [Tree.kind_of_isA hkind]; rfl)
      refine (S.statements hscope hw.under hbody rfl).mono fun vs hvs => ⟨fun _ => ?_, ?_⟩
      · exact List.length_pos_iff.mpr
          (hvs.1.resolve_left (by simp [Content.mayBeEmpty, S.placed]))
      · exact fun v hv => (hvs.2 v hv).sits
    · refine (S.below hw hfits rfl hscope).bind fun v hv => .pure ⟨fun _ => le_rfl, ?_⟩
      exact List.forall_mem_singleton.mpr (Value.IsExpression.sits hv)

lemma definitionName (hw : tree.Within n) (h : tree.fits r .expression = true) :
    Outcome E (fun v : Value => v.Sits r (.either .symbol .branch))
      (definitionName conv scope tree) := by
  unfold Convert.definitionName
  split
  · next hkind =>
    obtain ⟨m, rfl⟩ := Tree.eq_ofNode_of_fits h
    obtain ⟨s, hget⟩ := exists_name_of_isNamed h (by rw [Tree.kind_of_isA hkind]; rfl)
    have hget : (Tree.ofNode m).get .name = .ok (.text s) := hget
    rw [hget]
    exact (Value.sits_symbol s).left
  · exact (S.below hw h rfl hscope).mono fun _ hv => (Value.IsExpression.sits hv).right

lemma classDefinition (hpath : n.Keeps r .constantPath (.one .expression))
    (hsuper : n.Keeps r .superclass (.optional .expression))
    (hbody : n.Keeps r .body (.optional .expression)) :
    Outcome E (fun v : Value => v.IsExpression r) (classDefinition conv scope n) := by
  refine (own_outcome hpath).bind fun path hp => ?_
  refine (S.definitionName hscope hp.1 hp.2).bind fun label hl => ?_
  refine (S.branch hscope hsuper).bind fun superclass hs => ?_
  refine (own_outcome hbody).bind fun content hc => ?_
  have hinner : (bodyScope scope).inParameters = false := hscope
  refine (S.definitionBody hinner hc.1 hc.2).bind fun body hb => .build S.place ?_
  exact Value.isExpression_atLeast .classDef rfl [label, superclass] body ⟨hl, hs, trivial⟩
    (Nat.zero_le _) hb.2

lemma moduleDefinition (hpath : n.Keeps r .constantPath (.one .expression))
    (hbody : n.Keeps r .body (.optional .expression)) :
    Outcome E (fun v : Value => v.IsExpression r) (moduleDefinition conv scope n) := by
  refine (own_outcome hpath).bind fun path hp => ?_
  refine (S.definitionName hscope hp.1 hp.2).bind fun label hl => ?_
  refine (own_outcome hbody).bind fun content hc => ?_
  have hinner : (bodyScope scope).inParameters = false := hscope
  refine (S.definitionBody hinner hc.1 hc.2).bind fun body hb => .build S.place ?_
  exact Value.isExpression_atLeast .moduleDef rfl [label] body ⟨hl, trivial⟩ (Nat.zero_le _) hb.2

lemma singletonClass (hobject : n.Keeps r .expression (.one .expression))
    (hbody : n.Keeps r .body (.optional .expression)) :
    Outcome E (fun v : Value => v.IsExpression r) (singletonClass conv scope n) := by
  refine (S.expression hscope hobject).bind fun object ho => ?_
  refine (own_outcome hbody).bind fun content hc => ?_
  have hinner : (bodyScope scope).inParameters = false := hscope
  refine (S.definitionBody hinner hc.1 hc.2).bind fun body hb => .build S.place ?_
  exact Value.isExpression_atLeast .sclass rfl [object] body ⟨ho.sits, trivial⟩ (Nat.zero_le _) hb.2

lemma method (hname : n.Keeps r .name .text)
    (hreceiver : n.Keeps r .receiver (.optional .expression))
    (hparameters : n.Keeps r .parameters (.optional .parameters))
    (hbody : n.Keeps r .body (.optional .expression)) :
    Outcome E (fun v : Value => v.IsExpression r) (method conv scope n) := by
  refine (own_outcome hparameters).bind fun declared hd => ?_
  -- the definition, once its parameters and its body are converted
  have hdefine : ∀ parameters : Value, parameters.Sits r (.tagged [.args]) →
      ∀ body : List Value, 1 ≤ body.length → (∀ v ∈ body, v.Sits r .branch) →
      Outcome E (fun v : Value => v.IsExpression r) (do
        let receiver ← n.get .receiver
        let label ← nameIn n .name
        if receiver.isNull then build n.location .defn ([label, parameters] ++ body)
        else
          let owner ← conv scope receiver
          build n.location .defs ([owner, label, parameters] ++ body)) := by
    intro parameters hp body hlength hb
    refine (own_outcome hreceiver).bind fun receiver hr => ?_
    refine (nameIn_outcome hname).bind fun label hl => ?_
    rcases Tree.null_or_fits_of_holds hr.2 with rfl | hfits
    · exact .build S.place (Value.isExpression_atLeast .defn rfl [label, parameters] body
        ⟨hl, hp, trivial⟩ hlength hb)
    · simp only [Tree.isNull_of_fits hfits, Bool.false_eq_true, if_false]
      exact (S.below hr.1 hfits rfl hscope).bind fun owner ho => .build S.place
        (Value.isExpression_atLeast .defs rfl [owner, label, parameters] body
          ⟨Value.IsExpression.sits ho, hl, hp, trivial⟩ hlength hb)
  have hcontent : ∀ parameters : Value, parameters.Sits r (.tagged [.args]) →
      Outcome E (fun v : Value => v.IsExpression r) (do
        let content ← n.get .body
        let body ← if content.isNull then do pure [← build n.location .nilLit []]
          else Convert.definitionBody conv
                { scope with inDef := true, inParameters := false } content
        let receiver ← n.get .receiver
        let label ← nameIn n .name
        if receiver.isNull then build n.location .defn ([label, parameters] ++ body)
        else
          let owner ← conv scope receiver
          build n.location .defs ([owner, label, parameters] ++ body)) := by
    intro parameters hp
    refine (own_outcome hbody).bind fun content hc => ?_
    by_cases hnull : content.isNull = true
    · simp only [hnull, if_true]
      refine .build_bind S.place fun line maxLine => hdefine parameters hp [_] le_rfl ?_
      exact List.forall_mem_singleton.mpr ⟨rfl, fun _ => rfl⟩
    · simp only [hnull, Bool.false_eq_true, if_false]
      refine (S.definitionBody rfl hc.1 hc.2).bind fun body hb => ?_
      exact hdefine parameters hp body (hb.1 (by simpa using hnull)) hb.2
  rcases Tree.null_or_fits_of_holds hd.2 with rfl | hfits
  · exact .build_bind S.place fun line maxLine => hcontent _ ⟨rfl, fun _ => rfl⟩
  · simp only [Tree.isNull_of_fits hfits, Bool.false_eq_true, if_false]
    exact (S.below hd.1 hfits rfl rfl).bind hcontent

omit hscope in
lemma aliasGlobal (hfresh : n.Keeps r .newName (.one .named))
    (hknown : n.Keeps r .oldName (.one .named)) :
    Outcome E (fun v : Value => v.IsExpression r) (aliasGlobal n) := by
  refine (own_outcome hfresh).bind fun fresh hf => (S.name hf.2).bind ?_
  rintro _ ⟨a, rfl⟩
  refine (own_outcome hknown).bind fun known hk => (S.name hk.2).bind ?_
  rintro _ ⟨b, rfl⟩
  exact .build S.place (Value.isExpression_exactly .aliasGlobal rfl
    ⟨Value.sits_symbol a, Value.sits_symbol b, trivial⟩)

lemma undefine (h : n.Keeps r .names (.filled .expression)) :
    Outcome E (fun v : Value => v.IsExpression r) (undefine conv scope n) := by
  refine (own_outcome h).bind fun list hl => ?_
  obtain ⟨names, rfl, hempty, hnames⟩ := Tree.eq_tuple_of_holds hl.2 rfl
  have hne : names ≠ [] := hempty.resolve_left (by simp [Content.mayBeEmpty, S.placed])
  have hremoval : ∀ {name place}, name ∈ names → Location.isNumbered place = true →
      Outcome E (fun v : Value => v.IsExpression r)
        (do build place .undefName [← conv scope name]) := by
    intro name place hname hplace
    obtain ⟨m, rfl⟩ := Tree.eq_ofNode_of_fits (hnames name hname)
    exact (S.below (hl.1.item hname) (hnames _ hname) rfl hscope).bind fun v hv =>
      .build hplace (Value.isExpression_exactly .undefName rfl
        ⟨Value.IsExpression.sits hv, trivial⟩)
  rcases names with _ | ⟨first, _ | ⟨second, rest⟩⟩
  · contradiction
  · exact hremoval (by simp) S.place
  · have hall : ∀ name ∈ first :: second :: rest, Outcome E (fun v : Value => v.IsExpression r)
        (do build name.location? .undefName [← conv scope name]) :=
      fun name hname => hremoval hname (Tree.isNumbered_of_fits (hnames name hname))
    refine (Outcome.mapM hall).bind fun removals hr => .build S.place ?_
    exact Value.isExpression_atLeast .block rfl [] removals trivial (by rw [hr.1]; simp)
      fun v hv => (hr.2 v hv).sits

end Setting

end Convert

end RubySexp
