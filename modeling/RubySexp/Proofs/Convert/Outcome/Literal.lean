import RubySexp.Proofs.Convert.Outcome.Setting

/-!
# Outcomes of Literals

Numbers, texts, symbols, hashes and ranges.
-/

namespace RubySexp

namespace Value

variable {r : Rigour}

lemma isExpression_string (content : String) (line maxLine : Json) :
    (Value.sexp .str [.text content] line maxLine).IsExpression r :=
  ⟨⟨rfl, fun _ => rfl⟩, nofun, content, rfl⟩

lemma isExpression_lit {v : Value} (h : v.Sits r .value) :
    ∀ line maxLine, (Value.sexp .lit [v] line maxLine).IsExpression r :=
  isExpression_exactly .lit rfl ⟨h, trivial⟩

lemma Sits.value {v : Value} (h : v.Sits r .symbol) : v.Sits r .value := by
  refine ⟨?_, h.conforms⟩
  cases v with
  | symbol => rfl
  | _ => cases h.accepts

end Value

namespace Convert

variable {r : Rigour} {E : Fault → Prop} {n : Node} {conv : Conversion} {scope : Scope}
  {field : Field} {tree : Tree}

/-! ### Scalars -/

lemma sits_symbol_of_holds (h : tree.holds r .text = true) :
    (Value.symbol tree).Sits r .symbol := by
  obtain ⟨s, rfl⟩ := Tree.eq_text_of_holds h
  exact Value.sits_symbol s

lemma integer_of_holds (h : tree.holds r .integer = true) : ∃ i, integer tree = .ok i := by
  rcases tree with ⟨_ | _ | _ | _ | _⟩ | _ | _ | _
  case scalar.bool | scalar.int => exact ⟨_, rfl⟩
  all_goals cases h

lemma sits_value_of_number (h : tree.holds r .integer = true ∨ tree.holds r .float = true) :
    tree.toValue.Sits r .value := by
  rcases tree with ⟨_ | _ | _ | _ | _⟩ | _ | _ | _
  case scalar.bool | scalar.int | scalar.float =>
    exact ⟨by simp [Tree.toValue, Seat.accepts, Value.isBranch],
      fun _ => by simp [Tree.toValue, Value.conforms]⟩
  all_goals rcases h with h | h <;> cases h

lemma denominator_of_holds (h : tree.holds r .denominator = true) :
    tree.isNull = false ∧ ∃ d, integer tree = .ok d ∧ (r.sound = true → d ≠ 0) := by
  rcases tree with ⟨_ | b | d | _ | _⟩ | _ | _ | _
  case scalar.int =>
    refine ⟨rfl, d, rfl, fun hr => ?_⟩
    simpa [Tree.holds, Content.allows, hr] using h
  case scalar.bool =>
    refine ⟨rfl, _, rfl, fun hr => ?_⟩
    have : b = true := by simpa [Tree.holds, Content.allows, hr] using h
    simp [this]
  all_goals cases h

lemma nameIn_outcome (h : n.Keeps r field .text) :
    Outcome E (fun v : Value => v.Sits r .symbol) (nameIn n field) :=
  (own_outcome h).bind fun _ ht => .pure (sits_symbol_of_holds ht.2)

lemma flag_outcome (h : n.Keeps r field .flag) :
    Outcome E (fun tree => ∃ b, tree = .bool b) (n.get field) :=
  (own_outcome h).mono fun _ ht => Tree.eq_bool_of_holds ht.2

structure KeepsOptions (r : Rigour) (n : Node) : Prop where
  multiLine : n.Keeps r .multiLine .flag
  ignoreCase : n.Keeps r .ignoreCase .flag
  extended : n.Keeps r .extended .flag
  ascii8bit : n.Keeps r .ascii8bit .flag

lemma regexpOptions_outcome (h : KeepsOptions r n) :
    Outcome E (fun _ => True) (regexpOptions n) := by
  have hbit : ∀ {field} (value : Nat), n.Keeps r field .flag →
      Outcome E (fun _ => True) (do return if (← n.get field).truthy then value else 0) :=
    fun _ hk => (own_outcome hk).bind fun _ _ => .pure trivial
  refine (hbit 4 h.multiLine).bind fun _ _ => (hbit 1 h.ignoreCase).bind fun _ _ => ?_
  exact (hbit 2 h.extended).bind fun _ _ => (hbit 32 h.ascii8bit).bind fun _ _ => .pure trivial

namespace Setting

variable (S : Setting r E n conv)

include S

lemma number {tag : Tag} (htag : tag.ownLayouts = [.exactly [.value]])
    (h : n.Keeps r field .integer ∨ n.Keeps r field .float) :
    Outcome E (fun v : Value => v.IsExpression r)
      (do build n.location tag [(← n.get field).toValue]) := by
  have hnumber : ∀ {tree : Tree}, tree.toValue.Sits r .value →
      Outcome E (fun v : Value => v.IsExpression r) (build n.location tag [tree.toValue]) :=
    fun hv => .build S.place (Value.isExpression_exactly tag htag ⟨hv, trivial⟩)
  rcases h with h | h
  · exact (own_outcome h).bind fun _ ht => hnumber (sits_value_of_number (.inl ht.2))
  · exact (own_outcome h).bind fun _ ht => hnumber (sits_value_of_number (.inr ht.2))

lemma rational (hnum : n.Keeps r .numerator .integer) (hden : n.Keeps r .denominator .denominator) :
    Outcome E (fun v : Value => v.IsExpression r) (rational n) := by
  refine (own_outcome hnum).bind fun numerator ht => ?_
  refine (own_outcome hden).bind fun denominator hd => ?_
  obtain ⟨hnull, d, hinteger, hzero⟩ := denominator_of_holds hd.2
  obtain ⟨i, hi⟩ := integer_of_holds ht.2
  have hquotient : Outcome E (fun _ => True) (quotient i d) := by
    unfold quotient
    split
    · next h0 =>
      refine S.excuse ?_ _
      by_contra hr
      exact hzero (by simpa using hr) h0
    · trivial
  simp only [hnull, Bool.false_eq_true, if_false, hi, hinteger]
  refine hquotient.bind fun q _ => .build S.place (Value.isExpression_lit ⟨rfl, fun _ => rfl⟩)

lemma string (h : n.Keeps r .unescaped .text) :
    Outcome E (fun v : Value => v.IsExpression r)
      (do build n.location .str [(← n.get .unescaped).toValue]) := by
  refine (own_outcome h).bind fun tree ht => ?_
  obtain ⟨content, rfl⟩ := Tree.eq_text_of_holds ht.2
  exact .build S.place (Value.isExpression_string content)

lemma command (h : n.Keeps r .unescaped .text) :
    Outcome E (fun v : Value => v.IsExpression r)
      (do build n.location .xstr [(← n.get .unescaped).toValue]) := by
  refine (own_outcome h).bind fun tree ht => ?_
  obtain ⟨content, rfl⟩ := Tree.eq_text_of_holds ht.2
  exact .build S.place (Value.isExpression_exactly .xstr rfl ⟨⟨rfl, fun _ => rfl⟩, trivial⟩)

lemma symbol (h : n.Keeps r .unescaped .text) :
    Outcome E (fun v : Value => v.IsExpression r)
      (do build n.location .lit [← nameIn n .unescaped]) :=
  (nameIn_outcome h).bind fun _ hv => .build S.place (Value.isExpression_lit hv.value)

lemma regexp (h : n.Keeps r .unescaped .text) (hoptions : KeepsOptions r n) :
    Outcome E (fun v : Value => v.IsExpression r ∧ v.isA [.lit] = true) (regexp n) := by
  refine (own_outcome h).bind fun tree ht => ?_
  obtain ⟨source, rfl⟩ := Tree.eq_text_of_holds ht.2
  refine (regexpOptions_outcome hoptions).bind fun options _ => ?_
  refine .build S.place fun line maxLine => ⟨Value.isExpression_lit ?_ line maxLine, rfl⟩
  exact ⟨rfl, fun _ => rfl⟩

lemma matchLastLine (h : n.Keeps r .unescaped .text) (hoptions : KeepsOptions r n) :
    Outcome E (fun v : Value => v.IsExpression r) (matchLastLine n) := by
  refine (S.regexp h hoptions).bind fun v hv => .build S.place ?_
  exact Value.isExpression_exactly .matchLast rfl ⟨⟨hv.2, hv.1.sits.conforms⟩, trivial⟩

lemma sourceFile (h : n.Keeps r .filepath .text) :
    Outcome E (fun v : Value => v.IsExpression r) (sourceFile scope n) := by
  refine (own_outcome h).bind fun tree ht => ?_
  obtain ⟨recorded, rfl⟩ := Tree.eq_text_of_holds ht.2
  have hfallback : ∃ content, (if (Tree.text recorded).truthy then (Tree.text recorded).toValue
      else .text "(string)") = .text content := by
    split <;> exact ⟨_, rfl⟩
  obtain ⟨fallback, hfallback⟩ := hfallback
  simp only [hfallback]
  split
  · split
    · exact .build S.place (Value.isExpression_string fallback)
    · exact .build S.place (Value.isExpression_string _)
  · exact .build S.place (Value.isExpression_string fallback)

lemma sourceLine : Outcome E (fun v : Value => v.IsExpression r) (sourceLine n) := by
  obtain ⟨l, first, _, hl, hfirst, -⟩ := Location.eq_some_of_isNumbered S.place
  have hline : l.startLine.toValue = .int first := by rw [hfirst]; rfl
  rw [Convert.sourceLine, hl]
  refine .build (hl ▸ S.place) (Value.isExpression_lit ?_)
  rw [hline]
  exact ⟨rfl, fun _ => rfl⟩

lemma sourceEncoding : Outcome E (fun v : Value => v.IsExpression r) (sourceEncoding n) := by
  refine .build_bind S.place fun line maxLine => .build S.place ?_
  refine Value.isExpression_exactly .colon2 rfl ⟨⟨rfl, fun _ => rfl⟩, Value.sits_symbol _, trivial⟩

variable (hscope : scope.inParameters = false)

include hscope

/-! ### Literals with parts -/

lemma imaginary (h : n.Keeps r .numeric (.one .expression)) :
    Outcome E (fun v : Value => v.IsExpression r) (imaginary conv scope n) := by
  refine (S.expression hscope h).bind fun v hv => ?_
  rcases hv.cases with ⟨tag, kids, line, maxLine, rfl⟩ | ⟨hloose, rfl⟩
  · refine .build S.place (Value.isExpression_lit ⟨rfl, fun hr => ?_⟩)
    simp only [Value.conforms, Bool.true_and, Sexp.value]
    -- the last kid, or the symbol of the tag
    cases hlast : kids.getLast? with
    | none => rfl
    | some kid =>
      exact (Value.conforms_sexp.mp (hv.sits.conforms hr)).2 kid (List.mem_of_getLast? hlast)
  · exact S.excuse hloose _

lemma pairs (h : n.Keeps r field (.many .element)) :
    Outcome E (fun vs => ∀ v ∈ vs, v.Sits r .any) (pairs conv scope n field) := by
  refine (own_outcome h).bind fun tree ht => ?_
  obtain ⟨items, rfl, -, hitems⟩ := Tree.eq_tuple_of_holds ht.2 rfl
  have hall : ∀ element ∈ items, Outcome E (fun vs => ∀ v ∈ vs, v.Sits r .any)
      (do (← conv scope element).items) := by
    intro element helement
    obtain ⟨m, rfl⟩ := Tree.eq_ofNode_of_fits (hitems element helement)
    exact (S.below (ht.1.item helement) (hitems _ helement) rfl hscope).bind fun v hv =>
      (S.takenApart hv).mono fun _ hvs => hvs.2
  refine (Outcome.mapM hall).bind fun lists hlists => .pure ?_
  intro v hv
  obtain ⟨list, hlist, hv⟩ := List.mem_flatten.mp hv
  exact hlists.2 list hlist v hv

lemma hash (h : n.Keeps r .elements (.many .element)) :
    Outcome E (fun v : Value => v.IsExpression r)
      (do build n.location .hash (← Convert.pairs conv scope n .elements)) :=
  (S.pairs hscope h).bind fun vs hvs => .build S.place
    (Value.isExpression_atLeast .hash rfl [] vs trivial (Nat.zero_le _) hvs)

lemma array (h : n.Keeps r .elements (.many .expression)) :
    Outcome E (fun v : Value => v.IsExpression r)
      (do build n.location .array (← convertItems conv scope n .elements)) :=
  (S.expressions hscope h).bind fun vs hvs => .build S.place
    (Value.isExpression_atLeast .array rfl [] vs trivial (Nat.zero_le _)
      fun v hv => (hvs v hv).sits.any)

lemma range (hleft : n.Keeps r .left (.optional .expression))
    (hright : n.Keeps r .right (.optional .expression)) (hend : n.Keeps r .excludeEnd .flag) :
    Outcome E (fun v : Value => v.IsExpression r) (range conv scope n) := by
  refine (S.branch hscope hleft).bind fun left hl => ?_
  refine (S.branch hscope hright).bind fun right hr => ?_
  refine (flag_outcome hend).bind ?_
  rintro _ ⟨b, rfl⟩
  split
  · exact .build S.place (Value.isExpression_lit ⟨rfl, fun _ => rfl⟩)
  · split
    · exact .build S.place (Value.isExpression_exactly .dot3 rfl ⟨hl, hr, trivial⟩)
    · exact .build S.place (Value.isExpression_exactly .dot2 rfl ⟨hl, hr, trivial⟩)

/-! ### Elements and arguments, which are taken apart -/

lemma assoc (hkey : n.Keeps r .key (.one .expression))
    (hvalue : n.Keeps r .value (.optional .pairValue)) :
    Outcome E (Yield.items.Meets r) (assoc conv scope n) := by
  refine (S.expression hscope hkey).bind fun key hk => ?_
  refine (S.optionalChild hvalue rfl hscope).bind fun value hv => .pure ?_
  have hvalue : value.Sits r .branch := by
    rcases hv with rfl | hv | rfl
    · exact Value.sits_nil
    · exact hv.sits
    · exact Value.sits_nil
  exact Yield.meets_list (fun _ => by simp) (by simp [hk.sits.any, hvalue.any])

lemma assocSplat (h : n.Keeps r .value (.optional .expression)) :
    Outcome E (Yield.items.Meets r) (assocSplat conv scope n) := by
  refine (S.ifPresent hscope h).bind fun vs hvs => .build_bind S.place fun line maxLine => ?_
  have hsplat := Value.isExpression_upTo .kwsplat rfl [] vs trivial hvs line maxLine
  exact .pure (Yield.meets_list (fun _ => by simp) (by simpa using hsplat.sits.any))

lemma argumentList (h : n.Keeps r .arguments (.given .expression)) :
    Outcome E (Yield.items.Meets r)
      (do return .list (← convertItems conv scope n .arguments)) := by
  refine (S.items h rfl rfl hscope).bind fun vs hvs => .pure (Yield.meets_list ?_ ?_)
  · intro hr
    exact hvs.1.resolve_left (by simp [Content.mayBeEmpty, hr])
  · exact fun v hv => Value.Sits.any (Value.IsExpression.sits (hvs.2 v hv))

end Setting

end Convert

end RubySexp
