import RubySexp.Proofs.Convert.Outcome.Literal

/-!
# Outcomes of Interpolation

Folding the parts of a literal never fails: the folded parts always start with a text, and every
string among them holds one text that the next one can be joined to.
-/

namespace RubySexp

namespace Value

structure IsPart (r : Rigour) (v : Value) : Prop where
  sits : v.Sits r .branch
  joinable : v.Joinable

lemma IsExpression.isPart {r : Rigour} {v : Value} (h : v.IsExpression r) : v.IsPart r :=
  ⟨h.sits, .of_foldable h.foldable⟩

lemma isPart_string {r : Rigour} (content : String) (line maxLine : Json) :
    (Value.sexp .str [.text content] line maxLine).IsPart r :=
  (isExpression_string content line maxLine).isPart

lemma IsPart.cases {r : Rigour} {v : Value} (h : v.IsPart r) :
    v = .nil ∨ (∃ content line maxLine, v = .sexp .str [.text content] line maxLine) ∨
      ∃ tag kids line maxLine, v = .sexp tag kids line maxLine ∧ tag ≠ .str := by
  rcases v with
    ⟨_ | _ | _ | _ | _⟩ | _ | _ | _ | _ | _ | ⟨tag, kids, line, maxLine⟩ | _ | _ | _ | _ | _
  case scalar.null => exact Or.inl rfl
  case sexp =>
    refine Or.inr ?_
    by_cases htag : tag = .str
    · subst htag
      obtain ⟨content, rfl⟩ := h.joinable
      exact Or.inl ⟨content, line, maxLine, rfl⟩
    · exact Or.inr ⟨tag, kids, line, maxLine, rfl, htag⟩
  all_goals cases h.sits.accepts

end Value

namespace Convert

variable {r : Rigour} {E : Fault → Prop} {n : Node} {conv : Conversion} {scope : Scope}

/-- Parts that are folded, latest first: behind all of them stands a text. -/
def Folded (r : Rigour) (folded : List Value) : Prop :=
  ∃ later head, folded = later ++ [.text head] ∧ ∀ v ∈ later, v.IsPart r

lemma Folded.push {folded : List Value} {part : Value} (h : Folded r folded)
    (hpart : part.IsPart r) : Folded r (part :: folded) := by
  obtain ⟨later, head, rfl, hlater⟩ := h
  exact ⟨part :: later, head, rfl, List.forall_mem_cons.mpr ⟨hpart, hlater⟩⟩

lemma absorb_outcome {folded : List Value} {part : Value} (hf : Folded r folded)
    (hpart : part.IsPart r) : Outcome E (Folded r) (absorb folded part) := by
  have hpush := hf.push hpart
  obtain ⟨later, head, rfl, hlater⟩ := hf
  rcases hpart.cases with
    rfl | ⟨content, line, maxLine, rfl⟩ | ⟨tag, kids, line, maxLine, rfl, htag⟩
  · cases later <;> exact hpush
  · rcases later with _ | ⟨last, later⟩
    · exact ⟨[], head ++ content, rfl, List.forall_mem_nil _⟩
    · obtain ⟨hlast, hbefore⟩ := List.forall_mem_cons.mp hlater
      rcases hlast.cases with rfl | ⟨before, line', maxLine', rfl⟩ | ⟨tag, kids, _, _, rfl, htag⟩
      · exact hpush
      · refine ⟨_ :: later, head, rfl, List.forall_mem_cons.mpr ⟨?_, hbefore⟩⟩
        exact Value.isPart_string (before ++ content) line' maxLine'
      · simpa [absorb, Value.asSexp?, htag] using hpush
  · cases later <;> simpa [absorb, Value.asSexp?, htag] using hpush

lemma absorbAll_outcome {kids folded : List Value} (hf : Folded r folded)
    (hkids : ∀ kid ∈ kids, kid.IsPart r) : Outcome E (Folded r) (kids.foldlM absorb folded) :=
  .foldlM hf fun _ hb kid hkid => absorb_outcome hb (hkids kid hkid)

lemma absorbTree_outcome {folded : List Value} {part : Tree} (hf : Folded r folded)
    (hplace : Location.isNumbered part.location? = true)
    (hpart : Outcome E (fun v : Value => v.IsExpression r) (conv scope part)) :
    Outcome E (Folded r) (absorbTree conv scope folded part) := by
  refine hpart.bind fun v hv => ?_
  split
  · next head rest line maxLine _ =>
    obtain ⟨content, others, heq, hothers⟩ := hv.foldable
    cases heq
    have hrest : ∀ kid ∈ rest, kid.IsPart r := fun kid hkid =>
      ⟨⟨(hothers kid hkid).1, fun hr =>
        (Value.conforms_sexp.mp (hv.sits.conforms hr)).2 kid (by simp [hkid])⟩,
        (hothers kid hkid).2⟩
    split
    · refine .build_bind hplace fun line maxLine => ?_
      refine (absorb_outcome hf (Value.isPart_string content line maxLine)).bind ?_
      exact fun _ hnext => absorbAll_outcome hnext hrest
    · exact absorbAll_outcome hf hrest
  · exact absorb_outcome hf hv.isPart

lemma exists_text_of_string {tree : Tree} (h : tree.fits r .expression = true)
    (hkind : tree.isA .stringNode = true) :
    ∃ content, tree.get .unescaped = .ok (.text content) := by
  obtain ⟨m, rfl⟩ := Tree.eq_ofNode_of_fits h
  have hkeeps : m.Keeps r .unescaped .text :=
    Tree.exists_get_of_fits h (by rw [Tree.kind_of_isA hkind]; rfl)
  obtain ⟨part, hget, hpart⟩ := hkeeps
  obtain ⟨content, rfl⟩ := Tree.eq_text_of_holds hpart
  exact ⟨content, hget⟩

lemma foldParts_outcome {parts : List Tree}
    (hparts : ∀ part ∈ parts, part.fits r .expression = true ∧
      Outcome E (fun v : Value => v.IsExpression r) (conv scope part)) :
    Outcome E (fun folded => folded = [] ∨ Folded r folded) (foldParts conv scope parts) := by
  have hstep : ∀ {part}, part ∈ parts → ∀ folded, Folded r folded →
      Outcome E (Folded r) (absorbTree conv scope folded part) := by
    intro part hpart folded hf
    obtain ⟨hfits, hconv⟩ := hparts part hpart
    exact absorbTree_outcome hf (Tree.isNumbered_of_fits hfits) hconv
  rcases parts with _ | ⟨first, rest⟩
  · exact Or.inl rfl
  · have hrest : ∀ start, Folded r start →
        Outcome E (fun folded => folded = [] ∨ Folded r folded)
          (rest.foldlM (absorbTree conv scope) start) := fun start hstart =>
      (Outcome.foldlM hstart fun folded hf part hpart => hstep (by simp [hpart]) folded hf).mono
        fun _ hf => Or.inr hf
    simp only [foldParts]
    split
    · next hkind =>
      obtain ⟨content, hget⟩ := exists_text_of_string (hparts first (by simp)).1 hkind
      rw [hget]
      exact hrest [.text content] ⟨[], content, rfl, List.forall_mem_nil _⟩
    · exact (hstep (by simp) [.text ""] ⟨[], "", rfl, List.forall_mem_nil _⟩).bind hrest

def Interpolated.plainTag : Interpolated → Tag
  | .string => .str
  | .command => .xstr
  | .symbol | .regexp => .lit

def Interpolated.Meets (form : Interpolated) (r : Rigour) (v : Value) : Prop :=
  v.IsExpression r ∧ v.isA [form.plainTag] = true ∨
    ∃ head rest line maxLine, v = .sexp form.tag (.text head :: rest) line maxLine ∧ rest ≠ [] ∧
      ∀ part ∈ rest, part.IsPart r

lemma Interpolated.Meets.isExpression {form : Interpolated} {v : Value} (h : form.Meets r v) :
    v.IsExpression r := by
  rcases h with h | ⟨head, rest, line, maxLine, rfl, hne, hrest⟩
  · exact h.1
  · have hconforms : r.assigned = true →
        (Value.sexp form.tag (.text head :: rest) line maxLine).conforms = true := by
      intro hr
      have hlayout : Layout.atLeastThen [.text] 1 .branch ∈ form.tag.layouts := by
        cases form <;> decide
      have haccepts : (Layout.atLeastThen [.text] 1 .branch).accepts
          ([.text head] ++ (rest ++ [])) = true :=
        Layout.accepts_append rfl (fun kid hkid => (hrest kid hkid).sits.accepts) rfl
          (List.length_pos_iff.mpr hne) nofun
      rw [List.append_nil] at haccepts
      refine Value.conforms_sexp.mpr ⟨Tag.permits_of_accepts hlayout haccepts, ?_⟩
      exact List.forall_mem_cons.mpr ⟨rfl, fun kid hkid => (hrest kid hkid).sits.conforms hr⟩
    cases form with
    | string =>
      exact ⟨⟨rfl, hconforms⟩, nofun, head, rest, rfl,
        fun kid hkid => ⟨(hrest kid hkid).sits.accepts, (hrest kid hkid).joinable⟩⟩
    | command | symbol | regexp => exact ⟨⟨rfl, hconforms⟩, nofun, trivial⟩

lemma isExpression_regexp (once : Bool) (head : String) {rest last : List Value} (hne : rest ≠ [])
    (hrest : ∀ part ∈ rest, part.IsPart r) (hlast : last = [] ∨ ∃ i, last = [.int i])
    (line maxLine : Json) :
    (Value.sexp (if once then .dregxOnce else .dregx) ([.text head] ++ (rest ++ last)) line
      maxLine).IsExpression r := by
  have hfirst : Value.SitEach r [.text] [.text head] := ⟨⟨rfl, fun _ => rfl⟩, trivial⟩
  have hparts : ∀ part ∈ rest, part.Sits r .branch := fun part hpart => (hrest part hpart).sits
  rcases hlast with rfl | ⟨i, rfl⟩
  · have hlayout : Layout.between [.text] 1 .branch [] ∈
        (if once then Tag.dregxOnce else .dregx).ownLayouts := by cases once <;> decide
    exact Value.isExpression_between _ hlayout _ rest [] hfirst (List.length_pos_iff.mpr hne) hparts
      trivial line maxLine
  · have hlayout : Layout.between [.text] 1 .branch [.integer] ∈
        (if once then Tag.dregxOnce else .dregx).ownLayouts := by cases once <;> decide
    have hoptions : Value.SitEach r [.integer] [.int i] := ⟨⟨rfl, fun _ => rfl⟩, trivial⟩
    exact Value.isExpression_between _ hlayout _ rest _ hfirst (List.length_pos_iff.mpr hne) hparts
      hoptions line maxLine

namespace Setting

variable (S : Setting r E n conv)

include S

lemma plainLiteral (form : Interpolated) (hoptions : form = .regexp → KeepsOptions r n)
    (content : String) : Outcome E (form.Meets r) (plainLiteral n form content) := by
  cases form with
  | string =>
    exact .build S.place fun line maxLine =>
      Or.inl ⟨Value.isExpression_string content line maxLine, rfl⟩
  | command =>
    refine .build S.place fun line maxLine => Or.inl ⟨?_, rfl⟩
    have hkid : Value.SitEach r [.text] [.text content] := ⟨⟨rfl, fun _ => rfl⟩, trivial⟩
    exact Value.isExpression_exactly .xstr rfl hkid line maxLine
  | symbol =>
    exact .build S.place fun line maxLine =>
      Or.inl ⟨Value.isExpression_lit (Value.sits_symbol content).value line maxLine, rfl⟩
  | regexp =>
    refine (regexpOptions_outcome (hoptions rfl)).bind fun options _ => ?_
    have hkid : (Value.regexp (.text content) options).Sits r .value := ⟨rfl, fun _ => rfl⟩
    exact .build S.place fun line maxLine => Or.inl ⟨Value.isExpression_lit hkid line maxLine, rfl⟩

variable (hscope : scope.inParameters = false)

include hscope

lemma interpolated (form : Interpolated) (hoptions : form = .regexp → KeepsOptions r n)
    (h : n.Keeps r .parts (.many .expression)) :
    Outcome E (form.Meets r) (interpolated conv scope n form) := by
  refine (own_outcome h).bind fun tree ht => ?_
  obtain ⟨parts, rfl, -, hparts⟩ := Tree.eq_tuple_of_holds ht.2 rfl
  have hfold : Outcome E (fun folded => folded = [] ∨ Folded r folded)
      (foldParts conv scope parts) := by
    refine foldParts_outcome fun part hpart => ⟨hparts part hpart, ?_⟩
    obtain ⟨m, rfl⟩ := Tree.eq_ofNode_of_fits (hparts part hpart)
    exact S.below (ht.1.item hpart) (hparts _ hpart) rfl hscope
  refine hfold.bind fun folded hfolded => ?_
  rcases hfolded with rfl | ⟨later, head, rfl, hlater⟩
  · exact S.plainLiteral form hoptions ""
  · rcases later with _ | ⟨last, later⟩
    · exact S.plainLiteral form hoptions head
    · have hbuild : Outcome E (form.Meets r)
          (build n.location form.tag ((last :: later) ++ [Value.text head]).reverse) := by
        refine .build S.place fun line maxLine => Or.inr ?_
        refine ⟨head, (last :: later).reverse, line, maxLine, by simp, by simp, ?_⟩
        exact fun part hpart => hlater part (List.mem_reverse.mp hpart)
      split
      · next heq => cases heq
      · next heq => simp at heq
      · exact hbuild

lemma interpolatedRegexp (hoptions : KeepsOptions r n) (honce : n.Keeps r .once .flag)
    (h : n.Keeps r .parts (.many .expression)) :
    Outcome E (fun v : Value => v.IsExpression r) (interpolatedRegexp conv scope n) := by
  refine (S.interpolated hscope .regexp (fun _ => hoptions) h).bind fun v hv => ?_
  split
  · next kids line maxLine =>
    refine (regexpOptions_outcome hoptions).bind fun options _ => ?_
    refine (own_outcome honce).bind fun once _ => .pure ?_
    rcases hv with ⟨-, hlit⟩ | ⟨head, rest, _, _, heq, hne, hrest⟩
    · cases hlit
    · cases heq
      by_cases hzero : options = 0
      · simp only [hzero, if_true]
        have := isExpression_regexp once.truthy head hne hrest (Or.inl rfl) line maxLine
        simpa using this
      · simp only [hzero, if_false]
        exact isExpression_regexp once.truthy head hne hrest (Or.inr ⟨_, rfl⟩) line maxLine
  · exact .pure hv.isExpression

lemma interpolatedMatch (hoptions : KeepsOptions r n) (honce : n.Keeps r .once .flag)
    (h : n.Keeps r .parts (.many .expression)) :
    Outcome E (fun v : Value => v.IsExpression r) (interpolatedMatch conv scope n) := by
  refine (S.interpolatedRegexp hscope hoptions honce h).bind fun v hv => ?_
  split
  · next hlit =>
    exact .build S.place
      (Value.isExpression_exactly .matchLast rfl ⟨⟨hlit, hv.sits.conforms⟩, trivial⟩)
  · refine .build_bind S.place fun line maxLine => .build S.place ?_
    have hline : (Value.sexp .gvar [.sym "$_"] line maxLine).Sits r .any := ⟨rfl, fun _ => rfl⟩
    exact Value.isExpression_exactly .match2 rfl ⟨hv.sits, hline, trivial⟩

lemma embeddedStatements (h : n.Keeps r .statements (.optional .expression)) :
    Outcome E (fun v : Value => v.IsExpression r) (embeddedStatements conv scope n) := by
  refine (own_outcome h).bind fun tree ht => ?_
  rcases Tree.null_or_fits_of_holds ht.2 with rfl | hfits
  · exact .build S.place (Value.isExpression_upTo .evstr rfl [] [] trivial (atMostOne_nil _))
  · simp only [Tree.isNull_of_fits hfits, Bool.false_eq_true, if_false]
    refine (S.below ht.1 hfits rfl hscope).bind fun inner hinner => ?_
    split
    · exact .pure hinner
    · exact .build S.place
        (Value.isExpression_upTo .evstr rfl [] [inner] trivial
          ⟨by simp, by simpa using Value.IsExpression.sits hinner⟩)

lemma embeddedVariable (h : n.Keeps r .variable (.one .expression)) :
    Outcome E (fun v : Value => v.IsExpression r) (embeddedVariable conv scope n) :=
  (S.expression hscope h).bind fun inner hinner => .build S.place
    (Value.isExpression_upTo .evstr rfl [] [inner] trivial ⟨by simp, by simpa using hinner.sits⟩)

end Setting

end Convert

end RubySexp
