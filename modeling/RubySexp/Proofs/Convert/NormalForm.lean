import RubySexp.Proofs.Convert.Interpolation

/-!
# The Normal Form of Interpolation

A literal with parts comes out in one of two ways. If nothing in it is computed it is a plain
literal. Otherwise it starts with a bare text, a computed part follows, and from there on there is
never more than one string between two computed parts; a string with parts of its own leaves no
trace of where it began and ended.

The fold keeps its parts latest first. What one part preserves is stated for this stack: a string
grows the text or the string on top of it, and only on top of a computed part it stands by itself.
-/

namespace RubySexp

lemma Value.eq_sexp_of_isA {tag : Tag} {v : Value} (h : v.isA [tag] = true) :
    ∃ kids line maxLine, v = .sexp tag kids line maxLine := by
  cases v with
  | sexp tag' kids line maxLine =>
    obtain rfl : tag' = tag := by simpa [isA] using h
    exact ⟨kids, line, maxLine, rfl⟩
  | _ => cases h

namespace Convert

lemma isA_part_iff {v : Value} :
    v.isA [.str, .evstr] = true ↔ isStr v = true ∨ v.isA [.evstr] = true := by
  cases v <;> simp [isStr, Value.isA]

lemma not_str_of_computed {v : Value} (h : v.isA [.evstr] = true) : isStr v = false := by
  obtain ⟨kids, line, maxLine, rfl⟩ := Value.eq_sexp_of_isA h
  rfl

/-! ### The stack of folded parts -/

/-- Folded parts, latest first: a bare text at the bottom, and a string only on top of what is
computed. -/
inductive Normal : List Value → Prop
  | text (content : String) : Normal [.text content]
  | computed {v folded} : v.isA [.evstr] = true → Normal folded → Normal (v :: folded)
  | string {v last folded} : isStr v = true → last.isA [.evstr] = true → Normal (last :: folded) →
    Normal (v :: last :: folded)

def Bare (folded : List Value) : Prop := ∃ content, folded = [.text content]

lemma not_bare_cons_cons (a b : Value) (folded : List Value) : ¬ Bare (a :: b :: folded) := by
  simp [Bare]

lemma not_bare_of_computed {v : Value} (h : v.isA [.evstr] = true) (folded : List Value) :
    ¬ Bare (v :: folded) := by
  obtain ⟨kids, line, maxLine, rfl⟩ := Value.eq_sexp_of_isA h
  simp [Bare]

variable {folded next : List Value} {part v : Value}

lemma absorb_computed (hpart : part.isA [.evstr] = true) :
    absorb folded part = .ok (part :: folded) := by
  obtain ⟨kids, line, maxLine, rfl⟩ := Value.eq_sexp_of_isA hpart
  cases folded <;> rfl

lemma absorb_string (hf : Normal folded) (hpart : isStr part = true)
    (h : absorb folded part = .ok next) : Normal next ∧ (Bare next ↔ Bare folded) := by
  obtain ⟨kids, line, maxLine, rfl⟩ := Value.eq_sexp_of_isA hpart
  cases hf with
  | text content =>
    obtain ⟨joined, hjoined, h⟩ := exists_ok_of_bind h
    cases h
    obtain ⟨b, -, rfl⟩ := eq_text_of_join hjoined
    exact ⟨.text _, iff_of_true ⟨_, rfl⟩ ⟨_, rfl⟩⟩
  | @computed last before hlast hbefore =>
    obtain ⟨inner, l, m, rfl⟩ := Value.eq_sexp_of_isA hlast
    cases h
    exact ⟨.string hpart hlast (.computed hlast hbefore),
      iff_of_false (not_bare_cons_cons _ _ _) (not_bare_of_computed hlast _)⟩
  | @string last below before hlast hbelow hbefore =>
    obtain ⟨inner, l, m, rfl⟩ := Value.eq_sexp_of_isA hlast
    obtain ⟨joined, -, h⟩ := exists_ok_of_bind h
    obtain ⟨replaced, hreplaced, h⟩ := exists_ok_of_bind h
    cases h
    obtain ⟨-, rfl⟩ := kids_of_replaceValue hreplaced
    exact ⟨.string rfl hbelow hbefore,
      iff_of_false (not_bare_cons_cons _ _ _) (not_bare_cons_cons _ _ _)⟩

lemma absorb_normal (hf : Normal folded) (hpart : part.isA [.str, .evstr] = true)
    (h : absorb folded part = .ok next) :
    Normal next ∧ (Bare next ↔ Bare folded ∧ isStr part = true) := by
  rcases isA_part_iff.mp hpart with hstr | hcomputed
  · obtain ⟨hnext, hbare⟩ := absorb_string hf hstr h
    exact ⟨hnext, by simpa [hstr] using hbare⟩
  · rw [absorb_computed hcomputed] at h
    cases h
    refine ⟨.computed hcomputed hf, iff_of_false (not_bare_of_computed hcomputed _) ?_⟩
    simp [not_str_of_computed hcomputed]

lemma absorbAll_normal {kids : List Value} (hf : Normal folded)
    (hkids : ∀ kid ∈ kids, kid.isA [.str, .evstr] = true)
    (h : kids.foldlM absorb folded = .ok next) :
    Normal next ∧ (Bare next ↔ Bare folded ∧ ∀ kid ∈ kids, isStr kid = true) := by
  induction kids generalizing folded with
  | nil =>
    cases h
    exact ⟨hf, by simp⟩
  | cons kid kids ih =>
    obtain ⟨middle, hmiddle, h⟩ := exists_ok_of_bind h
    obtain ⟨hkid, hothers⟩ := List.forall_mem_cons.mp hkids
    obtain ⟨hnormal, hbare⟩ := absorb_normal hf hkid hmiddle
    obtain ⟨hnext, hall⟩ := ih hnormal hothers h
    exact ⟨hnext, by rw [hall, hbare, List.forall_mem_cons, and_assoc]⟩

/-! ### What a normal stack looks like -/

namespace Normal

lemma exists_kids (h : Normal folded) (hbare : ¬ Bare folded) :
    ∃ head second later, folded = later ++ [second, .text head] ∧ second.isA [.evstr] = true ∧
      ∀ v ∈ later, v.isA [.str, .evstr] = true := by
  induction h with
  | text content => exact absurd ⟨content, rfl⟩ hbare
  | @computed v folded hv hf ih =>
    by_cases hfolded : Bare folded
    · obtain ⟨content, rfl⟩ := hfolded
      exact ⟨content, v, [], rfl, hv, List.forall_mem_nil _⟩
    · obtain ⟨head, second, later, rfl, hsecond, hlater⟩ := ih hfolded
      exact ⟨head, second, v :: later, rfl, hsecond,
        List.forall_mem_cons.mpr ⟨isA_part_iff.mpr (.inr hv), hlater⟩⟩
  | @string v last folded hv hlast _ ih =>
    obtain ⟨head, second, later, heq, hsecond, hlater⟩ := ih (not_bare_of_computed hlast folded)
    exact ⟨head, second, v :: later, by rw [heq]; rfl, hsecond,
      List.forall_mem_cons.mpr ⟨isA_part_iff.mpr (.inl hv), hlater⟩⟩

lemma isChain (h : Normal folded) :
    folded.IsChain fun a b => isStr b = true → isStr a = false := by
  induction h with
  | text content => exact .singleton _
  | computed hv _ ih => exact List.isChain_cons.mpr ⟨fun _ _ _ => not_str_of_computed hv, ih⟩
  | string _ hlast _ ih =>
    refine List.isChain_cons.mpr ⟨fun w hw hstr => ?_, ih⟩
    obtain rfl : _ = w := Option.some.inj hw
    rw [not_str_of_computed hlast] at hstr
    cases hstr

end Normal

structure InNormalForm (kids : List Value) : Prop where
  starts_with_text : ∃ content, kids[0]? = some (.text content)
  then_computed : ∃ second, kids[1]? = some second ∧ isStr second = false
  apart : kids.IsChain fun a b => isStr a = true → isStr b = false
  flat : ∀ kid ∈ kids, kid.isA [.dstr] = false

lemma flat_of_part (h : v.isA [.str, .evstr] = true) : v.isA [.dstr] = false := by
  rcases isA_part_iff.mp h with hstr | hcomputed
  · obtain ⟨kids, line, maxLine, rfl⟩ := Value.eq_sexp_of_isA hstr
    rfl
  · obtain ⟨kids, line, maxLine, rfl⟩ := Value.eq_sexp_of_isA hcomputed
    rfl

lemma Normal.inNormalForm (h : Normal folded) (hbare : ¬ Bare folded) :
    InNormalForm folded.reverse := by
  have hchain := List.isChain_reverse.mpr h.isChain
  obtain ⟨head, second, later, rfl, hsecond, hlater⟩ := h.exists_kids hbare
  refine ⟨⟨head, by simp⟩, ⟨second, by simp, not_str_of_computed hsecond⟩, hchain, ?_⟩
  intro kid hkid
  rcases List.mem_append.mp (List.mem_reverse.mp hkid) with hkid | hkid
  · exact flat_of_part (hlater kid hkid)
  · rcases List.mem_pair.mp hkid with rfl | rfl
    · exact flat_of_part (isA_part_iff.mpr (.inr hsecond))
    · rfl

lemma InNormalForm.concat {kids : List Value} (h : InNormalForm kids) (options : Int) :
    InNormalForm (kids ++ [.int options]) := by
  have hget : ∀ {i : Nat} {v : Value}, kids[i]? = some v → (kids ++ [.int options])[i]? = some v :=
    fun hv => List.getElem?_append_left (List.getElem?_eq_some_iff.mp hv).1 ▸ hv
  obtain ⟨content, hcontent⟩ := h.starts_with_text
  obtain ⟨second, hsecond, hstr⟩ := h.then_computed
  refine ⟨⟨content, hget hcontent⟩, ⟨second, hget hsecond, hstr⟩, ?_, ?_⟩
  · refine List.isChain_append.mpr ⟨h.apart, .singleton _, fun a _ b hb _ => ?_⟩
    obtain rfl : _ = b := Option.some.inj hb
    rfl
  · exact List.forall_mem_append.mpr ⟨h.flat, List.forall_mem_singleton.mpr rfl⟩

/-! ### All parts -/

variable {conv : Conversion} {scope : Scope} {n : Node}

/-- What a part of a literal can convert to: a string, something computed, or a string with parts
that is folded itself. -/
def PartNormal (part : Tree) (v : Value) : Prop :=
  v.isA [.str, .evstr] = true ∨ part.isA .interpolatedStringNode = true ∧
    ∃ inner line maxLine, v = .sexp .dstr inner.reverse line maxLine ∧ Normal inner ∧ ¬ Bare inner

lemma absorbTree_nested {inner : List Value} {line maxLine : Json} {part : Tree}
    (hf : Normal folded) (hkind : part.isA .interpolatedStringNode = true)
    (hconv : conv scope part = .ok (.sexp .dstr inner.reverse line maxLine))
    (hinner : Normal inner) (hbare : ¬ Bare inner)
    (h : absorbTree conv scope folded part = .ok next) :
    Normal next ∧ ¬ Bare next := by
  obtain ⟨head, second, later, rfl, hsecond, hlater⟩ := hinner.exists_kids hbare
  have hkids : ∀ kid ∈ second :: later.reverse, kid.isA [.str, .evstr] = true :=
    List.forall_mem_cons.mpr ⟨isA_part_iff.mpr (.inr hsecond),
      fun kid hkid => hlater kid (List.mem_reverse.mp hkid)⟩
  have hrest : ∀ {start}, Normal start → (second :: later.reverse).foldlM absorb start = .ok next →
      Normal next ∧ ¬ Bare next := by
    intro start hstart hfold
    obtain ⟨hnext, hiff⟩ := absorbAll_normal hstart hkids hfold
    refine ⟨hnext, fun hnot => ?_⟩
    have hstr := (hiff.mp hnot).2 second List.mem_cons_self
    rw [not_str_of_computed hsecond] at hstr
    cases hstr
  have hreverse :
      (later ++ [second, .text head]).reverse = .text head :: second :: later.reverse := by simp
  obtain ⟨converted, hconverted, h⟩ := exists_ok_of_bind h
  rw [hreverse] at hconv
  cases hconv.symm.trans hconverted
  rw [hkind] at h
  dsimp only at h
  split at h
  · obtain ⟨string, hstring, h⟩ := exists_ok_of_bind h
    obtain ⟨l, rfl⟩ := eq_sexp_of_build hstring
    obtain ⟨start, hstart, h⟩ := exists_ok_of_bind h
    exact hrest (absorb_string hf rfl hstart).1 h
  · exact hrest hf h

lemma absorbTree_normal {part : Tree} (hf : Normal folded) (hconv : conv scope part = .ok v)
    (hpart : PartNormal part v) (h : absorbTree conv scope folded part = .ok next) :
    Normal next ∧ (Bare next ↔ Bare folded ∧ isStr v = true) := by
  rcases hpart with hpart | ⟨hkind, inner, line, maxLine, rfl, hinner, hbare⟩
  · obtain ⟨converted, hconverted, h⟩ := exists_ok_of_bind h
    cases hconv.symm.trans hconverted
    split at h
    · cases hpart
    · exact absorb_normal hf hpart h
  · obtain ⟨hnext, hnot⟩ := absorbTree_nested hf hkind hconv hinner hbare h
    exact ⟨hnext, iff_of_false hnot (by simp [isStr, Value.isA])⟩

/-- What the fold takes for granted of a part: what it converts to, and that it converts to a string
exactly if nothing in it is computed. -/
structure Contributes (conv : Conversion) (scope : Scope) (computed : Tree → Prop) (part : Tree) :
    Prop where
  normal : ∀ v, conv scope part = .ok v → PartNormal part v
  str_iff : ∀ v, conv scope part = .ok v → (isStr v = true ↔ ¬ computed part)
  text : part.isA .stringNode = true →
    ¬ computed part ∧ ∃ content, part.get .unescaped = .ok (.text content)

variable {computed : Tree → Prop} {parts : List Tree}

/-- **A whole run**: parts keep the stack normal, and the text at its bottom stays alone exactly if
none of them is computed. -/
lemma absorbTrees_normal (hf : Normal folded)
    (hparts : ∀ part ∈ parts, Contributes conv scope computed part)
    (h : parts.foldlM (absorbTree conv scope) folded = .ok next) :
    Normal next ∧ (Bare next ↔ Bare folded ∧ ∀ part ∈ parts, ¬ computed part) := by
  induction parts generalizing folded with
  | nil =>
    cases h
    exact ⟨hf, by simp⟩
  | cons part parts ih =>
    obtain ⟨middle, hmiddle, h⟩ := exists_ok_of_bind h
    obtain ⟨hpart, hothers⟩ := List.forall_mem_cons.mp hparts
    obtain ⟨v, hv, -⟩ := exists_ok_of_bind hmiddle
    obtain ⟨hnormal, hbare⟩ := absorbTree_normal hf hv (hpart.normal v hv) hmiddle
    obtain ⟨hnext, hall⟩ := ih hnormal hothers h
    refine ⟨hnext, ?_⟩
    rw [hall, hbare, hpart.str_iff v hv, List.forall_mem_cons, and_assoc]

lemma foldParts_normal (hparts : ∀ part ∈ parts, Contributes conv scope computed part)
    (h : foldParts conv scope parts = .ok folded) :
    (folded = [] ∧ parts = []) ∨
      Normal folded ∧ (Bare folded ↔ ∀ part ∈ parts, ¬ computed part) := by
  rcases parts with _ | ⟨first, rest⟩
  · cases h
    exact .inl ⟨rfl, rfl⟩
  refine .inr ?_
  obtain ⟨hfirst, hrest⟩ := List.forall_mem_cons.mp hparts
  simp only [foldParts] at h
  split at h
  · next hkind =>
    obtain ⟨hplain, content, hcontent⟩ := hfirst.text hkind
    rw [hcontent] at h
    obtain ⟨hnormal, hbare⟩ := absorbTrees_normal (.text content) hrest h
    refine ⟨hnormal, ?_⟩
    rw [hbare, List.forall_mem_cons]
    exact and_congr_left fun _ => iff_of_true ⟨content, rfl⟩ hplain
  · -- The first part is added to an empty text, as any other.
    obtain ⟨hnormal, hbare⟩ := absorbTrees_normal (.text "") hparts h
    exact ⟨hnormal, hbare.trans (and_iff_right ⟨"", rfl⟩)⟩

lemma not_str_of_foldParts {first second : Value}
    (hparts : ∀ part ∈ parts, Contributes conv scope computed part)
    (h : foldParts conv scope parts = .ok folded) (hreverse : folded.reverse = [first, second]) :
    isStr second = false := by
  rcases foldParts_normal hparts h with ⟨rfl, -⟩ | ⟨hnormal, -⟩
  · cases hreverse
  have hbare : ¬ Bare folded := by
    rintro ⟨content, rfl⟩
    cases hreverse
  obtain ⟨second', hsecond, hstr⟩ := (hnormal.inNormalForm hbare).then_computed
  rw [hreverse] at hsecond
  cases hsecond
  exact hstr

lemma interpolated_normal {form : Interpolated} (hget : n.get .parts = .ok (.tuple parts))
    (hparts : ∀ part ∈ parts, Contributes conv scope computed part)
    (h : interpolated conv scope n form = .ok v) :
    ((∀ part ∈ parts, ¬ computed part) ∧ ∃ content, plainLiteral n form content = .ok v) ∨
      (∃ part ∈ parts, computed part) ∧ ∃ folded line maxLine,
        v = .sexp form.tag folded.reverse line maxLine ∧ Normal folded ∧ ¬ Bare folded := by
  obtain ⟨list, hlist, h⟩ := exists_ok_of_bind h
  cases hget.symm.trans hlist
  obtain ⟨_, helements, h⟩ := exists_ok_of_bind h
  cases helements
  obtain ⟨folded, hfolded, h⟩ := exists_ok_of_bind h
  rcases foldParts_normal hparts hfolded with ⟨rfl, rfl⟩ | ⟨hnormal, hbare⟩
  · exact .inl ⟨List.forall_mem_nil _, "", h⟩
  by_cases hplain : Bare folded
  · obtain ⟨content, rfl⟩ := hplain
    exact .inl ⟨hbare.mp ⟨content, rfl⟩, content, h⟩
  · refine .inr ⟨by simpa [hbare] using hplain, ?_⟩
    split at h
    · cases hnormal
    · next content => exact absurd ⟨content, rfl⟩ hplain
    · obtain ⟨l, rfl⟩ := eq_sexp_of_build h
      exact ⟨folded, _, _, rfl, hnormal, hplain⟩

end Convert

/-! ### Parts of literals -/

namespace Tree

open RubySexp.Convert

inductive LiteralPart : Tree → Prop
  | string {part content} : part.isA .stringNode = true →
    part.get .unescaped = .ok (.text content) → LiteralPart part
  | embeddedStatements {part} : part.isA .embeddedStatementsNode = true → LiteralPart part
  | embeddedVariable {part} : part.isA .embeddedVariableNode = true → LiteralPart part
  | nested {part inner} : part.isA .interpolatedStringNode = true →
    part.get .parts = .ok (.tuple inner) → (∀ t ∈ inner, LiteralPart t) → LiteralPart part

inductive Computed (scope : Scope) : Tree → Prop
  | embeddedVariable {part} : part.isA .embeddedVariableNode = true → Computed scope part
  | embeddedStatements {part body v} : part.isA .embeddedStatementsNode = true →
    part.get .statements = .ok body → body.convert scope = .ok v → isStr v = false →
    Computed scope part
  | nested {part inner t} : part.isA .interpolatedStringNode = true →
    part.get .parts = .ok (.tuple inner) → t ∈ inner → Computed scope t → Computed scope part

variable {part : Tree} {scope : Scope} {v : Value}

lemma eq_of_isA {kind kind' : Kind} (h : part.isA kind = true) (h' : part.isA kind' = true) :
    kind = kind' := by
  obtain ⟨location, fields, rfl⟩ := exists_of_isA h
  exact beq_iff_eq.mp h'

lemma computed_of_statements (h : part.isA .embeddedStatementsNode = true) :
    Computed scope part ↔ ∃ body v, part.get .statements = .ok body ∧
      body.convert scope = .ok v ∧ isStr v = false := by
  constructor
  · intro hcomputed
    cases hcomputed with
    | embeddedVariable h' => cases eq_of_isA h h'
    | embeddedStatements _ hbody hv hstr => exact ⟨_, _, hbody, hv, hstr⟩
    | nested h' => cases eq_of_isA h h'
  · rintro ⟨body, v, hbody, hv, hstr⟩
    exact .embeddedStatements h hbody hv hstr

lemma computed_of_nested {inner : List Tree} (h : part.isA .interpolatedStringNode = true)
    (hget : part.get .parts = .ok (.tuple inner)) :
    Computed scope part ↔ ∃ t ∈ inner, Computed scope t := by
  constructor
  · intro hcomputed
    cases hcomputed with
    | embeddedVariable h' => cases eq_of_isA h h'
    | embeddedStatements h' => cases eq_of_isA h h'
    | nested _ hget' ht hcomputed =>
      cases hget.symm.trans hget'
      exact ⟨_, ht, hcomputed⟩
  · rintro ⟨t, ht, hcomputed⟩
    exact .nested h hget ht hcomputed

lemma not_computed_of_string (h : part.isA .stringNode = true) : ¬ Computed scope part := by
  intro hcomputed
  cases hcomputed with
  | embeddedVariable h' | embeddedStatements h' | nested h' => cases eq_of_isA h h'

lemma isStr_of_string (h : part.isA .stringNode = true) (hv : part.convert scope = .ok v) :
    isStr v = true := by
  obtain ⟨location, fields, rfl⟩ := exists_of_isA h
  rw [convert_node] at hv
  obtain ⟨content, -, hv⟩ := exists_ok_of_bind hv
  obtain ⟨l, rfl⟩ := eq_sexp_of_build hv
  rfl

lemma convert_embeddedStatements (h : part.isA .embeddedStatementsNode = true)
    (hv : part.convert scope = .ok v) :
    isStr v = true ∧ ¬ Computed scope part ∨ v.isA [.evstr] = true ∧ Computed scope part := by
  rw [computed_of_statements h]
  obtain ⟨location, fields, rfl⟩ := exists_of_isA h
  rw [convert_node] at hv
  obtain ⟨body, hbody, hv⟩ := exists_ok_of_bind hv
  split at hv
  · next hnull =>
    obtain ⟨l, rfl⟩ := eq_sexp_of_build hv
    refine .inr ⟨rfl, body, .nil, hbody, ?_, rfl⟩
    unfold isNull at hnull
    split at hnull
    · rfl
    · cases hnull
  · obtain ⟨inner, hinner, hv⟩ := exists_ok_of_bind hv
    split at hv
    · next hstr =>
      cases hv
      refine .inl ⟨hstr, ?_⟩
      rintro ⟨body', w, hbody', hw, hnot⟩
      cases hbody.symm.trans hbody'
      cases hinner.symm.trans hw
      rw [hstr] at hnot
      cases hnot
    · next hstr =>
      obtain ⟨l, rfl⟩ := eq_sexp_of_build hv
      exact .inr ⟨rfl, body, inner, hbody, hinner, by simpa using hstr⟩

lemma convert_embeddedVariable (h : part.isA .embeddedVariableNode = true)
    (hv : part.convert scope = .ok v) : v.isA [.evstr] = true := by
  obtain ⟨location, fields, rfl⟩ := exists_of_isA h
  rw [convert_node] at hv
  obtain ⟨inner, -, hv⟩ := exists_ok_of_bind hv
  obtain ⟨l, rfl⟩ := eq_sexp_of_build hv
  rfl

lemma LiteralPart.contributes (h : part.LiteralPart) :
    Contributes (fun scope tree => tree.convert scope) scope (Computed scope) part := by
  induction h with
  | @string part content hkind hget =>
    have hnot : ¬ Computed scope part := not_computed_of_string hkind
    refine ⟨fun v hv => ?_, fun v hv => ?_, fun _ => ⟨hnot, content, hget⟩⟩
    · exact .inl (isA_part_iff.mpr (.inl (isStr_of_string hkind hv)))
    · exact iff_of_true (isStr_of_string hkind hv) hnot
  | @embeddedStatements part hkind =>
    refine ⟨fun v hv => ?_, fun v hv => ?_, fun h' => by cases eq_of_isA hkind h'⟩
    · rcases convert_embeddedStatements hkind hv with ⟨hstr, -⟩ | ⟨hcomputed, -⟩
      · exact .inl (isA_part_iff.mpr (.inl hstr))
      · exact .inl (isA_part_iff.mpr (.inr hcomputed))
    · rcases convert_embeddedStatements hkind hv with ⟨hstr, hnot⟩ | ⟨hv, hcomputed⟩
      · exact iff_of_true hstr hnot
      · exact iff_of_false (by simp [not_str_of_computed hv]) (not_not.mpr hcomputed)
  | @embeddedVariable part hkind =>
    refine ⟨fun v hv => ?_, fun v hv => ?_, fun h' => by cases eq_of_isA hkind h'⟩
    · exact .inl (isA_part_iff.mpr (.inr (convert_embeddedVariable hkind hv)))
    · exact iff_of_false (by simp [not_str_of_computed (convert_embeddedVariable hkind hv)])
        (not_not.mpr (.embeddedVariable hkind))
  | @nested part inner hkind hget _ ih =>
    have hcases : ∀ v, part.convert scope = .ok v →
        isStr v = true ∧ ¬ Computed scope part ∨ Computed scope part ∧
          ∃ folded line maxLine, v = .sexp .dstr folded.reverse line maxLine ∧
            Normal folded ∧ ¬ Bare folded := by
      intro v hv
      rw [computed_of_nested hkind hget]
      obtain ⟨location, fields, rfl⟩ := exists_of_isA hkind
      rw [convert_node] at hv
      rcases interpolated_normal hget ih hv with ⟨hnot, content, hplain⟩ | hcomputed
      · obtain ⟨l, rfl⟩ := eq_sexp_of_build hplain
        exact .inl ⟨rfl, by simpa using hnot⟩
      · exact .inr hcomputed
    refine ⟨fun v hv => ?_, fun v hv => ?_, fun h' => by cases eq_of_isA hkind h'⟩
    · rcases hcases v hv with ⟨hstr, -⟩ | ⟨-, hfolded⟩
      · exact .inl (isA_part_iff.mpr (.inl hstr))
      · exact .inr ⟨hkind, hfolded⟩
    · rcases hcases v hv with ⟨hstr, hnot⟩ | ⟨hcomputed, folded, line, maxLine, rfl, -⟩
      · exact iff_of_true hstr hnot
      · exact iff_of_false (by simp [isStr, Value.isA]) (not_not.mpr hcomputed)

end Tree

namespace Convert

variable {n : Node} {scope : Scope} {v : Value}

/-! ### Literals -/

/-- Whether a value is the literal without computed parts. -/
def Interpolated.isPlain : Interpolated → Value → Bool
  | .string, .sexp .str [.text _] _ _ => true
  | .command, .sexp .xstr [.text _] _ _ => true
  | .symbol, .sexp .lit [.sym _] _ _ => true
  | .regexp, .sexp .lit [.regexp (.text _) _] _ _ => true
  | _, _ => false

def Interpolated.tags : Interpolated → List Tag
  | .regexp => [.dregx, .dregxOnce]
  | form => [form.tag]

lemma isPlain_of_plainLiteral {form : Interpolated} {content : String}
    (h : plainLiteral n form content = .ok v) : form.isPlain v = true := by
  cases form with
  | string | command | symbol =>
    obtain ⟨l, rfl⟩ := eq_sexp_of_build h
    rfl
  | regexp =>
    obtain ⟨options, -, h⟩ := exists_ok_of_bind h
    obtain ⟨l, rfl⟩ := eq_sexp_of_build h
    rfl

lemma not_isPlain_of_tags {form : Interpolated} {tag : Tag} (h : tag ∈ form.tags)
    (kids : List Value) (line maxLine : Json) :
    form.isPlain (.sexp tag kids line maxLine) = false := by
  cases form with
  | string | command | symbol =>
    obtain rfl := List.mem_singleton.mp h
    rfl
  | regexp => rcases List.mem_pair.mp h with rfl | rfl <;> rfl

def Interpolated.IsFolded (form : Interpolated) (v : Value) : Prop :=
  ∃ tag kids line maxLine, v = .sexp tag kids line maxLine ∧ tag ∈ form.tags ∧ InNormalForm kids

lemma interpolatedRegexp_cases {conv : Conversion} {computed : Tree → Prop} {parts : List Tree}
    (hget : n.get .parts = .ok (.tuple parts))
    (hparts : ∀ part ∈ parts, Contributes conv scope computed part)
    (h : interpolatedRegexp conv scope n = .ok v) :
    (∀ part ∈ parts, ¬ computed part) ∧ Interpolated.regexp.isPlain v = true ∨
      (∃ part ∈ parts, computed part) ∧ Interpolated.regexp.IsFolded v := by
  obtain ⟨literal, hliteral, h⟩ := exists_ok_of_bind h
  rcases interpolated_normal hget hparts hliteral with
    ⟨hnot, content, hplain⟩ | ⟨hcomputed, folded, line, maxLine, rfl, hnormal, hbare⟩
  · obtain ⟨options, -, hplain⟩ := exists_ok_of_bind hplain
    obtain ⟨l, rfl⟩ := eq_sexp_of_build hplain
    cases h
    exact .inl ⟨hnot, rfl⟩
  · obtain ⟨options, -, h⟩ := exists_ok_of_bind h
    obtain ⟨once, -, h⟩ := exists_ok_of_bind h
    cases h
    refine .inr ⟨hcomputed, _, _, _, _, rfl, ?_, ?_⟩
    · split <;> decide
    · split
      · exact hnormal.inNormalForm hbare
      · exact (hnormal.inNormalForm hbare).concat options

lemma convert_literal_cases (form : Interpolated) {parts : List Tree} (hkind : n.kind = form.kind)
    (hget : n.get .parts = .ok (.tuple parts)) (hparts : ∀ part ∈ parts, part.LiteralPart)
    (h : (Tree.ofNode n).convert scope = .ok v) :
    (∀ part ∈ parts, ¬ part.Computed scope) ∧ form.isPlain v = true ∨
      (∃ part ∈ parts, part.Computed scope) ∧ form.IsFolded v := by
  have hcontributes : ∀ part ∈ parts,
      Contributes (fun scope tree => tree.convert scope) scope (Tree.Computed scope) part :=
    fun part hpart => (hparts part hpart).contributes
  rw [Tree.convert_node] at h
  cases form with
  | regexp =>
    simp only [rule, hkind, Interpolated.kind] at h
    exact interpolatedRegexp_cases hget hcontributes h
  | string | command | symbol =>
    simp only [rule, hkind, Interpolated.kind] at h
    rcases interpolated_normal hget hcontributes h with
      ⟨hnot, content, hplain⟩ | ⟨hcomputed, folded, line, maxLine, rfl, hnormal, hbare⟩
    · exact .inl ⟨hnot, isPlain_of_plainLiteral hplain⟩
    · exact .inr ⟨hcomputed, _, _, _, _, rfl, List.mem_singleton_self _,
        hnormal.inNormalForm hbare⟩

/-- **Interpolation ends in normal form**: a literal is plain exactly if nothing in its parts is
computed, and otherwise its kids are in normal form. A bare text and a string are never left side by
side, not even by the fold itself. -/
theorem convert_in_normal_form (form : Interpolated) {parts : List Tree}
    (hkind : n.kind = form.kind) (hget : n.get .parts = .ok (.tuple parts))
    (hparts : ∀ part ∈ parts, part.LiteralPart) (h : (Tree.ofNode n).convert scope = .ok v) :
    (form.isPlain v = true ↔ ∀ part ∈ parts, ¬ part.Computed scope) ∧
    (form.isPlain v = false → ∃ tag kids line maxLine,
      v = .sexp tag kids line maxLine ∧ tag ∈ form.tags ∧ InNormalForm kids) ∧
    ∀ folded first second,
      foldParts (fun scope tree => tree.convert scope) scope parts = .ok folded →
      folded.reverse = [first, second] → isStr second = false := by
  refine ⟨?_, ?_, ?_⟩
  · rcases convert_literal_cases form hkind hget hparts h with
      ⟨hnot, hplain⟩ | ⟨⟨part, hpart, hcomputed⟩, tag, kids, line, maxLine, rfl, htag, -⟩
    · exact iff_of_true hplain hnot
    · exact iff_of_false (by simp [not_isPlain_of_tags htag])
        fun hnot => hnot part hpart hcomputed
  · intro hplain
    rcases convert_literal_cases form hkind hget hparts h with ⟨-, hplain'⟩ | ⟨-, hfolded⟩
    · rw [hplain'] at hplain
      cases hplain
    · exact hfolded
  · intro folded first second hfold hreverse
    exact not_str_of_foldParts (fun part hpart => (hparts part hpart).contributes) hfold hreverse

/-- Texts, a string among computed statements and a string with parts: all texts up to the variable
join the bare one, and those behind it make one string. -/
theorem convert_in_normal_form_regexp :
    let text (s : String) : Tree := .node .stringNode (some {}) [(.unescaped, .text s)]
    let x : Tree := .node .instanceVariableReadNode (some {}) [(.name, .text "@x")]
    let statements : Tree := .node .embeddedStatementsNode (some {}) [(.statements, text "b")]
    let inner : Tree := .node .interpolatedStringNode (some {}) [(.parts, .tuple
      [text "c", .node .embeddedVariableNode (some {}) [(.variable, x)], text "d"])]
    let n : Node := ⟨.interpolatedRegularExpressionNode, some {},
      [(.ignoreCase, .bool true), (.extended, .bool false), (.multiLine, .bool false),
        (.ascii8bit, .bool false), (.once, .bool true),
        (.parts, .tuple [text "a", statements, inner, text "e"])]⟩
    let one : Json := .scalar (.int 1)
    let kids : List Value := [.text "abc", .sexp .evstr [.sexp .ivar [.sym "@x"] one one] one one,
      .sexp .str [.text "de"] one one, .int 1]
    (∀ part ∈ [text "a", statements, inner, text "e"], part.LiteralPart) ∧
      (Tree.ofNode n).convert {} = .ok (.sexp .dregxOnce kids one one) ∧
      (∃ part ∈ [text "a", statements, inner, text "e"], part.Computed {}) ∧ InNormalForm kids := by
  intro text x statements inner n one kids
  have htext : ∀ s, (text s).LiteralPart := fun s => .string rfl rfl
  have hinner : inner.LiteralPart := by
    refine .nested rfl rfl ?_
    simp only [List.forall_mem_cons]
    exact ⟨htext "c", .embeddedVariable rfl, htext "d", List.forall_mem_nil _⟩
  have hparts : ∀ part ∈ [text "a", statements, inner, text "e"], part.LiteralPart := by
    simp only [List.forall_mem_cons]
    exact ⟨htext "a", .embeddedStatements rfl, hinner, htext "e", List.forall_mem_nil _⟩
  have hconvert : (Tree.ofNode n).convert {} = .ok (.sexp .dregxOnce kids one one) := by cbv
  obtain ⟨hplain, hfolded, -⟩ := convert_in_normal_form .regexp rfl rfl hparts hconvert
  have hnormal : InNormalForm kids := by
    obtain ⟨tag, kids', line, maxLine, heq, -, hnormal⟩ := hfolded rfl
    cases heq
    exact hnormal
  have hcomputed := (not_congr hplain).mp (by decide)
  simp only [not_forall, not_not, exists_prop] at hcomputed
  exact ⟨hparts, hconvert, hcomputed, hnormal⟩

end Convert

end RubySexp
