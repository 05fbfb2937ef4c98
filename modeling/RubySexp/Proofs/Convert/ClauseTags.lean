import RubySexp.Proofs.Convert.Locality

/-!
# Tags of Clauses

Some expressions are told apart from their neighbours by their tags alone: a handler among the
statements of a body, a splat among the pairs of a hash, a rest behind them. This works because
nothing else converts to an expression with such a tag. Most rules build an expression with a tag of
their own. The others hand on the conversion of one part, so a handler comes out only of a tree that
leads to one in this way; splats and rests never come out alone.
-/

namespace RubySexp

inductive Tree.LeadsToHandler : Tree → Prop
  | handler {n : Node} (hkind : n.kind = .rescueNode) : LeadsToHandler (ofNode n)
  | part {n : Node} {part : Tree} (hpart : n.HandsOn part) (h : LeadsToHandler part) :
      LeadsToHandler (ofNode n)

namespace Tree

variable {n : Node} {part : Tree}

lemma LeadsToHandler.cases_node (h : (ofNode n).LeadsToHandler) :
    n.kind = .rescueNode ∨ ∃ part, n.HandsOn part ∧ part.LeadsToHandler := by
  generalize htree : ofNode n = tree at h
  cases h with
  | handler hkind =>
    cases ofNode_injective htree
    exact .inl hkind
  | part hpart h =>
    cases ofNode_injective htree
    exact .inr ⟨_, hpart, h⟩

lemma not_leadsToHandler_of_kind (hhandler : n.kind ≠ .rescueNode)
    (hstatements : n.kind ≠ .statementsNode) (hfield : n.kind.handedOn = none) :
    ¬ (ofNode n).LeadsToHandler := by
  intro h
  obtain hkind | ⟨part, hpart, -⟩ := h.cases_node
  · exact hhandler hkind
  · cases hpart with
    | field hsome => exact absurd (hfield.symm.trans hsome) (by simp)
    | statement hkind => exact hstatements hkind

lemma not_leadsToHandler_of_field {field : Field} (hfield : n.kind.handedOn = some field)
    (hget : n.get field = .ok part) (hpart : ¬ part.LeadsToHandler) :
    ¬ (ofNode n).LeadsToHandler := by
  intro h
  obtain hkind | ⟨other, hother, hleads⟩ := h.cases_node
  · rw [hkind] at hfield
    cases hfield
  · cases hother with
    | field hfield' hget' =>
      cases hfield.symm.trans hfield'
      cases hget.symm.trans hget'
      exact hpart hleads
    | statement hkind =>
      rw [hkind] at hfield
      cases hfield

lemma not_leadsToHandler_of_statements {items : List Tree} (hkind : n.kind = .statementsNode)
    (hget : n.get .body = .ok (.tuple items)) (hitems : ∀ item ∈ items, ¬ item.LeadsToHandler) :
    ¬ (ofNode n).LeadsToHandler := by
  intro h
  obtain hkind' | ⟨part, hpart, hleads⟩ := h.cases_node
  · exact absurd (hkind.symm.trans hkind') (by decide)
  · cases hpart with
    | field hfield =>
      rw [hkind] at hfield
      cases hfield
    | statement _ hget' hsingle =>
      cases hget.symm.trans hget'
      cases hsingle
      exact hitems _ List.mem_cons_self hleads

end Tree

namespace Convert

def Tagged (P : Tag → Prop) (x : Except Fault Value) : Prop :=
  ∀ tag kids line maxLine, x = .ok (.sexp tag kids line maxLine) → P tag

lemma eq_sexp_of_extendParameters {parameters : Value} {added kids : List Value} {tag : Tag}
    {line maxLine : Json}
    (h : extendParameters parameters added = .ok (.sexp tag kids line maxLine)) :
    ∃ present, parameters = .sexp tag present line maxLine := by
  unfold extendParameters at h
  split at h
  · next present _ _ =>
    cases h
    exact ⟨present, rfl⟩
  · cases h
  · cases h

theorem rule_tagged {P : Tag → Prop} {conv : Conversion} {n : Node}
    (hP : ∀ tag : Tag, tag.isClause = false → P tag)
    (h : ∀ part, n.HandsOn part → ∀ scope, Tagged P (conv scope part)) (scope : Scope)
    (hhandler : n.kind = .rescueNode → P .resbody) : Tagged P (rule conv scope n) := by
  intro tag kids line maxLine hv
  cases built_of_rule hv with
  | text => exact hP .str rfl
  | own hown =>
    rw [Tag.isOwn, Bool.and_eq_true, Bool.not_eq_true'] at hown
    exact hP tag hown.2
  | field => exact hP .str rfl
  | handler hkind => exact hhandler hkind
  | part hpart hv => exact h _ hpart scope _ _ _ _ hv
  | extended hpart hparameters hv =>
    obtain ⟨present, rfl⟩ := eq_sexp_of_extendParameters hv
    exact h _ hpart scope _ _ _ _ hparameters
  | embedded _ _ _ hstr =>
    obtain rfl : tag = .str := by simpa [isStr, Value.isA] using hstr
    exact hP .str rfl

end Convert

/-- **A conversion has no tag of a clause**, but for a tree that is or hands on a handler. -/
theorem Tree.convert_tagged (scope : Scope) (tree : Tree) :
    Convert.Tagged (fun tag => tag.isClause = true → tag = .resbody ∧ tree.LeadsToHandler)
      (tree.convert scope) := by
  induction scope, tree using Tree.convert_induction with
  | leaf scope tree _ =>
    intro tag kids line maxLine hv
    cases Convert.eq_nil_of_leaf hv
  | node scope n ih =>
    refine Convert.rule_tagged ?_ ?_ scope ?_
    · intro tag htag htrue
      rw [htag] at htrue
      cases htrue
    · intro part hpart scope tag kids line maxLine hv hclause
      obtain ⟨htag, hleads⟩ := ih scope part hpart.height_lt tag kids line maxLine hv hclause
      exact ⟨htag, .part hpart hleads⟩
    · exact fun hkind _ => ⟨rfl, .handler hkind⟩

namespace Tree

variable {tree : Tree} {scope : Scope} {v : Value}

lemma isA_clause_of_convert (h : tree.convert scope = .ok v) {tag : Tag}
    (hclause : tag.isClause = true) (htree : tag = .resbody → ¬ tree.LeadsToHandler) :
    v.isA [tag] = false := by
  cases v with
  | sexp tag' kids line maxLine =>
    by_contra hisA
    obtain rfl : tag' = tag := by simpa [Value.isA] using hisA
    obtain ⟨htag, hleads⟩ := convert_tagged scope tree _ _ _ _ h hclause
    exact htree htag hleads
  | _ => rfl

end Tree

end RubySexp
