import Mathlib
import RubySexp.Proofs.Convert.ClauseTags
import RubySexp.Proofs.Value.Equality

/-!
# Parts Recovered from an Expression

A body with handlers and a hash are written as one flat list of kids. Nothing is lost by that: if
the expressions of two bodies or of two hashes are equal, so are the parts that they were made of,
one by one. The kids fall into the same sections on both sides, since equal kids have equal tags and
the tags of handlers, splats and rests belong to these alone.
-/

namespace RubySexp

/-! ### Parts that may be missing -/

namespace Convert

variable {conv conv' : Conversion} {tree tree' : Tree} {scope scope' : Scope}
  {kids kids' : List Value}

lemma convertIfPresent_of_null (h : tree.isNull = true) :
    convertIfPresent conv scope tree = .ok [] :=
  if_pos h

lemma convertIfPresent_of_ok {v : Value} (h : ¬ tree.isNull = true)
    (hv : conv scope tree = .ok v) : convertIfPresent conv scope tree = .ok [v] := by
  rw [convertIfPresent, if_neg h, hv]
  rfl

lemma convert_of_mem_present (h : convertIfPresent conv scope tree = .ok kids) :
    ∀ kid ∈ kids, conv scope tree = .ok kid := by
  unfold convertIfPresent at h
  split at h
  · cases h
    exact List.forall_mem_nil _
  · obtain ⟨v, hv, h⟩ := exists_ok_of_bind h
    cases h
    exact List.forall_mem_singleton.mpr hv

lemma present_cases {R : Value → Value → Prop} (h : convertIfPresent conv scope tree = .ok kids)
    (h' : convertIfPresent conv' scope' tree' = .ok kids') (hkids : List.Forall₂ R kids kids') :
    tree.isNull = true ∧ tree'.isNull = true ∨
      tree.isNull = false ∧ tree'.isNull = false ∧
        ∃ v v', conv scope tree = .ok v ∧ conv' scope' tree' = .ok v' ∧ R v v' := by
  unfold convertIfPresent at h h'
  split at h <;> split at h'
  · next hnull hnull' => exact .inl ⟨hnull, hnull'⟩
  · obtain ⟨v', -, h'⟩ := exists_ok_of_bind h'
    cases h
    cases h'
    cases hkids
  · obtain ⟨v, -, h⟩ := exists_ok_of_bind h
    cases h
    cases h'
    cases hkids
  · next hthere hthere' =>
    obtain ⟨v, hv, h⟩ := exists_ok_of_bind h
    obtain ⟨v', hv', h'⟩ := exists_ok_of_bind h'
    cases h
    cases h'
    rw [Bool.not_eq_true] at hthere hthere'
    exact .inr ⟨hthere, hthere', v, v', hv, hv', (List.forall₂_cons.mp hkids).1⟩

end Convert

namespace Tree

variable {tree tree' : Tree} {scope scope' : Scope}

/-- Two trees convert to equal values. -/
def Alike (scope scope' : Scope) (tree tree' : Tree) : Prop :=
  ∃ v v', tree.convert scope = .ok v ∧ tree'.convert scope' = .ok v' ∧ v.Equal v'

lemma eq_null_of_isNull (h : tree.isNull = true) : tree = .null := by
  rcases tree with ⟨_ | _ | _ | _ | _⟩ | _ | _ | _
  case scalar.null => rfl
  all_goals cases h

lemma alike_of_null (h : tree.isNull = true) (h' : tree'.isNull = true) :
    Alike scope scope' tree tree' := by
  rw [eq_null_of_isNull h, eq_null_of_isNull h']
  exact ⟨.nil, .nil, rfl, rfl, rfl, rfl⟩

lemma alike_of_present {kids kids' : List Value}
    (h : Convert.convertIfPresent (fun scope tree => tree.convert scope) scope tree = .ok kids)
    (h' : Convert.convertIfPresent (fun scope tree => tree.convert scope) scope' tree' = .ok kids')
    (hkids : List.Forall₂ Value.Equal kids kids') :
    tree.isNull = tree'.isNull ∧ Alike scope scope' tree tree' := by
  rcases Convert.present_cases h h' hkids with ⟨hnull, hnull'⟩ | ⟨hthere, hthere', halike⟩
  · exact ⟨hnull.trans hnull'.symm, alike_of_null hnull hnull'⟩
  · exact ⟨hthere.trans hthere'.symm, halike⟩

end Tree

/-! ### Sections of kids -/

/-- Two lists that are related item by item, and that each consist of items with a mark up to a
place and go on with one without it, are related section by section. -/
lemma forall₂_sections {R : Value → Value → Prop} {p : Value → Bool}
    (hR : ∀ v w, R v w → p v = p w) {mark : Bool} {front back front' back' : List Value}
    (hfront : ∀ v ∈ front, p v = mark) (hback : ∀ v ∈ back.head?, p v = !mark)
    (hfront' : ∀ v ∈ front', p v = mark) (hback' : ∀ v ∈ back'.head?, p v = !mark)
    (h : List.Forall₂ R (front ++ back) (front' ++ back')) :
    List.Forall₂ R front front' ∧ List.Forall₂ R back back' := by
  induction front generalizing front' with
  | nil =>
    cases front' with
    | nil => exact ⟨.nil, h⟩
    | cons v' front' =>
      obtain _ | ⟨hequal, -⟩ := h
      have hmark := hback _ rfl
      rw [hR _ _ hequal, hfront' v' List.mem_cons_self] at hmark
      cases mark <;> cases hmark
  | cons v front ih =>
    rw [List.forall_mem_cons] at hfront
    cases front' with
    | nil =>
      cases back' with
      | nil => cases h
      | cons v' back' =>
        obtain _ | ⟨hequal, -⟩ := h
        have hmark := hback' _ rfl
        rw [← hR _ _ hequal, hfront.1] at hmark
        cases mark <;> cases hmark
    | cons v' front' =>
      rw [List.forall_mem_cons] at hfront'
      obtain _ | ⟨hequal, hrest⟩ := h
      obtain ⟨hfronts, hbacks⟩ := ih hfront.2 hfront'.2 hrest
      exact ⟨.cons hequal hfronts, hbacks⟩

/-! ### Bodies with handlers -/

/-- The expressions of the handlers in that of a body, from which an outer `:ensure` is removed. -/
def Value.handlers : Value → List Value
  | .sexp .ensure (.sexp _ kids _ _ :: _) _ _ => kids.filter (·.isA [.resbody])
  | .sexp _ kids _ _ => kids.filter (·.isA [.resbody])
  | _ => []

namespace Convert

structure BodyParts where
  statements : Tree
  rescueClause : Tree
  elseClause : Tree
  ensureClause : Tree

/-- A node is a body with handlers, of which the statements and what is done if nothing is raised do
not themselves lead to a handler, as no expressions do. -/
structure BodyParts.Of (b : BodyParts) (n : Node) : Prop where
  kind : n.kind = .beginNode
  statements : n.get .statements = .ok b.statements
  rescueClause : n.get .rescueClause = .ok b.rescueClause
  elseClause : n.get .elseClause = .ok b.elseClause
  ensureClause : n.get .ensureClause = .ok b.ensureClause
  rescued : b.rescueClause.isNull = false
  handlers : ∀ clause ∈ handlers b.rescueClause, clause.isA .rescueNode = true
  plainStatements : ¬ b.statements.LeadsToHandler
  plainElse : ¬ b.elseClause.LeadsToHandler

variable {tree : Tree} {n n' : Node} {b b' : BodyParts} {scope scope' : Scope} {v v' : Value}

lemma handlers_ne_nil (h : tree.isNull = false) : handlers tree ≠ [] := by
  rcases tree with ⟨_ | _ | _ | _ | _⟩ | _ | _ | _
  case scalar.null => cases h
  all_goals simp [handlers]

lemma handler_eq_convert (h : tree.isA .rescueNode = true) :
    handler (fun scope tree => tree.convert scope) scope tree = tree.convert scope := by
  obtain ⟨location, fields, rfl⟩ := Tree.exists_of_isA h
  rw [Tree.convert_node]
  rfl

structure Sections (b : BodyParts) (scope : Scope) (head clauses last : List Value) : Prop where
  head : convertIfPresent (fun scope tree => tree.convert scope) scope b.statements = .ok head
  clauses : List.Forall₂ (fun clause r => clause.convert scope = .ok r)
    (handlers b.rescueClause) clauses
  last : convertIfPresent (fun scope tree => tree.convert scope) scope b.elseClause = .ok last

lemma exists_sections_of_handled (hb : b.Of n) {body : Value}
    (hbody : b.statements.isNull = false → b.statements.convert scope = .ok body)
    (hv : handled (fun scope tree => tree.convert scope) scope n b.statements body = .ok v) :
    ∃ head clauses last line maxLine, Sections b scope head clauses last ∧
      v = .sexp .rescue (head ++ clauses ++ last) line maxLine := by
  unfold handled at hv
  rw [hb.rescueClause, hb.elseClause] at hv
  change (if b.rescueClause.isNull then _ else _) = _ at hv
  rw [if_neg (by rw [hb.rescued]; decide)] at hv
  obtain ⟨clauses, hclauses, hv⟩ := exists_ok_of_bind hv
  obtain ⟨last, hlast, hv⟩ := exists_ok_of_bind hv
  obtain ⟨l, rfl⟩ := eq_sexp_of_build hv
  refine ⟨_, clauses, last, _, _, ⟨?_, ?_, hlast⟩, rfl⟩
  · split
    · next hnull => exact convertIfPresent_of_null hnull
    · next hthere => exact convertIfPresent_of_ok hthere (hbody (by simpa using hthere))
  · rw [mapM_congr_mem fun clause hclause => handler_eq_convert (hb.handlers clause hclause)]
      at hclauses
    exact mapM_eq_ok_iff.mp hclauses

/-- **The expression of a body with handlers**: statements, handlers and what is done if nothing is
raised, side by side, and around them what is done in any case. -/
lemma exists_sections (hb : b.Of n) (hv : (Tree.ofNode n).convert scope = .ok v) :
    ∃ head clauses last line maxLine, Sections b scope head clauses last ∧
      (b.ensureClause.isNull = true ∧ v = .sexp .rescue (head ++ clauses ++ last) line maxLine ∨
        b.ensureClause.isNull = false ∧ ∃ ensured outer outerMax,
          b.ensureClause.convert scope = .ok ensured ∧
          v = .sexp .ensure [.sexp .rescue (head ++ clauses ++ last) line maxLine, ensured]
            outer outerMax) := by
  rw [Tree.convert_node] at hv
  simp only [rule, hb.kind, beginBody] at hv
  obtain ⟨statements, hstatements, hv⟩ := exists_ok_of_bind hv
  cases hb.statements.symm.trans hstatements
  have hinner : ∃ body result,
      (b.statements.isNull = false → b.statements.convert scope = .ok body) ∧
      handled (fun scope tree => tree.convert scope) scope n b.statements body = .ok result ∧
      (do
        let ensureClause ← n.get .ensureClause
        if ensureClause.isNull = true then pure result
        else
          let last ← ensureClause.convert scope
          build ensureClause.location? .ensure [result, last]) = .ok v := by
    split at hv
    · next hnull =>
      obtain ⟨body, -, hv⟩ := exists_ok_of_bind hv
      obtain ⟨result, hresult, hv⟩ := exists_ok_of_bind hv
      exact ⟨body, result, fun h => absurd (hnull.symm.trans h) (by decide), hresult, hv⟩
    · obtain ⟨body, hbody, hv⟩ := exists_ok_of_bind hv
      obtain ⟨result, hresult, hv⟩ := exists_ok_of_bind hv
      exact ⟨body, result, fun _ => hbody, hresult, hv⟩
  obtain ⟨body, result, hbody, hresult, hv⟩ := hinner
  obtain ⟨head, clauses, last, line, maxLine, hsections, rfl⟩ :=
    exists_sections_of_handled hb hbody hresult
  refine ⟨head, clauses, last, line, maxLine, hsections, ?_⟩
  obtain ⟨ensureClause, hensure, hv⟩ := exists_ok_of_bind hv
  cases hb.ensureClause.symm.trans hensure
  split at hv
  · next hnull =>
    cases hv
    exact .inl ⟨hnull, rfl⟩
  · next hpresent =>
    obtain ⟨ensured, hensured, hv⟩ := exists_ok_of_bind hv
    obtain ⟨l, rfl⟩ := eq_sexp_of_build hv
    exact .inr ⟨by simpa using hpresent, ensured, _, _, hensured, rfl⟩

/-! ### Sections are told apart -/

lemma isA_of_handler {conv : Conversion} (h : handler conv scope tree = .ok v) :
    v.isA [.resbody] = true := by
  obtain ⟨_, -, h⟩ := exists_ok_of_bind h
  obtain ⟨_, -, h⟩ := exists_ok_of_bind h
  obtain ⟨reference, -, h⟩ := exists_ok_of_bind h
  have hbuilt : ∀ target, (do
      let body ← clauseBody conv scope (← tree.get .statements)
      let list ← build tree.location? .array target
      build tree.location? .resbody (list :: body)) = .ok v → v.isA [.resbody] = true := by
    intro target h
    obtain ⟨_, -, h⟩ := exists_ok_of_bind h
    obtain ⟨_, -, h⟩ := exists_ok_of_bind h
    obtain ⟨_, -, h⟩ := exists_ok_of_bind h
    obtain ⟨l, rfl⟩ := eq_sexp_of_build h
    rfl
  split at h
  · exact hbuilt _ h
  · obtain ⟨_, -, h⟩ := exists_ok_of_bind h
    exact hbuilt _ h

variable {head clauses last head' clauses' last' : List Value}

lemma Sections.isA_clauses (hb : b.Of n) (h : Sections b scope head clauses last) :
    ∀ r ∈ clauses, r.isA [.resbody] = true := by
  intro r hr
  obtain ⟨clause, hclause, hconvert⟩ := exists_of_mem_mapM (mapM_eq_ok_iff.mpr h.clauses) hr
  rw [← handler_eq_convert (hb.handlers clause hclause)] at hconvert
  exact isA_of_handler hconvert

lemma Sections.isA_head (hb : b.Of n) (h : Sections b scope head clauses last) :
    ∀ kid ∈ head, kid.isA [.resbody] = false := fun kid hkid =>
  Tree.isA_clause_of_convert (convert_of_mem_present h.head kid hkid) rfl fun _ =>
    hb.plainStatements

lemma Sections.isA_last (hb : b.Of n) (h : Sections b scope head clauses last) :
    ∀ kid ∈ last, kid.isA [.resbody] = false := fun kid hkid =>
  Tree.isA_clause_of_convert (convert_of_mem_present h.last kid hkid) rfl fun _ => hb.plainElse

lemma Sections.isA_next (hb : b.Of n) (h : Sections b scope head clauses last) :
    ∀ kid ∈ (clauses ++ last).head?, kid.isA [.resbody] = true := by
  cases clauses with
  | nil => exact absurd (List.forall₂_nil_right_iff.mp h.clauses) (handlers_ne_nil hb.rescued)
  | cons first rest =>
    rintro kid ⟨⟩
    exact h.isA_clauses hb first List.mem_cons_self

lemma Sections.equal (hb : b.Of n) (hb' : b'.Of n') (h : Sections b scope head clauses last)
    (h' : Sections b' scope' head' clauses' last')
    (hkids : List.Forall₂ Value.Equal (head ++ clauses ++ last) (head' ++ clauses' ++ last')) :
    List.Forall₂ Value.Equal head head' ∧ List.Forall₂ Value.Equal clauses clauses' ∧
      List.Forall₂ Value.Equal last last' := by
  rw [List.append_assoc, List.append_assoc] at hkids
  have hequal : ∀ v w : Value, v.Equal w → v.isA [.resbody] = w.isA [.resbody] :=
    fun _ _ hvw => hvw.isA_eq _
  obtain ⟨hheads, hrest⟩ := forall₂_sections hequal (h.isA_head hb) (h.isA_next hb)
    (h'.isA_head hb') (h'.isA_next hb') hkids
  obtain ⟨hclauses, hlasts⟩ := forall₂_sections hequal (h.isA_clauses hb)
    (fun kid hkid => h.isA_last hb kid (List.mem_of_mem_head? hkid)) (h'.isA_clauses hb')
    (fun kid hkid => h'.isA_last hb' kid (List.mem_of_mem_head? hkid)) hrest
  exact ⟨hheads, hclauses, hlasts⟩

lemma Sections.filter (hb : b.Of n) (h : Sections b scope head clauses last) :
    (head ++ clauses ++ last).filter (·.isA [.resbody]) = clauses := by
  rw [List.filter_append, List.filter_append,
    List.filter_eq_nil_iff.mpr fun kid hkid => by simp [h.isA_head hb kid hkid],
    List.filter_eq_self.mpr (h.isA_clauses hb),
    List.filter_eq_nil_iff.mpr fun kid hkid => by simp [h.isA_last hb kid hkid],
    List.nil_append, List.append_nil]

/-- **A body with handlers can be recovered** from its expression. If the expressions of two bodies
are equal, they have as many handlers, the handlers in either expression are the conversions of its
own, in order, and equal to those in the other; and statements, what is done if nothing is raised
and what is done in any case are on both sides or on none, and equal. -/
theorem convert_body_recoverable (hb : b.Of n) (hb' : b'.Of n')
    (hv : (Tree.ofNode n).convert scope = .ok v) (hv' : (Tree.ofNode n').convert scope' = .ok v')
    (hsame : v.same v' = true) :
    (handlers b.rescueClause).length = (handlers b'.rescueClause).length ∧
    List.Forall₂ (fun clause r => clause.convert scope = .ok r)
      (handlers b.rescueClause) v.handlers ∧
    List.Forall₂ (fun clause r => clause.convert scope' = .ok r)
      (handlers b'.rescueClause) v'.handlers ∧
    List.Forall₂ Value.Equal v.handlers v'.handlers ∧
    (b.statements.isNull = b'.statements.isNull ∧
      Tree.Alike scope scope' b.statements b'.statements) ∧
    (b.elseClause.isNull = b'.elseClause.isNull ∧
      Tree.Alike scope scope' b.elseClause b'.elseClause) ∧
    (b.ensureClause.isNull = b'.ensureClause.isNull ∧
      Tree.Alike scope scope' b.ensureClause b'.ensureClause) := by
  obtain ⟨head, clauses, last, line, maxLine, h, hshape⟩ := exists_sections hb hv
  obtain ⟨head', clauses', last', line', maxLine', h', hshape'⟩ := exists_sections hb' hv'
  have hensure : v.handlers = clauses ∧ v'.handlers = clauses' ∧
      List.Forall₂ Value.Equal (head ++ clauses ++ last) (head' ++ clauses' ++ last') ∧
      b.ensureClause.isNull = b'.ensureClause.isNull ∧
      Tree.Alike scope scope' b.ensureClause b'.ensureClause := by
    rcases hshape with ⟨hnull, rfl⟩ | ⟨hthere, ensured, outer, outerMax, hensured, rfl⟩ <;>
      rcases hshape' with ⟨hnull', rfl⟩ | ⟨hthere', ensured', outer', outerMax', hensured', rfl⟩
    · exact ⟨h.filter hb, h'.filter hb', (Value.same_sexp.mp hsame).2, hnull.trans hnull'.symm,
        Tree.alike_of_null hnull hnull'⟩
    · cases (Value.same_sexp.mp hsame).1
    · cases (Value.same_sexp.mp hsame).1
    · obtain ⟨hinner, hlast⟩ := List.forall₂_cons.mp (Value.same_sexp.mp hsame).2
      exact ⟨h.filter hb, h'.filter hb', (Value.equal_sexp.mp hinner).2,
        hthere.trans hthere'.symm, ensured, ensured', hensured, hensured',
        (List.forall₂_cons.mp hlast).1⟩
  obtain ⟨hclauses, hclauses', hkids, hensured⟩ := hensure
  obtain ⟨hheads, hequal, hlasts⟩ := h.equal hb hb' h' hkids
  rw [hclauses, hclauses']
  exact ⟨(h.clauses.length_eq.trans hequal.length_eq).trans h'.clauses.length_eq.symm,
    h.clauses, h'.clauses, hequal, Tree.alike_of_present h.head h'.head hheads,
    Tree.alike_of_present h.last h'.last hlasts, hensured⟩

/-- Two handlers, `else` and an empty `ensure`, on one line and on another. -/
theorem convert_body_recoverable_lines :
    let statements (l : Location) : Tree := .node .statementsNode (some l)
      [(.body, .tuple [.node .selfNode (some l) []])]
    let clause (l : Location) (next : Tree) : Tree := .node .rescueNode (some l)
      [(.exceptions, .tuple []), (.reference, .null), (.statements, .null), (.subsequent, next)]
    let b (l : Location) : BodyParts := ⟨statements l, clause l (clause l .null),
      .node .elseNode (some l) [(.statements, statements l)],
      .node .ensureNode (some l) [(.statements, .null)]⟩
    let n (l : Location) : Node := ⟨.beginNode, some l, [(.statements, (b l).statements),
      (.rescueClause, (b l).rescueClause), (.elseClause, (b l).elseClause),
      (.ensureClause, (b l).ensureClause)]⟩
    let v (line : Json) : Value :=
      let resbody : Value := .sexp .resbody [.sexp .array [] line line, .nil] line line
      let self : Value := .sexp .selfRef [] line line
      .sexp .ensure [.sexp .rescue [self, resbody, resbody, self] line line,
        .sexp .nilLit [] line line] line line
    let later : Location := .lines (.int 7) (.int 7)
    (∀ l, (b l).Of (n l)) ∧ (Tree.ofNode (n {})).convert {} = .ok (v (.int 1)) ∧
      (Tree.ofNode (n later)).convert {} = .ok (v (.int 7)) ∧
      (v (.int 1)).same (v (.int 7)) = true ∧
      Tree.Alike {} {} (b {}).elseClause (b later).elseClause ∧
      (v (.int 1)).handlers.length = 2 := by
  intro statements clause b n v later
  have hstatements : ∀ l, ¬ (statements l).LeadsToHandler := by
    intro l
    refine Tree.not_leadsToHandler_of_statements (n := ⟨_, _, _⟩) rfl rfl ?_
    refine List.forall_mem_singleton.mpr ?_
    exact Tree.not_leadsToHandler_of_kind (n := ⟨_, _, _⟩) (by simp) (by simp) rfl
  have hof : ∀ l, (b l).Of (n l) := by
    intro l
    refine ⟨rfl, rfl, rfl, rfl, rfl, rfl, ?_, hstatements l, ?_⟩
    · exact List.forall_mem_cons.mpr ⟨rfl, List.forall_mem_singleton.mpr rfl⟩
    · exact Tree.not_leadsToHandler_of_field (n := ⟨_, _, _⟩) rfl rfl (hstatements l)
  have hfirst : (Tree.ofNode (n {})).convert {} = .ok (v (.int 1)) := by cbv
  have hlater : (Tree.ofNode (n later)).convert {} = .ok (v (.int 7)) := by cbv
  have hsame : (v (.int 1)).same (v (.int 7)) = true := by decide
  obtain ⟨-, hclauses, -, -, -, helse, -⟩ :=
    convert_body_recoverable (hof {}) (hof later) hfirst hlater hsame
  exact ⟨hof, hfirst, hlater, hsame, helse.2, hclauses.length_eq.symm⟩

/-! ### Hashes -/

def isElement (tree : Tree) : Bool := tree.isA .assocNode || tree.isA .assocSplatNode

inductive ElementKids (scope : Scope) : Tree → List Value → Prop
  | pair {element key value : Tree} {k v : Value} (helement : element.isA .assocNode = true)
      (hkey : element.get .key = .ok key) (hk : key.convert scope = .ok k)
      (hvalue : element.get .value = .ok value) (hv : value.convert scope = .ok v) :
      ElementKids scope element [k, v]
  | splat {element operand : Tree} {kids : List Value} {line maxLine : Json}
      (helement : element.isA .assocSplatNode = true)
      (hoperand : element.get .value = .ok operand)
      (hkids : convertIfPresent (fun scope tree => tree.convert scope) scope operand = .ok kids) :
      ElementKids scope element [.sexp .kwsplat kids line maxLine]

inductive ElementsAlike (scope scope' : Scope) : Tree → Tree → Prop
  | pair {e f key key' value value' : Tree} (he : e.isA .assocNode = true)
      (hf : f.isA .assocNode = true) (hkey : e.get .key = .ok key) (hkey' : f.get .key = .ok key')
      (hvalue : e.get .value = .ok value) (hvalue' : f.get .value = .ok value')
      (hkeys : Tree.Alike scope scope' key key') (hvalues : Tree.Alike scope scope' value value') :
      ElementsAlike scope scope' e f
  | splat {e f operand operand' : Tree} (he : e.isA .assocSplatNode = true)
      (hf : f.isA .assocSplatNode = true) (hoperand : e.get .value = .ok operand)
      (hoperand' : f.get .value = .ok operand') (hpresent : operand.isNull = operand'.isNull)
      (hoperands : Tree.Alike scope scope' operand operand') : ElementsAlike scope scope' e f

variable {element : Tree} {kids kids' : List Value}

lemma elementKids_of_convert (helement : isElement element = true)
    (h : (do (← element.convert scope).items) = .ok kids) : ElementKids scope element kids := by
  obtain ⟨v, hv, h⟩ := exists_ok_of_bind h
  rcases Bool.or_eq_true_iff.mp helement with hpair | hsplat
  · obtain ⟨location, fields, rfl⟩ := Tree.exists_of_isA hpair
    rw [Tree.convert_node] at hv
    obtain ⟨k, hk, hv⟩ := exists_ok_of_bind hv
    obtain ⟨value, hvalue, hv⟩ := exists_ok_of_bind hv
    obtain ⟨key, hkey, hk⟩ := exists_ok_of_bind hk
    obtain ⟨tree, htree, hvalue⟩ := exists_ok_of_bind hvalue
    cases hv
    cases h
    exact .pair rfl hkey hk htree hvalue
  · obtain ⟨location, fields, rfl⟩ := Tree.exists_of_isA hsplat
    rw [Tree.convert_node] at hv
    obtain ⟨inner, hinner, hv⟩ := exists_ok_of_bind hv
    obtain ⟨built, hbuilt, hv⟩ := exists_ok_of_bind hv
    obtain ⟨operand, hoperand, hinner⟩ := exists_ok_of_bind hinner
    obtain ⟨l, rfl⟩ := eq_sexp_of_build hbuilt
    cases hv
    cases h
    exact .splat rfl hoperand hinner

lemma exists_of_pairs {es : List Tree} (hes : n.get .elements = .ok (.tuple es))
    (helements : ∀ e ∈ es, isElement e = true)
    (h : pairs (fun scope tree => tree.convert scope) scope n .elements = .ok kids) :
    ∃ lists, List.Forall₂ (ElementKids scope) es lists ∧ kids = lists.flatten := by
  obtain ⟨list, hlist, h⟩ := exists_ok_of_bind h
  cases hes.symm.trans hlist
  obtain ⟨items, hitems, h⟩ := exists_ok_of_bind h
  cases hitems
  obtain ⟨lists, hlists, h⟩ := exists_ok_of_bind h
  cases h
  have hboth := (List.forall₂_and_left _ _).mpr ⟨helements, mapM_eq_ok_iff.mp hlists⟩
  exact ⟨lists, hboth.imp fun _ _ h => elementKids_of_convert h.1 h.2, rfl⟩

lemma ElementKids.eq_cons (h : ElementKids scope element kids) :
    ∃ first others, kids = first :: others ∧ first.isA [.kwrest] = false := by
  cases h with
  | pair _ _ hk _ _ => exact ⟨_, _, rfl, Tree.isA_clause_of_convert hk rfl (by simp)⟩
  | splat _ _ _ => exact ⟨_, _, rfl, rfl⟩

lemma not_forall₂_of_elementKids {rest others : List Value} {R : Value → Value → Prop}
    (hR : ∀ v w, R v w → v.isA [.kwrest] = w.isA [.kwrest])
    (hrest : ∀ r ∈ rest, r.isA [.kwrest] = true) (h : ElementKids scope element kids) :
    ¬ List.Forall₂ R rest (kids ++ others) := by
  intro hequal
  obtain ⟨first, tail, rfl, hfirst⟩ := h.eq_cons
  cases rest with
  | nil => cases hequal
  | cons r rest =>
    have hsame := hR _ _ (List.forall₂_cons.mp hequal).1
    rw [hrest r List.mem_cons_self, hfirst] at hsame
    cases hsame

lemma ElementKids.alike {e f : Tree} {others others' : List Value}
    (h : ElementKids scope e kids) (h' : ElementKids scope' f kids')
    (hequal : List.Forall₂ Value.Equal (kids ++ others) (kids' ++ others')) :
    ElementsAlike scope scope' e f ∧ List.Forall₂ Value.Equal others others' := by
  cases h with
  | pair he hkey hk hvalue hv =>
    have hkind : Value.isA [.kwsplat] _ = false := Tree.isA_clause_of_convert hk rfl (by simp)
    cases h' with
    | pair hf hkey' hk' hvalue' hv' =>
      obtain ⟨hkeys, hequal⟩ := List.forall₂_cons.mp hequal
      obtain ⟨hvalues, hothers⟩ := List.forall₂_cons.mp hequal
      exact ⟨.pair he hf hkey hkey' hvalue hvalue' ⟨_, _, hk, hk', hkeys⟩
        ⟨_, _, hv, hv', hvalues⟩, hothers⟩
    | splat hf hoperand hkids =>
      rw [(List.forall₂_cons.mp hequal).1.isA_eq] at hkind
      cases hkind
  | splat he hoperand hkids =>
    cases h' with
    | pair hf hkey' hk' hvalue' hv' =>
      have hkind : Value.isA [.kwsplat] _ = false := Tree.isA_clause_of_convert hk' rfl (by simp)
      rw [← (List.forall₂_cons.mp hequal).1.isA_eq] at hkind
      cases hkind
    | splat hf hoperand' hkids' =>
      obtain ⟨hsplats, hothers⟩ := List.forall₂_cons.mp hequal
      obtain ⟨hpresent, halike⟩ :=
        Tree.alike_of_present hkids hkids' (Value.equal_sexp.mp hsplats).2
      exact ⟨.splat he hf hoperand hoperand' hpresent halike, hothers⟩

theorem elements_alike_of_equal {es fs : List Tree} {lists lists' : List (List Value)}
    {rest rest' : List Value} (h : List.Forall₂ (ElementKids scope) es lists)
    (h' : List.Forall₂ (ElementKids scope') fs lists')
    (hrest : ∀ r ∈ rest, r.isA [.kwrest] = true) (hrest' : ∀ r ∈ rest', r.isA [.kwrest] = true)
    (hequal : List.Forall₂ Value.Equal (lists.flatten ++ rest) (lists'.flatten ++ rest')) :
    List.Forall₂ (ElementsAlike scope scope') es fs ∧ List.Forall₂ Value.Equal rest rest' := by
  induction h generalizing fs lists' with
  | nil =>
    cases h' with
    | nil => exact ⟨.nil, hequal⟩
    | cons hfirst _ =>
      rw [List.flatten_cons, List.append_assoc] at hequal
      exact absurd hequal (not_forall₂_of_elementKids (fun _ _ hvw => hvw.isA_eq _) hrest hfirst)
  | cons hfirst _ ih =>
    rw [List.flatten_cons, List.append_assoc] at hequal
    cases h' with
    | nil =>
      exact absurd hequal.flip (not_forall₂_of_elementKids (R := fun v w => w.Equal v)
        (fun _ _ hvw => (hvw.isA_eq _).symm) hrest' hfirst)
    | cons hfirst' hothers' =>
      rw [List.flatten_cons, List.append_assoc] at hequal
      obtain ⟨halike, hequal⟩ := hfirst.alike hfirst' hequal
      obtain ⟨hothers, hrests⟩ := ih hothers' hequal
      exact ⟨.cons halike hothers, hrests⟩

/-! ### Rests of hash patterns -/

inductive KeywordRest where
  /-- There are none: `**nil`. -/
  | nothing
  /-- There may be some: `**`. -/
  | anonymous
  /-- They are put into a variable: `**name`. -/
  | named (name : List Char)

namespace KeywordRest

def text : KeywordRest → List Char
  | .nothing => ['n', 'i', 'l']
  | .anonymous => []
  | .named name => name

/-- Whether a name is one that a variable can have, as far as it matters here. -/
def isProper : KeywordRest → Bool
  | .named name => !name.isEmpty && name != ['n', 'i', 'l']
  | _ => true

/-- What is written tells the rest, unless a name is empty or that of nothing. -/
lemma eq_of_text {r r' : KeywordRest} (hr : r.isProper = true) (hr' : r'.isProper = true)
    (h : r.text = r'.text) : r = r' := by
  cases r <;> cases r' <;> simp_all [text, isProper]

def ofTree (rest : Tree) : Except Fault KeywordRest := do
  if rest.isA .noKeywordsParameterNode then return .nothing
  else
    let value ← rest.get .value
    if value.isNull then return .anonymous
    else return .named ((← value.get .name).render .spelled)

end KeywordRest

lemma exists_of_patternKeywordRest {rest : Tree} (h : patternKeywordRest rest = .ok v) :
    ∃ r line maxLine, KeywordRest.ofTree rest = .ok r ∧
      v = .sexp .kwrest [symbolOf ('*' :: '*' :: r.text)] line maxLine := by
  unfold patternKeywordRest at h
  split at h
  · next hnothing =>
    obtain ⟨l, rfl⟩ := eq_sexp_of_build h
    exact ⟨.nothing, _, _, if_pos hnothing, rfl⟩
  · next hother =>
    obtain ⟨value, hvalue, h⟩ := exists_ok_of_bind h
    split at h
    · next hnull =>
      obtain ⟨l, rfl⟩ := eq_sexp_of_build h
      refine ⟨.anonymous, _, _, ?_, rfl⟩
      rw [KeywordRest.ofTree, if_neg hother, hvalue]
      exact if_pos hnull
    · next hpresent =>
      obtain ⟨marked, hmarked, h⟩ := exists_ok_of_bind h
      obtain ⟨name, hname, hmarked⟩ := exists_ok_of_bind hmarked
      cases hmarked
      obtain ⟨l, rfl⟩ := eq_sexp_of_build h
      refine ⟨.named (name.render .spelled), _, _, ?_, rfl⟩
      rw [KeywordRest.ofTree, if_neg hother, hvalue]
      refine (if_neg hpresent).trans ?_
      rw [hname]
      rfl

lemma text_eq_of_equal {cs cs' : List Char}
    (h : (symbolOf cs).Equal (symbolOf cs')) : cs = cs' := by
  have htext : String.ofList cs = String.ofList cs' := by
    simpa [symbolOf, Value.sym, Value.same, Tree.same, Scalar.same] using h.2
  exact String.ofList_injective htext

/-- The rests of two patterns are both missing, or both there with the same text behind the stars.
This makes them the same, if no name is empty or that of nothing. -/
def RestsAlike (rest rest' : Tree) : Prop :=
  rest.isNull = true ∧ rest'.isNull = true ∨
    rest.isNull = false ∧ rest'.isNull = false ∧ ∃ r r', KeywordRest.ofTree rest = .ok r ∧
      KeywordRest.ofTree rest' = .ok r' ∧ r.text = r'.text ∧
      (r.isProper = true → r'.isProper = true → r = r')

def restKids (rest : Tree) : Except Fault (List Value) :=
  convertIfPresent (fun _ tree => patternKeywordRest tree) {} rest

lemma isA_of_restKids {rest : Tree} (h : restKids rest = .ok kids) :
    ∀ r ∈ kids, r.isA [.kwrest] = true := by
  intro kid hkid
  obtain ⟨r, line, maxLine, -, rfl⟩ :=
    exists_of_patternKeywordRest (convert_of_mem_present h kid hkid)
  rfl

lemma restsAlike_of_equal {rest rest' : Tree} (h : restKids rest = .ok kids)
    (h' : restKids rest' = .ok kids') (hequal : List.Forall₂ Value.Equal kids kids') :
    RestsAlike rest rest' := by
  rcases present_cases h h' hequal with hnull | ⟨hthere, hthere', v, v', hv, hv', hequal⟩
  · exact .inl hnull
  · obtain ⟨r, line, maxLine, hr, rfl⟩ := exists_of_patternKeywordRest hv
    obtain ⟨r', line', maxLine', hr', rfl⟩ := exists_of_patternKeywordRest hv'
    have hsymbols := (Value.equal_sexp.mp hequal).2
    have htext := text_eq_of_equal (List.forall₂_cons.mp hsymbols).1
    simp only [List.cons.injEq, true_and] at htext
    exact .inr ⟨hthere, hthere', r, r', hr, hr', htext,
      fun hproper hproper' => KeywordRest.eq_of_text hproper hproper' htext⟩

/-! ### Recovery of hashes -/

lemma exists_of_hash {es : List Tree} (hes : n.get .elements = .ok (.tuple es))
    (helements : ∀ e ∈ es, isElement e = true)
    (hkind : n.kind = .hashNode ∨ n.kind = .keywordHashNode)
    (hv : (Tree.ofNode n).convert scope = .ok v) :
    ∃ lists line maxLine, List.Forall₂ (ElementKids scope) es lists ∧
      v = .sexp .hash lists.flatten line maxLine := by
  rw [Tree.convert_node] at hv
  have hhash : (do
      let kids ← pairs (fun scope tree => tree.convert scope) scope n .elements
      build n.location .hash kids) = .ok v := by
    rcases hkind with hkind | hkind <;> simpa only [rule, hkind] using hv
  obtain ⟨kids, hkids, hhash⟩ := exists_ok_of_bind hhash
  obtain ⟨lists, hlists, rfl⟩ := exists_of_pairs hes helements hkids
  obtain ⟨l, rfl⟩ := eq_sexp_of_build hhash
  exact ⟨lists, _, _, hlists, rfl⟩

lemma exists_of_hashPattern {es : List Tree} (hes : n.get .elements = .ok (.tuple es))
    (helements : ∀ e ∈ es, isElement e = true) (hkind : n.kind = .hashPatternNode)
    (hv : (Tree.ofNode n).convert scope = .ok v) :
    ∃ constant rest c lists kids line maxLine, n.get .constant = .ok constant ∧
      n.get .rest = .ok rest ∧ constant.convert scope = .ok c ∧
      List.Forall₂ (ElementKids scope) es lists ∧ restKids rest = .ok kids ∧
      v = .sexp .hashPat (c :: (lists.flatten ++ kids)) line maxLine := by
  rw [Tree.convert_node] at hv
  simp only [rule, hkind] at hv
  obtain ⟨elements, hkids, hv⟩ := exists_ok_of_bind hv
  obtain ⟨lists, hlists, rfl⟩ := exists_of_pairs hes helements hkids
  obtain ⟨rest, hrest, hv⟩ := exists_ok_of_bind hv
  have hbehind : ∃ kids, restKids rest = .ok kids ∧ (do
      let constant ← convertField (fun scope tree => tree.convert scope) scope n .constant
      build n.location .hashPat (constant :: (lists.flatten ++ kids))) = .ok v := by
    split at hv
    · next hnull => exact ⟨[], convertIfPresent_of_null hnull, hv⟩
    · next hthere =>
      obtain ⟨kid, hkid, hv⟩ := exists_ok_of_bind hv
      exact ⟨[kid], convertIfPresent_of_ok hthere hkid, hv⟩
  obtain ⟨kids, hkids, hv⟩ := hbehind
  obtain ⟨c, hc, hv⟩ := exists_ok_of_bind hv
  obtain ⟨constant, hconstant, hc⟩ := exists_ok_of_bind hc
  obtain ⟨l, rfl⟩ := eq_sexp_of_build hv
  exact ⟨constant, rest, c, lists, kids, _, _, hconstant, hrest, hc, hlists, hkids, rfl⟩

/-- **A hash can be recovered** from its expression, though pairs make two kids and splats one. If
the expressions of two hashes are equal, these have as many elements, and at each place both are
pairs with equal keys and values, or splats with equal operands. Of patterns of hashes the constant
is equal as well, and so is what is said of the other keys. -/
theorem convert_hash_recoverable {es fs : List Tree} (hes : n.get .elements = .ok (.tuple es))
    (hfs : n'.get .elements = .ok (.tuple fs)) (helements : ∀ e ∈ es, isElement e = true)
    (helements' : ∀ f ∈ fs, isElement f = true) (hv : (Tree.ofNode n).convert scope = .ok v)
    (hv' : (Tree.ofNode n').convert scope' = .ok v') (hsame : v.same v' = true) :
    (n.kind = .hashNode ∨ n.kind = .keywordHashNode →
      n'.kind = .hashNode ∨ n'.kind = .keywordHashNode →
      List.Forall₂ (ElementsAlike scope scope') es fs) ∧
    (n.kind = .hashPatternNode → n'.kind = .hashPatternNode →
      ∃ constant constant' rest rest', n.get .constant = .ok constant ∧
        n'.get .constant = .ok constant' ∧ n.get .rest = .ok rest ∧ n'.get .rest = .ok rest' ∧
        Tree.Alike scope scope' constant constant' ∧
        List.Forall₂ (ElementsAlike scope scope') es fs ∧ RestsAlike rest rest') := by
  constructor
  · intro hkind hkind'
    obtain ⟨lists, line, maxLine, hlists, rfl⟩ := exists_of_hash hes helements hkind hv
    obtain ⟨lists', line', maxLine', hlists', rfl⟩ := exists_of_hash hfs helements' hkind' hv'
    have hkids := (Value.same_sexp.mp hsame).2
    rw [← List.append_nil lists.flatten, ← List.append_nil lists'.flatten] at hkids
    exact (elements_alike_of_equal hlists hlists' (List.forall_mem_nil _) (List.forall_mem_nil _)
      hkids).1
  · intro hkind hkind'
    obtain ⟨constant, rest, c, lists, kids, line, maxLine, hconstant, hrest, hc, hlists, hkids,
      rfl⟩ := exists_of_hashPattern hes helements hkind hv
    obtain ⟨constant', rest', c', lists', kids', line', maxLine', hconstant', hrest', hc',
      hlists', hkids', rfl⟩ := exists_of_hashPattern hfs helements' hkind' hv'
    obtain ⟨hconstants, hequal⟩ := List.forall₂_cons.mp (Value.same_sexp.mp hsame).2
    obtain ⟨halike, hrests⟩ := elements_alike_of_equal hlists hlists' (isA_of_restKids hkids)
      (isA_of_restKids hkids') hequal
    exact ⟨constant, constant', rest, rest', hconstant, hconstant', hrest, hrest',
      ⟨c, c', hc, hc', hconstants⟩, halike, restsAlike_of_equal hkids hkids' hrests⟩

/-- A pair without a value and a splat, in a hash and among arguments; and a pattern with a named
rest, on one line and on another. -/
theorem convert_hash_recoverable_lines :
    let pair (l : Location) : Tree := .node .assocNode (some l)
      [(.key, .node .symbolNode (some l) [(.unescaped, .text "a")]), (.value, .null)]
    let splat (l : Location) : Tree := .node .assocSplatNode (some l)
      [(.value, .node .selfNode (some l) [])]
    let rest (l : Location) : Tree := .node .assocSplatNode (some l)
      [(.value, .node .localVariableTargetNode (some l) [(.name, .text "r"), (.depth, .int 0)])]
    let n (kind : Kind) (l : Location) : Node :=
      ⟨kind, some l, [(.elements, .tuple [pair l, splat l])]⟩
    let pattern (l : Location) : Node := ⟨.hashPatternNode, some l,
      [(.constant, .null), (.elements, .tuple [pair l]), (.rest, rest l)]⟩
    let key (line : Json) : Value := .sexp .lit [.sym "a"] line line
    let hash (line : Json) : Value := .sexp .hash
      [key line, .nil, .sexp .kwsplat [.sexp .selfRef [] line line] line line] line line
    let hashPat (line : Json) : Value := .sexp .hashPat
      [.nil, key line, .nil, .sexp .kwrest [.sym "**r"] line line] line line
    let later : Location := .lines (.int 7) (.int 7)
    (Tree.ofNode (n .hashNode {})).convert {} = .ok (hash (.int 1)) ∧
      (Tree.ofNode (n .keywordHashNode later)).convert {} = .ok (hash (.int 7)) ∧
      (hash (.int 1)).same (hash (.int 7)) = true ∧
      List.Forall₂ (ElementsAlike {} {}) [pair {}, splat {}] [pair later, splat later] ∧
      (Tree.ofNode (pattern {})).convert {} = .ok (hashPat (.int 1)) ∧
      (Tree.ofNode (pattern later)).convert {} = .ok (hashPat (.int 7)) ∧
      (hashPat (.int 1)).same (hashPat (.int 7)) = true ∧ RestsAlike (rest {}) (rest later) := by
  intro pair splat rest n pattern key hash hashPat later
  have helements : ∀ l, ∀ e ∈ [pair l, splat l], isElement e = true :=
    fun l => List.forall_mem_cons.mpr ⟨rfl, List.forall_mem_singleton.mpr rfl⟩
  have helement : ∀ l, ∀ e ∈ [pair l], isElement e = true :=
    fun l => List.forall_mem_singleton.mpr rfl
  have hfirst : (Tree.ofNode (n .hashNode {})).convert {} = .ok (hash (.int 1)) := by cbv
  have hlater : (Tree.ofNode (n .keywordHashNode later)).convert {} = .ok (hash (.int 7)) := by cbv
  have hpattern : (Tree.ofNode (pattern {})).convert {} = .ok (hashPat (.int 1)) := by cbv
  have hpattern' : (Tree.ofNode (pattern later)).convert {} = .ok (hashPat (.int 7)) := by cbv
  have hsame : (hash (.int 1)).same (hash (.int 7)) = true := by decide
  have hsame' : (hashPat (.int 1)).same (hashPat (.int 7)) = true := by decide
  have halike := (convert_hash_recoverable rfl rfl (helements {}) (helements later) hfirst hlater
    hsame).1 (.inl rfl) (.inr rfl)
  obtain ⟨_, _, _, _, -, -, hget, hget', -, -, hrests⟩ := (convert_hash_recoverable rfl rfl
    (helement {}) (helement later) hpattern hpattern' hsame').2 rfl rfl
  cases hget
  cases hget'
  exact ⟨hfirst, hlater, hsame, halike, hpattern, hpattern', hsame', hrests⟩

/-- A rest named `nil` is converted as no further keys are, and one with an empty name as a rest
without a name. -/
theorem convert_rest_named_nil :
    let pattern (rest : Tree) : Tree := .node .hashPatternNode (some {})
      [(.constant, .null), (.elements, .tuple []), (.rest, rest)]
    let splat (value : Tree) : Tree := .node .assocSplatNode (some {}) [(.value, value)]
    let named (name : String) : Tree := splat (.node .localVariableTargetNode (some {})
      [(.name, .text name), (.depth, .int 0)])
    let nothing : Tree := .node .noKeywordsParameterNode (some {}) []
    let hashPat (text : String) : Value := .sexp .hashPat
      [.nil, .sexp .kwrest [.sym text] (.int 1) (.int 1)] (.int 1) (.int 1)
    ((pattern nothing).convert {} = .ok (hashPat "**nil") ∧
        (pattern (named "nil")).convert {} = .ok (hashPat "**nil") ∧
        KeywordRest.ofTree nothing = .ok .nothing ∧
        KeywordRest.ofTree (named "nil") = .ok (.named ['n', 'i', 'l'])) ∧
      (pattern (splat .null)).convert {} = .ok (hashPat "**") ∧
        (pattern (named "")).convert {} = .ok (hashPat "**") ∧
        KeywordRest.ofTree (splat .null) = .ok .anonymous ∧
        KeywordRest.ofTree (named "") = .ok (.named []) := by
  intro pattern splat named nothing hashPat
  refine ⟨⟨?_, ?_, rfl, ?_⟩, ?_, ?_, rfl, rfl⟩ <;> cbv

end Convert

end RubySexp
