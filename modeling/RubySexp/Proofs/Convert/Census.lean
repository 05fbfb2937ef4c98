import RubySexp.Proofs.Convert.Census.Rule
import RubySexp.Proofs.Convert.Locality
import RubySexp.Proofs.Sexp.ReadBack

/-!
# Nothing Is Lost

What the rules keep, the conversion of a whole tree keeps: an expression holds as many of a
construct as the conversion reached in the tree. Two results follow. Where all stands as it is
meant to, no construct is lost and none is there twice; and a node that no expression stands for is
never passed over.
-/

namespace RubySexp

variable {c : Construct}

/-! ### Counting nodes and expressions -/

lemma Tag.nodup_all : Tag.all.Nodup := by
  refine List.Nodup.of_map Tag.ctorIdx ?_
  rw [show Tag.all.map Tag.ctorIdx = List.range 97 from rfl]
  exact List.nodup_range

namespace Construct

lemma sum_eq_count {α : Type} [DecidableEq α] (a : α) (l : List α) :
    (l.map fun b => if a = b then 1 else 0).sum = l.count a := by
  induction l with
  | nil => rfl
  | cons b l ih =>
    rw [List.map_cons, List.sum_cons, ih, List.count_cons, Nat.add_comm]
    by_cases hb : a = b
    · simp [hb]
    · simp [hb, Ne.symm hb]

lemma count_listed {α : Type} [DecidableEq α] {all : List α} (hall : all.Nodup) {a : α}
    (ha : a ∈ all) {f : α → List Construct} (hf : (f a).Nodup) :
    (all.filter fun b => (f b).contains c).count a = (f a).count c := by
  by_cases hc : c ∈ f a
  · have hcontains : (f a).contains c = true := by simpa using hc
    rw [List.count_filter (p := fun b : α => (f b).contains c) hcontains,
      List.count_eq_one_of_mem hall ha, List.count_eq_one_of_mem hf hc]
  · have hnone : a ∉ all.filter fun b => (f b).contains c := by
      intro hmem
      exact hc (by simpa using (List.mem_filter.mp hmem).2)
    rw [List.count_eq_zero.mpr hnone, List.count_eq_zero.mpr hc]

lemma count_kinds (kind : Kind) : c.kinds.count kind = c.ofKind kind :=
  count_listed Kind.nodup_all kind.mem_all (by cases kind <;> decide)

lemma count_tags (tag : Tag) : c.tags.count tag = c.ofTag tag :=
  count_listed Tag.nodup_all tag.mem_all (by cases tag <;> decide)

end Construct

lemma Node.sum_findAll (n : Node) :
    (c.kinds.map fun kind => (n.findAll kind).length).sum = (Tree.ofNode n).census c := by
  have hall : ∀ nodes : List Node,
      (c.kinds.map fun kind => (nodes.filter (·.kind == kind)).length).sum =
        (nodes.map fun m => c.ofKind m.kind).sum := by
    intro nodes
    induction nodes with
    | nil => simp
    | cons m nodes ih =>
      have hcons : ∀ kind, ((m :: nodes).filter (·.kind == kind)).length =
          (if m.kind = kind then 1 else 0) + (nodes.filter (·.kind == kind)).length := by
        intro kind
        rw [← List.countP_eq_length_filter, ← List.countP_eq_length_filter, List.countP_cons,
          Nat.add_comm]
        simp
      rw [List.map_cons, List.sum_cons, ← ih, ← Construct.count_kinds,
        ← Construct.sum_eq_count m.kind, ← List.sum_map_add]
      simp only [hcons]
  exact hall n.all

namespace Value

mutual

lemma sum_findAll : ∀ v : Value,
    (c.tags.map fun tag => (v.findAll tag.name).length).sum = v.tally c
  | .sexp tag kids l m => by
    have hkids := sum_findAllKids kids
    have hcons : ∀ tag', (findAll tag'.name (.sexp tag kids l m)).length =
        (if tag = tag' then 1 else 0) + (findAllKids tag'.name kids).length := by
      intro tag'
      rw [findAll, List.length_append]
      congr 1
      by_cases htag : tag = tag'
      · simp [htag]
      · simp [htag, Tag.name_eq_iff]
    simp only [hcons]
    rw [List.sum_map_add, Construct.sum_eq_count, Construct.count_tags, hkids, tally_sexp]
  | .scalar _ | .rational _ | .symbol _ | .range _ _ _ | .regexp _ _ | .imaginary _ _ | .list _
  | .tuple _ | .mapping _ | .span _ | .node _ => by simp [findAll, tally]

lemma sum_findAllKids : ∀ vs : List Value,
    (c.tags.map fun tag => (findAllKids tag.name vs).length).sum = tallyAll c vs
  | [] => by simp [findAllKids]
  | v :: vs => by
    simp only [findAllKids, List.length_append]
    rw [List.sum_map_add, sum_findAll v, sum_findAllKids vs, tallyAll_cons]

end

end Value

/-! ### The whole conversion -/

namespace Tree

variable {scope : Scope} {tree : Tree} {n : Node} {v : Value}

lemma eq_null_of_convert (hnode : tree.asNode? = none) (hv : tree.convert scope = .ok v) :
    tree = .null ∧ v = .nil := by
  rw [convert, Convert.convertAt_leaf hnode] at hv
  unfold Convert.leaf at hv
  split at hv
  · cases hv
    exact ⟨rfl, rfl⟩
  · cases hv

/-- **The conversion keeps the count**: by induction on the tree, with one step for each rule. -/
theorem convert_yielded (hn : n.Orderly c scope.inParameters .ordinary)
    (hv : (ofNode n).convert scope = .ok v) :
    v.Yielded c n.kind.isList ((ofNode n).reached c scope.inParameters .ordinary) := by
  refine convert_induction (motive := fun scope tree result => ∀ n v, tree = ofNode n →
    n.Orderly c scope.inParameters .ordinary → result = .ok v →
      v.Yielded c n.kind.isList ((ofNode n).reached c scope.inParameters .ordinary))
    (fun scope tree hnode n v htree => ?_) (fun scope n ih m v htree hn hv => ?_) scope (ofNode n) n
    v rfl hn hv
  · rw [htree] at hnode
    cases hnode
  · obtain rfl := ofNode_injective htree
    rw [reached_ofNode hn.declared]
    exact Convert.Census.rule_yielded ⟨hn, eq_null_of_convert, fun s m => convert_node m s,
      fun {s m v} hbelow hm hv => ih s (ofNode m) hbelow m v rfl hm hv⟩ hv

/-- **A node without a conversion is not passed over**: wherever the conversion reaches one, it
fails. -/
theorem convert_fails_on_unsupported {m : Node} (hdeclared : tree.declared = true)
    (hm : m ∈ tree.visible scope.inParameters .ordinary)
    (hkind : m.kind ∈ [.missingNode, .itLocalVariableReadNode, .itParametersNode]) :
    ∃ fault, tree.convert scope = .error fault := by
  rcases hv : tree.convert scope with fault | v
  · exact ⟨fault, rfl⟩
  have hcounts : Construct.unsupported.ofKind m.kind = 1 := by
    simp only [List.mem_cons, List.not_mem_nil, or_false] at hkind
    rcases hkind with hkind | hkind | hkind
    all_goals
      rw [hkind]
      rfl
  have hreached : tree.reached .unsupported scope.inParameters .ordinary = 0 := by
    rcases hnode : tree.asNode? with _ | n
    · obtain ⟨rfl, -⟩ := eq_null_of_convert hnode hv
      rfl
    · obtain rfl := eq_ofNode hnode
      exact (convert_yielded ⟨hdeclared, .inl rfl⟩ hv).eq_zero rfl
  rw [reached, List.sum_eq_zero_iff] at hreached
  have hzero := hreached _ (List.mem_map.mpr ⟨m, hm, rfl⟩)
  rw [hcounts] at hzero
  cases hzero

/-- A splat in a pattern, with nothing but a gap in the source behind its mark. -/
theorem convert_fails_on_missing_rest :
    let missing : Node := ⟨.missingNode, some {}, []⟩
    let pattern : Tree := .atTop .arrayPatternNode
      [(.constant, .null), (.requireds, .tuple []),
        (.rest, .atTop .splatNode [(.expression, .ofNode missing)]), (.posts, .tuple [])]
    let clause : Tree := .atTop .inNode [(.pattern, pattern), (.statements, .null)]
    let tree : Tree := .atTop .caseMatchNode
      [(.predicate, .atTop .nilNode []), (.conditions, .tuple [clause]), (.elseClause, .null)]
    tree.declared = true ∧ missing ∈ tree.visible false .ordinary ∧
      ∃ fault, tree.convert {} = .error fault := by
  intro missing pattern clause tree
  have hdeclared : tree.declared = true := by decide +kernel
  have hvisible : missing ∈ tree.visible false .ordinary := List.mem_of_getElem? (i := 5) rfl
  exact ⟨hdeclared, hvisible, convert_fails_on_unsupported hdeclared hvisible (by simp [missing])⟩

/-- The block behind an index is not reached, whatever it is. -/
example :
    let block : Tree := .atTop .blockArgumentNode [(.expression, .atTop .missingNode [])]
    let tree : Tree := .atTop .indexOrWriteNode
      [(.receiver, .atTop .selfNode []), (.arguments, .null), (.block, block),
        (.value, .atTop .nilNode []), (.safeNavigation, .bool false)]
    tree.declared = true ∧
      tree.convert {} = .ok (.atTop .opAsgn1
        [.atTop .selfRef [], .atTop .arglist [], .sym "||", .atTop .nilLit []]) := by
  intro block tree
  refine ⟨?_, rfl⟩
  decide +kernel

end Tree

namespace Node

/-- **No construct is lost or doubled**: in a tree in which all stands where it is meant to, there
are as many nodes of a construct as there are expressions of it in the converted tree. -/
theorem convert_keeps_constructs {n : Node} {scope : Scope} {r : Sexp}
    (hdeclared : (Tree.ofNode n).declared = true)
    (hroot : Standing.ordinary.admits n.kind = true)
    (hplaced : (Tree.ofNode n).placed c scope.inParameters .ordinary = true)
    (hr : (Tree.ofNode n).convert scope = .ok r.toValue) :
    (c.kinds.map fun kind => (n.findAll kind).length).sum =
      (c.tags.map fun tag => (r.findAll tag.name).length).sum := by
  have hkept : r.toValue.Kept c ((Tree.ofNode n).reached c scope.inParameters .ordinary) :=
    (Tree.convert_yielded ⟨hdeclared, .inr hplaced⟩ hr).kept
      (.inr (Convert.Census.isList_of_admits hroot))
  calc (c.kinds.map fun kind => (n.findAll kind).length).sum
    _ = (Tree.ofNode n).census c := n.sum_findAll
    _ = (Tree.ofNode n).reached c scope.inParameters .ordinary :=
      (Tree.reached_of_placed _ _ _ hplaced).symm
    _ = r.toValue.tally c := hkept.tally.symm
    _ = (c.tags.map fun tag => (r.findAll tag.name).length).sum := (Value.sum_findAll _).symm

/-- A method that returns from a block and from two handlers. -/
theorem convert_keeps_returns :
    let body : Tree := .atTop .statementsNode
      [(.body, .tuple [.atTop .returnNode [(.arguments, .null)]])]
    let block : Tree := .atTop .blockNode
      [(.locals, .tuple []), (.parameters, .null), (.body, body)]
    let call : Tree := .atTop .callNode
      [(.receiver, .null), (.name, .text "f"), (.arguments, .null), (.block, block),
        (.safeNavigation, .bool false), (.variableCall, .bool false)]
    let handler (next : Tree) : Tree := .atTop .rescueNode
      [(.exceptions, .tuple []), (.reference, .null), (.statements, body), (.subsequent, next)]
    let guarded : Tree := .atTop .beginNode
      [(.statements, .atTop .statementsNode [(.body, .tuple [call])]),
        (.rescueClause, handler (handler .null)), (.elseClause, .null), (.ensureClause, .null)]
    let method : Node := ⟨.defNode, some {},
      [(.name, .text "m"), (.receiver, .null), (.parameters, .null), (.body, guarded),
        (.locals, .tuple [])]⟩
    let caught : Value := .atTop .resbody [.atTop .array [], .atTop .returnJump []]
    let tried : Value := .atTop .iter
      [.atTop .call [.nil, .sym "f"], .int 0, .atTop .returnJump []]
    let r : Sexp := ⟨.defn,
      [.sym "m", .atTop .args [], .atTop .rescue [tried, caught, caught]],
      .scalar (.int 1), .scalar (.int 1)⟩
    (Tree.ofNode method).declared = true ∧
      (Tree.ofNode method).placed .returnJump false .ordinary = true ∧
      (Tree.ofNode method).convert {} = .ok r.toValue ∧
      ((Construct.kinds .returnJump).map fun kind => (method.findAll kind).length).sum =
        ((Construct.tags .returnJump).map fun tag => (r.findAll tag.name).length).sum := by
  intro body block call handler guarded method caught tried r
  have hdeclared : (Tree.ofNode method).declared = true := by decide +kernel
  have hplaced : (Tree.ofNode method).placed .returnJump false .ordinary = true := by
    decide +kernel
  have hr : (Tree.ofNode method).convert {} = .ok r.toValue := rfl
  exact ⟨hdeclared, hplaced, hr, convert_keeps_constructs hdeclared rfl hplaced hr⟩

end Node

end RubySexp
