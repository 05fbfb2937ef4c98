import RubySexp.Proofs.Convert.Locality

/-!
# Where Lines Come From

Every expression in the result of a conversion has the two lines of a node of the tree, both of
the same node. A rule puts the expressions that it builds at the place of its node, of a part or of
an item of a part, and what it does to expressions later on keeps their lines. So a conversion that
is put beside itself, in a view that shows the places of expressions, stays in the places of the
nodes of its tree.
-/

namespace RubySexp

/-- If a tree is a node, it is at one of the places, and so are the nodes below it. -/
def Tree.PlacedIn (places : Location → Prop) (tree : Tree) : Prop :=
  ∀ n, tree.asNode? = some n → ∀ m ∈ n.all, ∀ l, m.location = some l → places l

namespace Tree

variable {places : Location → Prop} {n : Node} {tree part : Tree} {field : Field}

lemma PlacedIn.of_subset (h : (ofNode n).PlacedIn places)
    (hsub : part.nodes ⊆ (ofNode n).nodes) : part.PlacedIn places := by
  intro m hm k hk
  obtain rfl := eq_ofNode hm
  exact h n rfl k (hsub hk)

lemma PlacedIn.held (h : tree.PlacedIn places) (hget : tree.get field = .ok part) :
    part.Held (PlacedIn places) := by
  cases tree with
  | node kind location fields =>
    have hsub := nodes_subset_of_node_get (n := ⟨kind, location, fields⟩) hget
    refine ⟨h.of_subset (n := ⟨kind, location, fields⟩) hsub, ?_⟩
    intro items item hitems hitem m hm
    obtain rfl := eq_ofNode hm
    unfold elements at hitems
    split at hitems
    · cases hitems
      have hmem := nodes_subset_of_mem_items hitem
      exact h.of_subset (n := ⟨kind, location, fields⟩) (List.Subset.trans hmem hsub) m rfl
    · cases hitems
      obtain ⟨c, -, hc⟩ := List.mem_map.mp hitem
      cases hc
    · cases hitems
  | _ => cases hget

end Tree

namespace Convert

lemma sideBySide_self (places : Location → Prop) :
    SideBySide { Blur.exact with place := places } (fun _ tree => tree) Eq
      (Tree.PlacedIn places) (fun scope _ => scope) convertAt where
  toRecast := .id
  inParameters := by
    rintro s _ rfl
    rfl
  below := by
    rintro s _ rfl kind field
    rfl
  held := Tree.PlacedIn.held
  clause _ _ _ _ _ _ _ := rfl
  place {tree l} htree hl := by
    cases tree with
    | node kind location fields => exact htree _ rfl _ (List.mem_cons_self ..) l hl
    | _ => cases hl
  leaf k s _ htree := convertAt_leaf htree k s
  step _ _ _ := rfl
  entered _ h := h
  write := by
    rintro s _ n n' rfl - -
    rfl
  file := by
    rintro s _ n n' hn rfl hrecast -
    obtain rfl := Tree.ofNode_injective hrecast
    exact sourceFile_self (fun l hl => hn n rfl n (List.mem_cons_self ..) l hl) s

/-- **Trees**: what a tree is converted to comes from the places that its nodes are at. -/
lemma comesFrom_of_convert {places : Location → Prop} {tree : Tree} {scope : Scope} {v : Value}
    (hplaced : tree.PlacedIn places) (h : tree.convert scope = .ok v) : v.ComesFrom places := by
  have hlike := ((sideBySide_self places).parallel tree.height).conv (s := scope) rfl
    ⟨le_rfl, hplaced⟩
  rw [show convertAt tree.height scope tree = .ok v from h] at hlike
  obtain ⟨-, hv⟩ | _ | _ := hlike
  exact hv

end Convert

namespace Tree

/-- **Lines come from nodes**: every expression in the result of a conversion has both its lines
from one node of the tree. What holds between the first and the last line of every node, such as
their order, therefore holds between the lines of every expression. -/
theorem convert_lines_of_node {tree : Tree} {scope : Scope} {r : Value}
    (hr : tree.convert scope = .ok r) :
    (∀ e ∈ r.sexps, ∃ n ∈ tree.nodes, ∃ l, n.location = some l ∧ e.StandsAt l) ∧
      ∀ ordered : Json → Json → Prop,
        (∀ n ∈ tree.nodes, ∀ l, n.location = some l → ordered l.startLine l.endLine) →
          ∀ e ∈ r.sexps, ordered e.line e.maxLine := by
  have hplaced : tree.PlacedIn fun l => ∃ n ∈ tree.nodes, n.location = some l := by
    intro n hn m hm l hl
    obtain rfl := eq_ofNode hn
    exact ⟨m, hm, hl⟩
  have hlines : ∀ e ∈ r.sexps, ∃ n ∈ tree.nodes, ∃ l, n.location = some l ∧ e.StandsAt l := by
    intro e he
    obtain ⟨l, ⟨n, hn, hl⟩, hstands⟩ := Convert.comesFrom_of_convert hplaced hr e he
    exact ⟨n, hn, l, hl, hstands⟩
  refine ⟨hlines, fun ordered hordered e he => ?_⟩
  obtain ⟨n, hn, l, hl, hline, hmaxLine⟩ := hlines e he
  rw [hline, hmaxLine]
  exact hordered n hn l hl

/-- The exception of a handler on lines 3 and 4 is assigned on line 3, in a list on both lines, and
the body with its handler is on the line of its statements. -/
theorem convert_lines_of_handler :
    let at_ (first last : Int) : Option Location := some (.lines (.int first) (.int last))
    let sexp (tag : Tag) (kids : List Value) (first last : Int) : Value :=
      .sexp tag kids (.int first) (.int last)
    let ordered (first last : Json) : Prop :=
      ∃ i j : Int, first = .int i ∧ last = .int j ∧ i ≤ j
    let body : Tree := .node .statementsNode (at_ 2 2)
      [(.body, .tuple [.node .selfNode (at_ 2 2) []])]
    let target : Tree := .node .localVariableTargetNode (at_ 3 3)
      [(.name, .text "e"), (.depth, .scalar (.int 0))]
    let handler : Tree := .node .rescueNode (at_ 3 4)
      [(.exceptions, .tuple []), (.reference, target), (.statements, .null), (.subsequent, .null)]
    let tree : Tree := .node .beginNode (at_ 1 5)
      [(.statements, body), (.rescueClause, handler), (.elseClause, .null), (.ensureClause, .null)]
    let exception : Value := sexp .lasgn [.sym "e", sexp .gvar [.sym "$!"] 3 3] 3 3
    let r : Value := sexp .rescue
      [sexp .selfRef [] 2 2, sexp .resbody [sexp .array [exception] 3 4, .nil] 3 4] 2 2
    tree.convert {} = .ok r ∧
      (∀ e ∈ r.sexps, ∃ n ∈ tree.nodes, ∃ l, n.location = some l ∧ e.StandsAt l) ∧
      (∀ n ∈ tree.nodes, ∀ l, n.location = some l → ordered l.startLine l.endLine) ∧
      ∀ e ∈ r.sexps, ordered e.line e.maxLine := by
  intro at_ sexp ordered body target handler tree exception r
  have hr : tree.convert {} = .ok r := rfl
  have hordered : ∀ n ∈ tree.nodes, ∀ l, n.location = some l →
      ordered l.startLine l.endLine := by
    have hat : ∀ {first last : Int}, first ≤ last → ∀ l, at_ first last = some l →
        ordered l.startLine l.endLine := by
      rintro first last hle _ ⟨⟩
      exact ⟨first, last, rfl, rfl, hle⟩
    have hplaces : (∀ l, at_ 1 5 = some l → ordered l.startLine l.endLine) ∧
        (∀ l, at_ 2 2 = some l → ordered l.startLine l.endLine) ∧
        (∀ l, at_ 3 4 = some l → ordered l.startLine l.endLine) ∧
        ∀ l, at_ 3 3 = some l → ordered l.startLine l.endLine :=
      ⟨hat (by decide), hat (by decide), hat (by decide), hat (by decide)⟩
    simpa [tree, body, target, handler, nodes, nodesOfFields, nodesOfItems] using hplaces
  exact ⟨hr, (convert_lines_of_node hr).1, hordered,
    (convert_lines_of_node hr).2 ordered hordered⟩

end Tree

end RubySexp
