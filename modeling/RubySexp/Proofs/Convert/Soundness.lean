import RubySexp.Proofs.Convert.Locality
import RubySexp.Proofs.Convert.Outcome.Rule

/-!
# Soundness of the Conversion

The rules have been shown to keep their outcomes over any conversion of the trees below; by
induction on the height the conversion itself does, in every place. A strict tree therefore has a
conversion unless it holds a node of a kind without one, and where exceptions go to targets only,
the result conforms to the grammar.
-/

namespace RubySexp

namespace Convert

variable {r : Rigour} {scope : Scope} {tree : Tree}

/-- A fault in which the conversion of a tree may end. For a strict tree it names a node of the tree
whose kind has no conversion. -/
def Excused (r : Rigour) (tree : Tree) (e : Fault) : Prop :=
  r.sound = true →
    ∃ m ∈ tree.nodes, m.kind.isUnsupported = true ∧ ∃ reason, e = unsupported (.ofNode m) reason

lemma Excused.of_within {n : Node} {e : Fault} (hw : tree.Within n) (h : Excused r tree e) :
    Excused r (.ofNode n) e := by
  intro hr
  obtain ⟨m, hm, hkind⟩ := h hr
  exact ⟨m, hw.2 hm, hkind⟩

structure Sound (r : Rigour) (scope : Scope) (tree : Tree) (result : Except Fault Value) :
    Prop where
  yields : ∀ {role yield}, role.yield = some yield → tree.fits r role = true →
    scope.inParameters = role.isPositional → Outcome (Excused r tree) (yield.Meets r) result
  declares : tree.fits r .blockParameters = true → tree.isA .numberedParametersNode = false →
    scope.inParameters = false →
    Outcome (Excused r tree) (fun v : Value => v.Sits r (.tagged [.args])) result

lemma setting_of_sound {n : Node} (hplaced : r.placed = true)
    (hplace : Location.isNumbered n.location = true)
    (ih : ∀ scope tree, tree.height < (Tree.ofNode n).height →
      Sound r scope tree (tree.convert scope)) :
    Setting r (Excused r (.ofNode n)) n fun scope tree => tree.convert scope where
  placed := hplaced
  place := hplace
  excuse := by
    intro hloose e hr
    rw [hloose] at hr
    cases hr
  unsupported := by
    intro hkind reason _
    exact ⟨n, by simp [Tree.ofNode, Tree.nodes], hkind, reason, rfl⟩
  nothing := fun _ => rfl
  below := by
    intro scope role yield tree hw hfits hy hs
    exact Outcome.mono_fault ((ih scope tree hw.1).yields hy hfits hs) fun _ he => he.of_within hw
  declared := by
    intro scope tree hw hfits hnumbered hs
    exact Outcome.mono_fault ((ih scope tree hw.1).declares hfits hnumbered hs)
      fun _ he => he.of_within hw

/-- **Runs**: wherever a tree fits, its conversion yields what the place says. -/
theorem convert_sound (hplaced : r.placed = true) (scope : Scope) (tree : Tree) :
    Sound r scope tree (tree.convert scope) := by
  refine Tree.convert_induction (motive := Sound r) ?_ ?_ scope tree
  · -- what fits is a node
    intro scope tree hleaf
    have hnode : ∀ role, tree.fits r role ≠ true := by
      intro role hfits
      obtain ⟨m, rfl⟩ := Tree.eq_ofNode_of_fits hfits
      cases hleaf
    exact ⟨fun _ hfits => absurd hfits (hnode _), fun hfits => absurd hfits (hnode _)⟩
  · intro scope n ih
    refine ⟨fun hy hfits hs => ?_, fun hfits hnumbered hs => ?_⟩
    · have hplace := (Tree.fits_node.mp hfits).2.1
      exact (setting_of_sound hplaced hplace ih).ruleOutcome hy hs hfits
    · have hplace := (Tree.fits_node.mp hfits).2.1
      refine (setting_of_sound hplaced hplace ih).ruleDeclared hs hfits ?_
      intro hkind
      simp [Tree.ofNode, Tree.isA, hkind] at hnumbered

end Convert

/-! ### Strict trees -/

namespace Tree

variable {scope : Scope} {tree : Tree}

def IsEmptyProgram (tree : Tree) : Prop :=
  ∃ n m, tree = ofNode n ∧ n.kind = .programNode ∧ n.get .statements = .ok (ofNode m) ∧
    m.get .body = .ok (.tuple [])

def ConvertsToSexp (tree : Tree) (scope : Scope) : Prop :=
  ∃ tag kids line maxLine, tree.convert scope = .ok (.sexp tag kids line maxLine)

/-- The conversion of a tree stops at a node of a kind without a conversion. -/
def StopsAtUnsupported (tree : Tree) (scope : Scope) : Prop :=
  ∃ m ∈ tree.nodes, m.kind.isUnsupported = true ∧
    ∃ reason, tree.convert scope = .error (Convert.unsupported (ofNode m) reason)

lemma convert_expression (hscope : scope.inParameters = false)
    (hfits : tree.fits .strict .expression = true) :
    tree.ConvertsToSexp scope ∨ tree.StopsAtUnsupported scope := by
  have h := (Convert.convert_sound rfl scope tree).yields rfl hfits hscope
  cases hresult : tree.convert scope with
  | ok v =>
    rw [hresult] at h
    rcases h.cases with ⟨tag, kids, line, maxLine, rfl⟩ | ⟨hloose, -⟩
    · exact Or.inl ⟨tag, kids, line, maxLine, hresult⟩
    · cases hloose
  | error e =>
    rw [hresult] at h
    obtain ⟨m, hm, hkind, reason, rfl⟩ := h rfl
    exact Or.inr ⟨m, hm, hkind, reason, hresult⟩

lemma empty_or_fits_of_topLevel {m : Node} (hfits : (ofNode m).fits .strict .topLevel = true) :
    m.kind = .statementsNode ∧
      (m.get .body = .ok (.tuple []) ∨ (ofNode m).fits .strict .expression = true) := by
  obtain ⟨hadmits, hplace, hbare, hfields⟩ := fits_node.mp hfits
  have hkind : m.kind = .statementsNode := by
    simpa [Rigour.admits, Rigour.takes, Rigour.strict] using hadmits
  refine ⟨hkind, ?_⟩
  rw [hkind] at hfields
  obtain ⟨body, hown, hbody⟩ := eq_singleton_of_holdsFields hfields
  have hget : m.get .body = .ok body := by simp [Node.get, Node.get?, hown]
  obtain ⟨items, rfl, -, hitems⟩ := eq_tuple_of_holds hbody rfl
  by_cases hempty : items = []
  · exact Or.inl (hempty ▸ hget)
  · refine Or.inr (fits_node.mpr ⟨by rw [hkind]; rfl, hplace, hbare, ?_⟩)
    have hfilled : (Tree.tuple items).holds .strict (.filled .expression) = true := by
      simpa [holds, Content.item?, holdsItems_iff, hempty] using hitems
    rw [hkind, hown]
    simp [Kind.contents, Role.body, holdsFields, hfilled]

lemma convert_topLevel {m : Node} (hscope : scope.inParameters = false)
    (hfits : (ofNode m).fits .strict .topLevel = true) :
    m.get .body = .ok (.tuple []) ∧ (ofNode m).convert scope = .ok .nil ∨
      (ofNode m).ConvertsToSexp scope ∨ (ofNode m).StopsAtUnsupported scope := by
  obtain ⟨hkind, hempty | hexpression⟩ := empty_or_fits_of_topLevel hfits
  · refine Or.inl ⟨hempty, ?_⟩
    have hbody : Convert.statements (fun scope tree => tree.convert scope) scope (ofNode m) =
        (m.get .body >>= Convert.convertAll (fun scope tree => tree.convert scope) scope) := rfl
    rw [convert_node, Convert.rule, hkind]
    simp only [Convert.block, hbody, hempty]
    rfl
  · exact Or.inr (convert_expression hscope hexpression)

/-- **Totality**: a strict tree converts to an expression, unless it is a program without
statements, which converts to nothing, or holds a node of a kind without a conversion, and then the
fault names such a node. -/
theorem convert_total (hscope : scope.inParameters = false)
    (hfits : tree.fits .strict .root = true) :
    tree.ConvertsToSexp scope ∨ tree.convert scope = .ok .nil ∧ tree.IsEmptyProgram ∨
      tree.StopsAtUnsupported scope := by
  obtain ⟨n, rfl⟩ := eq_ofNode_of_fits hfits
  by_cases hkind : n.kind = .programNode
  · -- the program is its body
    have hstatements : n.Keeps .strict .statements (.one .topLevel) :=
      exists_get_of_fits hfits (by rw [hkind]; rfl)
    obtain ⟨body, hget, hbody⟩ := hstatements
    obtain ⟨m, rfl⟩ := eq_ofNode_of_fits hbody
    have hconvert : (ofNode n).convert scope = (ofNode m).convert scope := by
      rw [convert_node, Convert.rule, hkind]
      simp only [Convert.convertField, hget]
      rfl
    have hnodes : (ofNode m).nodes ⊆ (ofNode n).nodes := nodes_subset_of_node_get hget
    simp only [ConvertsToSexp, StopsAtUnsupported, hconvert]
    rcases convert_topLevel hscope hbody with ⟨hempty, hnil⟩ | hsexp | ⟨stop, hstop, hrest⟩
    · exact Or.inr (Or.inl ⟨hnil, n, m, rfl, hkind, hget, hempty⟩)
    · exact Or.inl hsexp
    · exact Or.inr (Or.inr ⟨stop, hnodes hstop, hrest⟩)
  · have hexpression : (ofNode n).fits .strict .expression = true := by
      refine fits_of_contents_eq hfits ?_
        (Kind.contents_eq_expression rfl rfl rfl rfl (.inl rfl))
      have hroot := (fits_node.mp hfits).1
      simpa [Rigour.admits, Rigour.takes, Rigour.strict, hkind] using hroot
    exact (convert_expression hscope hexpression).imp_right Or.inr

/-- A method that takes its parameter apart, matches a literal and hands an exception to an
attribute. -/
theorem convert_total_method :
    let a : Tree := .atTop .requiredParameterNode [(.name, .text "a")]
    let rest : Tree := .atTop .splatNode [(.expression, .null)]
    let target : Tree := .atTop .multiTargetNode
      [(.lefts, .tuple [a]), (.rest, rest), (.rights, .tuple [])]
    let parameters : Tree := .atTop .parametersNode
      [(.requireds, .tuple [target]), (.optionals, .tuple []), (.rest, .null), (.posts, .tuple []),
        (.keywords, .tuple []), (.keywordRest, .null), (.block, .null)]
    let read : Tree := .atTop .localVariableReadNode [(.name, .text "a"), (.depth, .int 0)]
    let matching : Tree := .atTop .callNode
      [(.receiver, .atTop .stringNode [(.unescaped, .text "s")]), (.name, .text "=~"),
        (.arguments, .atTop .argumentsNode [(.arguments, .tuple [read])]), (.block, .null),
        (.safeNavigation, .bool false), (.variableCall, .bool false)]
    let writer : Tree := .atTop .callTargetNode
      [(.receiver, .atTop .selfNode []), (.name, .text "e="), (.safeNavigation, .bool false)]
    let handler : Tree := .atTop .rescueNode
      [(.exceptions, .tuple []), (.reference, writer), (.statements, .null),
        (.subsequent, .null)]
    let body : Tree := .atTop .beginNode
      [(.statements, .atTop .statementsNode [(.body, .tuple [matching])]), (.rescueClause, handler),
        (.elseClause, .null), (.ensureClause, .null)]
    let method : Tree := .atTop .defNode
      [(.name, .text "f"), (.receiver, .null), (.parameters, parameters), (.body, body),
        (.locals, .tuple [.text "a"])]
    let tree : Tree := .atTop .programNode
      [(.locals, .tuple []), (.statements, .atTop .statementsNode [(.body, .tuple [method])])]
    tree.fits .strict .root = true ∧
      (tree.ConvertsToSexp {} ∨ tree.convert {} = .ok .nil ∧ tree.IsEmptyProgram ∨
        tree.StopsAtUnsupported {}) := by
  intro a rest target parameters read matching writer handler body method tree
  have hfits : tree.fits .strict .root = true := by decide +kernel
  exact ⟨hfits, convert_total rfl hfits⟩

/-! ### The grammar of the results -/

/-- **Results conform**: where the nodes stand in their places and exceptions go to targets only, a
conversion is an expression or nothing and conforms to the grammar. -/
theorem convert_conforms {v : Value} (hscope : scope.inParameters = false)
    (hfits : tree.fits .assignable .root = true) (h : tree.convert scope = .ok v) :
    v.isBranch = true ∧ v.conforms = true := by
  have hyield := (Convert.convert_sound rfl scope tree).yields rfl hfits hscope
  rw [h] at hyield
  rcases hyield with hv | rfl
  · exact ⟨hv.sits.accepts, hv.sits.conforms rfl⟩
  · exact ⟨rfl, rfl⟩

/-- A block with a parameter, and an exception that goes to an instance variable. -/
theorem convert_conforms_instance_variable :
    let a : Tree := .atTop .requiredParameterNode [(.name, .text "a")]
    let parameters : Tree := .atTop .parametersNode
      [(.requireds, .tuple [a]), (.optionals, .tuple []), (.rest, .null), (.posts, .tuple []),
        (.keywords, .tuple []), (.keywordRest, .null), (.block, .null)]
    let declared : Tree := .atTop .blockParametersNode
      [(.parameters, parameters), (.locals, .tuple [])]
    let block : Tree := .atTop .blockNode
      [(.locals, .tuple [.text "a"]), (.parameters, declared), (.body, .null)]
    let call : Tree := .atTop .callNode
      [(.receiver, .null), (.name, .text "f"), (.arguments, .null), (.block, block),
        (.safeNavigation, .bool false), (.variableCall, .bool false)]
    let handler : Tree := .atTop .rescueNode
      [(.exceptions, .tuple []),
        (.reference, .atTop .instanceVariableTargetNode [(.name, .text "@e")]),
        (.statements, .null), (.subsequent, .null)]
    let tree : Tree := .atTop .beginNode
      [(.statements, .atTop .statementsNode [(.body, .tuple [call])]), (.rescueClause, handler),
        (.elseClause, .null), (.ensureClause, .null)]
    let v : Value := .atTop .rescue
      [.atTop .iter [.atTop .call [.nil, .sym "f"], .atTop .args [.sym "a"]],
        .atTop .resbody [.atTop .array [.atTop .iasgn [.sym "@e", .atTop .gvar [.sym "$!"]]], .nil]]
    tree.fits .assignable .root = true ∧ tree.convert {} = .ok v ∧
      v.isBranch = true ∧ v.conforms = true := by
  intro a parameters declared block call handler tree v
  have hfits : tree.fits .assignable .root = true := by decide +kernel
  have hconvert : tree.convert {} = .ok v := rfl
  exact ⟨hfits, hconvert, convert_conforms rfl hfits hconvert⟩

/-- Places alone are not enough: an exception that is handed to a condition becomes its fourth
kid. -/
theorem convert_handed_to_condition :
    let condition : Tree := .atTop .ifNode
      [(.predicate, .atTop .nilNode []), (.statements, .null), (.subsequent, .null)]
    let handler : Tree := .atTop .rescueNode
      [(.exceptions, .tuple []), (.reference, condition), (.statements, .null),
        (.subsequent, .null)]
    let tree : Tree := .atTop .beginNode
      [(.statements, .null), (.rescueClause, handler), (.elseClause, .null), (.ensureClause, .null)]
    let broken : Value := .atTop .ifElse [.atTop .nilLit [], .nil, .nil, .atTop .gvar [.sym "$!"]]
    let v : Value := .atTop .rescue [.atTop .resbody [.atTop .array [broken], .nil]]
    tree.fits .wellPlaced .root = true ∧ tree.convert {} = .ok v ∧
      broken.conforms = false ∧ v.conforms = false := by
  intro condition handler tree broken v
  refine ⟨?_, rfl, ?_, ?_⟩
  all_goals decide +kernel

end Tree

end RubySexp
