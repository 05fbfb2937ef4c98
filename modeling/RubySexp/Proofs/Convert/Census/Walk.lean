import RubySexp.Node.Walk
import RubySexp.Proofs.Convert.Census.Construct
import RubySexp.Proofs.Convert.Parallel.Part
import RubySexp.Proofs.Node.Schema

/-!
# What the Conversion Reaches

The conversion does not reach every node of a tree. It leaves out what a field holds that is no part
of the expression, or that is only looked at for its name; and a few kinds of nodes are taken apart
by the node around them, as far as that node asks. Here the walk of the conversion over a tree is
described field by field.
-/

namespace RubySexp

inductive Standing where
  /-- Converted to a value of its own. -/
  | ordinary
  /-- The list of arguments of a call. -/
  | arguments
  /-- An element of a hash or of a pattern of one. -/
  | element
  /-- The block of a call. -/
  | block
  /-- The parameters that are declared in a block. -/
  | parameters
  /-- A handler in the chain of a body. -/
  | handler
  /-- The statements of a clause, of which only the body is looked at. -/
  | clause
  /-- A splat in a pattern of a sequence, of which only the expression is looked at. -/
  | rest
  /-- The rest of a pattern of a hash, of which only the value is looked at. -/
  | keywordRest
  /-- Looked at for a name only. -/
  | name
  deriving DecidableEq, Repr

namespace Standing

def isDirect : Standing → Bool
  | .ordinary | .arguments | .element | .parameters => true
  | _ => false

/-- Where only some fields are looked at: which ones, and where their content stands. -/
def reads? : Standing → Option (List (Field × Standing))
  | .clause => some [(.body, .ordinary)]
  | .rest => some [(.expression, .name)]
  | .keywordRest => some [(.value, .name)]
  | .name => some []
  | _ => none

end Standing

def Kind.isList : Kind → Bool
  | .argumentsNode | .assocNode | .assocSplatNode => true
  | _ => false

namespace Standing

def admits (standing : Standing) (kind : Kind) : Bool :=
  match standing with
  | .ordinary => !kind.isList && kind != .blockNode && kind != .rescueNode
  | .arguments => kind == .argumentsNode
  | .element => kind == .assocNode || kind == .assocSplatNode
  | .block => !kind.isList && kind != .rescueNode
  | .parameters => kind == .parametersNode
  | .handler => kind == .rescueNode
  | .clause => kind == .statementsNode
  | .rest => kind == .splatNode
  | .keywordRest => kind == .assocSplatNode || kind == .noKeywordsParameterNode
  | .name => kind.constructs.isEmpty

/-- Whether the nodes of some content are meant to stand in a place. -/
def takes (standing : Standing) (tree : Tree) : Bool :=
  tree.ownNodes.all fun n => standing.admits n.kind

end Standing

/-- Whether a field is left to the node around: the parameters of a literal block are taken in
together with its call, and a chain of handlers by the body that it belongs to. -/
def Kind.withholds (kind : Kind) (own : Standing) (field : Field) : Bool :=
  kind == .blockNode && field == .parameters && own != .block ||
    kind == .rescueNode && field == .subsequent && own != .handler

namespace Node

def part (n : Node) (field : Field) : Tree := (n.get? field).getD .null

def isLiteralMatch (n : Node) : Bool :=
  (match n.part .name with
    | .text spelling => spelling == "=~"
    | _ => false) &&
  ((n.part .receiver).isA .stringNode || (n.part .receiver).isA .regularExpressionNode)

/-- Where the content of a field stands and whether that is among positional parameters, if the
conversion reaches it at all. -/
def slot (n : Node) (positional : Bool) (own : Standing) (field : Field) :
    Option (Standing × Bool) :=
  match own.reads? with
  | some fields => (fields.lookup field).map (·, positional)
  | none =>
    if n.kind.withholds own field then none
    else match field, n.kind with
    | .parameters, .defNode | .body, .defNode => some (.ordinary, false)
    | .requireds, .parametersNode | .rest, .parametersNode | .posts, .parametersNode =>
      some (.ordinary, true)
    | .parameters, .blockParametersNode => some (.parameters, positional)
    | .subsequent, .rescueNode | .rescueClause, _ => some (.handler, positional)
    | .statements, .whenNode | .statements, .inNode | .statements, .rescueNode =>
      some (.clause, positional)
    | .arguments, .argumentsNode | .elements, .arrayNode => some (.ordinary, positional)
    | .arguments, _ => some (.arguments, positional)
    | .elements, _ => some (.element, positional)
    | .block, .callNode => if n.isLiteralMatch then none else some (.block, positional)
    | .block, .superNode | .block, .forwardingSuperNode => some (.block, positional)
    | .block, .parametersNode | .locals, .blockParametersNode => some (.ordinary, positional)
    -- not looked at
    | .block, _ | .locals, _ | .targets, _ | .value, .implicitNode => none
    -- a rest that is no splat has no name
    | .rest, .arrayPatternNode | .left, .findPatternNode | .right, .findPatternNode =>
      if (n.part field).isA .splatNode then some (.rest, positional) else none
    | .rest, .hashPatternNode => some (.keywordRest, positional)
    | .newName, .aliasGlobalVariableNode | .oldName, .aliasGlobalVariableNode
    | .target, .capturePatternNode => some (.name, positional)
    | .expression, .splatNode => some (if positional then .name else .ordinary, positional)
    | field, kind => if kind.isPart field then some (.ordinary, positional) else none

lemma slot_of_isDirect {own : Standing} (h : own.isDirect = true) (n : Node) (positional : Bool)
    (field : Field) : n.slot positional own field = n.slot positional .ordinary field := by
  cases own with
  | ordinary | arguments | element | parameters => rfl
  | _ => cases h

lemma slot_block {n : Node} (h : n.kind ≠ .blockNode) (positional : Bool) (field : Field) :
    n.slot positional .block field = n.slot positional .ordinary field := by
  have hkind : ∀ own, n.kind.withholds own field =
      (n.kind == .rescueNode && field == .subsequent && own != .handler) := by
    intro own
    simp [Kind.withholds, h]
  unfold slot
  rw [hkind, hkind]
  rfl

end Node

namespace Tree

mutual

/-- The nodes at and below some content that the conversion reaches. -/
def visible (positional : Bool) (own : Standing) : Tree → List Node
  | .node kind location fields =>
    ⟨kind, location, fields⟩ :: visibleFields positional own ⟨kind, location, fields⟩ fields
  | .tuple items => visibleItems positional own items
  | _ => []

def visibleFields (positional : Bool) (own : Standing) (n : Node) :
    List (Field × Tree) → List Node
  | [] => []
  | (field, tree) :: rest =>
    (match n.slot positional own field with
      | some (standing, below) => visible below standing tree
      | none => []) ++ visibleFields positional own n rest

def visibleItems (positional : Bool) (own : Standing) : List Tree → List Node
  | [] => []
  | .node kind location fields :: rest =>
    ⟨kind, location, fields⟩ ::
      (visibleFields positional own ⟨kind, location, fields⟩ fields ++
        visibleItems positional own rest)
  | _ :: rest => visibleItems positional own rest

end

def lacks (c : Construct) (tree : Tree) : Bool := tree.nodes.all fun n => c.ofKind n.kind == 0

end Tree

/-- Whether the rule of a node makes use of all that it converts: a match with a literal has one
argument, and the number behind an imaginary literal is only a number. -/
def Node.usesParts (c : Construct) (n : Node) : Bool :=
  (n.kind != .imaginaryNode || (n.part .numeric).lacks c) &&
    (n.kind != .callNode || !n.isLiteralMatch ||
      match (n.part .arguments).get .arguments with
      | .ok (.tuple [_]) => true
      | _ => false)

namespace Tree

mutual

/-- Whether all that is below a tree stands where it is meant to, and nothing of a construct where
the conversion does not reach. -/
def placed (c : Construct) (positional : Bool) (own : Standing) : Tree → Bool
  | .node kind location fields =>
    Node.usesParts c ⟨kind, location, fields⟩ &&
      placedFields c positional own ⟨kind, location, fields⟩ fields
  | .tuple items => placedItems c positional own items
  | _ => true

def placedFields (c : Construct) (positional : Bool) (own : Standing) (n : Node) :
    List (Field × Tree) → Bool
  | [] => true
  | (field, tree) :: rest =>
    (match n.slot positional own field with
      | some (standing, below) => standing.takes tree && placed c below standing tree
      | none => tree.lacks c) && placedFields c positional own n rest

def placedItems (c : Construct) (positional : Bool) (own : Standing) : List Tree → Bool
  | [] => true
  | item :: rest => placed c positional own item && placedItems c positional own rest

end

variable {c : Construct} {positional below : Bool} {own standing : Standing}

lemma placed_of_mem_fields {n : Node} {field : Field} {tree : Tree} {fields : List (Field × Tree)}
    (h : placedFields c positional own n fields = true)
    (hslot : n.slot positional own field = some (standing, below))
    (htree : (field, tree) ∈ fields) :
    standing.takes tree = true ∧ tree.placed c below standing = true := by
  induction fields with
  | nil => cases htree
  | cons first rest ih =>
    rw [placedFields, Bool.and_eq_true] at h
    rcases List.mem_cons.mp htree with rfl | htree
    · have hfirst := h.1
      rwa [hslot, Bool.and_eq_true] at hfirst
    · exact ih h.2 htree

lemma placed_of_mem_items {items : List Tree} (h : placedItems c positional own items = true)
    {item : Tree} (hitem : item ∈ items) : item.placed c positional own = true := by
  induction items with
  | nil => cases hitem
  | cons first rest ih =>
    rw [placedItems, Bool.and_eq_true] at h
    rcases List.mem_cons.mp hitem with rfl | hitem
    · exact h.1
    · exact ih h.2 hitem

end Tree

/-! ### How much is reached -/

namespace Tree

/-- How many nodes of a construct the conversion reaches in some content. -/
def reached (c : Construct) (positional : Bool) (own : Standing) (tree : Tree) : Nat :=
  ((tree.visible positional own).map fun n => c.ofKind n.kind).sum

def reachedItems (c : Construct) (positional : Bool) (own : Standing) (items : List Tree) : Nat :=
  ((visibleItems positional own items).map fun n => c.ofKind n.kind).sum

end Tree

namespace Node

def share (c : Construct) (n : Node) (positional : Bool) (own : Standing) (field : Field) : Nat :=
  match n.slot positional own field with
  | some (standing, below) => (n.part field).reached c below standing
  | none => 0

def shares (c : Construct) (n : Node) (positional : Bool) (own : Standing) : List Field → Nat
  | [] => 0
  | field :: rest =>
    match n.slot positional own field with
    | some _ => n.share c positional own field + shares c n positional own rest
    | none => shares c n positional own rest

lemma share_of_slot {c : Construct} {n : Node} {positional below : Bool} {own standing : Standing}
    {field : Field} {tree : Tree} (h : n.slot positional own field = some (standing, below))
    (hget : n.get field = .ok tree) :
    n.share c positional own field = tree.reached c below standing := by
  rw [share, h, part, get?_of_get hget]
  rfl

lemma share_of_reads {c : Construct} {n : Node} {positional : Bool} {own : Standing}
    {fields : List (Field × Standing)} (h : own.reads? = some fields) {field : Field}
    (hfield : field ∉ fields.map Prod.fst) : n.share c positional own field = 0 := by
  have hslot : n.slot positional own field = none := by
    have hlookup : fields.lookup field = none := by
      rw [List.lookup_eq_none_iff]
      intro pair hpair
      exact bne_iff_ne.mpr fun heq => hfield (List.mem_map.mpr ⟨pair, hpair, heq.symm⟩)
    unfold slot
    rw [h]
    exact congrArg (Option.map _) hlookup
  rw [share, hslot]

lemma shares_eq_sum {c : Construct} {n : Node} {positional : Bool} {own : Standing}
    (fields : List Field) :
    n.shares c positional own fields = (fields.map (n.share c positional own)).sum := by
  induction fields with
  | nil => rfl
  | cons field rest ih =>
    rw [shares, List.map_cons, List.sum_cons, ih]
    split
    · rfl
    · next hslot => rw [share, hslot, Nat.zero_add]

lemma shares_eq_zero {c : Construct} {n : Node} {positional : Bool} {own : Standing}
    {reads : List (Field × Standing)} (h : own.reads? = some reads)
    (hreads : ∀ field ∈ reads.map Prod.fst, n.share c positional own field = 0)
    (fields : List Field) : n.shares c positional own fields = 0 := by
  rw [shares_eq_sum, List.sum_eq_zero_iff]
  intro k hk
  obtain ⟨field, -, rfl⟩ := List.mem_map.mp hk
  by_cases hfield : field ∈ reads.map Prod.fst
  · exact hreads field hfield
  · exact share_of_reads h hfield

end Node

namespace Tree

variable {c : Construct} {positional : Bool} {own : Standing}

lemma reachedItems_cons (item : Tree) (rest : List Tree) :
    reachedItems c positional own (item :: rest) =
      reachedItems c positional own [item] + reachedItems c positional own rest := by
  cases item <;> simp [reachedItems, visibleItems, Nat.add_assoc]

lemma reachedItems_node (n : Node) :
    reachedItems c positional own [ofNode n] = (ofNode n).reached c positional own := by
  simp [reachedItems, reached, ofNode, visibleItems, visible]

lemma reachedItems_leaf {item : Tree} (h : item.asNode? = none) :
    reachedItems c positional own [item] = 0 := by
  cases item with
  | node kind location fields => cases h
  | _ => rfl

lemma reached_of_elements {tree : Tree} {items : List Tree} (h : tree.elements = .ok items) :
    tree.reached c positional own = reachedItems c positional own items := by
  unfold elements at h
  split at h
  · cases h
    rfl
  · next text =>
    cases h
    induction text.toList with
    | nil => rfl
    | cons letter letters ih =>
      rw [List.map_cons, reachedItems_cons, reachedItems_leaf rfl, ← ih]
      rfl
  · cases h

lemma sum_visibleFields (n : Node) (fields : List (Field × Tree)) :
    ((visibleFields positional own n fields).map fun m => c.ofKind m.kind).sum =
      (fields.map fun (field, tree) =>
        match n.slot positional own field with
        | some (standing, below) => tree.reached c below standing
        | none => 0).sum := by
  induction fields with
  | nil => rfl
  | cons first rest ih =>
    obtain ⟨field, tree⟩ := first
    rw [visibleFields, List.map_append, List.sum_append, ih, List.map_cons, List.sum_cons]
    congr 1
    dsimp only
    rcases n.slot positional own field with _ | ⟨standing, below⟩
    · rfl
    · rfl

lemma reached_ofNode {n : Node} (h : (ofNode n).declared = true) :
    (ofNode n).reached c positional own =
      c.ofKind n.kind + n.shares c positional own (n.kind.slots.map Slot.field) := by
  have hfields := fields_of_declared h
  have hnodup : (n.fields.map Prod.fst).Nodup := by
    rw [hfields]
    exact n.kind.nodup_slots
  rw [reached, ofNode, visible, List.map_cons, List.sum_cons, sum_visibleFields,
    Node.shares_eq_sum, ← hfields, List.map_map]
  congr 2
  refine List.map_congr_left fun first hfirst => ?_
  obtain ⟨field, tree⟩ := first
  have hpart : n.part field = tree := by rw [Node.part, Node.get?_of_mem hnodup hfirst]; rfl
  rw [Function.comp_apply, Node.share, hpart]

/-- How many nodes of a construct there are in a tree. -/
def census (c : Construct) (tree : Tree) : Nat := (tree.nodes.map fun n => c.ofKind n.kind).sum

def censusItems (c : Construct) (items : List Tree) : Nat :=
  ((nodesOfItems items).map fun n => c.ofKind n.kind).sum

def censusFields (c : Construct) (fields : List (Field × Tree)) : Nat :=
  ((nodesOfFields fields).map fun n => c.ofKind n.kind).sum

lemma censusFields_cons (field : Field) (tree : Tree) (rest : List (Field × Tree)) :
    censusFields c ((field, tree) :: rest) = tree.census c + censusFields c rest := by
  simp [censusFields, census, nodesOfFields]

lemma census_eq_zero {tree : Tree} (h : tree.lacks c = true) : tree.census c = 0 := by
  rw [lacks, List.all_eq_true] at h
  rw [census, List.sum_eq_zero_iff]
  intro k hk
  obtain ⟨n, hn, rfl⟩ := List.mem_map.mp hk
  exact beq_iff_eq.mp (h n hn)

mutual

lemma reached_le_census (positional : Bool) (own : Standing) : ∀ tree : Tree,
    tree.reached c positional own ≤ tree.census c
  | .scalar _ | .span _ => le_rfl
  | .tuple items => reachedItems_le_census positional own items
  | .node kind location fields => by
    have hfields := reachedFields_le_census positional own ⟨kind, location, fields⟩ fields
    rw [reached, visible, census, nodes, List.map_cons, List.map_cons, List.sum_cons,
      List.sum_cons]
    exact Nat.add_le_add_left hfields _

lemma reachedFields_le_census (positional : Bool) (own : Standing) (n : Node) :
    ∀ fields : List (Field × Tree),
      ((visibleFields positional own n fields).map fun m => c.ofKind m.kind).sum ≤
        censusFields c fields
  | [] => le_rfl
  | (field, tree) :: rest => by
    have hrest := reachedFields_le_census positional own n rest
    rw [visibleFields, List.map_append, List.sum_append, censusFields_cons]
    refine Nat.add_le_add ?_ hrest
    rcases n.slot positional own field with _ | ⟨standing, below⟩
    · exact Nat.zero_le _
    · exact reached_le_census below standing tree

lemma reachedItems_le_census (positional : Bool) (own : Standing) : ∀ items : List Tree,
    reachedItems c positional own items ≤ censusItems c items
  | [] => le_rfl
  | .node kind location fields :: rest => by
    have hfields := reachedFields_le_census positional own ⟨kind, location, fields⟩ fields
    have hrest := reachedItems_le_census positional own rest
    simp only [reachedItems, censusItems, visibleItems, nodesOfItems, List.map_cons,
      List.map_append, List.sum_cons, List.sum_append, censusFields] at hfields hrest ⊢
    omega
  | .scalar _ :: rest | .span _ :: rest | .tuple _ :: rest =>
    reachedItems_le_census positional own rest

end

mutual

lemma reached_of_placed (positional : Bool) (own : Standing) : ∀ tree : Tree,
    tree.placed c positional own = true → tree.reached c positional own = tree.census c
  | .scalar _, _ | .span _, _ => rfl
  | .tuple items, h => reachedItems_of_placed positional own items h
  | .node kind location fields, h => by
    rw [placed, Bool.and_eq_true] at h
    have hfields := reachedFields_of_placed positional own ⟨kind, location, fields⟩ fields h.2
    rw [reached, visible, census, nodes, List.map_cons, List.map_cons, List.sum_cons,
      List.sum_cons]
    exact congrArg _ hfields

lemma reachedFields_of_placed (positional : Bool) (own : Standing) (n : Node) :
    ∀ fields : List (Field × Tree), placedFields c positional own n fields = true →
      ((visibleFields positional own n fields).map fun m => c.ofKind m.kind).sum =
        censusFields c fields
  | [], _ => rfl
  | (field, tree) :: rest, h => by
    rw [placedFields, Bool.and_eq_true] at h
    have hrest := reachedFields_of_placed positional own n rest h.2
    have hfirst := h.1
    rw [visibleFields, List.map_append, List.sum_append, censusFields_cons, hrest]
    congr 1
    rcases hslot : n.slot positional own field with _ | ⟨standing, below⟩
    · rw [hslot] at hfirst
      exact (census_eq_zero hfirst).symm
    · rw [hslot, Bool.and_eq_true] at hfirst
      exact reached_of_placed below standing tree hfirst.2

lemma reachedItems_of_placed (positional : Bool) (own : Standing) : ∀ items : List Tree,
    placedItems c positional own items = true →
      reachedItems c positional own items = censusItems c items
  | [], _ => rfl
  | .node kind location fields :: rest, h => by
    rw [placedItems, placed, Bool.and_eq_true, Bool.and_eq_true] at h
    have hfields := reachedFields_of_placed positional own ⟨kind, location, fields⟩ fields h.1.2
    have hrest := reachedItems_of_placed positional own rest h.2
    simp only [reachedItems, censusItems, visibleItems, nodesOfItems, List.map_cons,
      List.map_append, List.sum_cons, List.sum_append, censusFields] at hfields hrest ⊢
    omega
  | .scalar _ :: rest, h | .span _ :: rest, h | .tuple _ :: rest, h => by
    rw [placedItems, Bool.and_eq_true] at h
    exact reachedItems_of_placed positional own rest h.2

end

lemma reached_of_lacks {tree : Tree} (h : tree.lacks c = true) (positional : Bool)
    (own : Standing) : tree.reached c positional own = 0 := by
  have := reached_le_census (c := c) positional own tree
  rw [census_eq_zero h] at this
  omega

lemma reached_congr {own' : Standing} {n : Node}
    (h : ∀ field, n.slot positional own field = n.slot positional own' field) :
    (ofNode n).reached c positional own = (ofNode n).reached c positional own' := by
  have hslots : ∀ fields : List (Field × Tree),
      visibleFields positional own n fields = visibleFields positional own' n fields := by
    intro fields
    induction fields with
    | nil => rfl
    | cons first rest ih =>
      obtain ⟨field, tree⟩ := first
      rw [visibleFields, visibleFields, h, ih]
  rw [reached, reached, ofNode, visible, visible, hslots]

end Tree

end RubySexp
