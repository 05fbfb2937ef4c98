import RubySexp.Proofs.Convert.Census.Walk

/-!
# The Setting of a Rule

A rule keeps the count of a construct if the conversions of the trees below its node do. What a rule
relies on is collected here, together with what follows for the ways in which rules take in the
content of a field.
-/

namespace RubySexp

variable {c : Construct} {positional below : Bool} {own standing : Standing} {field : Field}

/-- A node that has its fields, and whose parts stand where they are meant to. For a construct that
no expression stands for, it does not matter where they stand. -/
structure Node.Orderly (c : Construct) (positional : Bool) (own : Standing) (n : Node) :
    Prop where
  declared : (Tree.ofNode n).declared = true
  placed : c.isSilent = true ∨ (Tree.ofNode n).placed c positional own = true

structure Tree.Orderly (c : Construct) (positional : Bool) (own : Standing) (tree : Tree) :
    Prop where
  declared : tree.declared = true
  placed : c.isSilent = true ∨ own.takes tree = true ∧ tree.placed c positional own = true

namespace Tree.Orderly

lemma node {n : Node} (h : (ofNode n).Orderly c positional own) : n.Orderly c positional own :=
  ⟨h.declared, h.placed.imp_right And.right⟩

lemma admits {n : Node} (h : (ofNode n).Orderly c positional own) :
    c.isSilent = true ∨ own.admits n.kind = true := by
  refine h.placed.imp_right fun ⟨htakes, _⟩ => ?_
  simpa [Standing.takes, ofNode, ownNodes] using htakes

lemma item {tree : Tree} {items : List Tree} (h : tree.Orderly c positional own)
    (hitems : tree.elements = .ok items) {n : Node} (hn : ofNode n ∈ items) :
    (ofNode n).Orderly c positional own := by
  refine ⟨everyNode_of_elements h.declared hitems hn, h.placed.imp_right fun hplaced => ?_⟩
  obtain ⟨htakes, hall⟩ := hplaced
  unfold Tree.elements at hitems
  split at hitems
  · cases hitems
    rw [Standing.takes, List.all_eq_true] at htakes
    have hmem : n ∈ (Tree.tuple items).ownNodes := List.mem_filterMap.mpr ⟨_, hn, rfl⟩
    refine ⟨?_, placed_of_mem_items hall hn⟩
    simpa [Standing.takes, ofNode, ownNodes] using htakes n hmem
  · cases hitems
    obtain ⟨letter, -, hletter⟩ := List.mem_map.mp hn
    cases hletter
  · cases hitems

end Tree.Orderly

namespace Node.Orderly

variable {n : Node} {tree : Tree}

lemma part (h : n.Orderly c positional own)
    (hslot : n.slot positional own field = some (standing, below))
    (hget : n.get field = .ok tree) : tree.Orderly c below standing := by
  have hdeclared : tree.declared = true := Tree.everyNode_of_get h.declared hget
  refine ⟨hdeclared, h.placed.imp_right fun hplaced => ?_⟩
  rw [Tree.ofNode, Tree.placed, Bool.and_eq_true] at hplaced
  exact Tree.placed_of_mem_fields hplaced.2 hslot (mem_of_get hget)

lemma usesParts (h : n.Orderly c positional own) :
    c.isSilent = true ∨ n.usesParts c = true := by
  refine h.placed.imp_right fun hplaced => ?_
  rw [Tree.ofNode, Tree.placed, Bool.and_eq_true] at hplaced
  exact hplaced.1

lemma congr {own' : Standing} (h : n.Orderly c positional own)
    (hown : ∀ field, n.slot positional own field = n.slot positional own' field) :
    n.Orderly c positional own' := by
  refine ⟨h.declared, h.placed.imp_right fun hplaced => ?_⟩
  have hslots : ∀ fields : List (Field × Tree), Tree.placedFields c positional own n fields =
      Tree.placedFields c positional own' n fields := by
    intro fields
    induction fields with
    | nil => rfl
    | cons first rest ih =>
      obtain ⟨field, tree⟩ := first
      rw [Tree.placedFields, Tree.placedFields, hown, ih]
  rw [Tree.ofNode, Tree.placed] at hplaced ⊢
  rwa [← hslots]

end Node.Orderly

namespace Convert.Census

open Value (Kept KeptAll Yielded)

/-- What the rule of a node can rely on: the node is orderly, and the conversions of the nodes below
keep the count of a construct. -/
structure Setting (c : Construct) (conv : Conversion) (s : Scope) (own : Standing) (n : Node) :
    Prop where
  orderly : n.Orderly c s.inParameters own
  leaf : ∀ {s tree v}, tree.asNode? = none → conv s tree = .ok v → tree = .null ∧ v = .nil
  node : ∀ s m, conv s (.ofNode m) = rule conv s m
  below : ∀ {s m v}, (Tree.ofNode m).height < (Tree.ofNode n).height →
    m.Orderly c s.inParameters .ordinary → conv s (.ofNode m) = .ok v →
    Yielded c m.kind.isList v ((Tree.ofNode m).reached c s.inParameters .ordinary)

variable {conv : Conversion} {s t : Scope} {n m : Node} {tree : Tree} {v : Value}
  {vs : List Value}

lemma Setting.down {own' : Standing} (h : Setting c conv s own n)
    (hheight : (Tree.ofNode m).height < (Tree.ofNode n).height)
    (hm : m.Orderly c t.inParameters own') : Setting c conv t own' m :=
  ⟨hm, h.leaf, h.node, fun hbelow => h.below (hbelow.trans hheight)⟩

lemma Setting.yielded {own' : Standing} (h : Setting c conv s own n)
    (hslot : ∀ field, m.slot t.inParameters own' field = m.slot t.inParameters .ordinary field)
    (hheight : (Tree.ofNode m).height < (Tree.ofNode n).height)
    (hm : m.Orderly c t.inParameters own') (hv : conv t (.ofNode m) = .ok v) :
    Yielded c m.kind.isList v ((Tree.ofNode m).reached c t.inParameters own') := by
  rw [Tree.reached_congr hslot]
  exact h.below hheight (hm.congr hslot) hv

lemma Setting.kept (h : Setting c conv s own n) (hstanding : standing.isDirect = true)
    (hone : ∀ kind, standing.admits kind = true → kind.isList = false)
    (hheight : tree.height < (Tree.ofNode n).height)
    (ht : tree.Orderly c t.inParameters standing) (hv : conv t tree = .ok v) :
    Kept c v (tree.reached c t.inParameters standing) := by
  rcases hnode : tree.asNode? with _ | m
  · obtain ⟨rfl, rfl⟩ := h.leaf hnode hv
    exact .scalar .null
  · obtain rfl := Tree.eq_ofNode hnode
    have hslot := Node.slot_of_isDirect hstanding m t.inParameters
    exact (h.yielded hslot hheight ht.node hv).kept (ht.admits.imp_right (hone _))

lemma isList_of_admits {kind : Kind} (h : Standing.ordinary.admits kind = true) :
    kind.isList = false := by
  simp only [Standing.admits, Bool.and_eq_true, Bool.not_eq_true'] at h
  exact h.1.1

lemma Setting.kept_ordinary (h : Setting c conv s own n)
    (hheight : tree.height < (Tree.ofNode n).height)
    (ht : tree.Orderly c t.inParameters .ordinary) (hv : conv t tree = .ok v) :
    Kept c v (tree.reached c t.inParameters .ordinary) :=
  h.kept rfl (fun _ => isList_of_admits) hheight ht hv

lemma Setting.kept_items (h : Setting c conv s own n) (hstanding : standing.isDirect = true)
    (hlist : ∀ kind, standing.admits kind = true → kind.isList = true)
    (hheight : tree.height < (Tree.ofNode n).height)
    (ht : tree.Orderly c t.inParameters standing) (hv : conv t tree = .ok v)
    (hvs : v.items = .ok vs) : KeptAll c vs (tree.reached c t.inParameters standing) := by
  rcases hnode : tree.asNode? with _ | m
  · obtain ⟨rfl, rfl⟩ := h.leaf hnode hv
    cases hvs
  · obtain rfl := Tree.eq_ofNode hnode
    have hslot := Node.slot_of_isDirect hstanding m t.inParameters
    exact (h.yielded hslot hheight ht.node hv).items (ht.admits.imp_right (hlist _)) hvs

lemma Setting.kept_item (h : Setting c conv s own n)
    (hheight : tree.height < (Tree.ofNode n).height)
    (ht : tree.Orderly c t.inParameters .ordinary) {items : List Tree}
    (hitems : tree.elements = .ok items) {item : Tree} (hmem : item ∈ items)
    (hv : conv t item = .ok v) :
    Kept c v (Tree.reachedItems c t.inParameters .ordinary [item]) := by
  rcases hnode : item.asNode? with _ | m
  · obtain ⟨rfl, rfl⟩ := h.leaf hnode hv
    exact .scalar .null
  · obtain rfl := Tree.eq_ofNode hnode
    have hbelow := (Tree.height_le_of_elements hitems hmem).trans_lt hheight
    rw [Tree.reachedItems_node]
    exact h.kept_ordinary hbelow (ht.item hitems hmem) hv

lemma keptAll_of_mapM {α : Type} {f : Tree → Except Fault α} {g : α → List Value} {results : List α}
    {items : List Tree}
    (hitem : ∀ item a, item ∈ items → f item = .ok a →
      KeptAll c (g a) (Tree.reachedItems c positional own [item]))
    (h : items.mapM f = .ok results) :
    KeptAll c (results.flatMap g) (Tree.reachedItems c positional own items) := by
  induction items generalizing results with
  | nil =>
    cases h
    exact .nil
  | cons item rest ih =>
    rw [List.mapM_cons] at h
    obtain ⟨a, ha, h⟩ := exists_ok_of_bind h
    obtain ⟨others, hothers, h⟩ := exists_ok_of_bind h
    cases h
    rw [List.flatMap_cons, Tree.reachedItems_cons]
    exact (hitem item a (by simp) ha).append (ih (fun i a hi => hitem i a (by simp [hi])) hothers)

lemma Setting.keptAll (h : Setting c conv s own n) (hheight : tree.height < (Tree.ofNode n).height)
    (ht : tree.Orderly c t.inParameters .ordinary) (hvs : convertAll conv t tree = .ok vs) :
    KeptAll c vs (tree.reached c t.inParameters .ordinary) := by
  obtain ⟨items, hitems, hvs⟩ := exists_ok_of_bind hvs
  rw [← List.flatMap_singleton' vs, Tree.reached_of_elements hitems]
  refine keptAll_of_mapM (fun item v hmem hv => ?_) hvs
  exact .single (h.kept_item hheight ht hitems hmem hv)

/-! ### Fields -/

/-- The count in a field of the node. -/
abbrev share (c : Construct) (s : Scope) (own : Standing) (n : Node) (field : Field) : Nat :=
  n.share c s.inParameters own field

abbrev Stands (s : Scope) (own : Standing) (n : Node) (field : Field) (standing : Standing) :
    Prop :=
  n.slot s.inParameters own field = some (standing, s.inParameters)

abbrev Plain (s : Scope) (own : Standing) (n : Node) (field : Field) : Prop :=
  Stands s own n field .ordinary

lemma reached_of_isNull (h : tree.isNull = true) : tree.reached c positional own = 0 := by
  cases tree with
  | scalar s => rfl
  | _ => cases h

lemma share_of_isNull (hget : n.get field = .ok tree) (hnull : tree.isNull = true) :
    share c s own n field = 0 := by
  rcases hslot : n.slot s.inParameters own field with _ | ⟨standing, below⟩
  · rw [share, Node.share, hslot]
  · rw [share, Node.share_of_slot hslot hget, reached_of_isNull hnull]

lemma share_of_missing {fault : Fault} (hget : n.get field = .error fault) :
    share c s own n field = 0 := by
  have hpart : n.part field = .null := by
    unfold Node.get at hget
    rw [Node.part]
    split at hget
    · cases hget
    · next hnone => rw [hnone, Option.getD_none]
  rw [share, Node.share, hpart]
  split
  · rfl
  · rfl

namespace Setting

variable (h : Setting c conv s own n)

include h

lemma get (hslot : n.slot s.inParameters own field = some (standing, below))
    (hget : n.get field = .ok tree) :
    tree.height < (Tree.ofNode n).height ∧ tree.Orderly c below standing ∧
      tree.reached c below standing = share c s own n field :=
  ⟨Tree.height_lt_of_node_get hget, h.orderly.part hslot hget,
    (Node.share_of_slot hslot hget).symm⟩

lemma part (hslot : n.slot s.inParameters own field = some (.ordinary, t.inParameters))
    (hget : n.get field = .ok tree) (hv : conv t tree = .ok v) :
    Kept c v (share c s own n field) := by
  obtain ⟨hheight, ht, hshare⟩ := h.get hslot hget
  exact (h.kept_ordinary hheight ht hv).cast hshare

lemma convertField (hplain : Plain s own n field) (hv : convertField conv s n field = .ok v) :
    Kept c v (share c s own n field) := by
  obtain ⟨tree, hget, hv⟩ := exists_ok_of_bind hv
  exact h.part hplain hget hv

lemma partItems (hslot : n.slot s.inParameters own field = some (.ordinary, t.inParameters))
    (hvs : convertItems conv t n field = .ok vs) : KeptAll c vs (share c s own n field) := by
  obtain ⟨tree, hget, hvs⟩ := exists_ok_of_bind hvs
  obtain ⟨hheight, ht, hshare⟩ := h.get hslot hget
  exact (h.keptAll hheight ht hvs).cast hshare

lemma convertItems (hplain : Plain s own n field) (hvs : convertItems conv s n field = .ok vs) :
    KeptAll c vs (share c s own n field) :=
  h.partItems hplain hvs

lemma partIfPresent
    (hslot : n.slot s.inParameters own field = some (.ordinary, t.inParameters))
    (hget : n.get field = .ok tree) (hvs : convertIfPresent conv t tree = .ok vs) :
    KeptAll c vs (share c s own n field) := by
  unfold convertIfPresent at hvs
  split at hvs
  · next hnull =>
    cases hvs
    rw [share_of_isNull hget hnull]
    exact .nil
  · obtain ⟨v, hv, hvs⟩ := exists_ok_of_bind hvs
    cases hvs
    exact .single (h.part hslot hget hv)

lemma partOptional
    (hslot : n.slot s.inParameters own field = some (.ordinary, t.inParameters))
    (hvs : convertOptional conv t n field = .ok vs) : KeptAll c vs (share c s own n field) := by
  obtain ⟨tree, hget, hvs⟩ := exists_ok_of_bind hvs
  exact h.partIfPresent hslot hget hvs

lemma convertOptional (hplain : Plain s own n field)
    (hvs : convertOptional conv s n field = .ok vs) : KeptAll c vs (share c s own n field) :=
  h.partOptional hplain hvs

lemma arguments
    (hslot : Stands s own n field .arguments)
    (hget : n.get field = .ok tree) (hvs : arguments conv s tree = .ok vs) :
    KeptAll c vs (share c s own n field) := by
  unfold Convert.arguments at hvs
  split at hvs
  · next hnull =>
    cases hvs
    rw [share_of_isNull hget hnull]
    exact .nil
  · obtain ⟨v, hv, hvs⟩ := exists_ok_of_bind hvs
    obtain ⟨hheight, ht, hshare⟩ := h.get hslot hget
    rw [← hshare]
    refine h.kept_items rfl (fun kind hkind => ?_) hheight ht hv hvs
    rw [beq_iff_eq.mp hkind]
    rfl

lemma pairs (hslot : Stands s own n field .element)
    (hvs : pairs conv s n field = .ok vs) : KeptAll c vs (share c s own n field) := by
  obtain ⟨tree, hget, hvs⟩ := exists_ok_of_bind hvs
  obtain ⟨items, hitems, hvs⟩ := exists_ok_of_bind hvs
  obtain ⟨lists, hlists, hvs⟩ := exists_ok_of_bind hvs
  cases hvs
  obtain ⟨hheight, ht, hshare⟩ := h.get hslot hget
  rw [← hshare, ← List.flatMap_id, Tree.reached_of_elements hitems]
  refine keptAll_of_mapM (fun item ws hmem hlist => ?_) hlists
  obtain ⟨v, hv, hws⟩ := exists_ok_of_bind hlist
  rcases hnode : item.asNode? with _ | m
  · obtain ⟨-, rfl⟩ := h.leaf hnode hv
    cases hws
  · obtain rfl := Tree.eq_ofNode hnode
    have hbelow := (Tree.height_le_of_elements hitems hmem).trans_lt hheight
    rw [Tree.reachedItems_node]
    refine h.kept_items rfl (fun kind hkind => ?_) hbelow (ht.item hitems hmem) hv hws
    rcases Bool.or_eq_true _ _ ▸ hkind with hkind | hkind
    all_goals
      rw [beq_iff_eq.mp hkind]
      rfl

end Setting

end Convert.Census

end RubySexp
