import Mathlib.Tactic
import RubySexp.Convert
import RubySexp.Node.Walk
import RubySexp.Proofs.Node.Schema

/-!
# What Is Below a Node

The trees in the fields of a node are less high than the node and have no other nodes, and the items
of a sequence are no higher than it. What is tested at every node of a tree is tested there too. The
rules look at what they find there step by step, so a rule that ends with a result has had one at
each step.
-/

namespace RubySexp

lemma Node.get?_of_get {n : Node} {field : Field} {tree : Tree} (h : n.get field = .ok tree) :
    n.get? field = some tree := by
  unfold Node.get at h
  split at h
  · next hfound =>
    cases h
    exact hfound
  · cases h

lemma Node.mem_of_get {n : Node} {field : Field} {tree : Tree} (h : n.get field = .ok tree) :
    (field, tree) ∈ n.fields := by
  obtain ⟨⟨found, _⟩, hfind, rfl⟩ := Option.map_eq_some_iff.mp (get?_of_get h)
  obtain rfl : found = field := by simpa using List.find?_some hfind
  exact List.mem_of_find?_eq_some hfind

/-! ### Heights and nodes -/

namespace Tree

variable {tree part : Tree} {field : Field} {items : List Tree}

lemma eq_ofNode {n : Node} (h : tree.asNode? = some n) : tree = .ofNode n := by
  cases tree <;> cases h
  rfl

@[simp] lemma asNode?_ofNode (n : Node) : (ofNode n).asNode? = some n := rfl

lemma height_le_of_mem_items (h : part ∈ items) : part.height ≤ heightItems items := by
  induction items with
  | nil => cases h
  | cons first rest ih =>
    rw [heightItems]
    rcases List.mem_cons.mp h with rfl | h
    · exact le_max_left _ _
    · exact le_max_of_le_right (ih h)

lemma height_le_of_mem_fields {fields : List (Field × Tree)} (h : (field, part) ∈ fields) :
    part.height ≤ heightFields fields := by
  induction fields with
  | nil => cases h
  | cons first rest ih =>
    rw [heightFields]
    rcases List.mem_cons.mp h with rfl | h
    · exact le_max_left _ _
    · exact le_max_of_le_right (ih h)

lemma height_lt_of_node_get {n : Node} (h : n.get field = .ok part) :
    part.height < (ofNode n).height :=
  Nat.lt_succ_of_le (height_le_of_mem_fields (Node.mem_of_get h))

lemma height_lt_of_get (h : tree.get field = .ok part) : part.height < tree.height := by
  unfold get at h
  cases tree with
  | node kind location fields => exact height_lt_of_node_get h
  | _ => cases h

lemma height_le_of_elements (h : tree.elements = .ok items) (hpart : part ∈ items) :
    part.height ≤ tree.height := by
  unfold elements at h
  split at h
  · cases h
    exact height_le_of_mem_items hpart
  · cases h
    obtain ⟨c, -, rfl⟩ := List.mem_map.mp hpart
    simp [height]
  · cases h

lemma nodes_subset_of_mem_fields {fields : List (Field × Tree)} (h : (field, part) ∈ fields) :
    part.nodes ⊆ nodesOfFields fields := by
  induction fields with
  | nil => cases h
  | cons first rest ih =>
    rw [nodesOfFields]
    rcases List.mem_cons.mp h with rfl | h
    · exact List.subset_append_left _ _
    · exact List.Subset.trans (ih h) (List.subset_append_right _ _)

lemma nodes_subset_of_mem_items {items : List Tree} {m : Node} (h : ofNode m ∈ items) :
    (ofNode m).nodes ⊆ nodesOfItems items := by
  induction items with
  | nil => cases h
  | cons first rest ih =>
    rcases List.mem_cons.mp h with rfl | h
    · simp only [ofNode, nodes, nodesOfItems]
      exact List.cons_subset_cons _ (List.subset_append_left _ _)
    · refine List.Subset.trans (ih h) ?_
      cases first with
      | node kind location fields =>
        simp only [nodesOfItems]
        exact List.Subset.trans (List.subset_append_right _ _) (List.subset_cons_self _ _)
      | _ => simp [nodesOfItems]

lemma nodes_subset_of_node_get {n : Node} (h : n.get field = .ok part) :
    part.nodes ⊆ (ofNode n).nodes := by
  refine List.Subset.trans (nodes_subset_of_mem_fields (Node.mem_of_get h)) ?_
  simp [ofNode, nodes]

variable {test : Node → Bool}

lemma everyNode_of_get (h : tree.everyNode test = true) (hget : tree.get field = .ok part) :
    part.everyNode test = true := by
  cases tree with
  | node kind location fields =>
    rw [everyNode, Bool.and_eq_true] at h
    exact everyNode_of_mem_fields h.2 (Node.mem_of_get (n := ⟨kind, location, fields⟩) hget)
  | _ => cases hget

lemma everyNode_of_elements (h : tree.everyNode test = true)
    (hitems : tree.elements = .ok items) (hpart : part ∈ items) : part.everyNode test = true := by
  unfold elements at hitems
  split at hitems
  · cases hitems
    exact everyNode_of_mem_items h hpart
  · cases hitems
    obtain ⟨c, -, rfl⟩ := List.mem_map.mp hpart
    rfl
  · cases hitems

end Tree

/-! ### Computations -/

section Computations

variable {ε α β : Type}

lemma exists_ok_of_bind {x : Except ε α} {f : α → Except ε β} {b : β} (h : (x >>= f) = .ok b) :
    ∃ a, x = .ok a ∧ f a = .ok b := by
  cases x with
  | error e => cases h
  | ok a => exact ⟨a, rfl, h⟩

lemma exists_of_mem_mapM {f : α → Except ε β} {items : List α} {results : List β} {b : β}
    (h : items.mapM f = .ok results) (hb : b ∈ results) : ∃ a ∈ items, f a = .ok b := by
  induction items generalizing results with
  | nil =>
    cases h
    cases hb
  | cons first rest ih =>
    rw [List.mapM_cons] at h
    obtain ⟨next, hnext, h⟩ := exists_ok_of_bind h
    obtain ⟨others, hothers, h⟩ := exists_ok_of_bind h
    cases h
    rcases List.mem_cons.mp hb with rfl | hb
    · exact ⟨first, by simp, hnext⟩
    · obtain ⟨a, ha, hfa⟩ := ih hothers hb
      exact ⟨a, by simp [ha], hfa⟩

lemma mapM_eq_ok_iff {f : α → Except ε β} {items : List α} {results : List β} :
    items.mapM f = .ok results ↔ List.Forall₂ (fun a b => f a = .ok b) items results := by
  induction items generalizing results with
  | nil => cases results <;> simp [pure, Except.pure]
  | cons first rest ih =>
    rw [List.mapM_cons]
    constructor
    · intro h
      obtain ⟨next, hnext, h⟩ := exists_ok_of_bind h
      obtain ⟨others, hothers, h⟩ := exists_ok_of_bind h
      cases h
      exact .cons hnext (ih.mp hothers)
    · rintro (_ | ⟨hnext, hothers⟩)
      rw [hnext, ih.mpr hothers]
      rfl

lemma mapM_congr_mem {f g : α → Except ε β} {items : List α} (h : ∀ a ∈ items, f a = g a) :
    items.mapM f = items.mapM g := by
  induction items with
  | nil => rfl
  | cons first rest ih =>
    rw [List.mapM_cons, List.mapM_cons, h first (by simp), ih fun a ha => h a (by simp [ha])]

end Computations

namespace Convert

lemma eq_sexp_of_build {place : Option Location} {tag : Tag} {kids : List Value} {v : Value}
    (h : build place tag kids = .ok v) :
    ∃ l : Location, v = .sexp tag kids l.startLine l.endLine := by
  unfold build at h
  split at h
  · next l =>
    cases h
    exact ⟨l, rfl⟩
  · cases h

variable {tree : Tree}

/-! ### Handlers -/

lemma next_eq_handlers {fields : List (Field × Tree)} {field : Field}
    (h : fields.find? (·.1 == .subsequent) = some (field, tree)) :
    handlers.next fields = handlers tree := by
  induction fields with
  | nil => cases h
  | cons first rest ih =>
    rw [List.find?_cons] at h
    rw [handlers.next]
    split at h
    · next hfirst =>
      cases h
      rw [if_pos hfirst]
    · next hfirst => rw [if_neg (by simpa using hfirst), ih h]

lemma handlers_ofNode {m : Node} (h : m.get .subsequent = .ok tree) :
    handlers (.ofNode m) = .ofNode m :: handlers tree := by
  obtain ⟨⟨_, _⟩, hfind, rfl⟩ := Option.map_eq_some_iff.mp (Node.get?_of_get h)
  rw [Tree.ofNode, handlers, next_eq_handlers hfind]

lemma handlers_of_last {m : Node} {fault : Fault} (h : m.get .subsequent = .error fault) :
    handlers (.ofNode m) = [.ofNode m] := by
  have hnone : m.fields.find? (·.1 == .subsequent) = none := by
    unfold Node.get at h
    split at h
    · cases h
    · next hnone => exact Option.map_eq_none_iff.mp hnone
  have hnext : ∀ fields : List (Field × Tree), fields.find? (·.1 == .subsequent) = none →
      handlers.next fields = [] := by
    intro fields hfields
    induction fields with
    | nil => rfl
    | cons first rest ih =>
      rw [List.find?_cons] at hfields
      rw [handlers.next]
      split at hfields
      · cases hfields
      · next hfirst => rw [if_neg (by simpa using hfirst), ih hfields]
  rw [Tree.ofNode, handlers, hnext _ hnone]

lemma handlers_of_leaf (h : tree.asNode? = none) :
    handlers tree = if tree.isNull then [] else [tree] := by
  rcases tree with s | items | l | ⟨kind, location, fields⟩
  · cases s <;> rfl
  · rfl
  · rfl
  · cases h

/-- Induction along a chain of handlers. -/
lemma handlers_induction {motive : Tree → Prop}
    (leaf : ∀ tree : Tree, tree.asNode? = none → motive tree)
    (last : ∀ (m : Node) (fault : Fault), m.get .subsequent = .error fault → motive (.ofNode m))
    (next : ∀ (m : Node) (following : Tree), m.get .subsequent = .ok following →
      motive following → motive (.ofNode m))
    (tree : Tree) : motive tree := by
  induction hheight : tree.height using Nat.strong_induction_on generalizing tree with
  | _ height ih =>
    rcases hnode : tree.asNode? with _ | m
    · exact leaf tree hnode
    obtain rfl := Tree.eq_ofNode hnode
    rcases hget : m.get .subsequent with fault | following
    · exact last m fault hget
    · have hlower := Tree.height_lt_of_node_get hget
      exact next m following hget (ih following.height (hheight ▸ hlower) following rfl)

lemma convertAt_leaf {tree : Tree} (h : tree.asNode? = none) (k : Nat) (scope : Scope) :
    convertAt k scope tree = leaf tree := by
  cases tree with
  | node kind location fields => cases h
  | _ => simp [convertAt]

end Convert

lemma Tree.ofNode_injective {n n' : Node} (h : Tree.ofNode n = .ofNode n') : n = n' :=
  Option.some.inj (congrArg Tree.asNode? h)

lemma Tree.exists_of_isA {tree : Tree} {kind : Kind} (h : tree.isA kind = true) :
    ∃ location fields, tree = .ofNode ⟨kind, location, fields⟩ := by
  cases tree with
  | node kind location fields =>
    obtain rfl := beq_iff_eq.mp h
    exact ⟨location, fields, rfl⟩
  | _ => cases h

end RubySexp
