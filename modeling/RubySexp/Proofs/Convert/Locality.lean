import RubySexp.Proofs.Convert.Parallel.Rule

/-!
# Conversion Is Local

The rule of a node depends only on the conversion of the trees below it, so how high a tree a
conversion can reach does not matter as long as it reaches the one at hand. This is the case of two
conversions side by side that go over one and the same tree.
-/

namespace RubySexp

namespace Convert

lemma Parallel.diagonal {φ : View} {Q : Tree → Prop} {conv conv' : Conversion}
    (held : ∀ {tree field part}, Q tree → tree.get field = .ok part → part.Held Q)
    (place : ∀ {tree l}, Q tree → tree.location? = some l → φ.place l)
    (conv_like : ∀ {scope tree}, Q tree → φ.Like (conv scope tree) (conv' scope tree)) :
    Parallel φ (fun _ tree => tree) Eq Q conv conv' where
  toRecast := .id
  inParameters := by
    rintro s _ rfl
    rfl
  below := by
    rintro s _ rfl kind field
    rfl
  held := held
  clause _ _ _ _ _ _ _ := rfl
  place := place
  conv := by
    rintro s _ tree rfl htree
    exact conv_like htree

lemma sourceFile_self {φ : View} {n : Node} (hplace : ∀ l, n.location = some l → φ.place l)
    (scope : Scope) : φ.Like (sourceFile scope n) (sourceFile scope n) := by
  refine .bind_same fun recorded _ => View.build hplace rfl (.cons ?_ .nil)
  have hrecorded : (if recorded.truthy then recorded.toValue
      else .text "(string)").ComesFrom φ.place := by
    split <;> simp
  rcases scope.filepath with _ | path
  · simpa using hrecorded
  · dsimp only
    split
    · simpa using hrecorded
    · simp

theorem rule_makes_diagonal {φ : View} {Q : Tree → Prop} {conv conv' : Conversion} {n : Node}
    (h : Parallel φ (fun _ tree => tree) Eq Q conv conv')
    (hheld : ∀ {field tree}, n.get field = .ok tree → tree.Held Q)
    (hplace : ∀ l, n.location = some l → φ.place l) (scope : Scope) :
    Makes φ conv scope n (rule conv scope n) (rule conv' scope n) := by
  obtain ⟨n', hrecast, hkind, hlocation, hdata, hpart⟩ := Recast.id.node scope n
  obtain rfl := Tree.ofNode_injective hrecast
  have hn : Beside φ (fun _ tree => tree) Q scope n n :=
    ⟨hkind, hlocation, hdata _, hpart, hheld, hplace⟩
  exact h.rule_makes rfl hn rfl (fun _ _ _ _ _ _ => rfl) (fun _ => rfl)
    fun _ => sourceFile_self hplace scope

/-- **Every result of a rule** has one of the forms that a rule can make. -/
theorem built_of_rule {conv : Conversion} {scope : Scope} {n : Node} {v : Value}
    (h : rule conv scope n = .ok v) : Built conv scope n v := by
  have hself : Parallel Blur.exact.everywhere (fun _ tree => tree) Eq (fun _ => True) conv conv :=
    .diagonal (fun _ _ => ⟨trivial, fun _ _ => trivial⟩) (fun _ _ => trivial)
      fun _ => Blur.like_everywhere.mpr (.of_eq rfl fun _ _ => rfl)
  have hmakes := rule_makes_diagonal (n := n) hself (fun _ => ⟨trivial, fun _ _ => trivial⟩)
    (fun _ _ => trivial) scope
  rw [h] at hmakes
  obtain ⟨-, hbuilt⟩ | _ | _ := hmakes
  exact hbuilt

section Height

variable {k : Nat} {n : Node}

lemma held_of_height {tree : Tree} (h : tree.height ≤ k) : tree.Held (·.height ≤ k) :=
  ⟨h, fun hitems hitem => (Tree.height_le_of_elements hitems hitem).trans h⟩

theorem rule_congr {conv conv' : Conversion}
    (h : ∀ scope tree, tree.height ≤ k → conv scope tree = conv' scope tree)
    (hn : (Tree.ofNode n).height ≤ k + 1) (scope : Scope) :
    rule conv scope n = rule conv' scope n := by
  have hagree : Parallel Blur.exact.everywhere (fun _ tree => tree) Eq (·.height ≤ k)
      conv conv' := by
    refine .diagonal ?_ (fun _ _ => trivial) ?_
    · exact fun htree hget => held_of_height ((Tree.height_lt_of_get hget).le.trans htree)
    · exact fun htree => Blur.like_everywhere.mpr (.of_eq (h _ _ htree) fun _ _ => rfl)
  have hheld : ∀ {field tree}, n.get field = .ok tree → tree.Held (·.height ≤ k) := fun hget =>
    held_of_height (Nat.le_of_lt_succ ((Tree.height_lt_of_node_get hget).trans_le hn))
  have hmakes := rule_makes_diagonal hagree hheld (fun _ _ => trivial) scope
  exact Blur.eq_of_like_exact (Blur.like_everywhere.mp (hmakes.mono fun _ _ _ => And.left))

/-! ### The height does not matter -/

lemma convertAt_add (k extra : Nat) (scope : Scope) (tree : Tree) (ht : tree.height ≤ k) :
    convertAt (k + extra) scope tree = convertAt k scope tree := by
  induction k generalizing scope tree with
  | zero =>
    cases tree with
    | node kind location fields => simp [Tree.height] at ht
    | _ => simp [convertAt]
  | succ k ih =>
    cases tree with
    | node kind location fields =>
      have hn : (Tree.ofNode ⟨kind, location, fields⟩).height ≤ k + 1 := ht
      rw [Nat.add_right_comm]
      exact rule_congr ih hn scope
    | _ => simp [convertAt]

lemma convertAt_eq_convert {tree : Tree} (ht : tree.height ≤ k) (scope : Scope) :
    convertAt k scope tree = tree.convert scope := by
  obtain ⟨extra, rfl⟩ := Nat.exists_eq_add_of_le ht
  exact convertAt_add tree.height extra scope tree le_rfl

end Height

end Convert

/-- **The conversion of a node** is its rule, with the conversion itself for the trees below. -/
theorem Tree.convert_node (n : Node) (scope : Scope) :
    (Tree.ofNode n).convert scope =
      Convert.rule (fun scope tree => tree.convert scope) scope n := by
  have hheight : (Tree.ofNode n).height = Tree.heightFields n.fields + 1 := by
    simp [Tree.ofNode, Tree.height]
  rw [Tree.convert, hheight]
  exact Convert.rule_congr (fun scope tree ht => Convert.convertAt_eq_convert ht scope)
    hheight.le scope

/-- What holds of content that is no node, and of a node whenever it holds of all trees less high,
holds of every conversion. -/
theorem Tree.convert_induction {motive : Scope → Tree → Except Fault Value → Prop}
    (leaf : ∀ scope tree, tree.asNode? = none → motive scope tree (Convert.leaf tree))
    (node : ∀ scope n,
      (∀ scope' tree, tree.height < (Tree.ofNode n).height →
        motive scope' tree (tree.convert scope')) →
      motive scope (Tree.ofNode n) (Convert.rule (fun scope tree => tree.convert scope) scope n))
    (scope : Scope) (tree : Tree) : motive scope tree (tree.convert scope) := by
  induction hheight : tree.height using Nat.strong_induction_on generalizing scope tree with
  | _ height ih =>
    subst hheight
    cases tree with
    | node kind location fields =>
      have h := node scope ⟨kind, location, fields⟩
        fun scope' below hbelow => ih _ hbelow scope' below rfl
      rwa [← convert_node] at h
    | _ =>
      rw [convert, Convert.convertAt_leaf rfl]
      exact leaf scope _ rfl

end RubySexp
