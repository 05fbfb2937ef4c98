import RubySexp.Proofs.Convert.Parallel.Built

/-!
# Two Conversions Side by Side

One conversion goes over a tree, another over a recast of it: a tree of the same nodes in which
some content may have changed that no rule looks at. If the two conversions agree on the trees
below a node, as far as can be seen in a view, the rules of the node do so too.

Content stands in a field in one of two ways. Data is used as it is. A part is converted, in the
scope of its node unless the field opens another.
-/

namespace RubySexp

namespace Kind

/-- Fields whose content is used as it is. -/
def isData (kind : Kind) (field : Field) : Bool :=
  match field with
  | .name | .unescaped | .number | .readName | .writeName | .binaryOperator | .excludeEnd
  | .numerator | .denominator | .maximum | .openingLoc | .safeNavigation | .variableCall
  | .beginModifier | .ignoreCase | .extended | .multiLine | .ascii8bit | .once => true
  | .value => kind == .integerNode || kind == .floatNode
  | _ => false

/-- Fields whose content is converted. The depth of a variable is not looked at, and the path of a
source file only by the rule for it. -/
def isPart (kind : Kind) (field : Field) : Bool :=
  !kind.isData field && field != .depth && field != .filepath

def opensScope (kind : Kind) (field : Field) : Bool :=
  match field with
  | .parameters => kind == .defNode
  | .body => [.defNode, .classNode, .moduleNode, .singletonClassNode].contains kind
  | .requireds | .rest | .posts => kind == .parametersNode
  | _ => false

def writesClassVariable : Kind → Bool
  | .classVariableWriteNode | .classVariableOrWriteNode | .classVariableAndWriteNode
  | .classVariableOperatorWriteNode | .classVariableTargetNode => true
  | _ => false

/-- Fields whose content is converted in the scope of the node. -/
def isPlain (kind : Kind) (field : Field) : Bool := kind.isPart field && !kind.opensScope field

end Kind

structure Tree.Held (Q : Tree → Prop) (tree : Tree) : Prop where
  self : Q tree
  item : ∀ {items item}, tree.elements = .ok items → item ∈ items → Q item

lemma Tree.Held.upTo {Q : Tree → Prop} {tree : Tree} {k : Nat} (h : tree.Held Q)
    (hheight : tree.height ≤ k) : tree.Held fun part => part.height ≤ k ∧ Q part :=
  ⟨⟨hheight, h.self⟩, fun hitems hitem =>
    ⟨(height_le_of_elements hitems hitem).trans hheight, h.item hitems hitem⟩⟩

/-- Whether a node is a clause with statements of its own. A handler is known by the exceptions that
it names. -/
def Node.isClause (n : Node) : Bool :=
  n.kind == .whenNode || n.kind == .inNode || (n.get? .exceptions).isSome

lemma Node.isClause_of_exceptions {n : Node} {exceptions : Tree}
    (h : n.get .exceptions = .ok exceptions) : n.isClause = true := by
  simp [isClause, get?_of_get h]

namespace Convert

def methodScope (scope : Scope) : Scope := { scope with inDef := true, inParameters := false }

def positionalScope (scope : Scope) : Scope := { scope with inParameters := true }

/-- The scope in which the content of a field is converted. -/
def scopeBelow (kind : Kind) (field : Field) (scope : Scope) : Scope :=
  if kind.opensScope field then
    if kind == .defNode then methodScope scope
    else if kind == .parametersNode then positionalScope scope
    else bodyScope scope
  else scope

lemma scopeBelow_of_isPlain {kind : Kind} {field : Field} (h : kind.isPlain field = true)
    (scope : Scope) : scopeBelow kind field scope = scope := by
  simp only [Kind.isPlain, Bool.and_eq_true, Bool.not_eq_true'] at h
  simp [scopeBelow, h.2]

structure Recast (g : Scope → Tree → Tree) : Prop where
  scalar : ∀ scope s, g scope (.scalar s) = .scalar s
  span : ∀ scope l, g scope (.span l) = .span l
  tuple : ∀ scope items, g scope (.tuple items) = .tuple (items.map (g scope))
  node : ∀ scope (n : Node), ∃ n' : Node, g scope (.ofNode n) = .ofNode n' ∧
    n'.kind = n.kind ∧ n'.location = n.location ∧
    (∀ field, n.kind.isData field = true → n'.get field = n.get field) ∧
    (∀ field, n.kind.isPart field = true →
      n'.get field = (n.get field).map (g (scopeBelow n.kind field scope)))

namespace Recast

protected lemma id : Recast fun _ tree => tree where
  scalar _ _ := rfl
  span _ _ := rfl
  tuple _ items := by rw [List.map_id']
  node _ n := by
    refine ⟨n, rfl, rfl, rfl, fun _ _ => rfl, fun field _ => ?_⟩
    cases n.get field <;> rfl

variable {g : Scope → Tree → Tree} (h : Recast g) (scope : Scope)

include h

lemma eq_of_kept {β : Type} {f : Tree → β}
    (htuple : ∀ items, f (.tuple (items.map (g scope))) = f (.tuple items))
    (hnode : ∀ n n' : Node, n'.kind = n.kind → n'.location = n.location →
      (∀ field, n.kind.isData field = true → n'.get field = n.get field) →
      f (.ofNode n') = f (.ofNode n)) (tree : Tree) : f (g scope tree) = f tree := by
  cases tree with
  | scalar s => rw [h.scalar]
  | span l => rw [h.span]
  | tuple items => rw [h.tuple, htuple]
  | node kind location fields =>
    obtain ⟨n', heq, hkind, hlocation, hdata, -⟩ := h.node scope ⟨kind, location, fields⟩
    exact (congrArg f heq).trans (hnode _ n' hkind hlocation hdata)

lemma isNull_eq (tree : Tree) : (g scope tree).isNull = tree.isNull :=
  h.eq_of_kept scope (fun _ => rfl) (fun _ _ _ _ _ => rfl) tree

lemma location?_eq (tree : Tree) : (g scope tree).location? = tree.location? :=
  h.eq_of_kept scope (fun _ => rfl) (fun _ _ _ hlocation _ => hlocation) tree

lemma isA_eq (kind : Kind) (tree : Tree) : (g scope tree).isA kind = tree.isA kind :=
  h.eq_of_kept scope (fun _ => rfl) (fun _ _ hkind _ _ => congrArg (· == kind) hkind) tree

lemma truthy_eq (tree : Tree) : (g scope tree).truthy = tree.truthy :=
  h.eq_of_kept scope (fun items => by simp [Tree.truthy]) (fun _ _ _ _ _ => rfl) tree

lemma elements_eq (tree : Tree) :
    (g scope tree).elements = tree.elements.map (List.map (g scope)) := by
  cases tree with
  | scalar s =>
    rw [h.scalar]
    cases s with
    | text s => simp [Tree.elements, Except.map, h.scalar]
    | _ => rfl
  | span l =>
    rw [h.span]
    rfl
  | tuple items =>
    rw [h.tuple]
    rfl
  | node kind location fields =>
    obtain ⟨n', heq, -⟩ := h.node scope ⟨kind, location, fields⟩
    exact congrArg Tree.elements heq

lemma asNode?_none {tree : Tree} (htree : tree.asNode? = none) :
    (g scope tree).asNode? = none := by
  cases tree with
  | scalar s => rw [h.scalar, htree]
  | span l => rw [h.span, htree]
  | tuple items =>
    rw [h.tuple]
    rfl
  | node kind location fields => cases htree

lemma get_data (tree : Tree) {field : Field} (hdata : ∀ kind : Kind, kind.isData field = true) :
    (g scope tree).get field = tree.get field :=
  h.eq_of_kept (f := (·.get field)) scope (fun _ => rfl)
    (fun n _ _ _ hget => hget field (hdata n.kind)) tree

lemma get_plain (tree : Tree) {field : Field} (hplain : ∀ kind : Kind, kind.isPlain field = true) :
    (g scope tree).get field = (tree.get field).map (g scope) := by
  cases tree with
  | scalar s =>
    rw [h.scalar]
    rfl
  | span l =>
    rw [h.span]
    rfl
  | tuple items =>
    rw [h.tuple]
    rfl
  | node kind location fields =>
    obtain ⟨n', heq, -, -, -, hget⟩ := h.node scope ⟨kind, location, fields⟩
    have hpart : kind.isPart field = true := (Bool.and_eq_true_iff.mp (hplain kind)).1
    have hscope := scopeBelow_of_isPlain (hplain kind) scope
    have hfield := hget field hpart
    rw [hscope] at hfield
    exact (congrArg (Tree.get · field) heq).trans hfield

/-- The value of a number is data, any other value a part. -/
lemma get_value (tree : Tree) : (g scope tree).get .value = tree.get .value ∨
    (g scope tree).get .value = (tree.get .value).map (g scope) := by
  rcases hnode : tree.asNode? with _ | n
  · right
    have herror : ∀ t : Tree, t.asNode? = none → t.get .value = .error .noSuchPart := by
      intro t ht
      rw [Tree.get, ht]
    rw [herror tree hnode, herror _ (h.asNode?_none scope hnode)]
    rfl
  · obtain rfl := Tree.eq_ofNode hnode
    obtain ⟨n', heq, -, -, hdata, hpart⟩ := h.node scope n
    rw [heq]
    by_cases hvalue : n.kind.isData .value = true
    · exact .inl (hdata .value hvalue)
    · have hplain : n.kind.isPlain .value = true := by
        simpa [Kind.isPlain, Kind.isPart, Kind.opensScope] using hvalue
      right
      rw [← scopeBelow_of_isPlain hplain scope]
      exact hpart .value (Bool.and_eq_true_iff.mp hplain).1

end Recast

/-! ### Conversions that agree below a node -/

/-- The statements of a clause are converted in the scope of the clause. -/
def OpenClause (g : Scope → Tree → Tree) (clause : Tree) : Prop :=
  ∀ body n, clause.get .statements = .ok body → body.asNode? = some n →
    ∀ scope, g (scopeBelow n.kind .body scope) = g scope

/-- Two conversions agree, in a view, on the trees of a class that holds what stands in the fields
of its trees. These are at the places of the view, and the scopes in which the conversions go may
differ as far as a relation allows. -/
structure Parallel (φ : View) (g : Scope → Tree → Tree) (R : Scope → Scope → Prop)
    (Q : Tree → Prop) (conv conv' : Conversion) : Prop extends Recast g where
  inParameters : ∀ {s s'}, R s s' → s'.inParameters = s.inParameters
  below : ∀ {s s'}, R s s' → ∀ kind field, R (scopeBelow kind field s) (scopeBelow kind field s')
  held : ∀ {tree field part}, Q tree → tree.get field = .ok part → part.Held Q
  clause : ∀ {tree exceptions}, Q tree → tree.get .exceptions = .ok exceptions →
    OpenClause g tree
  place : ∀ {tree l}, Q tree → tree.location? = some l → φ.place l
  conv : ∀ {s s' tree}, R s s' → Q tree → φ.Like (conv s tree) (conv' s' (g s tree))

structure Beside (φ : View) (g : Scope → Tree → Tree) (Q : Tree → Prop) (s : Scope) (n n' : Node) :
    Prop where
  kind : n'.kind = n.kind
  location : n'.location = n.location
  data : ∀ {field}, n.kind.isData field = true → n'.get field = n.get field
  part : ∀ field, n.kind.isPart field = true →
    n'.get field = (n.get field).map (g (scopeBelow n.kind field s))
  held : ∀ {field tree}, n.get field = .ok tree → tree.Held Q
  place : ∀ l, n.location = some l → φ.place l

section Beside

variable {φ : View} {g : Scope → Tree → Tree} {Q : Tree → Prop} {s : Scope} {n n' : Node}

lemma Beside.plain (hn : Beside φ g Q s n n') {field : Field}
    (hfield : n.kind.isPlain field = true) : n'.get field = (n.get field).map (g s) := by
  rw [hn.part field (Bool.and_eq_true_iff.mp hfield).1, scopeBelow_of_isPlain hfield]

lemma Beside.below (hn : Beside φ g Q s n n') {field : Field} {tree : Tree}
    (hget : n.get field = .ok tree) : Q tree := (hn.held hget).self

end Beside

lemma Parallel.beside {φ : View} {g : Scope → Tree → Tree} {R : Scope → Scope → Prop}
    {Q : Tree → Prop} {conv conv' : Conversion} (h : Parallel φ g R Q conv conv') {n : Node}
    (hn : Q (.ofNode n)) (s : Scope) :
    ∃ n', g s (.ofNode n) = .ofNode n' ∧ Beside φ g Q s n n' := by
  obtain ⟨n', heq, hkind, hlocation, hdata, hpart⟩ := h.node s n
  exact ⟨n', heq, hkind, hlocation, hdata _, hpart, fun hget => h.held hn hget,
    fun _ => h.place hn⟩

namespace Parallel

variable {φ : View} {g : Scope → Tree → Tree} {R : Scope → Scope → Prop} {Q : Tree → Prop}
  {conv conv' : Conversion} {s s' : Scope} {n n' : Node} {tree : Tree}
  (h : Parallel φ g R Q conv conv') (hs : R s s')

include h

lemma get {field : Field} {part : Tree} (ht : Q tree) (hget : tree.get field = .ok part) :
    Q part := (h.held ht hget).self

include hs

lemma convertAll (ht : tree.Held Q) :
    φ.LikeAll (convertAll conv s tree) (convertAll conv' s' (g s tree)) := by
  unfold Convert.convertAll
  rw [h.elements_eq]
  refine .bind_map fun items hitems => .mapM_map fun item hitem => ?_
  exact h.conv hs (ht.item hitems hitem)

lemma convertIfPresent (ht : Q tree) :
    φ.LikeAll (convertIfPresent conv s tree) (convertIfPresent conv' s' (g s tree)) := by
  unfold Convert.convertIfPresent
  rw [h.isNull_eq]
  split
  · exact .ok .nil
  · exact (h.conv hs ht).bind fun v w _ hv => .ok (by simpa using hv)

lemma arguments (ht : Q tree) :
    φ.LikeAll (arguments conv s tree) (arguments conv' s' (g s tree)) := by
  unfold Convert.arguments
  rw [h.isNull_eq]
  split
  · exact .ok .nil
  · exact (h.conv hs ht).bind fun v w _ hv => hv.items

lemma statements (hbelow : ∀ {field part}, tree.get field = .ok part → part.Held Q)
    (hbody : ∀ n, tree.asNode? = some n → ∀ scope, g (scopeBelow n.kind .body scope) = g scope) :
    φ.LikeAll (statements conv s tree) (statements conv' s' (g s tree)) := by
  unfold Convert.statements
  rw [h.isNull_eq]
  split
  · exact .ok .nil
  cases tree with
  | node kind location fields =>
    obtain ⟨n', heq, -, -, -, hget⟩ := h.node s ⟨kind, location, fields⟩
    have hfield := hget .body rfl
    rw [hbody _ rfl] at hfield
    have hget' : (g s (.node kind location fields)).get .body =
        ((Tree.node kind location fields).get .body).map (g s) :=
      (congrArg (Tree.get · .body) heq).trans hfield
    rw [hget']
    exact .bind_map fun body hget => h.convertAll hs (hbelow hget)
  | scalar _ =>
    rw [h.scalar]
    exact .error .noSuchPart
  | span _ =>
    rw [h.span]
    exact .error .noSuchPart
  | tuple _ =>
    rw [h.tuple]
    exact .error .noSuchPart

lemma clauseBody (ht : Q tree)
    (hbody : ∀ n, tree.asNode? = some n → ∀ scope, g (scopeBelow n.kind .body scope) = g scope) :
    φ.LikeAll (clauseBody conv s tree) (clauseBody conv' s' (g s tree)) := by
  unfold Convert.clauseBody
  refine (h.statements hs (h.held ht) hbody).bind fun body body' _ hbody => .ok ?_
  rw [hbody.isEmpty_eq]
  split
  · simp
  · exact hbody

variable (hn : Beside φ g Q s n n')

include hn

lemma convertField {field : Field} (hfield : n.kind.isPlain field = true) :
    φ.Like (convertField conv s n field) (convertField conv' s' n' field) := by
  unfold Convert.convertField
  rw [hn.plain hfield]
  exact .bind_map fun part hpart => h.conv hs (hn.below hpart)

lemma convertItems {field : Field} (hfield : n.kind.isPlain field = true) :
    φ.LikeAll (convertItems conv s n field) (convertItems conv' s' n' field) := by
  unfold Convert.convertItems
  rw [hn.plain hfield]
  exact .bind_map fun part hpart => h.convertAll hs (hn.held hpart)

lemma convertOptional {field : Field} (hfield : n.kind.isPlain field = true) :
    φ.LikeAll (convertOptional conv s n field) (convertOptional conv' s' n' field) := by
  unfold Convert.convertOptional
  rw [hn.plain hfield]
  exact .bind_map fun part hpart => h.convertIfPresent hs (hn.below hpart)

lemma argumentsIn {field : Field} (hfield : n.kind.isPlain field = true) :
    φ.LikeAll (n.get field >>= Convert.arguments conv s)
      (n'.get field >>= Convert.arguments conv' s') := by
  rw [hn.plain hfield]
  exact .bind_map fun part hpart => h.arguments hs (hn.below hpart)

omit h hs in
lemma nameIn_eq {field : Field} (hfield : n.kind.isData field = true) :
    Convert.nameIn n' field = Convert.nameIn n field := by
  unfold Convert.nameIn
  rw [hn.data hfield]

omit h hs in
lemma nameIn {field : Field} (hfield : n.kind.isData field = true) :
    φ.Like (nameIn n field) (nameIn n' field) := by
  rw [nameIn_eq hn hfield]
  exact .bind_same fun name _ => .ok (by simp)

omit h hs in
lemma nameOf {field : Field} (hfield : n.kind.isData field = true) :
    Makes φ conv s n (Convert.nameIn n field) (Convert.nameIn n' field) := by
  rw [nameIn_eq hn hfield]
  exact .bind_same fun name _ => .ok ⟨by simp, .symbol name⟩

omit h hs in
lemma buildAs {tag tag' : Tag} {kids kids' : List Value} (htag : φ.tag tag = φ.tag tag')
    (hkids : φ.SameAll kids kids') :
    φ.Like (build n.location tag kids) (build n'.location tag' kids') := by
  rw [hn.location]
  exact View.build hn.place htag hkids

omit h hs in
lemma build {tag : Tag} {kids kids' : List Value} (hkids : φ.SameAll kids kids') :
    φ.Like (build n.location tag kids) (build n'.location tag kids') :=
  buildAs hn rfl hkids

omit h hs in
lemma ownAs {tag tag' : Tag} {kids kids' : List Value} (hown : tag.isOwn = true)
    (htag : φ.tag tag = φ.tag tag') (hkids : φ.SameAll kids kids') :
    Makes φ conv s n (Convert.build n.location tag kids)
      (Convert.build n'.location tag' kids') := by
  refine (buildAs hn htag hkids).mono fun v w hv hsame => ⟨hsame, ?_⟩
  obtain ⟨l, rfl⟩ := eq_sexp_of_build hv
  exact .own hown _ _ _

omit h hs in
lemma own {tag : Tag} {kids kids' : List Value} (hown : tag.isOwn = true)
    (hkids : φ.SameAll kids kids') :
    Makes φ conv s n (Convert.build n.location tag kids) (Convert.build n'.location tag kids') :=
  ownAs hn hown rfl hkids

lemma handOn {field : Field} (hfield : n.kind.handedOn = some field)
    (hplain : n.kind.isPlain field = true) :
    Makes φ conv s n (Convert.convertField conv s n field)
      (Convert.convertField conv' s' n' field) := by
  unfold Convert.convertField
  rw [hn.plain hplain]
  refine .bind_map fun part hpart => ?_
  exact (h.conv hs (hn.below hpart)).mono fun v w hv hsame =>
    ⟨hsame, .part (.field hfield hpart) hv⟩

end Parallel

end Convert

end RubySexp
