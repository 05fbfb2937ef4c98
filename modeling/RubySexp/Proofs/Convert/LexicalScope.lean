import RubySexp.Proofs.Convert.Locality

/-!
# The Scope of Class Variables

Whether the assignment of a class variable declares it depends on the scope that it stands in. The
conversion finds the scope on its way down; here the scope is noted on each assignment beforehand,
from the innermost edge above it that decides, and a conversion that looks at the notes only has
the same outcome. The scope from which the conversion starts can then be seen in two places at most:
in the tags of assignments that no edge encloses, and in nothing else.
-/

namespace RubySexp

/-- What an edge decides for the class variables below it: the parameters and the body of a method
are in a method, the body of a class or a module is not. -/
def Kind.scopeEdge (kind : Kind) (field : Field) : Option Bool :=
  match field, kind with
  | .parameters, .defNode | .body, .defNode => some true
  | .body, .classNode | .body, .moduleNode | .body, .singletonClassNode => some false
  | _, _ => none

lemma Convert.inDef_scopeBelow (kind : Kind) (field : Field) (scope : Scope) :
    (scopeBelow kind field scope).inDef = (kind.scopeEdge field).getD scope.inDef := by
  cases field with
  | body | parameters | requireds | rest | posts => cases kind <;> rfl
  | _ => rfl

/-- A way to keep a note beside a node, where no rule looks. -/
structure Notes where
  keep : Bool → Node → Node
  read : Node → Bool
  read_keep : ∀ b n, read (keep b n) = b
  kind_keep : ∀ b n, (keep b n).kind = n.kind
  location_keep : ∀ b n, (keep b n).location = n.location
  get_keep : ∀ b n {field}, field ≠ .depth → (keep b n).get field = n.get field
  height_keep : ∀ b n, (Tree.ofNode (keep b n)).height = (Tree.ofNode n).height

namespace Notes

/-- A node with a note if it assigns a class variable. -/
def note (notes : Notes) (inMethod : Bool) (n : Node) : Node :=
  if n.kind.writesClassVariable then notes.keep inMethod n else n

variable (notes : Notes) (b : Bool) (n : Node)

@[simp] lemma kind_note : (notes.note b n).kind = n.kind := by
  unfold note
  split
  · exact notes.kind_keep b n
  · rfl

@[simp] lemma location_note : (notes.note b n).location = n.location := by
  unfold note
  split
  · exact notes.location_keep b n
  · rfl

lemma get_note {field : Field} (h : field ≠ .depth) :
    (notes.note b n).get field = n.get field := by
  unfold note
  split
  · exact notes.get_keep b n h
  · rfl

lemma height_note : (Tree.ofNode (notes.note b n)).height = (Tree.ofNode n).height := by
  unfold note
  split
  · exact notes.height_keep b n
  · rfl

/-- Only local variables have a depth, so for a class variable the note can stand in its place. -/
def inDepth : Notes where
  keep b n := { n with fields := (.depth, .bool b) :: n.fields }
  read n :=
    match n.get? .depth with
    | some (.bool inMethod) => inMethod
    | _ => false
  read_keep _ _ := rfl
  kind_keep _ _ := rfl
  location_keep _ _ := rfl
  get_keep b n {field} h := by
    have hne : (Field.depth == field) = false := beq_eq_false_iff_ne.mpr h.symm
    simp [Node.get, Node.get?, hne]
  height_keep b n := by simp [Tree.ofNode, Tree.height, Tree.heightFields]

end Notes

namespace Tree

mutual

/-- A tree in which each assignment of a class variable has a note that says whether it is in a
method. Outside all edges that decide, the answer is given. -/
def annotate (notes : Notes) (inMethod : Bool) : Tree → Tree
  | .scalar s => .scalar s
  | .span l => .span l
  | .tuple items => .tuple (annotateItems notes inMethod items)
  | .node kind location fields =>
    ofNode (notes.note inMethod ⟨kind, location, annotateFields notes kind inMethod fields⟩)

def annotateItems (notes : Notes) (inMethod : Bool) : List Tree → List Tree
  | [] => []
  | item :: rest => annotate notes inMethod item :: annotateItems notes inMethod rest

def annotateFields (notes : Notes) (kind : Kind) (inMethod : Bool) :
    List (Field × Tree) → List (Field × Tree)
  | [] => []
  | (field, tree) :: rest =>
    let below := (kind.scopeEdge field).getD inMethod
    (field, if kind.isPart field then annotate notes below tree else tree) ::
      annotateFields notes kind inMethod rest

end

mutual

/-- Whether each assignment of a class variable lies below an edge that decides its scope. -/
def enclosed : Tree → Bool
  | .scalar _ | .span _ => true
  | .tuple items => enclosedItems items
  | .node kind _ fields => !kind.writesClassVariable && enclosedFields kind fields

def enclosedItems : List Tree → Bool
  | [] => true
  | item :: rest => enclosed item && enclosedItems rest

def enclosedFields (kind : Kind) : List (Field × Tree) → Bool
  | [] => true
  | (field, tree) :: rest =>
    ((kind.scopeEdge field).isSome || enclosed tree) && enclosedFields kind rest

end

/-- Whether a tree is a definition with a body of its own. -/
def isDefinition : Tree → Bool
  | .node kind _ _ => kind.opensScope .body
  | _ => false

/-- Whether a node is no clause with a definition in the place of its statements. The statements of
such a clause would be taken from the body of the definition, but in the scope of the clause. -/
def opensClause (n : Node) : Bool := !n.isClause || (n.get? .statements).all (!isDefinition ·)

/-- Whether no clause has a definition in the place of its statements. -/
def clausesOpen : Tree → Bool := everyNode opensClause

end Tree

/-! ### A conversion that looks at the notes -/

namespace Convert

/-- The scope that a note beside a node gives to its rule, whatever the scope around it. -/
def notedScope (notes : Notes) (scope : Scope) (n : Node) : Scope :=
  { scope with inDef := notes.read n }

/-- The conversion by the notes, of trees up to a height. -/
def notedAt (notes : Notes) : Nat → Conversion
  | height + 1, scope, .node kind location fields =>
    let n : Node := ⟨kind, location, fields⟩
    rule (notedAt notes height) (notedScope notes scope n) n
  | _, _, tree => leaf tree

end Convert

/-- The conversion of a tree by the notes beside its nodes. -/
def Tree.convertNoted (notes : Notes) (tree : Tree) (scope : Scope) : Except Fault Value :=
  Convert.notedAt notes tree.height scope tree

lemma Tree.convertNoted_inDef (notes : Notes) (tree : Tree) (scope : Scope) (inDef : Bool) :
    tree.convertNoted notes { scope with inDef := inDef } = tree.convertNoted notes scope := by
  cases tree with
  | node kind location fields =>
    simp only [convertNoted, height, Convert.notedAt, Convert.notedScope]
  | tuple items => simp [convertNoted, Convert.notedAt]
  | _ => rfl

/-! ### The annotated tree -/

namespace Tree

variable (notes : Notes)

lemma annotateItems_eq_map (inMethod : Bool) (items : List Tree) :
    annotateItems notes inMethod items = items.map (annotate notes inMethod) := by
  induction items with
  | nil => rfl
  | cons item rest ih => rw [annotateItems, ih, List.map_cons]

lemma find?_annotateFields (kind : Kind) (inMethod : Bool) (field : Field)
    (fields : List (Field × Tree)) :
    ((annotateFields notes kind inMethod fields).find? (·.1 == field)).map Prod.snd =
      ((fields.find? (·.1 == field)).map Prod.snd).map fun tree =>
        if kind.isPart field then annotate notes ((kind.scopeEdge field).getD inMethod) tree
        else tree := by
  induction fields with
  | nil => rfl
  | cons first rest ih =>
    obtain ⟨field', tree⟩ := first
    rw [annotateFields, List.find?_cons, List.find?_cons]
    by_cases hfield : field' = field
    · subst hfield
      simp
    · rw [beq_eq_false_iff_ne.mpr hfield]
      exact ih

def annotatedNode (inMethod : Bool) (n : Node) : Node :=
  notes.note inMethod ⟨n.kind, n.location, annotateFields notes n.kind inMethod n.fields⟩

lemma annotate_ofNode (inMethod : Bool) (n : Node) :
    annotate notes inMethod (ofNode n) = ofNode (annotatedNode notes inMethod n) := by
  rw [ofNode, annotate]
  rfl

lemma get_annotatedNode (inMethod : Bool) (n : Node) {field : Field} (h : field ≠ .depth) :
    (annotatedNode notes inMethod n).get field = (n.get field).map fun tree =>
      if n.kind.isPart field then annotate notes ((n.kind.scopeEdge field).getD inMethod) tree
      else tree := by
  have hget := find?_annotateFields notes n.kind inMethod field n.fields
  rw [annotatedNode, notes.get_note _ _ h]
  unfold Node.get Node.get?
  rw [hget]
  cases n.fields.find? (·.1 == field) <;> rfl

lemma read_annotatedNode {n : Node} (h : n.kind.writesClassVariable = true) (inMethod : Bool) :
    notes.read (annotatedNode notes inMethod n) = inMethod := by
  rw [annotatedNode, Notes.note, if_pos h, notes.read_keep]

mutual

lemma height_annotate (inMethod : Bool) : ∀ tree : Tree,
    (annotate notes inMethod tree).height = tree.height
  | .scalar _ | .span _ => rfl
  | .tuple items => by rw [annotate, height, height, heightItems_annotate inMethod items]
  | .node kind location fields => by
    rw [annotate, notes.height_note, ofNode, height, height,
      heightFields_annotate kind inMethod fields]

lemma heightItems_annotate (inMethod : Bool) : ∀ items : List Tree,
    heightItems (annotateItems notes inMethod items) = heightItems items
  | [] => rfl
  | item :: rest => by
    rw [annotateItems, heightItems, heightItems, height_annotate inMethod item,
      heightItems_annotate inMethod rest]

lemma heightFields_annotate (kind : Kind) (inMethod : Bool) : ∀ fields : List (Field × Tree),
    heightFields (annotateFields notes kind inMethod fields) = heightFields fields
  | [] => rfl
  | (field, tree) :: rest => by
    rw [annotateFields, heightFields, heightFields, heightFields_annotate kind inMethod rest]
    split
    · rw [height_annotate _ tree]
    · rfl

end

mutual

lemma annotate_enclosed (b b' : Bool) : ∀ tree : Tree, tree.enclosed = true →
    tree.annotate notes b = tree.annotate notes b'
  | .scalar _, _ | .span _, _ => rfl
  | .tuple items, h => by rw [annotate, annotate, annotateItems_enclosed b b' items h]
  | .node kind location fields, h => by
    rw [enclosed, Bool.and_eq_true, Bool.not_eq_true'] at h
    simp [annotate, Notes.note, h.1, annotateFields_enclosed b b' kind fields h.2]

lemma annotateItems_enclosed (b b' : Bool) : ∀ items : List Tree, enclosedItems items = true →
    annotateItems notes b items = annotateItems notes b' items
  | [], _ => rfl
  | item :: rest, h => by
    rw [enclosedItems, Bool.and_eq_true] at h
    rw [annotateItems, annotateItems, annotate_enclosed b b' item h.1,
      annotateItems_enclosed b b' rest h.2]

lemma annotateFields_enclosed (b b' : Bool) (kind : Kind) : ∀ fields : List (Field × Tree),
    enclosedFields kind fields = true →
      annotateFields notes kind b fields = annotateFields notes kind b' fields
  | [], _ => rfl
  | (field, tree) :: rest, h => by
    rw [enclosedFields, Bool.and_eq_true, Bool.or_eq_true] at h
    rw [annotateFields, annotateFields, annotateFields_enclosed b b' kind rest h.2]
    rcases hedge : kind.scopeEdge field with _ | inMethod
    · have htree : tree.enclosed = true := by simpa [hedge] using h.1
      simp only [Option.getD_none, annotate_enclosed b b' tree htree]
    · rfl

end

end Tree

namespace Convert

lemma recast_annotate (notes : Notes) : Recast fun scope => Tree.annotate notes scope.inDef where
  scalar _ _ := rfl
  span _ _ := rfl
  tuple scope items := by rw [Tree.annotate, Tree.annotateItems_eq_map]
  node scope n := by
    refine ⟨_, Tree.annotate_ofNode notes scope.inDef n, notes.kind_note _ _,
      notes.location_note _ _, ?_, ?_⟩
    · intro field hdata
      have hfield : field ≠ .depth := by
        rintro rfl
        cases hdata
      have hpart : n.kind.isPart field = false := by simp [Kind.isPart, hdata]
      rw [Tree.get_annotatedNode notes _ n hfield, hpart]
      cases n.get field <;> rfl
    · intro field hpart
      have hfield : field ≠ .depth := by
        rintro rfl
        cases hpart
      rw [Tree.get_annotatedNode notes _ n hfield, hpart, inDef_scopeBelow]
      rfl

end Convert

/-! ### What is below a tree -/

namespace Tree

variable {test : Node → Bool} {tree part : Tree} {field : Field}

lemma held_of_everyNode (h : tree.everyNode test = true) (hget : tree.get field = .ok part) :
    part.Held fun tree => tree.everyNode test = true :=
  ⟨everyNode_of_get h hget, everyNode_of_elements (everyNode_of_get h hget)⟩

lemma isDefinition_of_clausesOpen {n : Node} (h : (ofNode n).clausesOpen = true)
    (hclause : n.isClause = true) (hget : n.get .statements = .ok part) :
    part.isDefinition = false := by
  rw [ofNode, clausesOpen, everyNode, Bool.and_eq_true] at h
  have hopen : opensClause n = true := h.1
  rw [opensClause, Node.get?_of_get hget] at hopen
  simpa [hclause] using hopen

end Tree

/-! ### Outcomes that are the same but for declarations -/

namespace Blur

def assigned : Tag → Tag
  | .cvdecl => .cvasgn
  | tag => tag

lemma assigned_of_ne {tag : Tag} (h : tag ≠ .cvdecl) : assigned tag = tag := by
  unfold assigned
  split
  · exact absurd rfl h
  · rfl

lemma assigned_eq {a b : Tag} (h : assigned a = assigned b) :
    a = b ∨ a ∈ [.cvdecl, .cvasgn] ∧ b ∈ [.cvdecl, .cvasgn] := by
  by_cases ha : a = .cvdecl
  · by_cases hb : b = .cvdecl
    · exact .inl (ha.trans hb.symm)
    · rw [assigned_of_ne hb, ha] at h
      exact .inr ⟨by simp [ha], by simp [← h, assigned]⟩
  · by_cases hb : b = .cvdecl
    · rw [assigned_of_ne ha, hb] at h
      exact .inr ⟨by simp [h, assigned], by simp [hb]⟩
    · rw [assigned_of_ne ha, assigned_of_ne hb] at h
      exact .inl h

/-- The declaration of a class variable is renamed to its assignment, wherever a tag occurs. -/
def declared : Blur where
  tag := assigned
  text text := text
  name := fun s => if s = Tag.cvdecl.name then Tag.cvasgn.name else s
  watched := by
    intro a b h ha
    obtain rfl | ⟨ha', -⟩ := assigned_eq h
    · rfl
    · rcases List.mem_cons.mp ha' with rfl | ha'
      · exact absurd ha (by decide)
      · obtain rfl := List.mem_singleton.mp ha'
        exact absurd ha (by decide)
  name_of_tag := by
    intro a b h
    obtain rfl | ⟨ha, hb⟩ := assigned_eq h
    · rfl
    · have hname : ∀ tag ∈ [Tag.cvdecl, Tag.cvasgn],
          (if tag.name = Tag.cvdecl.name then Tag.cvasgn.name else tag.name) = Tag.cvasgn.name := by
        intro tag htag
        rcases List.mem_cons.mp htag with rfl | htag
        · rfl
        · obtain rfl := List.mem_singleton.mp htag
          rfl
      exact (hname a ha).trans (hname b hb).symm
  name_of_text h := by rw [h]
  text_append ha hb := congrArg₂ (· ++ ·) ha hb
  empty_of_text h ha := h.symm.trans ha

end Blur

/-! ### The two ways side by side -/

namespace Convert

def SameButClassVariables (s s' : Scope) : Prop :=
  s'.inParameters = s.inParameters ∧ s'.filepath = s.filepath

lemma SameButClassVariables.below {s s' : Scope} (h : SameButClassVariables s s') (kind : Kind)
    (field : Field) :
    SameButClassVariables (scopeBelow kind field s) (scopeBelow kind field s') := by
  unfold scopeBelow
  split
  · split
    · exact ⟨rfl, h.2⟩
    · split
      · exact ⟨rfl, h.2⟩
      · exact h
  · exact h

lemma noted_sideBySide (notes : Notes) :
    SideBySide Blur.exact.everywhere (fun scope => Tree.annotate notes scope.inDef)
      SameButClassVariables (fun tree => tree.clausesOpen = true) (notedScope notes)
      (notedAt notes) where
  toRecast := recast_annotate notes
  inParameters h := h.1
  below := SameButClassVariables.below
  held := Tree.held_of_everyNode
  clause := by
    intro n hn hclause body m hget hbody scope
    have hplain : m.kind.opensScope .body = false := by
      have hbody' := Tree.isDefinition_of_clausesOpen hn hclause hget
      rwa [Tree.eq_ofNode hbody] at hbody'
    rw [scopeBelow, hplain]
    rfl
  place _ _ := trivial
  leaf := by
    intro k s tree htree
    cases tree with
    | node kind location fields => cases htree
    | _ => simp [notedAt]
  step _ _ _ := rfl
  entered _ h := h
  write := by
    intro s s' n n' _ heq hwrites
    rw [Tree.annotate_ofNode] at heq
    obtain rfl := Tree.ofNode_injective heq
    simp only [Variable.writeTag, notedScope, Tree.read_annotatedNode notes hwrites]
  file := by
    intro s s' n n' _ hs heq hkind
    rw [Tree.annotate_ofNode] at heq
    obtain rfl := Tree.ofNode_injective heq
    have hrecorded : (Tree.annotatedNode notes s.inDef n).get .filepath = n.get .filepath := by
      have hpart : n.kind.isPart .filepath = false := by simp [Kind.isPart]
      rw [Tree.get_annotatedNode notes _ n (by decide), hpart]
      cases n.get .filepath <;> rfl
    refine Blur.like_everywhere.mpr (.of_eq ?_ fun _ _ => rfl)
    rw [sourceFile, sourceFile, hrecorded, notedScope, hs.2, Tree.annotatedNode,
      notes.location_note]

lemma scoped_sideBySide : SideBySide Blur.declared.everywhere (fun _ tree => tree)
    SameButClassVariables (fun _ => True) (fun scope _ => scope) convertAt where
  toRecast := .id
  inParameters h := h.1
  below := SameButClassVariables.below
  held _ _ := ⟨trivial, fun _ _ => trivial⟩
  clause _ _ _ _ _ _ _ := rfl
  place _ _ := trivial
  leaf k s _ htree := convertAt_leaf htree k s
  step _ _ _ := rfl
  entered _ h := h
  write := by
    intro s s' n n' _ _ _
    have hwrite : ∀ scope : Scope,
        Blur.assigned (Variable.classVar.writeTag scope) = .cvasgn := by
      intro scope
      simp only [Variable.writeTag]
      split <;> rfl
    exact (hwrite s).trans (hwrite s').symm
  file := by
    intro s s' n n' _ hs heq _
    obtain rfl := Tree.ofNode_injective heq
    refine Blur.like_everywhere.mpr (.of_eq ?_ fun _ _ => rfl)
    rw [sourceFile, sourceFile, hs.2]

end Convert

namespace Tree

lemma convert_eq_convertNoted (notes : Notes) {tree : Tree} (h : tree.clausesOpen = true)
    (scope : Scope) :
    tree.convert scope = (tree.annotate notes scope.inDef).convertNoted notes scope := by
  rw [convert, convertNoted, height_annotate]
  refine Blur.eq_of_like_exact (Blur.like_everywhere.mp ?_)
  exact ((Convert.noted_sideBySide notes).parallel tree.height).conv ⟨rfl, rfl⟩ ⟨le_rfl, h⟩

/-- **Class variables are scoped lexically.** If no definition stands in the place of the statements
of a clause, a tree is converted by its notes, however they are kept, and if edges decide the scope
of every assignment to a class variable, the scope around the tree does not matter. In any case it
matters only for the tags of these assignments. -/
theorem convert_scoped_lexically (notes : Notes) (tree : Tree) (scope : Scope) (inDef : Bool) :
    (tree.clausesOpen = true →
      tree.convert scope =
        (tree.annotate notes scope.inDef).convertNoted notes { scope with inDef := inDef } ∧
      (tree.enclosed = true → tree.convert { scope with inDef := inDef } = tree.convert scope)) ∧
    Blur.declared.Like (tree.convert scope) (tree.convert { scope with inDef := inDef }) := by
  refine ⟨fun hopen => ⟨?_, fun henclosed => ?_⟩, Blur.like_everywhere.mp ?_⟩
  · rw [convertNoted_inDef, convert_eq_convertNoted notes hopen]
  · rw [convert_eq_convertNoted notes hopen, convert_eq_convertNoted notes hopen,
      convertNoted_inDef, annotate_enclosed notes inDef scope.inDef tree henclosed]
  · exact (Convert.scoped_sideBySide.parallel tree.height).conv ⟨rfl, rfl⟩ ⟨le_rfl, trivial⟩

/-- A class in which one class variable is declared and another assigned in a method. -/
theorem convert_class_scoped_lexically :
    let body (items : List Tree) : Tree := .atTop .statementsNode [(.body, .tuple items)]
    let target (name : String) : Tree :=
      .atTop .classVariableTargetNode [(.name, .text name)]
    let method : Tree := .atTop .defNode
      [(.name, .text "m"), (.receiver, .null), (.parameters, .null), (.body, body [target "@@b"])]
    let tree : Tree := .atTop .classNode
      [(.constantPath, .atTop .constantReadNode [(.name, .text "A")]), (.superclass, .null),
        (.body, body [method, target "@@a"])]
    let v : Value := .atTop .classDef
      [.sym "A", .nil,
        .atTop .defn
          [.sym "m", .atTop .args [], .atTop .cvasgn [.sym "@@b"]],
        .atTop .cvdecl [.sym "@@a"]]
    tree.clausesOpen = true ∧ tree.enclosed = true ∧ tree.convert {} = .ok v ∧
      tree.convert { inDef := true } = .ok v ∧
      (tree.annotate .inDepth false).convertNoted .inDepth { inDef := true } = .ok v := by
  intro body target method tree v
  have hopen : tree.clausesOpen = true := by decide +kernel
  have henclosed : tree.enclosed = true := by decide +kernel
  have hconvert : tree.convert {} = .ok v := rfl
  obtain ⟨hnotes, houter⟩ := (convert_scoped_lexically .inDepth tree {} true).1 hopen
  exact ⟨hopen, henclosed, hconvert, (houter henclosed).trans hconvert, hnotes.symm.trans hconvert⟩

/-- With a definition in the place of the statements of a clause, the class variable is declared as
the clause has it, although the innermost edge above it is that of a method. -/
theorem convert_definition_for_statements :
    let target : Tree := .atTop .classVariableTargetNode [(.name, .text "@@a")]
    let method : Tree := .atTop .defNode
      [(.name, .text "m"), (.receiver, .null), (.parameters, .null), (.body, .tuple [target])]
    let tree : Tree := .atTop .whenNode [(.conditions, .tuple []), (.statements, method)]
    let clause (tag : Tag) : Value := .atTop .whenClause
      [.atTop .array [], .atTop tag [.sym "@@a"]]
    tree.enclosed = true ∧
      (tree.annotate .inDepth false).convertNoted .inDepth {} = .ok (clause .cvasgn) ∧
      tree.convert {} = .ok (clause .cvdecl) ∧
      tree.convert { inDef := true } = .ok (clause .cvasgn) := by
  intro target method tree clause
  refine ⟨?_, rfl, rfl, rfl⟩
  decide +kernel

end Tree

end RubySexp
