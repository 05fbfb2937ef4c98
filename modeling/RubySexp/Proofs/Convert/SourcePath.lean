import RubySexp.Proofs.Convert.LexicalScope

/-!
# The Path of the Source File

A conversion can be told under which path the source file is known. The path is handed down to every
rule, but only the nodes for the source file show it: a conversion with a path has the same outcome
as one without, of a tree in which these nodes record the path themselves. This needs that the nodes
stand where they are converted. A node that stands in the place of a name, a number or a flag goes
into the outcome as it is, and there the path is not seen.

Two paths lead to outcomes of one shape: the path is joined with the texts around it, and what is
done with a text depends only on whether it is empty. The outcomes are the same but for the places
in texts and names where one holds one path and the other the other.
-/

namespace RubySexp

namespace Tree

def isNoFile (n : Node) : Bool := n.kind != .sourceFileNode

/-- Whether a tree has no node for the source file. -/
def fileFree : Tree → Bool := everyNode isNoFile

/-- Whether the content of a node that is used as it is has no node for the source file. -/
def dataFileFree (n : Node) : Bool :=
  n.fields.all fun (field, tree) => !n.kind.isData field || tree.fileFree

/-- Whether every node for the source file stands where it is converted. -/
def filesConverted : Tree → Bool := everyNode dataFileFree

def recordsFile (kind : Kind) (field : Field) : Bool :=
  kind == .sourceFileNode && field == .filepath

mutual

/-- A tree in which the nodes for the source file record another path, as far as they stand in
fields that are entered. -/
def relabel (enters : Kind → Field → Bool) (path : String) : Tree → Tree
  | .scalar s => .scalar s
  | .span l => .span l
  | .tuple items => .tuple (relabelItems enters path items)
  | .node kind location fields => .node kind location (relabelFields enters path kind fields)

def relabelItems (enters : Kind → Field → Bool) (path : String) : List Tree → List Tree
  | [] => []
  | item :: rest => relabel enters path item :: relabelItems enters path rest

def relabelFields (enters : Kind → Field → Bool) (path : String) (kind : Kind) :
    List (Field × Tree) → List (Field × Tree)
  | [] => []
  | (field, tree) :: rest =>
    (field,
      if recordsFile kind field then .text path
      else if enters kind field then relabel enters path tree else tree) ::
      relabelFields enters path kind rest

end

/-- A tree in which every node for the source file records a path. -/
def withFile (path : String) : Tree → Tree := relabel (fun _ _ => true) path

/-- A tree in which the nodes for the source file record a path, apart from content that is used as
it is. -/
def withFileInParts (path : String) : Tree → Tree :=
  relabel (fun kind field => !kind.isData field) path

/-! ### Trees without nodes for the source file -/

section Relabel

variable {enters : Kind → Field → Bool} {path : String}

mutual

lemma relabel_of_fileFree : ∀ {tree : Tree}, tree.fileFree = true → relabel enters path tree = tree
  | .scalar _, _ | .span _, _ => rfl
  | .tuple items, h => by
    rw [relabel, relabelItems_of_fileFree h]
  | .node kind location fields, h => by
    rw [fileFree, everyNode, Bool.and_eq_true, isNoFile, bne_iff_ne] at h
    rw [relabel, relabelFields_of_fileFree h.1 h.2]

lemma relabelItems_of_fileFree : ∀ {items : List Tree},
    everyNodeOfItems isNoFile items = true →
    relabelItems enters path items = items
  | [], _ => rfl
  | item :: rest, h => by
    rw [everyNodeOfItems, Bool.and_eq_true] at h
    rw [relabelItems, relabel_of_fileFree h.1, relabelItems_of_fileFree h.2]

lemma relabelFields_of_fileFree : ∀ {kind : Kind} {fields : List (Field × Tree)},
    kind ≠ .sourceFileNode →
    everyNodeOfFields isNoFile fields = true →
    relabelFields enters path kind fields = fields
  | _, [], _, _ => rfl
  | kind, (field, tree) :: rest, hkind, h => by
    rw [everyNodeOfFields, Bool.and_eq_true] at h
    have hrecords : recordsFile kind field = false := by simp [recordsFile, hkind]
    rw [relabelFields, relabel_of_fileFree h.1, relabelFields_of_fileFree hkind h.2, hrecords]
    simp

end

def relabelContent (enters : Kind → Field → Bool) (path : String) (kind : Kind) (field : Field)
    (tree : Tree) : Tree :=
  if recordsFile kind field then .text path
  else if enters kind field then relabel enters path tree else tree

def relabelNode (enters : Kind → Field → Bool) (path : String) (n : Node) : Node :=
  ⟨n.kind, n.location, relabelFields enters path n.kind n.fields⟩

lemma relabel_ofNode (n : Node) :
    relabel enters path (ofNode n) = ofNode (relabelNode enters path n) := by
  rw [ofNode, relabel]
  rfl

lemma relabelItems_eq_map (items : List Tree) :
    relabelItems enters path items = items.map (relabel enters path) := by
  induction items with
  | nil => rfl
  | cons item rest ih => rw [relabelItems, ih, List.map_cons]

lemma find?_relabelFields (kind : Kind) (field : Field) (fields : List (Field × Tree)) :
    ((relabelFields enters path kind fields).find? (·.1 == field)).map Prod.snd =
      ((fields.find? (·.1 == field)).map Prod.snd).map
        (relabelContent enters path kind field) := by
  induction fields with
  | nil => rfl
  | cons first rest ih =>
    obtain ⟨field', tree⟩ := first
    rw [relabelFields, List.find?_cons, List.find?_cons]
    by_cases hfield : field' = field
    · subst hfield
      simp [relabelContent]
    · rw [beq_eq_false_iff_ne.mpr hfield]
      exact ih

lemma get_relabelNode (enters : Kind → Field → Bool) (path : String) (n : Node) (field : Field) :
    (relabelNode enters path n).get field =
      (n.get field).map (relabelContent enters path n.kind field) := by
  have hget : (relabelNode enters path n).get? field =
      (n.get? field).map (relabelContent enters path n.kind field) :=
    find?_relabelFields n.kind field n.fields
  unfold Node.get
  rw [hget]
  cases n.get? field <;> rfl

mutual

lemma height_relabel_le : ∀ tree : Tree, (relabel enters path tree).height ≤ tree.height
  | .scalar _ | .span _ => le_rfl
  | .tuple items => by
    rw [relabel, height, height]
    exact heightItems_relabel_le items
  | .node kind location fields => by
    rw [relabel, height, height]
    exact Nat.succ_le_succ (heightFields_relabel_le kind fields)

lemma heightItems_relabel_le : ∀ items : List Tree,
    heightItems (relabelItems enters path items) ≤ heightItems items
  | [] => le_rfl
  | item :: rest => by
    rw [relabelItems, heightItems, heightItems]
    exact max_le_max (height_relabel_le item) (heightItems_relabel_le rest)

lemma heightFields_relabel_le (kind : Kind) : ∀ fields : List (Field × Tree),
    heightFields (relabelFields enters path kind fields) ≤ heightFields fields
  | [] => le_rfl
  | (field, tree) :: rest => by
    rw [relabelFields, heightFields, heightFields]
    refine max_le_max ?_ (heightFields_relabel_le kind rest)
    split
    · exact Nat.zero_le _
    · split
      · exact height_relabel_le tree
      · exact le_rfl

end

end Relabel

mutual

lemma withFile_eq {path : String} : ∀ {tree : Tree}, tree.filesConverted = true →
    tree.withFile path = tree.withFileInParts path
  | .scalar _, _ | .span _, _ => rfl
  | .tuple items, h => congrArg tuple (withFileItems_eq h)
  | .node kind location fields, h => by
    rw [filesConverted, everyNode, Bool.and_eq_true] at h
    exact congrArg (node kind location) (withFileFields_eq h.1 h.2)

lemma withFileItems_eq {path : String} : ∀ {items : List Tree},
    everyNodeOfItems dataFileFree items = true →
    relabelItems (fun _ _ => true) path items =
      relabelItems (fun kind field => !kind.isData field) path items
  | [], _ => rfl
  | item :: rest, h => by
    rw [everyNodeOfItems, Bool.and_eq_true] at h
    exact congrArg₂ List.cons (withFile_eq h.1) (withFileItems_eq h.2)

lemma withFileFields_eq {path : String} {kind : Kind} : ∀ {fields : List (Field × Tree)},
    (fields.all fun (field, tree) => !kind.isData field || tree.fileFree) = true →
    everyNodeOfFields dataFileFree fields = true →
    relabelFields (fun _ _ => true) path kind fields =
      relabelFields (fun kind field => !kind.isData field) path kind fields
  | [], _, _ => rfl
  | (field, tree) :: rest, hown, h => by
    rw [List.all_cons, Bool.and_eq_true] at hown
    rw [everyNodeOfFields, Bool.and_eq_true] at h
    have htree : tree.withFile path = tree.withFileInParts path := withFile_eq h.1
    rw [withFile, withFileInParts] at htree
    rw [relabelFields, relabelFields, withFileFields_eq hown.2 h.2, htree]
    by_cases hdata : kind.isData field = true
    · have hfree : tree.fileFree = true := by simpa [hdata] using hown.1
      simp [hdata, relabel_of_fileFree hfree]
    · simp [hdata]

end

end Tree

/-! ### Texts in which one path stands for another -/

/-- Two texts are the same up to the places where one of them has one path and the other the
other. -/
inductive Reworded (path path' : String) : String → String → Prop
  | refl (s) : Reworded path path' s s
  | path : Reworded path path' path path'
  | append {a a' b b'} : Reworded path path' a a' → Reworded path path' b b' →
    Reworded path path' (a ++ b) (a' ++ b')
  | symm {a b} : Reworded path path' a b → Reworded path path' b a
  | trans {a b c} : Reworded path path' a b → Reworded path path' b c → Reworded path path' a c

namespace Reworded

variable {path path' a b : String}

lemma eq_empty_iff (h : Reworded path path' a b) (hpath : path ≠ "") (hpath' : path' ≠ "") :
    a = "" ↔ b = "" := by
  induction h with
  | refl => rfl
  | path => simp [hpath, hpath']
  | append _ _ ihLeft ihRight =>
    rw [String.append_eq_empty_iff, String.append_eq_empty_iff, ihLeft, ihRight]
  | symm _ ih => exact ih.symm
  | trans _ _ ih ih' => exact ih.trans ih'

def setoid (path path' : String) : Setoid String := ⟨Reworded path path', .refl, .symm, .trans⟩

/-- One of the texts that are the same as a text up to the paths in it. -/
noncomputable def sample (path path' s : String) : String :=
  (Quotient.mk (setoid path path') s).out

lemma sample_eq_iff : sample path path' a = sample path path' b ↔ Reworded path path' a b := by
  unfold sample
  rw [Quotient.out_inj]
  exact Quotient.eq

end Reworded

/-- Two paths look alike wherever they occur in a text or a name. Everything else is seen. -/
noncomputable def Blur.paths {path path' : String} (hpath : path ≠ "") (hpath' : path' ≠ "") :
    Blur where
  tag tag := tag
  text := Reworded.sample path path'
  name := Reworded.sample path path'
  watched h _ := h.symm
  name_of_tag h := congrArg (Reworded.sample path path') (congrArg Tag.name h)
  name_of_text h := h
  text_append ha hb :=
    Reworded.sample_eq_iff.2 ((Reworded.sample_eq_iff.1 ha).append (Reworded.sample_eq_iff.1 hb))
  empty_of_text h := ((Reworded.sample_eq_iff.1 h).eq_empty_iff hpath hpath').1

namespace Convert

/-! ### Conversions with and without a path -/

structure Paths (path path' : Option String) (s s' : Scope) : Prop where
  inDef : s'.inDef = s.inDef
  inParameters : s'.inParameters = s.inParameters
  left : s.filepath = path
  right : s'.filepath = path'

variable {path path' : Option String} {s s' : Scope} {n : Node}

lemma Paths.below (h : Paths path path' s s') (kind : Kind) (field : Field) :
    Paths path path' (scopeBelow kind field s) (scopeBelow kind field s') := by
  obtain ⟨hdef, hparameters, hleft, hright⟩ := h
  unfold scopeBelow
  split
  · split
    · exact ⟨rfl, rfl, hleft, hright⟩
    · split
      · exact ⟨hdef, rfl, hleft, hright⟩
      · exact ⟨rfl, hparameters, hleft, hright⟩
  · exact ⟨hdef, hparameters, hleft, hright⟩

lemma recast_withFileInParts (path : String) : Recast fun _ => Tree.withFileInParts path where
  scalar _ _ := rfl
  span _ _ := rfl
  tuple _ items := by rw [Tree.withFileInParts, Tree.relabel, Tree.relabelItems_eq_map]
  node _ n := by
    refine ⟨_, Tree.relabel_ofNode n, rfl, rfl, fun field hdata => ?_, fun field hpart => ?_⟩
    · have hrecords : Tree.recordsFile n.kind field = false := by
        have hfield : field ≠ .filepath := by
          rintro rfl
          cases hdata
        simp [Tree.recordsFile, hfield]
      have hkeep : Tree.relabelContent (fun kind field => !kind.isData field) path n.kind field =
          id := by
        funext tree
        simp [Tree.relabelContent, hrecords, hdata]
      rw [Tree.get_relabelNode, hkeep]
      cases n.get field <;> rfl
    · simp only [Kind.isPart, Bool.and_eq_true, Bool.not_eq_true', bne_iff_ne] at hpart
      have hrecords : Tree.recordsFile n.kind field = false := by
        simp [Tree.recordsFile, hpart.2]
      have hmap : Tree.relabelContent (fun kind field => !kind.isData field) path n.kind field =
          Tree.withFileInParts path := by
        funext tree
        simp [Tree.relabelContent, Tree.withFileInParts, hrecords, hpart.1.1]
      rw [Tree.get_relabelNode, hmap]

lemma like_of_paths {φ : Blur} {g : Tree → Tree} {P : Tree → Prop} (hrecast : Recast fun _ => g)
    (hheld : ∀ {tree field part}, P tree → tree.get field = .ok part → part.Held P)
    (hfile : ∀ {s s' n n'}, P (.ofNode n) → Paths path path' s s' → g (.ofNode n) = .ofNode n' →
      n.kind = .sourceFileNode → φ.Like (sourceFile s n) (sourceFile s' n'))
    {tree : Tree} (htree : P tree) (hheight : (g tree).height ≤ tree.height)
    (hs : Paths path path' s s') : φ.Like (tree.convert s) ((g tree).convert s') := by
  have hside : SideBySide φ.everywhere (fun _ => g) (Paths path path') P (fun scope _ => scope)
      convertAt :=
    { toRecast := hrecast
      inParameters := Paths.inParameters
      below := Paths.below
      held := hheld
      clause := fun _ _ _ _ _ _ _ => rfl
      place := fun _ _ => trivial
      leaf := fun k s _ htree => convertAt_leaf htree k s
      step := fun _ _ _ => rfl
      entered := fun _ h => h
      write := fun h _ _ => by simp only [Variable.writeTag, h.inDef]
      file := fun hn hs heq hkind => Blur.like_everywhere.mpr (hfile hn hs heq hkind) }
  rw [← convertAt_eq_convert hheight s']
  exact Blur.like_everywhere.mp ((hside.parallel tree.height).conv hs ⟨le_rfl, htree⟩)

lemma sourceFile_of_path {path : String} (h : s.filepath = some path) (hpath : path ≠ "") :
    sourceFile s n = (n.get .filepath).bind fun _ => build n.location .str [.text path] := by
  have hempty : (path == "") = false := beq_eq_false_iff_ne.mpr hpath
  rw [sourceFile, h]
  cases n.get .filepath with
  | error fault => rfl
  | ok recorded =>
    simp only [hempty]
    rfl

lemma sourceFile_relabelNode {enters : Kind → Field → Bool} {path : String}
    (h : s.filepath = none) (hpath : path ≠ "") (hkind : n.kind = .sourceFileNode) :
    sourceFile s (Tree.relabelNode enters path n) =
      (n.get .filepath).bind fun _ => build n.location .str [.text path] := by
  have htruthy : (Tree.text path).truthy = true := by simp [Tree.truthy, Scalar.truthy, hpath]
  have hrecords : Tree.recordsFile n.kind .filepath = true := by simp [Tree.recordsFile, hkind]
  have hget := Tree.get_relabelNode enters path n .filepath
  rw [sourceFile, h, hget]
  cases n.get .filepath with
  | error fault => rfl
  | ok recorded =>
    simp only [Except.map, Tree.relabelContent, hrecords, if_true]
    change build n.location .str [if (Tree.text path).truthy then .text path else _] = _
    rw [if_pos htruthy]
    rfl

end Convert

namespace Tree

lemma convert_path {tree : Tree} (h : tree.filesConverted = true) {path : String}
    (hpath : path ≠ "") (scope : Scope) :
    tree.convert { scope with filepath := some path } =
      (tree.withFile path).convert { scope with filepath := none } := by
  rw [withFile_eq h]
  refine Blur.eq_of_like_exact ?_
  refine Convert.like_of_paths (P := fun _ => True) (Convert.recast_withFileInParts path)
    (fun _ _ => ⟨trivial, fun _ _ => trivial⟩) ?_ trivial (height_relabel_le tree)
    ⟨rfl, rfl, rfl, rfl⟩
  intro s s' n n' _ hs heq hkind
  obtain rfl : n' = relabelNode _ path n := ofNode_injective (heq.symm.trans (relabel_ofNode n))
  refine .of_eq ?_ fun _ _ => rfl
  rw [Convert.sourceFile_of_path hs.left hpath,
    Convert.sourceFile_relabelNode hs.right hpath hkind]

lemma convert_fileFree {tree : Tree} (h : tree.fileFree = true) (scope : Scope)
    (path path' : Option String) :
    tree.convert { scope with filepath := path } =
      tree.convert { scope with filepath := path' } := by
  refine Blur.eq_of_like_exact ?_
  refine Convert.like_of_paths Convert.Recast.id held_of_everyNode ?_ h le_rfl
    ⟨rfl, rfl, rfl, rfl⟩
  intro s s' n n' hn _ _ hkind
  rw [ofNode, everyNode, Bool.and_eq_true, isNoFile, bne_iff_ne] at hn
  exact absurd hkind hn.1

lemma convert_paths_alike (tree : Tree) (scope : Scope) {path path' : String} (hpath : path ≠ "")
    (hpath' : path' ≠ "") :
    (Blur.paths hpath hpath').Like (tree.convert { scope with filepath := some path })
      (tree.convert { scope with filepath := some path' }) := by
  refine Convert.like_of_paths (P := fun _ => True) Convert.Recast.id
    (fun _ _ => ⟨trivial, fun _ _ => trivial⟩) ?_ trivial le_rfl ⟨rfl, rfl, rfl, rfl⟩
  intro s s' n n' _ hs heq _
  obtain rfl := ofNode_injective heq
  rw [Convert.sourceFile_of_path hs.left hpath, Convert.sourceFile_of_path hs.right hpath']
  have hsample : Reworded.sample path path' path = Reworded.sample path path' path' :=
    Reworded.sample_eq_iff.2 .path
  refine Blur.like_everywhere.1 (.bind_same fun _ _ => ?_)
  exact View.build (fun _ _ => trivial) rfl (.cons (View.same_text.2 hsample) .nil)

/-- **A path is seen only in the nodes for the source file.** If they all stand where they are
converted, a conversion with a path has the outcome of one without of the tree in which they record
the path. A tree that has none of them is converted alike whatever the path. In any case two
paths lead to outcomes that are the same but for the places in texts and names that hold the
path. -/
theorem convert_path_only_in_files (tree : Tree) (scope : Scope) (path : String)
    (hpath : path ≠ "") :
    (tree.filesConverted = true →
      tree.convert { scope with filepath := some path } =
        (tree.withFile path).convert { scope with filepath := none }) ∧
    (tree.fileFree = true → ∀ other other' : Option String,
      tree.convert { scope with filepath := other } =
        tree.convert { scope with filepath := other' }) ∧
    ∀ other (hother : other ≠ ""),
      (Blur.paths hpath hother).Like (tree.convert { scope with filepath := some path })
        (tree.convert { scope with filepath := some other }) :=
  ⟨fun h => convert_path h hpath scope, fun h => convert_fileFree h scope,
    fun _ hother => convert_paths_alike tree scope hpath hother⟩

/-- A symbol in which the path is joined with the text before it. -/
theorem convert_path_in_symbol :
    let file (path : Tree) : Tree := .atTop .embeddedStatementsNode
      [(.statements, .atTop .statementsNode
        [(.body, .tuple [.atTop .sourceFileNode [(.filepath, path)]])])]
    let tree (path : Tree) : Tree := .atTop .interpolatedSymbolNode
      [(.parts, .tuple [.atTop .stringNode [(.unescaped, .text "in ")], file path])]
    let symbol (name : String) : Value := .atTop .lit [.sym name]
    (tree .null).filesConverted = true ∧ (tree .null).withFile "a.rb" = tree (.text "a.rb") ∧
      (tree .null).convert { filepath := some "a.rb" } = .ok (symbol "in a.rb") ∧
      ∃ (hpath : "a.rb" ≠ "") (hother : "b" ≠ ""), (Blur.paths hpath hother).Like
        (.ok (symbol "in a.rb")) ((tree .null).convert { filepath := some "b" }) := by
  intro file tree symbol
  have hconverted : (tree .null).filesConverted = true := by decide +kernel
  have hpath : "a.rb" ≠ "" := by decide
  obtain ⟨hfile, -, halike⟩ := convert_path_only_in_files (tree .null) {} "a.rb" hpath
  have hoffered : (tree .null).convert { filepath := some "a.rb" } = .ok (symbol "in a.rb") :=
    (hfile hconverted).trans (by rfl)
  have hother : "b" ≠ "" := by decide
  refine ⟨hconverted, rfl, hoffered, hpath, hother, ?_⟩
  rw [← hoffered]
  exact halike "b" hother

/-- With a node for the source file in the place of a number, the path is not seen, and the node
goes into the outcome as it is. -/
theorem convert_file_for_number :
    let file (path : String) : Tree := .atTop .sourceFileNode [(.filepath, .text path)]
    let number (path : String) : Tree := .atTop .integerNode [(.value, file path)]
    let literal (path : String) : Value := .atTop .lit [(file path).toValue]
    (number "a").filesConverted = false ∧ (number "a").withFile "b" = number "b" ∧
      (number "a").convert { filepath := some "b" } = .ok (literal "a") ∧
      (number "b").convert {} = .ok (literal "b") ∧ literal "a" ≠ literal "b" := by
  intro file number literal
  refine ⟨?_, rfl, rfl, rfl, ?_⟩
  · decide +kernel
  · simp [literal, file, atTop, Value.atTop, toValue]

end Tree

end RubySexp
