import RubySexp.Node.Outline
import RubySexp.Proofs.Convert.Below
import RubySexp.Proofs.Node.Schema
import RubySexp.Proofs.Text.Decimal

/-!
# The Outline Follows the Walk

A tree can be walked, from each node to its children, and it can be shown as an outline. The two go
through the fields of a node with tests of their own, and a node that stands beside other content
in a sequence ends the outline with an error where the walk passes over the other content. In trees
without such sequences both meet the same nodes in the same order: the lines of the outline that are
no labels are the lines of the nodes on the walk, each behind four blanks for every step down.
-/

namespace RubySexp

/-! ### From a node to its children -/

lemma Tree.nodesOfItems_eq (items : List Tree) :
    nodesOfItems items = (items.filterMap asNode?).flatMap Node.all := by
  induction items with
  | nil => rfl
  | cons item rest ih =>
    cases item <;> simp [nodesOfItems, asNode?, ih, Node.all, List.filterMap_cons]

lemma Tree.nodes_eq (tree : Tree) : tree.nodes = tree.ownNodes.flatMap Node.all := by
  cases tree with
  | node kind location fields => simp [nodes, ownNodes, Node.all]
  | tuple items => rw [nodes, ownNodes, nodesOfItems_eq]
  | _ => rfl

namespace Node

variable {n m : Node}

lemma all_eq (n : Node) : n.all = n :: n.children.flatMap all := by
  obtain ⟨kind, location, fields⟩ := n
  rw [all, children]
  congr 1
  dsimp only
  induction fields with
  | nil => rfl
  | cons entry rest ih =>
    rw [Tree.nodesOfFields, Tree.nodes_eq, ih, List.flatMap_cons, List.flatMap_append]

lemma findAll_eq (kind : Kind) (n : Node) :
    n.findAll kind = (if n.kind = kind then [n] else []) ++ n.children.flatMap (findAll kind) := by
  unfold findAll
  rw [all_eq, List.filter_cons, List.filter_flatMap]
  by_cases hkind : n.kind = kind <;> simp [hkind]

lemma mem_all_of_mem_children {k : Node} (h : m ∈ n.children) (hk : k ∈ m.all) : k ∈ n.all := by
  rw [all_eq]
  exact List.mem_cons_of_mem _ (List.mem_flatMap.mpr ⟨m, h, hk⟩)

lemma mem_all_self (n : Node) : n ∈ n.all := List.mem_cons_self ..

end Node

lemma Tree.height_le_of_mem_ownNodes {m : Node} {tree : Tree} (h : m ∈ tree.ownNodes) :
    (ofNode m).height ≤ tree.height := by
  cases tree with
  | node kind location fields =>
    obtain rfl := List.mem_singleton.mp h
    exact le_refl _
  | tuple items =>
    obtain ⟨item, hitem, hm⟩ := List.mem_filterMap.mp h
    cases item with
    | node kind location fields =>
      cases hm
      exact height_le_of_mem_items hitem
    | _ => cases hm
  | _ => cases h

lemma Node.height_lt_of_mem_children {n m : Node} (h : m ∈ n.children) :
    (Tree.ofNode m).height < (Tree.ofNode n).height := by
  obtain ⟨⟨field, tree⟩, hmem, hm⟩ := List.mem_flatMap.mp h
  have htree := Tree.height_le_of_mem_fields hmem
  have hown := Tree.height_le_of_mem_ownNodes hm
  exact Nat.lt_succ_of_le (hown.trans htree)

namespace Node

theorem childInduction {motive : Node → Prop}
    (step : ∀ n, (∀ m ∈ n.children, motive m) → motive n) (n : Node) : motive n :=
  step n fun m hm =>
    have := height_lt_of_mem_children hm
    childInduction step m
termination_by (Tree.ofNode n).height

/-- A node and all nodes below it, each with the number of steps down to it. -/
def walk (depth : Nat) (n : Node) : List (Nat × Node) :=
  (depth, n) :: n.children.attach.flatMap fun m => walk (depth + 1) m.1
termination_by (Tree.ofNode n).height
decreasing_by exact height_lt_of_mem_children m.2

lemma walk_eq (depth : Nat) (n : Node) :
    n.walk depth = (depth, n) :: n.children.flatMap (walk (depth + 1)) := by
  rw [walk]
  simp

lemma map_walk (depth : Nat) (n : Node) : (n.walk depth).map Prod.snd = n.all := by
  induction n using childInduction generalizing depth with
  | step n ih =>
    rw [walk_eq, all_eq, List.map_cons, List.map_flatMap]
    congr 1
    exact List.flatMap_congr fun m hm => ih m hm _

end Node

/-! ### Lines -/

namespace Tree

/-- The line of a node that is some steps down: four blanks for each, its kind, its plain fields
and, if positions are asked for, its own. -/
def lineAt (positions : Bool) : Nat × Node → List Char
  | (depth, n) => List.replicate (4 * depth) ' ' ++ n.kind.name.toList ++ plainFields n.fields ++
    if positions then n.location.elim [] fun l => ' ' :: '@' :: l.format else []

def labelAt (depth : Nat) (field : Field) : List Char :=
  indent depth ++ field.label.toList ++ [':']

inductive Shows (positions : Bool) : List (Nat × Node) → List (List Char) → Prop
  | nil : Shows positions [] []
  | node {entry entries lines} : Shows positions entries lines →
    Shows positions (entry :: entries) (lineAt positions entry :: lines)
  | label {entries lines} (depth : Nat) (field : Field) : Shows positions entries lines →
    Shows positions entries (labelAt depth field :: lines)

variable {positions : Bool} {entries entries' : List (Nat × Node)} {lines lines' : List (List Char)}

lemma Shows.append (h : Shows positions entries lines) (h' : Shows positions entries' lines') :
    Shows positions (entries ++ entries') (lines ++ lines') := by
  induction h with
  | nil => exact h'
  | node _ ih => exact .node ih
  | label depth field _ ih => exact .label depth field ih

/-! ### Labels and node lines -/

/-- Whether a line names a field: behind its blanks stands a small letter. -/
def isLabel (line : List Char) : Bool := (line.dropWhile (· == ' ')).head?.any Char.isLower

def firstWord (line : List Char) : List Char :=
  (line.dropWhile (· == ' ')).takeWhile (· != ' ')

lemma dropWhile_blanks (count : Nat) {c : Char} {cs : List Char} (hc : c ≠ ' ') :
    (List.replicate count ' ' ++ c :: cs).dropWhile (· == ' ') = c :: cs := by
  induction count with
  | zero => simp [hc]
  | succ count ih => simpa [List.replicate_succ] using ih

def isWord (first : Char → Bool) : List Char → Bool
  | [] => false
  | c :: cs => first c && (c :: cs).all (· != ' ')

lemma eq_cons_of_isWord {first : Char → Bool} {word : List Char} (h : isWord first word = true) :
    ∃ c cs, word = c :: cs ∧ first c = true ∧ c ≠ ' ' ∧ ∀ d ∈ word, (d != ' ') = true := by
  cases word with
  | nil => cases h
  | cons c cs =>
    rw [isWord, Bool.and_eq_true, List.all_eq_true] at h
    exact ⟨c, cs, rfl, h.1, by simpa using h.2 c (by simp), h.2⟩

lemma isWord_kind (kind : Kind) : isWord (!·.isLower) kind.name.toList = true := by
  cases kind <;> exact test_ofList (isWord (!·.isLower)) rfl

lemma isWord_field (field : Field) : isWord Char.isLower field.label.toList = true := by
  cases field <;> exact test_ofList (isWord Char.isLower) rfl

lemma plainFields_eq (fields : List (Field × Tree)) :
    plainFields fields = [] ∨ ∃ cs, plainFields fields = ' ' :: cs := by
  induction fields with
  | nil => exact .inl rfl
  | cons entry rest ih =>
    rw [plainFields, List.flatMap_cons, ← plainFields]
    dsimp only
    split_ifs
    · exact ih
    · exact .inr ⟨_, rfl⟩

lemma lineAt_eq (positions : Bool) (entry : Nat × Node) :
    ∃ tail, lineAt positions entry =
      List.replicate (4 * entry.1) ' ' ++ (entry.2.kind.name.toList ++ tail) ∧
      Stops (· != ' ') tail := by
  obtain ⟨depth, n⟩ := entry
  refine ⟨plainFields n.fields ++
    if positions then n.location.elim [] fun l => ' ' :: '@' :: l.format else [], ?_, ?_⟩
  · simp [lineAt]
  · intro c cs heq
    rcases plainFields_eq n.fields with hfields | ⟨rest, hfields⟩
    · rw [hfields, List.nil_append] at heq
      rcases positions <;> rcases hplace : n.location with _ | l <;> simp [hplace] at heq
      simp [← heq.1]
    · rw [hfields] at heq
      obtain ⟨rfl, -⟩ := List.cons.inj heq
      rfl

lemma isLabel_lineAt (positions : Bool) (entry : Nat × Node) :
    isLabel (lineAt positions entry) = false := by
  obtain ⟨tail, hline, -⟩ := lineAt_eq positions entry
  obtain ⟨c, cs, hname, hlower, hc, -⟩ := eq_cons_of_isWord (isWord_kind entry.2.kind)
  rw [isLabel, hline, hname, List.cons_append, dropWhile_blanks _ hc]
  simpa using hlower

lemma firstWord_lineAt (positions : Bool) (entry : Nat × Node) :
    firstWord (lineAt positions entry) = entry.2.kind.name.toList := by
  obtain ⟨tail, hline, htail⟩ := lineAt_eq positions entry
  obtain ⟨c, cs, hname, -, hc, hword⟩ := eq_cons_of_isWord (isWord_kind entry.2.kind)
  rw [hname] at hword
  rw [firstWord, hline, hname, List.cons_append, dropWhile_blanks _ hc]
  exact takeWhile_run hword htail

lemma isLabel_labelAt (depth : Nat) (field : Field) : isLabel (labelAt depth field) = true := by
  obtain ⟨c, cs, hlabel, hlower, hc, -⟩ := eq_cons_of_isWord (isWord_field field)
  rw [isLabel, labelAt, hlabel, indent, List.append_assoc, List.cons_append, dropWhile_blanks _ hc]
  exact hlower

/-! ### The outline -/

/-- Whether a node has a location, and in none of its sequences nodes beside other content. -/
def Listable (n : Node) : Prop :=
  n.location.isSome = true ∧ ∀ field items, (field, tuple items) ∈ n.fields →
    items.any (·.asNode?.isSome) = true → items.all (·.asNode?.isSome) = true

lemma headLine_eq {n : Node} (h : n.location.isSome = true) (positions : Bool) (depth : Nat) :
    headLine positions (2 * depth) n = .ok (lineAt positions (depth, n)) := by
  obtain ⟨l, hl⟩ := Option.isSome_iff_exists.mp h
  have hindent : indent (2 * depth) = List.replicate (4 * depth) ' ' := by
    rw [indent, ← Nat.mul_assoc]
  cases positions <;> simp [headLine, positionText, lineAt, hl, hindent]

lemma contentLines_node (positions : Bool) (depth : Nat) (n : Node) :
    contentLines positions depth (ofNode n) = (headLine positions depth n).bind fun head =>
      (fieldLines positions depth n.fields).map (head :: ·) := by
  rw [ofNode, contentLines]
  cases headLine positions depth n with
  | error fault => rfl
  | ok head => cases fieldLines positions depth n.fields <;> rfl

lemma itemLines_cons (positions : Bool) (depth : Nat) (n : Node) (rest : List Tree) :
    itemLines positions depth (ofNode n :: rest) =
      (contentLines positions depth (ofNode n)).bind fun own =>
        (itemLines positions depth rest).map (own ++ ·) := by
  rw [contentLines_node, ofNode, itemLines]
  cases headLine positions depth n with
  | error fault => rfl
  | ok head =>
    cases fieldLines positions depth n.fields with
    | error fault => rfl
    | ok below => cases itemLines positions depth rest <;> rfl

lemma fieldLines_cons (positions : Bool) (depth : Nat) (field : Field) (tree : Tree)
    (rest : List (Field × Tree)) :
    fieldLines positions depth ((field, tree) :: rest) =
      (contentLines positions (depth + 2) tree).bind fun own =>
        (fieldLines positions depth rest).map
          ((if tree.holdsNodes then labelAt (depth + 1) field :: own else []) ++ ·) := by
  rw [fieldLines]
  cases contentLines positions (depth + 2) tree with
  | error fault => rfl
  | ok own => cases fieldLines positions depth rest <;> rfl

/-- Whether the lines of a node show what is walked from it. -/
def Outlines (positions : Bool) (depth : Nat) (n : Node) : Prop :=
  ∃ lines, contentLines positions (2 * depth) (ofNode n) = .ok lines ∧
    Shows positions (n.walk depth) lines

variable {depth : Nat}

lemma outlines_items {items : List Tree} (hnodes : items.all (·.asNode?.isSome) = true)
    (h : ∀ m ∈ items.filterMap asNode?, Outlines positions depth m) :
    ∃ lines, itemLines positions (2 * depth) items = .ok lines ∧
      Shows positions ((items.filterMap asNode?).flatMap (Node.walk depth)) lines := by
  induction items with
  | nil => exact ⟨[], rfl, .nil⟩
  | cons item rest ih =>
    rw [List.all_cons, Bool.and_eq_true] at hnodes
    obtain ⟨n, hn⟩ := Option.isSome_iff_exists.mp hnodes.1
    obtain rfl : item = ofNode n := by
      cases item <;> cases hn
      rfl
    rw [List.filterMap_cons_some hn] at h ⊢
    obtain ⟨own, hown, hshows⟩ := h n (by simp)
    obtain ⟨lines, hlines, hrest⟩ := ih hnodes.2 fun m hm => h m (by simp [hm])
    refine ⟨own ++ lines, ?_, hshows.append hrest⟩
    rw [itemLines_cons, hown, hlines]
    rfl

lemma outlines_content {tree : Tree}
    (hnodes : ∀ items, tree = tuple items → items.any (·.asNode?.isSome) = true →
      items.all (·.asNode?.isSome) = true)
    (h : ∀ m ∈ tree.ownNodes, Outlines positions depth m) :
    ∃ lines, contentLines positions (2 * depth) tree = .ok lines ∧
      Shows positions (tree.ownNodes.flatMap (Node.walk depth)) lines ∧
      (tree.holdsNodes = false → lines = []) := by
  cases tree with
  | node kind location fields =>
    obtain ⟨lines, hlines, hshows⟩ := h ⟨kind, location, fields⟩ (by simp [ownNodes])
    exact ⟨lines, hlines, by simpa [ownNodes] using hshows, by simp [holdsNodes]⟩
  | tuple items =>
    by_cases hany : items.any (·.asNode?.isSome) = true
    · obtain ⟨lines, hlines, hshows⟩ := outlines_items (hnodes items rfl hany) h
      refine ⟨lines, ?_, hshows, by simp [holdsNodes, hany]⟩
      rw [contentLines, if_pos hany, hlines]
    · have hown : (tuple items).ownNodes = [] := by
        simpa [ownNodes, List.filterMap_eq_nil_iff] using hany
      refine ⟨[], ?_, ?_, fun _ => rfl⟩
      · rw [contentLines, if_neg hany]
      · rw [hown]
        exact .nil
  | _ => exact ⟨[], rfl, .nil, fun _ => rfl⟩

lemma outlines_fields {fields : List (Field × Tree)}
    (hnodes : ∀ field items, (field, tuple items) ∈ fields →
      items.any (·.asNode?.isSome) = true → items.all (·.asNode?.isSome) = true)
    (h : ∀ m ∈ fields.flatMap (fun entry => entry.2.ownNodes), Outlines positions (depth + 1) m) :
    ∃ lines, fieldLines positions (2 * depth) fields = .ok lines ∧
      Shows positions ((fields.flatMap fun entry => entry.2.ownNodes).flatMap
        (Node.walk (depth + 1))) lines := by
  induction fields with
  | nil => exact ⟨[], rfl, .nil⟩
  | cons entry rest ih =>
    obtain ⟨field, tree⟩ := entry
    have htree : ∀ items, tree = tuple items → items.any (·.asNode?.isSome) = true →
        items.all (·.asNode?.isSome) = true :=
      fun items htree => hnodes field items (by simp [htree])
    obtain ⟨own, hown, hshows, hempty⟩ := outlines_content htree fun m hm => h m (by simp [hm])
    have hbelow : ∀ m ∈ rest.flatMap (fun entry => entry.2.ownNodes),
        Outlines positions (depth + 1) m := by
      intro m hm
      rw [List.flatMap_cons] at h
      exact h m (List.mem_append_right _ hm)
    obtain ⟨lines, hlines, hrest⟩ :=
      ih (fun field items hmem => hnodes field items (by simp [hmem])) hbelow
    rw [fieldLines_cons, show 2 * depth + 2 = 2 * (depth + 1) from rfl, hown, hlines]
    refine ⟨_, rfl, ?_⟩
    rw [List.flatMap_cons, List.flatMap_append]
    refine Shows.append ?_ hrest
    by_cases hholds : tree.holdsNodes = true
    · rw [if_pos hholds]
      exact .label _ field hshows
    · rw [hempty (by simpa using hholds)] at hshows
      simpa [hholds] using hshows

/-- **Every listable node is shown with all that is walked from it.** -/
lemma outlines_of_listable (positions : Bool) (n : Node) (h : ∀ m ∈ n.all, Listable m)
    (depth : Nat) : Outlines positions depth n := by
  induction n using Node.childInduction generalizing depth with
  | step n ih =>
    obtain ⟨hlocation, hnodes⟩ := h n n.mem_all_self
    obtain ⟨lines, hlines, hshows⟩ := outlines_fields hnodes fun m hm =>
      ih m hm (fun k hk => h k (Node.mem_all_of_mem_children hm hk)) (depth + 1)
    refine ⟨lineAt positions (depth, n) :: lines, ?_, ?_⟩
    · rw [contentLines_node, headLine_eq hlocation, hlines]
      rfl
    · rw [Node.walk_eq]
      exact .node hshows

lemma Shows.filter_eq (h : Shows positions entries lines) :
    lines.filter (!isLabel ·) = entries.map (lineAt positions) := by
  induction h with
  | nil => rfl
  | node _ ih => simp [isLabel_lineAt, ih]
  | label depth field _ ih => simp [isLabel_labelAt, ih]

lemma Shows.eq_label (h : Shows positions entries lines) {line : List Char} (hline : line ∈ lines)
    (hlabel : isLabel line = true) : ∃ depth field, line = labelAt depth field := by
  induction h with
  | nil => cases hline
  | @node entry _ _ _ ih =>
    rcases List.mem_cons.mp hline with rfl | hline
    · rw [isLabel_lineAt] at hlabel
      cases hlabel
    · exact ih hline
  | label depth field _ ih =>
    rcases List.mem_cons.mp hline with rfl | hline
    · exact ⟨depth, field, rfl⟩
    · exact ih hline

/-- **The two walks agree**: if every node below a node, and the node itself, has a location and no
sequence with nodes beside other content, then the outline of the node is printed without an error.
Its lines that are no labels are those of the nodes on the walk, in order, each behind four blanks
for every step down and starting with its kind. The walk goes from each node to its children, and
the nodes of a kind are found by the same walk. -/
theorem outline_follows_walk (positions : Bool) (n : Node) (h : ∀ m ∈ n.all, Listable m) :
    (∃ lines, outline positions (ofNode n) = .ok lines ∧
      lines.filter (!isLabel ·) = (n.walk 0).map (lineAt positions) ∧
      (lines.filter (!isLabel ·)).map firstWord = n.all.map (·.kind.name.toList) ∧
      ∀ line ∈ lines, isLabel line = true → ∃ depth field, line = labelAt depth field) ∧
    (n.walk 0).map Prod.snd = n.all ∧
    (∀ m : Node, m.all = m :: m.children.flatMap Node.all) ∧
    ∀ kind, n.findAll kind = n.all.filter (·.kind == kind) ∧ ∀ m : Node,
      m.findAll kind =
        (if m.kind = kind then [m] else []) ++ m.children.flatMap (Node.findAll kind) := by
  obtain ⟨lines, hlines, hshows⟩ := outlines_of_listable positions n h 0
  refine ⟨⟨lines, hlines, hshows.filter_eq, ?_, fun line => hshows.eq_label⟩, Node.map_walk 0 n,
    Node.all_eq, fun kind => ⟨rfl, Node.findAll_eq kind⟩⟩
  rw [hshows.filter_eq, List.map_map, ← Node.map_walk 0 n, List.map_map]
  exact List.map_congr_left fun entry _ => firstWord_lineAt positions entry

/-- A call with a receiver, two arguments, one of them with a plain field, and no block. -/
theorem outline_follows_walk_call :
    let one : Node := ⟨.integerNode, some {}, [(.value, .int 1)]⟩
    let args : Node := ⟨.argumentsNode, some {},
      [(.arguments, .tuple [.ofNode one, .ofNode ⟨.selfNode, some {}, []⟩])]⟩
    let n : Node := ⟨.callNode, some (.lines (.int 1) (.int 2)), [(.receiver, .ofNode one),
      (.name, .text "+"), (.arguments, .ofNode args), (.block, .null), (.names, .tuple [])]⟩
    (∀ m ∈ n.all, Listable m) ∧ n.all.length = 5 ∧
    (∃ lines, outline true (ofNode n) = .ok lines ∧
      lines.filter (!isLabel ·) = (n.walk 0).map (lineAt true) ∧
      (lines.filter (!isLabel ·)).map firstWord = n.all.map (·.kind.name.toList) ∧
      ∀ line ∈ lines, isLabel line = true → ∃ depth field, line = labelAt depth field) ∧
    (n.walk 0).map Prod.snd = n.all ∧
    (∀ m : Node, m.all = m :: m.children.flatMap Node.all) ∧
    ∀ kind, n.findAll kind = n.all.filter (·.kind == kind) ∧ ∀ m : Node,
      m.findAll kind =
        (if m.kind = kind then [m] else []) ++ m.children.flatMap (Node.findAll kind) := by
  intro one args n
  have h : ∀ m ∈ n.all, Listable m := by
    simp [n, args, one, Node.all, nodesOfFields, nodes, nodesOfItems, ofNode, Listable, asNode?]
  exact ⟨h, rfl, outline_follows_walk true n h⟩

end Tree

end RubySexp
