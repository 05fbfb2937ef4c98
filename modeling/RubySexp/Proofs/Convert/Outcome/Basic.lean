import RubySexp.Proofs.Convert.Below
import RubySexp.Proofs.Node.Shape
import RubySexp.Proofs.Sexp.Grammar

/-!
# Outcomes: Common Ground

A conversion ends in a value or in a fault. Which values and which faults depends on the place of
the tree and on how much is asked of it: of a strict tree nothing is missing from the result, and
the only fault is a kind without a conversion; where exceptions go to targets only, the result
conforms to the grammar. Each rule is shown to keep this, given that the conversion of the trees
below does.
-/

namespace RubySexp

/-! ### Trees below a node -/

namespace Tree

/-- A tree stands below a node. -/
def Within (tree : Tree) (n : Node) : Prop :=
  tree.height < (ofNode n).height ∧ tree.nodes ⊆ (ofNode n).nodes

def Under (tree : Tree) (n : Node) : Prop :=
  tree.height ≤ (ofNode n).height ∧ tree.nodes ⊆ (ofNode n).nodes

variable {tree part : Tree} {n : Node} {field : Field}

lemma Under.refl (n : Node) : (ofNode n).Under n := ⟨le_rfl, List.Subset.refl _⟩

lemma Within.under (h : tree.Within n) : tree.Under n := ⟨h.1.le, h.2⟩

lemma Under.get {m : Node} (h : (ofNode m).Under n) (hget : m.get field = .ok part) :
    part.Within n :=
  ⟨(height_lt_of_node_get hget).trans_le h.1,
    List.Subset.trans (nodes_subset_of_node_get hget) h.2⟩

lemma Within.item {items : List Tree} {m : Node} (h : (Tree.tuple items).Within n)
    (hm : ofNode m ∈ items) : (ofNode m).Within n := by
  refine ⟨(height_le_of_mem_items hm).trans_lt ?_,
    List.Subset.trans (nodes_subset_of_mem_items hm) ?_⟩
  · simpa [height] using h.1
  · simpa [nodes] using h.2

/-! ### Contents of a tree that fits -/

variable {r : Rigour} {role : Role} {content : Content}

lemma eq_ofNode_of_fits (h : tree.fits r role = true) : ∃ m, tree = ofNode m := by
  cases tree with
  | node kind location fields => exact ⟨⟨kind, location, fields⟩, rfl⟩
  | _ => cases h

lemma isNull_of_fits (h : tree.fits r role = true) : tree.isNull = false := by
  obtain ⟨m, rfl⟩ := eq_ofNode_of_fits h
  rfl

lemma isNumbered_of_fits (h : tree.fits r role = true) :
    Location.isNumbered tree.location? = true := by
  obtain ⟨m, rfl⟩ := eq_ofNode_of_fits h
  exact (fits_node.mp h).2.1

lemma kind_of_isA {m : Node} {kind : Kind} (h : (ofNode m).isA kind = true) : m.kind = kind := by
  simpa [ofNode, isA] using h

lemma null_or_fits_of_holds (h : tree.holds r (.optional role) = true) :
    tree = .null ∨ tree.fits r role = true := by
  rcases tree with ⟨_ | _ | _ | _ | _⟩ | _ | _ | ⟨kind, location, fields⟩
  case scalar.null => exact Or.inl rfl
  case node =>
    refine Or.inr ?_
    simpa only [fits, holds, Content.node?] using h
  all_goals cases h

lemma eq_bool_of_holds (h : tree.holds r .flag = true) : ∃ b, tree = .bool b := by
  rcases tree with ⟨_ | b | _ | _ | _⟩ | _ | _ | _
  case scalar.bool => exact ⟨b, rfl⟩
  all_goals cases h

lemma eq_name_of_holds (h : tree.holds r .name = true) :
    ∃ s, tree = .text s ∧ (r.sound = true → s ≠ "") := by
  rcases tree with ⟨_ | _ | _ | _ | s⟩ | _ | _ | _
  case scalar.text =>
    refine ⟨s, rfl, fun hr => ?_⟩
    simpa [holds, Content.allows, hr] using h
  all_goals cases h

end Tree

def Node.Keeps (r : Rigour) (n : Node) (field : Field) (content : Content) : Prop :=
  ∃ tree, n.get field = .ok tree ∧ tree.holds r content = true

/-! ### Values in their places -/

namespace Value

/-- A value is what a seat asks for. Below it the grammar is kept, provided that exceptions go to
targets only. -/
structure Sits (r : Rigour) (seat : Seat) (v : Value) : Prop where
  accepts : seat.accepts v = true
  conforms : r.assigned = true → v.conforms = true

def SitEach (r : Rigour) : List Seat → List Value → Prop
  | [], [] => True
  | seat :: seats, v :: vs => v.Sits r seat ∧ SitEach r seats vs
  | _, _ => False

/-- A string holds one text, which can be joined to a text before it. -/
def Joinable : Value → Prop
  | .sexp .str kids _ _ => ∃ content, kids = [.text content]
  | _ => True

/-- The parts of a string with computed parts can be added to those of another literal. -/
def Foldable : Value → Prop
  | .sexp .str kids _ _ => ∃ content, kids = [.text content]
  | .sexp .dstr kids _ _ =>
    ∃ head rest, kids = .text head :: rest ∧ ∀ kid ∈ rest, kid.isBranch = true ∧ kid.Joinable
  | _ => True

structure IsExpression (r : Rigour) (v : Value) : Prop where
  sits : v.Sits r .branch
  present : r.sound = true → v ≠ .nil
  foldable : v.Foldable

variable {r : Rigour} {v : Value}

lemma Sits.any {seat : Seat} (h : v.Sits r seat) : v.Sits r .any := ⟨rfl, h.conforms⟩

lemma Sits.branch {tags : List Tag} (h : v.Sits r (.tagged tags)) : v.Sits r .branch := by
  refine ⟨?_, h.conforms⟩
  cases v with
  | sexp => rfl
  | _ => cases h.accepts

lemma Sits.left {a b : Seat} (h : v.Sits r a) : v.Sits r (.either a b) :=
  ⟨by simp [Seat.accepts, h.accepts], h.conforms⟩

lemma Sits.right {a b : Seat} (h : v.Sits r b) : v.Sits r (.either a b) :=
  ⟨by simp [Seat.accepts, h.accepts], h.conforms⟩

lemma sits_nil : (Value.nil).Sits r .branch := ⟨rfl, fun _ => rfl⟩

lemma sits_symbol (label : String) : (Value.sym label).Sits r .symbol := ⟨rfl, fun _ => rfl⟩

lemma IsExpression.cases (h : v.IsExpression r) :
    (∃ tag kids line maxLine, v = .sexp tag kids line maxLine) ∨ r.sound = false ∧ v = .nil := by
  rcases v with
    ⟨_ | _ | _ | _ | _⟩ | _ | _ | _ | _ | _ | ⟨tag, kids, line, maxLine⟩ | _ | _ | _ | _ | _
  case scalar.null =>
    refine Or.inr ⟨?_, rfl⟩
    by_contra hr
    exact h.present (by simpa using hr) rfl
  case sexp => exact Or.inl ⟨tag, kids, line, maxLine, rfl⟩
  all_goals cases h.sits.accepts

lemma Joinable.of_foldable (h : v.Foldable) : v.Joinable := by
  cases v with
  | sexp tag kids line maxLine => cases tag <;> first | exact h | trivial
  | _ => trivial

lemma SitEach.accepts {seats : List Seat} {vs : List Value} (h : SitEach r seats vs) :
    Seat.acceptsEach seats vs = true := by
  induction seats generalizing vs with
  | nil => cases vs <;> first | rfl | cases h
  | cons seat seats ih =>
    cases vs with
    | nil => cases h
    | cons first rest => simp [Seat.acceptsEach, h.1.accepts, ih h.2]

lemma SitEach.conforms {seats : List Seat} {vs : List Value} (h : SitEach r seats vs)
    (hr : r.assigned = true) : ∀ v ∈ vs, v.conforms = true := by
  induction seats generalizing vs with
  | nil =>
    cases vs with
    | nil => nofun
    | cons first rest => cases h
  | cons seat seats ih =>
    cases vs with
    | nil => cases h
    | cons first rest =>
      rw [List.forall_mem_cons]
      exact ⟨h.1.conforms hr, ih h.2⟩

end Value

/-! ### Expressions that are laid out -/

def Tag.ownLayouts : Tag → List Layout
  | .str | .dstr => []
  | tag => tag.layouts

lemma Tag.mem_layouts_of_own {tag : Tag} {l : Layout} (h : l ∈ tag.ownLayouts) :
    l ∈ tag.layouts ∧ tag ≠ .str ∧ tag ≠ .dstr := by
  unfold ownLayouts at h
  split at h
  · cases h
  · cases h
  · exact ⟨h, ‹_›, ‹_›⟩

lemma atMostOne_nil (P : Value → Prop) :
    ([] : List Value).length ≤ 1 ∧ ∀ kid ∈ ([] : List Value), P kid :=
  ⟨Nat.zero_le _, List.forall_mem_nil _⟩

lemma atMostOne_singleton {P : Value → Prop} {v : Value} (h : P v) :
    [v].length ≤ 1 ∧ ∀ kid ∈ [v], P kid :=
  ⟨le_rfl, List.forall_mem_singleton.mpr h⟩

namespace Value

variable {r : Rigour} {tag : Tag}

lemma isExpression_sexp {kids : List Value} (hstr : tag ≠ .str) (hdstr : tag ≠ .dstr)
    (h : r.assigned = true → tag.permits kids = true ∧ ∀ kid ∈ kids, kid.conforms = true)
    (line maxLine : Json) : (Value.sexp tag kids line maxLine).IsExpression r := by
  refine ⟨⟨rfl, fun hr => conforms_sexp.mpr (h hr)⟩, nofun, ?_⟩
  cases tag <;> trivial

lemma isExpression_layout {l : Layout} (hl : l ∈ tag.ownLayouts) (first middle last : List Value)
    (hfirst : SitEach r l.front first) (hmiddle : ∀ kid ∈ middle, kid.Sits r l.repeated)
    (hlast : SitEach r l.back last) (hleast : l.atLeast ≤ middle.length)
    (hmost : ∀ count, l.atMost = some count → middle.length ≤ count) (line maxLine : Json) :
    (Value.sexp tag (first ++ (middle ++ last)) line maxLine).IsExpression r := by
  obtain ⟨hmem, hstr, hdstr⟩ := Tag.mem_layouts_of_own hl
  refine isExpression_sexp hstr hdstr (fun hr => ⟨?_, ?_⟩) line maxLine
  · exact Tag.permits_of_accepts hmem (Layout.accepts_append hfirst.accepts
      (fun kid hkid => (hmiddle kid hkid).accepts) hlast.accepts hleast hmost)
  · simp only [List.forall_mem_append]
    exact ⟨hfirst.conforms hr, fun kid hkid => (hmiddle kid hkid).conforms hr, hlast.conforms hr⟩

variable (tag)

lemma isExpression_exactly {seats : List Seat} {kids : List Value}
    (hl : tag.ownLayouts = [.exactly seats]) (h : SitEach r seats kids) (line maxLine : Json) :
    (Value.sexp tag kids line maxLine).IsExpression r := by
  have hmem : .exactly seats ∈ tag.ownLayouts := hl ▸ List.mem_singleton_self _
  have := isExpression_layout hmem kids [] [] h nofun trivial le_rfl (fun _ _ => Nat.zero_le _)
    line maxLine
  simpa using this

lemma isExpression_upTo {seats : List Seat} {seat : Seat} (hl : tag.ownLayouts = [.upTo seats seat])
    (first more : List Value) (hfirst : SitEach r seats first)
    (hmore : more.length ≤ 1 ∧ ∀ kid ∈ more, kid.Sits r seat) (line maxLine : Json) :
    (Value.sexp tag (first ++ more) line maxLine).IsExpression r := by
  have hmem : .upTo seats seat ∈ tag.ownLayouts := hl ▸ List.mem_singleton_self _
  have := isExpression_layout hmem first more [] hfirst hmore.2 trivial (Nat.zero_le _)
    (by rintro _ ⟨⟩; exact hmore.1) line maxLine
  simpa using this

lemma isExpression_atLeast {seats : List Seat} {seat : Seat} {count : Nat}
    (hl : tag.ownLayouts = [.atLeastThen seats count seat]) (first rest : List Value)
    (hfirst : SitEach r seats first) (hcount : count ≤ rest.length)
    (hrest : ∀ kid ∈ rest, kid.Sits r seat) (line maxLine : Json) :
    (Value.sexp tag (first ++ rest) line maxLine).IsExpression r := by
  have hmem : .atLeastThen seats count seat ∈ tag.ownLayouts := hl ▸ List.mem_singleton_self _
  have := isExpression_layout hmem first rest [] hfirst hrest trivial hcount nofun line maxLine
  simpa using this

lemma isExpression_between {front back : List Seat} {seat : Seat} {count : Nat}
    (hl : .between front count seat back ∈ tag.ownLayouts) (first middle last : List Value)
    (hfirst : SitEach r front first) (hcount : count ≤ middle.length)
    (hmiddle : ∀ kid ∈ middle, kid.Sits r seat) (hlast : SitEach r back last)
    (line maxLine : Json) :
    (Value.sexp tag (first ++ (middle ++ last)) line maxLine).IsExpression r :=
  isExpression_layout hl first middle last hfirst hmiddle hlast hcount nofun line maxLine

variable {tag}

lemma IsExpression.tagged {kids : List Value} {line maxLine : Json}
    (h : (Value.sexp tag kids line maxLine).IsExpression r) {tags : List Tag}
    (htags : tags.contains tag = true) : (Value.sexp tag kids line maxLine).Sits r (.tagged tags) :=
  ⟨htags, h.sits.conforms⟩

end Value

/-! ### Outcomes -/

/-- A computation ends in a value with a property or in a fault that may occur. -/
def Outcome {α : Type} (E : Fault → Prop) (P : α → Prop) : Except Fault α → Prop
  | .ok a => P a
  | .error e => E e

namespace Outcome

variable {α β : Type} {E : Fault → Prop} {P : α → Prop} {Q : β → Prop}

@[simp] lemma ok_iff {a : α} : Outcome E P (.ok a) ↔ P a := Iff.rfl

lemma bind {x : Except Fault α} {f : α → Except Fault β} (hx : Outcome E P x)
    (hf : ∀ a, P a → Outcome E Q (f a)) : Outcome E Q (x >>= f) := by
  cases x with
  | error e => exact hx
  | ok a => exact hf a hx

lemma pure {a : α} (h : P a) : Outcome E P (pure a) := h

lemma mono {P' : α → Prop} {x : Except Fault α} (hx : Outcome E P x) (h : ∀ a, P a → P' a) :
    Outcome E P' x := by
  cases x with
  | error e => exact hx
  | ok a => exact h a hx

lemma mono_fault {E' : Fault → Prop} {x : Except Fault α} (hx : Outcome E P x)
    (h : ∀ e, E e → E' e) : Outcome E' P x := by
  cases x with
  | error e => exact h e hx
  | ok a => exact hx

lemma mapM {f : α → Except Fault β} {items : List α} (h : ∀ a ∈ items, Outcome E Q (f a)) :
    Outcome E (fun results => results.length = items.length ∧ ∀ b ∈ results, Q b)
      (items.mapM f) := by
  induction items with
  | nil => exact ⟨rfl, nofun⟩
  | cons first rest ih =>
    rw [List.mapM_cons]
    refine bind (h first (by simp)) fun b hb => ?_
    refine bind (ih fun a ha => h a (by simp [ha])) fun bs hbs => ?_
    exact pure ⟨by simp [hbs.1], List.forall_mem_cons.mpr ⟨hb, hbs.2⟩⟩

lemma foldlM {f : β → α → Except Fault β} {items : List α} {start : β} (hstart : Q start)
    (hstep : ∀ b, Q b → ∀ a ∈ items, Outcome E Q (f b a)) :
    Outcome E Q (items.foldlM f start) := by
  induction items generalizing start with
  | nil => exact hstart
  | cons first rest ih =>
    rw [List.foldlM_cons]
    refine bind (hstep start hstart first (by simp)) fun b hb => ih hb ?_
    exact fun b hb a ha => hstep b hb a (by simp [ha])

lemma build {place : Option Location} {tag : Tag} {kids : List Value} {P : Value → Prop}
    (hplace : Location.isNumbered place = true)
    (h : ∀ line maxLine, P (.sexp tag kids line maxLine)) :
    Outcome E P (Convert.build place tag kids) := by
  obtain ⟨l, _, _, rfl, -, -⟩ := Location.eq_some_of_isNumbered hplace
  exact h l.startLine l.endLine

lemma build_bind {place : Option Location} {tag : Tag} {kids : List Value}
    {f : Value → Except Fault β} (hplace : Location.isNumbered place = true)
    (h : ∀ line maxLine, Outcome E Q (f (.sexp tag kids line maxLine))) :
    Outcome E Q (Convert.build place tag kids >>= f) :=
  bind (P := fun v => ∃ line maxLine, v = .sexp tag kids line maxLine)
    (build hplace fun line maxLine => ⟨line, maxLine, rfl⟩)
    (by rintro _ ⟨line, maxLine, rfl⟩; exact h line maxLine)

end Outcome

end RubySexp
