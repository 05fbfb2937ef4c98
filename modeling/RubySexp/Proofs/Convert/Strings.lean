import RubySexp.Proofs.Convert.Locality
import RubySexp.Proofs.Node.Shape

/-!
# What Converts to a String

No conversion is a bare text, number or truth value, and of a tree with fields of their types every
conversion that is a string holds one text. The only other strings are parameters of a block to
which names were added; these end in an expression.
-/

namespace RubySexp

/-- Whether the fields in a tree hold data of their types. -/
def Tree.Typed (tree : Tree) : Prop := ∃ content, tree.holds .typed content = true

namespace Tree

variable {tree part : Tree} {n : Node} {field : Field}

lemma Typed.fits_typed (h : (ofNode n).Typed) : ∃ role, (ofNode n).fits .typed role = true := by
  obtain ⟨content, hcontent⟩ := h
  have hnode : ∃ role, content.node? = some role := by
    unfold ofNode holds at hcontent
    split at hcontent
    · next role hrole => exact ⟨role, hrole⟩
    · cases hcontent
  obtain ⟨role, hrole⟩ := hnode
  refine ⟨role, ?_⟩
  unfold fits
  simp only [ofNode, holds, hrole] at hcontent
  simpa only [ofNode, holds, Content.node?] using hcontent

lemma Typed.of_node_get (h : (ofNode n).Typed) (hget : n.get field = .ok part) : part.Typed := by
  obtain ⟨role, hfits⟩ := h.fits_typed
  exact holds_of_get hfits hget

lemma Typed.of_elements {items : List Tree} (h : tree.Typed) (hitems : tree.elements = .ok items)
    (hpart : part ∈ items) : part.Typed := by
  unfold elements at hitems
  split at hitems
  · cases hitems
    obtain ⟨content, hcontent⟩ := h
    unfold holds at hcontent
    split at hcontent
    · next item hitem =>
      simp only [Bool.and_eq_true, holdsItems_iff] at hcontent
      exact ⟨item, hcontent.2 part hpart⟩
    · cases hcontent
  · cases hitems
    obtain ⟨c, -, rfl⟩ := List.mem_map.mp hpart
    exact ⟨.text, rfl⟩
  · cases hitems

end Tree

lemma Node.HandsOn.typed {n : Node} {part : Tree} (h : n.HandsOn part)
    (htyped : (Tree.ofNode n).Typed) : part.Typed := by
  cases h with
  | field _ hpart => exact htyped.of_node_get hpart
  | statement _ hbody hpart =>
    exact (htyped.of_node_get hbody).of_elements hpart List.mem_cons_self

namespace Value

/-- A value that is no scalar besides nothing and that, if it is a string, holds one text, or
several items of which the last is an expression. -/
def Settled : Value → Prop
  | .scalar s => s = .null
  | .sexp .str kids _ _ =>
    (∃ content, kids = [.text content]) ∨
      ∃ first between tag inner line maxLine,
        kids = first :: (between ++ [.sexp tag inner line maxLine])
  | _ => True

lemma settled_sexp {tag : Tag} (h : tag ≠ .str) (kids : List Value) (line maxLine : Json) :
    (Value.sexp tag kids line maxLine).Settled := by
  cases tag <;> trivial

end Value

namespace Convert

def Settles (x : Except Fault Value) : Prop := ∀ v, x = .ok v → v.Settled

def SettledBelow (n : Node) (conv : Conversion) : Prop :=
  ∀ scope tree, tree.height < (Tree.ofNode n).height → tree.Typed → Settles (conv scope tree)

lemma extendParameters_settles {parameters : Value} (hparameters : parameters.Settled) (tag : Tag)
    (kids : List Value) (line maxLine : Json) :
    Settles (extendParameters parameters [.sexp tag kids line maxLine]) := by
  intro v hv
  unfold extendParameters at hv
  split at hv
  · next outer present _ _ =>
    cases hv
    by_cases houter : outer = .str
    · subst houter
      have hne : ∃ first between, present = first :: between := by
        rcases hparameters with ⟨content, rfl⟩ | ⟨first, between, inner, ks, l, m, rfl⟩
        · exact ⟨_, _, rfl⟩
        · exact ⟨_, _, rfl⟩
      obtain ⟨first, between, rfl⟩ := hne
      exact Or.inr ⟨first, between, tag, kids, line, maxLine, rfl⟩
    · exact Value.settled_sexp houter _ _ _
  · cases hv
    exact rfl
  · cases hv

variable {conv : Conversion} {n : Node} (h : SettledBelow n conv) (htyped : (Tree.ofNode n).Typed)

include htyped

lemma eq_text_of_textField {field : Field} {tree : Tree} (hfield : n.kind.textField = some field)
    (hget : n.get field = .ok tree) : ∃ content, tree = .text content := by
  obtain ⟨role, hfits⟩ := htyped.fits_typed
  have hcontent : (n.kind.contents role).lookup field = some .text := by
    unfold Kind.textField at hfield
    split at hfield
    · next hkind => cases hfield; rw [hkind]; rfl
    · next hkind => cases hfield; rw [hkind]; rfl
    · cases hfield
  obtain ⟨tree', hget', htext⟩ := Tree.exists_get_of_fits hfits hcontent
  cases hget.symm.trans hget'
  exact Tree.eq_text_of_holds htext

include h

theorem rule_settles (scope : Scope) : Settles (rule conv scope n) := by
  intro v hv
  cases built_of_rule hv with
  | nil => exact rfl
  | list | symbol => trivial
  | text content => exact Or.inl ⟨content, rfl⟩
  | own hown kids line maxLine =>
    rw [Tag.isOwn, Bool.and_eq_true, bne_iff_ne] at hown
    exact Value.settled_sexp hown.1 kids line maxLine
  | field hfield hget line maxLine =>
    obtain ⟨content, rfl⟩ := eq_text_of_textField htyped hfield hget
    exact Or.inl ⟨content, rfl⟩
  | handler _ kids line maxLine => exact Value.settled_sexp (by decide) kids line maxLine
  | part hpart hv => exact h scope _ hpart.height_lt (hpart.typed htyped) v hv
  | extended hpart hparameters hv =>
    have hsettled := h scope _ hpart.height_lt (hpart.typed htyped) _ hparameters
    exact extendParameters_settles hsettled _ _ _ _ v hv
  | embedded _ hget hv =>
    exact h scope _ (Tree.height_lt_of_node_get hget) (htyped.of_node_get hget) v hv

end Convert

lemma Tree.convert_settles (scope : Scope) (tree : Tree) (htyped : tree.Typed) :
    Convert.Settles (tree.convert scope) := by
  induction scope, tree using Tree.convert_induction with
  | leaf scope tree _ =>
    intro v hv
    rw [Convert.eq_nil_of_leaf hv]
    exact rfl
  | node scope n ih => exact Convert.rule_settles ih htyped scope

end RubySexp
