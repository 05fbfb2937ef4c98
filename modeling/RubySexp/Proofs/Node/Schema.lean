import Mathlib.Data.List.Nodup
import Mathlib.Data.List.Range
import RubySexp.Node.Load

/-!
# The Schema Is Unambiguous

A kind is found by its name and a declared field by its label. No kind declares a field twice, and
no field has one of the two labels that every dumped node may have. A tree whose nodes all have the
fields of their kinds is one that passes a test at every node.
-/

namespace RubySexp

namespace Kind

lemma nodup_all : all.Nodup := by
  refine List.Nodup.of_map Kind.ctorIdx ?_
  rw [show all.map Kind.ctorIdx = List.range 151 from rfl]
  exact List.nodup_range

lemma mem_all (kind : Kind) : kind ∈ all := by
  refine List.mem_of_getElem? (i := kind.ctorIdx) ?_
  cases kind <;> rfl

lemma ofName?_name (kind : Kind) : ofName? kind.name = some kind := by
  have hall : all.all (fun kind => ofName? kind.name == some kind) = true := by decide +kernel
  exact eq_of_beq (List.all_eq_true.mp hall kind kind.mem_all)

lemma nodup_slots (kind : Kind) : (kind.slots.map Slot.field).Nodup := by
  cases kind <;> decide

lemma eq_of_field_eq {kind : Kind} {slot slot' : Slot} (h : slot ∈ kind.slots)
    (h' : slot' ∈ kind.slots) (hfield : slot.field = slot'.field) : slot = slot' :=
  List.inj_on_of_nodup_map kind.nodup_slots h h' hfield

lemma label_ne {kind : Kind} {slot : Slot} (h : slot ∈ kind.slots) :
    slot.field.label ≠ "type" ∧ slot.field.label ≠ "location" := by
  have hall : ∀ slot ∈ kind.slots, slot.field.label ≠ "type" ∧ slot.field.label ≠ "location" := by
    cases kind <;> decide
  exact hall slot h

end Kind

lemma Field.eq_of_label_eq {field field' : Field} (h : field'.isLocation = true)
    (hlabel : field.label = field'.label) : field = field' := by
  cases field' with
  | openingLoc => cases field <;> first | rfl | exact absurd hlabel (by decide)
  | _ => cases h

lemma Node.get?_of_mem {n : Node} (h : (n.fields.map Prod.fst).Nodup) {field : Field} {tree : Tree}
    (hmem : (field, tree) ∈ n.fields) : n.get? field = some tree := by
  obtain ⟨kind, location, fields⟩ := n
  rw [Node.get?]
  induction fields with
  | nil => cases hmem
  | cons first rest ih =>
    rw [List.map_cons, List.nodup_cons] at h
    rcases List.mem_cons.mp hmem with rfl | hmem
    · simp
    · have hne : first.1 ≠ field := by
        rintro rfl
        exact h.1 (List.mem_map.mpr ⟨_, hmem, rfl⟩)
      rw [List.find?_cons, beq_eq_false_iff_ne.mpr hne]
      exact ih h.2 hmem

namespace Tree

variable {kind : Kind} {key : String} {field : Field}

lemma fieldOf?_label {slot : Slot} (h : slot ∈ kind.slots) :
    fieldOf? kind slot.field.label = some slot.field := by
  have hall : ∀ slot ∈ kind.slots, fieldOf? kind slot.field.label = some slot.field := by
    cases kind <;> decide
  exact hall slot h

lemma label_of_fieldOf? (h : fieldOf? kind key = some field) : field.label = key := by
  obtain ⟨slot, hslot, rfl⟩ := Option.map_eq_some_iff.mp h
  simpa using List.find?_some hslot

/-! ### Tests of all nodes -/

mutual

/-- Whether all nodes of a tree, wherever they stand, pass a test. -/
def everyNode (test : Node → Bool) : Tree → Bool
  | .scalar _ | .span _ => true
  | .tuple items => everyNodeOfItems test items
  | .node kind location fields =>
    test ⟨kind, location, fields⟩ && everyNodeOfFields test fields

def everyNodeOfItems (test : Node → Bool) : List Tree → Bool
  | [] => true
  | item :: rest => everyNode test item && everyNodeOfItems test rest

def everyNodeOfFields (test : Node → Bool) : List (Field × Tree) → Bool
  | [] => true
  | (_, tree) :: rest => everyNode test tree && everyNodeOfFields test rest

end

variable {test : Node → Bool} {part : Tree}

lemma everyNode_of_mem_items {items : List Tree} (h : everyNodeOfItems test items = true)
    (hpart : part ∈ items) : part.everyNode test = true := by
  induction items with
  | nil => cases hpart
  | cons item rest ih =>
    rw [everyNodeOfItems, Bool.and_eq_true] at h
    rcases List.mem_cons.mp hpart with rfl | hpart
    · exact h.1
    · exact ih h.2 hpart

lemma everyNode_of_mem_fields {fields : List (Field × Tree)}
    (h : everyNodeOfFields test fields = true) (hpart : (field, part) ∈ fields) :
    part.everyNode test = true := by
  induction fields with
  | nil => cases hpart
  | cons first rest ih =>
    rw [everyNodeOfFields, Bool.and_eq_true] at h
    rcases List.mem_cons.mp hpart with rfl | hpart
    · exact h.1
    · exact ih h.2 hpart

def hasDeclaredFields (n : Node) : Bool := n.fields.map Prod.fst == n.kind.slots.map Slot.field

/-- Whether every node has the fields that its kind declares. -/
def declared : Tree → Bool := everyNode hasDeclaredFields

lemma fields_of_declared {n : Node} (h : (ofNode n).declared = true) :
    n.fields.map Prod.fst = n.kind.slots.map Slot.field := by
  rw [ofNode, declared, everyNode, Bool.and_eq_true, hasDeclaredFields, beq_iff_eq] at h
  exact h.1

end Tree

end RubySexp
