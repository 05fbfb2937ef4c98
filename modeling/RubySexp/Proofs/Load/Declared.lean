import RubySexp.Proofs.Load.Entry

/-!
# Loaded Nodes Have Their Fields

Whatever an object states and leaves out, the node that it is loaded to has all fields that its kind
declares and no others, in declared order, and so have the nodes below it.
-/

namespace RubySexp

namespace Loading

lemma exists_ok_of_bind {α β : Type} {m : Loading α} {f : α → Loading β} {b : β}
    (h : (m >>= f).result = .ok b) : ∃ a, m.result = .ok a ∧ (f a).result = .ok b := by
  change (Loading.bind m f).result = .ok b at h
  unfold Loading.bind at h
  split at h
  · next a ha => exact ⟨a, ha, h⟩
  · cases h

end Loading

lemma Kind.declared_default {kind : Kind} {slot : Slot} (hslot : slot ∈ kind.slots) {tree : Tree}
    (h : slot.default = some tree) : tree.declared = true := by
  have hall : ∀ slot ∈ kind.slots, (slot.default.all Tree.declared) = true := by
    cases kind <;> decide
  have := hall slot hslot
  rwa [h] at this

namespace Tree

lemma declared_assemble {kind : Kind} {parts : List Part} {tree : Tree}
    (hparts : ∀ field content, Part.field field content ∈ parts → content.declared = true)
    (h : assemble kind parts = .ok tree) : tree.declared = true := by
  unfold assemble at h
  extract_lets content missing at h
  split at h
  · next hmissing =>
    cases h
    have hsome : ∀ slot ∈ kind.slots, ∃ tree, content slot = some tree ∧ tree.declared = true := by
      intro slot hslot
      have hnone : slot ∉ missing := by
        rw [List.isEmpty_iff.mp hmissing]
        exact List.not_mem_nil
      rcases hcontent : content slot with _ | tree
      · exact absurd (List.mem_filter.mpr ⟨hslot, by rw [hcontent]; rfl⟩) hnone
      refine ⟨tree, rfl, ?_⟩
      rcases Option.or_eq_some_iff.mp hcontent with hfound | ⟨-, hdefault⟩
      · obtain ⟨part, hpart, hfield⟩ := List.exists_of_findSome?_eq_some hfound
        cases part with
        | location l => cases hfield
        | field own given =>
          rw [Part.content?, Option.ite_none_right_eq_some] at hfield
          obtain rfl := Option.some.inj hfield.2
          exact hparts own given hpart
      · exact Kind.declared_default hslot hdefault
    have hall : ∀ slots : List Slot,
        (∀ slot ∈ slots, ∃ tree, content slot = some tree ∧ tree.declared = true) →
        (slots.filterMap fun slot => (content slot).map (slot.field, ·)).map Prod.fst =
            slots.map Slot.field ∧
          everyNodeOfFields hasDeclaredFields
            (slots.filterMap fun slot => (content slot).map (slot.field, ·)) = true := by
      intro slots hslots
      induction slots with
      | nil => exact ⟨rfl, rfl⟩
      | cons slot rest ih =>
        obtain ⟨tree, htree, hdeclared⟩ := hslots slot (by simp)
        obtain ⟨hfields, hrest⟩ := ih fun slot hslot => hslots slot (by simp [hslot])
        rw [declared] at hdeclared
        simp only [List.filterMap_cons, htree, Option.map_some, List.map_cons, everyNodeOfFields,
          hfields, hdeclared, hrest, Bool.and_self, and_self]
    rw [declared, everyNode, Bool.and_eq_true, hasDeclaredFields, beq_iff_eq]
    exact hall kind.slots hsome
  · cases h

mutual

/-- **Every node that is loaded has the fields that its kind declares.** -/
theorem declared_of_load : ∀ (data : Json) {tree : Tree}, (load data).result = .ok tree →
    tree.declared = true
  | .scalar s, _, h => by
    rw [load] at h
    cases h
    rfl
  | .array items, _, h => by
    rw [load] at h
    obtain ⟨trees, htrees, h⟩ := Loading.exists_ok_of_bind h
    cases h
    exact declared_of_loadItems items htrees
  | .object entries, _, h => by
    rw [load] at h
    split at h
    · cases h
    · next kind _ =>
      obtain ⟨parts, hparts, h⟩ := Loading.exists_ok_of_bind h
      exact declared_assemble (declared_of_loadParts kind entries hparts) h

lemma declared_of_loadItems : ∀ (items : List Json) {trees : List Tree},
    (loadItems items).result = .ok trees → everyNodeOfItems hasDeclaredFields trees = true
  | [], _, h => by
    rw [loadItems] at h
    cases h
    rfl
  | item :: rest, _, h => by
    rw [loadItems] at h
    obtain ⟨tree, htree, h⟩ := Loading.exists_ok_of_bind h
    obtain ⟨trees, htrees, h⟩ := Loading.exists_ok_of_bind h
    cases h
    rw [everyNodeOfItems, declared_of_loadItems rest htrees, Bool.and_true]
    exact declared_of_load item htree

lemma declared_of_loadParts (kind : Kind) : ∀ (entries : List (String × Json))
    {parts : List Part}, (loadParts kind entries).result = .ok parts →
    ∀ field content, Part.field field content ∈ parts → content.declared = true
  | [], _, h, field, content, hmem => by
    rw [loadParts] at h
    cases h
    cases hmem
  | (key, data) :: rest, _, h, field, content, hmem => by
    rw [loadParts] at h
    split at h
    · exact declared_of_loadParts kind rest h field content hmem
    split at h
    · obtain ⟨location, -, h⟩ := Loading.exists_ok_of_bind h
      obtain ⟨parts, hparts, h⟩ := Loading.exists_ok_of_bind h
      cases h
      rcases List.mem_cons.mp hmem with heq | hmem
      · cases heq
      · exact declared_of_loadParts kind rest hparts field content hmem
    split at h
    · obtain ⟨-, -, h⟩ := Loading.exists_ok_of_bind h
      exact declared_of_loadParts kind rest h field content hmem
    · next known _ =>
      have hall : ∀ tree : Tree, tree.declared = true → ∀ parts',
          Loading.result (do return Part.field known tree :: (← loadParts kind rest)) =
            .ok parts' → ∀ field content, Part.field field content ∈ parts' →
            content.declared = true := by
        intro tree htree parts' h field content hmem
        obtain ⟨parts, hparts, h⟩ := Loading.exists_ok_of_bind h
        cases h
        rcases List.mem_cons.mp hmem with heq | hmem
        · cases heq
          exact htree
        · exact declared_of_loadParts kind rest hparts field content hmem
      extract_lets withTree at h
      split at h
      · obtain ⟨tree, htree, h⟩ := Loading.exists_ok_of_bind h
        obtain ⟨location, -, htree⟩ := Loading.exists_ok_of_bind htree
        refine hall tree ?_ _ h field content hmem
        cases htree
        cases location <;> rfl
      · obtain ⟨tree, htree, h⟩ := Loading.exists_ok_of_bind h
        exact hall tree (declared_of_load data htree) _ h field content hmem

end

end Tree

end RubySexp
