import Mathlib.Logic.Relation
import RubySexp.Proofs.Load.Entry

/-!
# Trees Are Loaded as They Were Dumped

A dump states the kind of a node, its place and every field, in declared order. Loading it gives
back the tree and skips no key. A field that holds its default may be left out of any object in the
dump.
-/

namespace RubySexp

namespace Tree

/-! ### Dumps -/

/-- The data for a place that may be missing: its four numbers. -/
def dumpPlace : Option Location → Json
  | some l => .array l.components
  | none => .null

mutual

/-- The data from which a tree can be loaded. -/
def dump : Tree → Json
  | .scalar s => .scalar s
  | .tuple items => .array (dumpItems items)
  | .span l => dumpPlace (some l)
  | .node kind location fields =>
    .object (("type", .scalar (.text kind.name)) :: ("location", dumpPlace location) ::
      dumpFields fields)

def dumpItems : List Tree → List Json
  | [] => []
  | item :: rest => dump item :: dumpItems rest

def dumpFields : List (Field × Tree) → List (String × Json)
  | [] => []
  | (field, tree) :: rest => (field.label, dump tree) :: dumpFields rest

end

/-- Whether the tree is a place, or says that there is none. -/
def isPlace : Tree → Bool
  | .span _ | .null => true
  | _ => false

mutual

/-- Whether each node has its fields, with places in the fields that are for places and nowhere
else. -/
def dumpable : Tree → Bool
  | .scalar _ => true
  | .tuple items => dumpableItems items
  | .span _ => false
  | .node kind _ fields =>
    fields.map Prod.fst == kind.slots.map Slot.field && dumpableFields fields

def dumpableItems : List Tree → Bool
  | [] => true
  | item :: rest => dumpable item && dumpableItems rest

def dumpableFields : List (Field × Tree) → Bool
  | [] => true
  | (field, tree) :: rest =>
    (if field.isLocation then tree.isPlace else dumpable tree) && dumpableFields rest

end

/-! ### Loading a whole dump -/

variable {kind : Kind} {location : Option Location} {fields : List (Field × Tree)}

lemma loadLocation_dumpPlace (location : Option Location) :
    loadLocation (dumpPlace location) = pure location := by
  cases location <;> rfl

lemma readField_dump {field : Field} {tree : Tree}
    (h : (if field.isLocation then tree.isPlace else tree.dumpable) = true)
    (hload : tree.dumpable = true → load tree.dump = pure tree) :
    readField field tree.dump = pure tree := by
  rw [readField]
  split at h
  · next hplace =>
    rw [if_pos hplace]
    unfold isPlace at h
    split at h
    · rw [dump, loadLocation_dumpPlace]
      rfl
    · rfl
    · cases h
  · next hplace =>
    rw [if_neg hplace]
    exact hload h

lemma kindOf_named (rest : List (String × Json)) :
    kindOf (("type", .scalar (.text kind.name)) :: rest) = .ok kind := by
  simp [kindOf, Json.lookup?, Kind.ofName?_name]

lemma readPart_type (data : Json) : readPart kind "type" data = pure none := rfl

lemma readPart_place (location : Option Location) :
    readPart kind "location" (dumpPlace location) = pure (some (.location location)) := by
  cases location <;> rfl

lemma readPart_field {slot : Slot} (hslot : slot ∈ kind.slots) {data : Json} {tree : Tree}
    (h : readField slot.field data = pure tree) :
    readPart kind slot.field.label data = pure (some (.field slot.field tree)) := by
  obtain ⟨htype, hlocation⟩ := Kind.label_ne hslot
  rw [readPart, if_neg (by simpa using htype), if_neg (by simpa using hlocation),
    fieldOf?_label hslot]
  simp only [h, pure_bind]

def partsOf (fields : List (Field × Tree)) : List Part := fields.map fun e => .field e.1 e.2

lemma findSome?_partsOf {field : Field} :
    (partsOf fields).findSome? (·.content? field) = Node.get? ⟨kind, location, fields⟩ field := by
  rw [partsOf, Node.get?]
  induction fields with
  | nil => rfl
  | cons first rest ih =>
    rw [List.map_cons, List.findSome?_cons, ih, List.find?_cons, Part.content?]
    cases first.1 == field <;> rfl

lemma assemble_partsOf (hfields : fields.map Prod.fst = kind.slots.map Slot.field) :
    assemble kind (.location location :: partsOf fields) = .ok (.node kind location fields) := by
  let n : Node := ⟨kind, location, fields⟩
  have hget : ∀ e ∈ fields, n.get? e.1 = some e.2 := by
    have hnodup : (fields.map Prod.fst).Nodup := hfields ▸ kind.nodup_slots
    exact fun e he => Node.get?_of_mem hnodup he
  unfold assemble
  extract_lets content missing place
  have hcontent : ∀ slot ∈ kind.slots, ∃ tree, n.get? slot.field = some tree ∧
      content slot = some tree := by
    intro slot hslot
    have hmem : slot.field ∈ fields.map Prod.fst := hfields ▸ List.mem_map_of_mem hslot
    obtain ⟨e, he, hfield⟩ := List.mem_map.mp hmem
    have hfound : n.get? slot.field = some e.2 := hfield ▸ hget e he
    refine ⟨e.2, hfound, ?_⟩
    change ((partsOf fields).findSome? (·.content? slot.field)).or slot.default = some e.2
    rw [findSome?_partsOf.trans hfound, Option.some_or]
  have hmissing : missing = [] := by
    refine List.filter_eq_nil_iff.mpr fun slot hslot => ?_
    obtain ⟨tree, -, htree⟩ := hcontent slot hslot
    simp [htree]
  have hcomplete : kind.slots.filterMap (fun slot => (content slot).map (slot.field, ·)) = fields :=
    calc kind.slots.filterMap (fun slot => (content slot).map (slot.field, ·))
      _ = kind.slots.filterMap ((fun field => (n.get? field).map (field, ·)) ∘ Slot.field) := by
        refine List.filterMap_congr fun slot hslot => ?_
        obtain ⟨tree, hfound, htree⟩ := hcontent slot hslot
        simp [hfound, htree]
      _ = (fields.map Prod.fst).filterMap fun field => (n.get? field).map (field, ·) := by
        rw [hfields, List.filterMap_map]
      _ = fields.filterMap some := by
        rw [List.filterMap_map]
        exact List.filterMap_congr fun e he => by simp [hget e he]
      _ = fields := List.filterMap_some
  rw [hmissing, hcomplete]
  rfl

mutual

/-- **A dump is loaded** as the tree that was dumped, and no key is skipped. -/
theorem load_dump : ∀ tree : Tree, tree.dumpable = true → load tree.dump = pure tree
  | .scalar s, _ => by rw [dump, load]
  | .tuple items, h => by
    rw [dump, load, loadItems_dump items h, pure_bind]
  | .span l, h => by cases h
  | .node kind location fields, h => by
    rw [dumpable, Bool.and_eq_true, beq_iff_eq] at h
    obtain ⟨hfields, hcontent⟩ := h
    have hparts : loadParts kind (dumpFields fields) = pure (partsOf fields) :=
      loadParts_dump kind fields (fun field hfield => hfields ▸ hfield) hcontent
    rw [dump, load, kindOf_named]
    simp only [loadParts_cons, readPart_type, readPart_place, hparts, pure_bind, Option.toList_none,
      Option.toList_some, List.nil_append, List.singleton_append, assemble_partsOf hfields]
    rfl

lemma loadItems_dump : ∀ items : List Tree, dumpableItems items = true →
    loadItems (dumpItems items) = pure items
  | [], _ => by rw [dumpItems, loadItems]
  | item :: rest, h => by
    rw [dumpableItems, Bool.and_eq_true] at h
    rw [dumpItems, loadItems, load_dump item h.1, loadItems_dump rest h.2, pure_bind, pure_bind]

lemma loadParts_dump (kind : Kind) : ∀ fields : List (Field × Tree),
    (∀ field ∈ fields.map Prod.fst, field ∈ kind.slots.map Slot.field) →
    dumpableFields fields = true → loadParts kind (dumpFields fields) = pure (partsOf fields)
  | [], _, _ => by
    rw [dumpFields, loadParts]
    rfl
  | (field, tree) :: rest, hfields, h => by
    rw [dumpableFields, Bool.and_eq_true] at h
    rw [List.map_cons, List.forall_mem_cons] at hfields
    obtain ⟨slot, hslot, rfl⟩ := List.mem_map.mp hfields.1
    have hread : readField slot.field tree.dump = pure tree := readField_dump h.1 (load_dump tree)
    rw [dumpFields, loadParts_cons, readPart_field hslot hread,
      loadParts_dump kind rest hfields.2 h.2, pure_bind, pure_bind]
    rfl

end

/-! ### Defaults left out -/

/-- An entry that states the default of a field. -/
def IsDefault (kind : Kind) (key : String) (data : Json) : Prop :=
  (key = "location" ∧ data = dumpPlace (some {})) ∨
    ∃ slot ∈ kind.slots, slot.field.label = key ∧
      ∃ tree, slot.default = some tree ∧ data = tree.dump

inductive Trimmed : List (String × Json) → List (String × Json) → Prop
  | drop (before after : List (String × Json)) {kind : Kind} {key : String} {data : Json}
    (hkind : kindOf (before ++ (key, data) :: after) = .ok kind)
    (hkeys : ((before ++ (key, data) :: after).map Prod.fst).Nodup)
    (hdefault : IsDefault kind key data) :
    Trimmed (before ++ (key, data) :: after) (before ++ after)

lemma readField_default {slot : Slot} (hslot : slot ∈ kind.slots) {tree : Tree}
    (h : slot.default = some tree) : readField slot.field tree.dump = pure tree := by
  have hall : ∀ slot ∈ kind.slots, slot.default.all (fun tree =>
      if slot.field.isLocation then tree.isPlace else tree.dumpable) = true := by
    cases kind <;> decide
  have hdefault := hall slot hslot
  rw [h, Option.all_some] at hdefault
  exact readField_dump hdefault (load_dump tree)

lemma content?_of_key_ne {part : Part} {field : Field} (h : part.key ≠ field.label) :
    part.content? field = none := by
  cases part with
  | location l => rfl
  | field own tree =>
    rw [Part.content?, if_neg]
    intro hown
    exact h (congrArg Field.label (eq_of_beq hown))

lemma location?_of_key_ne {part : Part} (h : part.key ≠ "location") : part.location? = none := by
  cases part with
  | location l => exact absurd rfl h
  | field own tree => rfl

lemma assemble_default {slot : Slot} (hslot : slot ∈ kind.slots) {tree : Tree}
    (hdefault : slot.default = some tree) {parts more : List Part}
    (hparts : ∀ part ∈ parts ++ more, part.key ≠ slot.field.label) :
    assemble kind (parts ++ .field slot.field tree :: more) = assemble kind (parts ++ more) := by
  have hnone : (parts ++ more).findSome? (·.content? slot.field) = none :=
    List.findSome?_eq_none_iff.mpr fun part hpart => content?_of_key_ne (hparts part hpart)
  rw [List.findSome?_append, Option.or_eq_none_iff] at hnone
  have hown : ∀ field, (Part.field slot.field tree).content? field =
      if slot.field == field then some tree else none := fun _ => rfl
  refine assemble_congr (fun slot' hslot' => ?_) ?_
  · simp only [List.findSome?_append, List.findSome?_cons, hown]
    by_cases hfield : slot.field = slot'.field
    · obtain rfl := Kind.eq_of_field_eq hslot hslot' hfield
      simp [hnone, hdefault]
    · simp [hfield]
  · simp [List.findSome?_append, List.findSome?_cons, Part.location?]

lemma assemble_default_place {parts more : List Part}
    (hparts : ∀ part ∈ parts ++ more, part.key ≠ "location") :
    assemble kind (parts ++ .location (some {}) :: more) = assemble kind (parts ++ more) := by
  have hnone : (parts ++ more).findSome? Part.location? = none :=
    List.findSome?_eq_none_iff.mpr fun part hpart => location?_of_key_ne (hparts part hpart)
  refine assemble_congr (fun slot _ => ?_) ?_
  · simp [List.findSome?_append, Part.content?]
  · rw [hnone]
    rw [List.findSome?_append, Option.or_eq_none_iff] at hnone
    simp [List.findSome?_append, List.findSome?_cons, Part.location?, hnone]

lemma IsDefault.key_ne {key : String} {data : Json} (h : IsDefault kind key data) :
    key ≠ "type" := by
  obtain ⟨rfl, -⟩ | ⟨slot, hslot, rfl, -⟩ := h
  · decide
  · exact (Kind.label_ne hslot).1

lemma IsDefault.readPart {key : String} {data : Json} (h : IsDefault kind key data) :
    ∃ part, readPart kind key data = pure (some part) ∧ ∀ parts more : List Part,
      (∀ other ∈ parts ++ more, other.key ≠ key) →
        assemble kind (parts ++ part :: more) = assemble kind (parts ++ more) := by
  obtain ⟨rfl, rfl⟩ | ⟨slot, hslot, rfl, tree, hdefault, rfl⟩ := h
  · exact ⟨_, readPart_place _, fun parts more => assemble_default_place⟩
  · exact ⟨_, readPart_field hslot (readField_default hslot hdefault),
      fun parts more => assemble_default hslot hdefault⟩

/-- **Defaults**: an object loads alike with a default stated and left out. -/
lemma load_of_trimmed {entries entries' : List (String × Json)} (h : Trimmed entries entries') :
    load (.object entries) = load (.object entries') := by
  obtain @⟨before, after, kind, key, data, hkind, hkeys, hdefault⟩ := h
  have hkind' : kindOf (before ++ after) = .ok kind := by
    have hlookup : Json.lookup? "type" (before ++ after) =
        Json.lookup? "type" (before ++ (key, data) :: after) := by
      rw [Json.lookup?_append, Json.lookup?_append, Json.lookup?_cons,
        if_neg (by simpa using hdefault.key_ne)]
    have hoption := kindOf_of_lookup? hlookup
    rw [hkind] at hoption
    cases hown : kindOf (before ++ after) with
    | ok own => rw [hown] at hoption; cases hoption; rfl
    | error e => rw [hown] at hoption; cases hoption
  obtain ⟨part, hpart, hsame⟩ := hdefault.readPart
  rw [load, load, hkind, hkind']
  simp only [loadParts_append, loadParts_cons, hpart, bind_assoc, pure_bind]
  refine Loading.bind_congr_value fun parts hparts => Loading.bind_congr_value fun more hmore => ?_
  rw [Option.toList_some, List.singleton_append, hsame parts more ?_]
  -- The key stands only once among the entries, and the parts stand under keys of entries.
  rw [List.map_append, List.map_cons, List.nodup_middle, List.nodup_cons,
    ← List.map_append] at hkeys
  have hsub : ((parts ++ more).map Part.key).Sublist ((before ++ after).map Prod.fst) := by
    rw [List.map_append, List.map_append]
    exact (keys_of_loadParts hparts).append (keys_of_loadParts hmore)
  rintro other hother rfl
  exact hkeys.1 (hsub.subset (List.mem_map_of_mem hother))

/-- **Round trip**: a tree that can be dumped is loaded from its dump, with no key skipped, and it
is loaded alike from what is left of the dump when defaults are left out, wherever they stand. -/
theorem load_dump_without_defaults {tree : Tree} (h : tree.dumpable = true) :
    (load tree.dump).skipped = [] ∧ (load tree.dump).result = .ok tree ∧
      ∀ data, Relation.ReflTransGen (Json.EditedBy Trimmed) tree.dump data →
        (load data).skipped = [] ∧ (load data).result = .ok tree := by
  have hdump : load tree.dump = pure tree := load_dump tree h
  have hload : ∀ data, Relation.ReflTransGen (Json.EditedBy Trimmed) tree.dump data →
      load data = pure tree := by
    intro data hdata
    induction hdata with
    | refl => exact hdump
    | tail _ hstep ih => rw [← ih, load_rel_of_edited .equal load_of_trimmed hstep]
  refine ⟨?_, ?_, fun data hdata => ?_⟩
  · rw [hdump]; rfl
  · rw [hdump]; rfl
  · rw [hload data hdata]
    exact ⟨rfl, rfl⟩

/-- An array with a call and a sequence in it. Its own place is left out, and so is the receiver of
the call, which has none. -/
theorem load_array_without_defaults :
    let opening : Location := .lines (.int 2) (.int 2)
    let place : Location := .lines (.int 3) (.int 4)
    let call : Tree := .node .callNode (some place)
      [(.receiver, .null), (.name, .text "f"), (.arguments, .null), (.block, .null),
        (.safeNavigation, .bool false), (.variableCall, .bool true)]
    let tree : Tree := .node .arrayNode (some {})
      [(.elements, .tuple [call, .tuple [.text "x"]]), (.openingLoc, .span opening)]
    let text (s : String) : Json := .scalar (.text s)
    let flag (b : Bool) : Json := .scalar (.bool b)
    let trimmedCall : Json := .object [("type", text "CallNode"),
      ("location", dumpPlace (some place)), ("name", text "f"), ("arguments", .null),
      ("block", .null), ("safe_navigation", flag false), ("variable_call", flag true)]
    let data : Json := .object [("type", text "ArrayNode"),
      ("elements", .array [trimmedCall, .array [text "x"]]),
      ("opening_loc", dumpPlace (some opening))]
    tree.dumpable = true ∧ Relation.ReflTransGen (Json.EditedBy Trimmed) tree.dump data ∧
      (load data).skipped = [] ∧ (load data).result = .ok tree := by
  intro opening place call tree text flag trimmedCall data
  have hdumpable : tree.dumpable = true := by decide
  let kind : String × Json := ("type", text "ArrayNode")
  let last : String × Json := ("opening_loc", dumpPlace (some opening))
  have hplace : Json.EditedBy Trimmed tree.dump
      (.object [kind, ("elements", .array [call.dump, .array [text "x"]]), last]) :=
    .here (.drop [kind] _ rfl (by decide) (.inl ⟨rfl, rfl⟩))
  have hreceiver : Json.EditedBy Trimmed
      (.object [kind, ("elements", .array [call.dump, .array [text "x"]]), last]) data := by
    refine .entry [kind] [last] (not_holdsPlace (by decide) (by decide))
      (.item [] [.array [text "x"]] (.here ?_))
    exact .drop [("type", text "CallNode"), ("location", dumpPlace (some place))] _ rfl (by decide)
      (.inr ⟨.nullable .receiver, List.mem_cons_self .., rfl, .null, rfl, rfl⟩)
  have hdata : Relation.ReflTransGen (Json.EditedBy Trimmed) tree.dump data :=
    .tail (.single hplace) hreceiver
  exact ⟨hdumpable, hdata, (load_dump_without_defaults hdumpable).2.2 data hdata⟩

end Tree

end RubySexp
