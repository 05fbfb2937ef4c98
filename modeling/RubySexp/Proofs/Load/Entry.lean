import Mathlib.Data.List.Nodup
import RubySexp.Proofs.Node.Schema

/-!
# Entries of a Dumped Node

The entries of an object are read one after the other, and each of them gives a part of the node,
or nothing if it is no field. Of the parts only the first for each field counts. So it is enough to
look at single entries to see how a change to an object bears on what is loaded, and a change deep
inside the data shows only through what is loaded in its place.
-/

namespace RubySexp

namespace Loading

variable {α β : Type} {m : Loading α} {f g : α → Loading β}

def value? (m : Loading α) : Option α := m.result.toOption

lemma value?_eq_some {a : α} : m.value? = some a ↔ m.result = .ok a := by
  obtain ⟨skipped, _ | b⟩ := m <;> simp [value?, Except.toOption]

@[simp] lemma value?_pure (a : α) : (pure a : Loading α).value? = some a := rfl

@[simp] lemma value?_bind : (m >>= f).value? = m.value?.bind fun a => (f a).value? := by
  obtain ⟨skipped, _ | a⟩ := m <;> rfl

instance : LawfulMonad Loading := LawfulMonad.mk' Loading
  (fun x => by
    obtain ⟨skipped, _ | a⟩ := x
    · rfl
    · exact congrArg (Loading.mk · (.ok a)) (List.append_nil skipped))
  (fun _ _ => rfl)
  (fun x f g => by
    obtain ⟨skipped, _ | a⟩ := x
    · rfl
    · change Loading.bind (Loading.bind ⟨skipped, .ok a⟩ f) g =
        Loading.bind ⟨skipped, .ok a⟩ fun a => Loading.bind (f a) g
      rcases hfa : f a with ⟨more, _ | b⟩
      · simp [Loading.bind, hfa]
      · simp [Loading.bind, hfa, List.append_assoc])

lemma bind_congr_value (h : ∀ a, m.value? = some a → f a = g a) : m >>= f = m >>= g := by
  obtain ⟨skipped, _ | a⟩ := m
  · rfl
  · change Loading.bind _ f = Loading.bind _ g
    simp only [Loading.bind, h a rfl]

structure Congruence where
  rel {α : Type} : Loading α → Loading α → Prop
  refl {α : Type} (m : Loading α) : rel m m
  bind {α β : Type} {m m' : Loading α} (f : α → Loading β) (h : rel m m') :
    rel (m >>= f) (m' >>= f)
  bind_right {α β : Type} (m : Loading α) {f g : α → Loading β} (h : ∀ a, rel (f a) (g a)) :
    rel (m >>= f) (m >>= g)

namespace Congruence

/-- Loads that skip the same keys and end alike. -/
def equal : Congruence where
  rel m m' := m = m'
  refl _ := rfl
  bind f h := congrArg (· >>= f) h
  bind_right m _ _ h := congrArg (m >>= ·) (funext h)

/-- Loads of which both fail, or both give the same. -/
def sameValue : Congruence where
  rel m m' := m.value? = m'.value?
  refl _ := rfl
  bind f h := by rw [value?_bind, value?_bind, h]
  bind_right m f g h := by simp only [value?_bind, h]

end Congruence

end Loading

namespace Json

variable {key : String} {data : Json} {entries before after : List (String × Json)}

lemma lookup?_cons (k : String) : lookup? k ((key, data) :: entries) =
    if key == k then some data else lookup? k entries := by
  rw [lookup?, List.find?_cons]
  split <;> simp_all [lookup?]

lemma lookup?_append (k : String) :
    lookup? k (before ++ after) = (lookup? k before).or (lookup? k after) := by
  simp [lookup?, Option.map_or]

end Json

namespace Part

def key : Part → String
  | .location _ => "location"
  | .field f _ => f.label

end Part

namespace Tree

variable {kind : Kind} {key : String} {data data' : Json} {field : Field} {parts parts' : List Part}
  {entries before after rest : List (String × Json)}

/-! ### Parts of a node -/

lemma kindOf_of_lookup? {entries' : List (String × Json)}
    (h : Json.lookup? "type" entries = Json.lookup? "type" entries') :
    (kindOf entries).toOption = (kindOf entries').toOption := by
  unfold kindOf
  rw [h]
  split
  all_goals rfl

def readField (field : Field) (data : Json) : Loading Tree :=
  if field.isLocation then ofLocation? <$> loadLocation data else load data

/-- What an entry of an object gives to a node of a kind, if it is one of its fields. -/
def readPart (kind : Kind) (key : String) (data : Json) : Loading (Option Part) :=
  if key == "type" then pure none
  else if key == "location" then do return some (.location (← loadLocation data))
  else
    match fieldOf? kind key with
    | none => do
      Loading.skip kind key
      return none
    | some field => do return some (.field field (← readField field data))

lemma loadParts_cons : loadParts kind ((key, data) :: rest) = do
    let part ← readPart kind key data
    let parts ← loadParts kind rest
    return part.toList ++ parts := by
  rw [loadParts, readPart]
  split
  · simp
  split
  · simp
  cases fieldOf? kind key with
  | none => simp
  | some field =>
    simp only [readField]
    split <;> simp

lemma loadParts_append (after : List (String × Json)) : loadParts kind (before ++ after) = do
    let parts ← loadParts kind before
    let more ← loadParts kind after
    return parts ++ more := by
  induction before with
  | nil => simp [loadParts]
  | cons entry rest ih =>
    obtain ⟨key, data⟩ := entry
    simp only [List.cons_append, loadParts_cons, ih, bind_assoc, pure_bind, List.append_assoc]

lemma loadItems_append (items more : List Json) : loadItems (items ++ more) = do
    let trees ← loadItems items
    let others ← loadItems more
    return trees ++ others := by
  induction items with
  | nil => simp [loadItems]
  | cons item rest ih => simp [loadItems, ih]

lemma key_of_readPart {part : Part} (h : (readPart kind key data).value? = some (some part)) :
    part.key = key := by
  unfold readPart at h
  split at h
  · cases h
  split at h
  · next hkey =>
    rw [Loading.value?_bind] at h
    obtain ⟨l, -, hl⟩ := Option.bind_eq_some_iff.mp h
    obtain rfl := Option.some.inj (Option.some.inj hl)
    exact (eq_of_beq hkey).symm
  split at h
  · cases h
  · next field hfield =>
    rw [Loading.value?_bind] at h
    obtain ⟨tree, -, htree⟩ := Option.bind_eq_some_iff.mp h
    obtain rfl := Option.some.inj (Option.some.inj htree)
    exact label_of_fieldOf? hfield

lemma keys_of_loadParts (h : (loadParts kind entries).value? = some parts) :
    (parts.map Part.key).Sublist (entries.map Prod.fst) := by
  induction entries generalizing parts with
  | nil =>
    cases h
    exact List.Sublist.refl _
  | cons entry rest ih =>
    obtain ⟨key, data⟩ := entry
    simp only [loadParts_cons, Loading.value?_bind, Option.bind_eq_some_iff,
      Loading.value?_pure, Option.some.injEq] at h
    obtain ⟨part, hpart, others, hothers, rfl⟩ := h
    cases part with
    | none => exact (ih hothers).cons key
    | some part =>
      rw [Option.toList_some, List.singleton_append, List.map_cons, key_of_readPart hpart]
      exact (ih hothers).cons_cons key

lemma assemble_congr
    (hfields : ∀ slot ∈ kind.slots, (parts.findSome? (·.content? slot.field)).or slot.default =
      (parts'.findSome? (·.content? slot.field)).or slot.default)
    (hlocation : (parts.findSome? Part.location?).getD (some {}) =
      (parts'.findSome? Part.location?).getD (some {})) :
    assemble kind parts = assemble kind parts' := by
  unfold assemble
  extract_lets content missing location content' missing' location'
  have hcontent : ∀ slot ∈ kind.slots, content slot = content' slot := hfields
  have hmissing : missing = missing' :=
    List.filter_congr fun slot hslot => by rw [hcontent slot hslot]
  have hgiven : kind.slots.filterMap (fun slot => (content slot).map (slot.field, ·)) =
      kind.slots.filterMap fun slot => (content' slot).map (slot.field, ·) :=
    List.filterMap_congr fun slot hslot => by rw [hcontent slot hslot]
  rw [hmissing, hgiven, show location = location' from hlocation]

/-! ### Changes inside data -/

def HoldsPlace (key : String) : Prop :=
  key = "location" ∨ ∃ field : Field, field.isLocation = true ∧ field.label = key

lemma not_holdsPlace (hlocation : key ≠ "location") (hopening : Field.openingLoc.label ≠ key) :
    ¬ HoldsPlace key := by
  rintro (hkey | ⟨field, hfield, hlabel⟩)
  · exact hlocation hkey
  · cases field with
    | openingLoc => exact hopening hlabel
    | _ => cases hfield

end Tree

/-- Data in which the entries of one object are changed. The object may stand at any depth, except
where a place is stated. -/
inductive Json.EditedBy (change : List (String × Json) → List (String × Json) → Prop) :
    Json → Json → Prop
  | here {entries entries' : List (String × Json)} (h : change entries entries') :
    EditedBy change (.object entries) (.object entries')
  | item (before after : List Json) {data data' : Json} (h : EditedBy change data data') :
    EditedBy change (.array (before ++ data :: after)) (.array (before ++ data' :: after))
  | entry (before after : List (String × Json)) {key : String} {data data' : Json}
    (hkey : ¬ Tree.HoldsPlace key) (h : EditedBy change data data') :
    EditedBy change (.object (before ++ (key, data) :: after))
      (.object (before ++ (key, data') :: after))

namespace Tree

variable {kind : Kind} {key : String} {data data' : Json}
  {before after : List (String × Json)}
  {change : List (String × Json) → List (String × Json) → Prop}

lemma readPart_rel (E : Loading.Congruence) (hkey : ¬ HoldsPlace key)
    (h : E.rel (load data) (load data')) :
    E.rel (readPart kind key data) (readPart kind key data') := by
  obtain ⟨hlocation, hplace⟩ := not_or.mp hkey
  unfold readPart
  split
  · exact E.refl _
  rw [if_neg (by simpa using hlocation), if_neg (by simpa using hlocation)]
  split
  · exact E.refl _
  · next field hfield =>
    have hno : field.isLocation = false := by
      by_contra hyes
      exact hplace ⟨field, by simpa using hyes, label_of_fieldOf? hfield⟩
    rw [readField, readField, if_neg (by simp [hno]), if_neg (by simp [hno])]
    exact E.bind _ h

lemma kindOf_edited (h : Json.EditedBy change data data') :
    kindOf (before ++ (key, data) :: after) = kindOf (before ++ (key, data') :: after) := by
  unfold kindOf
  simp only [Json.lookup?_append, Json.lookup?_cons, List.map_append, List.map_cons]
  cases Json.lookup? "type" before with
  | some kind => rfl
  | none =>
    cases key == "type" with
    | true => cases h <;> rfl
    | false => rfl

theorem load_rel_of_edited (E : Loading.Congruence)
    (hchange : ∀ {entries entries'}, change entries entries' →
      E.rel (load (.object entries)) (load (.object entries')))
    (h : Json.EditedBy change data data') : E.rel (load data) (load data') := by
  induction h with
  | here h => exact hchange h
  | item before after _ ih =>
    simp only [load, loadItems_append, loadItems, bind_assoc, pure_bind]
    exact E.bind_right _ fun trees => E.bind _ ih
  | entry before after hkey h ih =>
    rw [load, load, kindOf_edited h]
    split
    · exact E.refl _
    · simp only [loadParts_append, loadParts_cons, bind_assoc, pure_bind]
      exact E.bind_right _ fun parts => E.bind _ (readPart_rel E hkey ih)

end Tree

end RubySexp
