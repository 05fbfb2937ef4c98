import Mathlib.Logic.Relation
import RubySexp.Convert
import RubySexp.Proofs.Load.Entry

/-!
# Loading Depends on the Recognised Fields Only

The order in which an object states its entries bears on which error comes first and on the order
of the skips, but not on what is loaded; neither do entries that are no fields of the kind, whatever
they hold. Data that differs in nothing else, at any depth, loads to the same tree or does not load
at all.
-/

namespace RubySexp

lemma findSome?_eq_of_perm {α β κ : Type} {g : α → Option β} {key : α → κ} {k : κ}
    (hg : ∀ x, (g x).isSome = true → key x = k) {l l' : List α} (hperm : l.Perm l')
    (hnodup : (l.map key).Nodup) : l.findSome? g = l'.findSome? g := by
  induction hperm with
  | nil => rfl
  | cons x _ ih =>
    rw [List.map_cons, List.nodup_cons] at hnodup
    rw [List.findSome?_cons, List.findSome?_cons, ih hnodup.2]
  | swap x y rest =>
    rw [List.map_cons, List.map_cons, List.nodup_cons] at hnodup
    -- Only one of the two can have the key.
    have hone : g x = none ∨ g y = none := by
      by_contra hboth
      rw [not_or] at hboth
      have hx := hg x (Option.isSome_iff_ne_none.mpr hboth.1)
      have hy := hg y (Option.isSome_iff_ne_none.mpr hboth.2)
      exact hnodup.1 (by simp [hx, hy])
    rcases hone with h | h <;> simp [List.findSome?_cons, h]
  | trans hfirst _ ih ih' => exact (ih hnodup).trans (ih' ((hfirst.map key).nodup_iff.mp hnodup))

namespace Json

variable {entries entries' : List (String × Json)}

lemma lookup?_eq_findSome? (key : String) :
    lookup? key entries = entries.findSome? fun e => if e.1 == key then some e.2 else none := by
  induction entries with
  | nil => rfl
  | cons entry rest ih =>
    rw [lookup?_cons, List.findSome?_cons, ih]
    split <;> simp_all

lemma lookup?_of_perm (hperm : entries.Perm entries') (hkeys : (entries.map Prod.fst).Nodup)
    (key : String) : lookup? key entries = lookup? key entries' := by
  rw [lookup?_eq_findSome?, lookup?_eq_findSome?]
  refine findSome?_eq_of_perm (k := key) ?_ hperm hkeys
  intro e he
  split at he
  · next hkey => exact eq_of_beq hkey
  · cases he

end Json

namespace Tree

variable {kind : Kind} {key : String} {data : Json} {parts parts' : List Part}
  {entries entries' before after : List (String × Json)}

/-! ### Objects in another order -/

lemma loadParts_of_perm (hperm : entries.Perm entries')
    (h : (loadParts kind entries).value? = some parts) :
    ∃ parts', (loadParts kind entries').value? = some parts' ∧ parts.Perm parts' := by
  induction hperm generalizing parts with
  | nil => exact ⟨parts, h, .refl _⟩
  | cons entry _ ih =>
    obtain ⟨key, data⟩ := entry
    simp only [loadParts_cons, Loading.value?_bind, Option.bind_eq_some_iff,
      Loading.value?_pure, Option.some.injEq] at h ⊢
    obtain ⟨part, hpart, others, hothers, rfl⟩ := h
    obtain ⟨others', hothers', hperm⟩ := ih hothers
    exact ⟨_, ⟨part, hpart, others', hothers', rfl⟩, hperm.append_left _⟩
  | swap entry entry' rest =>
    obtain ⟨key, data⟩ := entry
    obtain ⟨key', data'⟩ := entry'
    simp only [loadParts_cons, Loading.value?_bind, Option.bind_eq_some_iff,
      Loading.value?_pure, Option.some.injEq] at h ⊢
    obtain ⟨part', hpart', _, ⟨part, hpart, others, hothers, rfl⟩, rfl⟩ := h
    refine ⟨_, ⟨part, hpart, _, ⟨part', hpart', others, hothers, rfl⟩, rfl⟩, ?_⟩
    rw [← List.append_assoc, ← List.append_assoc]
    exact List.perm_append_comm.append_right _
  | trans _ _ ih ih' =>
    obtain ⟨middle, hmiddle, hperm⟩ := ih h
    obtain ⟨last, hlast, hperm'⟩ := ih' hmiddle
    exact ⟨last, hlast, hperm.trans hperm'⟩

lemma assemble_of_perm (hperm : parts.Perm parts') (hkeys : (parts.map Part.key).Nodup) :
    assemble kind parts = assemble kind parts' := by
  refine assemble_congr (fun slot _ => ?_) ?_
  · rw [findSome?_eq_of_perm (k := slot.field.label) ?_ hperm hkeys]
    intro part hpart
    cases part with
    | location l => cases hpart
    | field field tree =>
      rw [Part.content?] at hpart
      split at hpart
      · next hfield => rw [eq_of_beq hfield]; rfl
      · cases hpart
  · rw [findSome?_eq_of_perm (k := "location") ?_ hperm hkeys]
    intro part hpart
    cases part with
    | location l => rfl
    | field field tree => cases hpart

lemma load_object_value :
    (load (.object entries)).value? = (kindOf entries).toOption.bind fun kind =>
      (loadParts kind entries).value?.bind fun parts => (assemble kind parts).toOption := by
  rw [load]
  cases kindOf entries with
  | error e => rfl
  | ok kind => exact Loading.value?_bind

/-- **Order**: what an object loads to does not depend on the order of its entries. -/
lemma load_of_perm (hperm : entries.Perm entries') (hkeys : (entries.map Prod.fst).Nodup) :
    (load (.object entries)).value? = (load (.object entries')).value? := by
  have hkind := kindOf_of_lookup? (Json.lookup?_of_perm hperm hkeys "type")
  rw [load_object_value, load_object_value, hkind]
  congr 1
  funext kind
  cases hparts : (loadParts kind entries).value? with
  | some parts =>
    obtain ⟨parts', hparts', hperm'⟩ := loadParts_of_perm hperm hparts
    rw [hparts', Option.bind_some, Option.bind_some,
      assemble_of_perm hperm' ((keys_of_loadParts hparts).nodup hkeys)]
  | none =>
    cases hparts' : (loadParts kind entries').value? with
    | none => rfl
    | some parts' =>
      obtain ⟨_, hsome, -⟩ := loadParts_of_perm hperm.symm hparts'
      rw [hparts] at hsome
      cases hsome

/-! ### Places in another order -/

lemma ofJson?_of_perm (hperm : entries.Perm entries') (hkeys : (entries.map Prod.fst).Nodup) :
    Location.ofJson? (.object entries) = Location.ofJson? (.object entries') := by
  unfold Location.ofJson?
  simp only [Json.lookup?_of_perm hperm hkeys, hperm.all_eq]

lemma loadLocation_of_perm (hperm : entries.Perm entries')
    (hkeys : (entries.map Prod.fst).Nodup) :
    (loadLocation (.object entries)).value? = (loadLocation (.object entries')).value? := by
  simp only [loadLocation, ofJson?_of_perm hperm hkeys]
  cases Location.ofJson? (.object entries') <;> rfl

lemma readPart_of_perm (hkey : HoldsPlace key) (hperm : entries.Perm entries')
    (hkeys : (entries.map Prod.fst).Nodup) :
    (readPart kind key (.object entries)).value? =
      (readPart kind key (.object entries')).value? := by
  have hplace := loadLocation_of_perm hperm hkeys
  unfold readPart
  split
  · rfl
  split
  · rw [Loading.value?_bind, Loading.value?_bind, hplace]
  split
  · rfl
  · next hlocation _ field hfield =>
    obtain rfl | ⟨own, hown, rfl⟩ := hkey
    · exact absurd rfl hlocation
    have hfound : field = own := Field.eq_of_label_eq hown (label_of_fieldOf? hfield)
    rw [hfound, readField, readField, if_pos hown, if_pos hown]
    simp only [map_eq_pure_bind, Loading.value?_bind, hplace]

/-! ### Changes that do not count -/

/-- A change to the entries of an object that loading does not see: they stand in another order, or
those of a place that they state do, or there is one more that is no field of the kind. -/
inductive Unseen : List (String × Json) → List (String × Json) → Prop
  | reorder {entries entries' : List (String × Json)} (hperm : entries.Perm entries')
    (hkeys : (entries.map Prod.fst).Nodup) : Unseen entries entries'
  | place (before after : List (String × Json)) {key : String}
    {entries entries' : List (String × Json)} (hkey : HoldsPlace key)
    (hperm : entries.Perm entries') (hkeys : (entries.map Prod.fst).Nodup) :
    Unseen (before ++ (key, .object entries) :: after) (before ++ (key, .object entries') :: after)
  | extra (before after : List (String × Json)) {key : String} {data : Json} (hkey : key ≠ "type")
    (hunknown : ∀ kind, kindOf (before ++ after) = .ok kind →
      key ≠ "location" ∧ fieldOf? kind key = none) :
    Unseen (before ++ after) (before ++ (key, data) :: after)

lemma readPart_unknown (hkey : key ≠ "type") (hlocation : key ≠ "location")
    (hfield : fieldOf? kind key = none) : (readPart kind key data).value? = some none := by
  rw [readPart, if_neg (by simpa using hkey), if_neg (by simpa using hlocation), hfield]
  rfl

lemma load_of_unseen (h : Unseen entries entries') :
    (load (.object entries)).value? = (load (.object entries')).value? := by
  cases h with
  | reorder hperm hkeys => exact load_of_perm hperm hkeys
  | @place before after key entries entries' hkey hperm hkeys =>
    have hkind : kindOf (before ++ (key, .object entries) :: after) =
        kindOf (before ++ (key, .object entries') :: after) :=
      kindOf_edited (.here hperm)
    rw [load_object_value, load_object_value, hkind]
    simp only [loadParts_append, loadParts_cons, Loading.value?_bind,
      readPart_of_perm hkey hperm hkeys]
  | @extra before after key data hkey hunknown =>
    have hkind : (kindOf (before ++ after)).toOption =
        (kindOf (before ++ (key, data) :: after)).toOption := by
      refine kindOf_of_lookup? ?_
      rw [Json.lookup?_append, Json.lookup?_append, Json.lookup?_cons, if_neg (by simpa using hkey)]
    rw [load_object_value, load_object_value, ← hkind]
    cases hown : kindOf (before ++ after) with
    | error e => rfl
    | ok kind =>
      obtain ⟨hlocation, hfield⟩ := hunknown kind hown
      simp only [Except.toOption, Option.bind_some, loadParts_append, loadParts_cons,
        Loading.value?_bind, readPart_unknown hkey hlocation hfield, Option.toList_none,
        List.nil_append, Loading.value?_pure, Option.bind_fun_some]

/-- **What is recognised decides**: data that differs in the order of the entries of its nodes and
places and in entries that are no fields loads to the same tree, if it loads at all. -/
theorem load_of_recognised {data data' : Json}
    (h : Relation.EqvGen (Json.EditedBy Unseen) data data') :
    ((∃ tree, (load data).result = .ok tree) ↔ ∃ tree, (load data').result = .ok tree) ∧
      ∀ tree tree', (load data).result = .ok tree → (load data').result = .ok tree' →
        tree = tree' ∧ ∀ scope, tree.convert scope = tree'.convert scope := by
  have hvalue : (load data).value? = (load data').value? := by
    induction h with
    | rel _ _ h => exact load_rel_of_edited .sameValue load_of_unseen h
    | refl _ => rfl
    | symm _ _ _ ih => exact ih.symm
    | trans _ _ _ _ _ ih ih' => exact ih.trans ih'
  have hresult : ∀ tree, (load data).result = .ok tree ↔ (load data').result = .ok tree := by
    intro tree
    rw [← Loading.value?_eq_some, ← Loading.value?_eq_some, hvalue]
  refine ⟨exists_congr hresult, fun tree tree' htree htree' => ?_⟩
  obtain rfl : tree = tree' := Except.ok.inj (((hresult tree).mp htree).symm.trans htree')
  exact ⟨rfl, fun _ => rfl⟩

/-- A call with a malformed entry that is no field and with its place from the end to the start, and
the same call in another order and with an entry more in its receiver. -/
theorem load_call_of_recognised :
    let kind (name : String) : String × Json := ("type", .scalar (.text name))
    let name : String × Json := ("name", .scalar (.text "f"))
    let flags : String × Json := ("flags", .object [("type", .int 5)])
    let first : String × Json := ("start_line", .int 2)
    let last : String × Json := ("end_line", .int 3)
    let newline : String × Json := ("newline", .scalar (.bool true))
    let data : Json := .object [kind "CallNode", flags, name, ("location", .object [last, first]),
      ("receiver", .object [kind "SelfNode"])]
    let data' : Json := .object [name, kind "CallNode", ("location", .object [first, last]),
      ("receiver", .object [kind "SelfNode", newline])]
    Relation.EqvGen (Json.EditedBy Unseen) data data' ∧
      ∃ tree, (load data).result = .ok tree ∧ (load data').result = .ok tree := by
  intro kind name flags first last newline data data'
  let receiver : String × Json := ("receiver", .object [kind "SelfNode"])
  let turned : String × Json := ("location", .object [first, last])
  -- The malformed entry goes.
  have hflags : Json.EditedBy Unseen
      (.object [kind "CallNode", name, ("location", .object [last, first]), receiver]) data := by
    refine .here (.extra [kind "CallNode"] _ (by decide) ?_)
    intro own hown
    cases hown
    decide
  have hplace : Json.EditedBy Unseen
      (.object [kind "CallNode", name, ("location", .object [last, first]), receiver])
      (.object [kind "CallNode", name, turned, receiver]) :=
    .here (.place [kind "CallNode", name] [receiver] (.inl rfl) (.swap _ _ _) (by decide))
  have horder : Json.EditedBy Unseen (.object [kind "CallNode", name, turned, receiver])
      (.object [name, kind "CallNode", turned, receiver]) :=
    .here (.reorder (.swap _ _ _) (by decide))
  have hnewline :
      Json.EditedBy Unseen (.object [name, kind "CallNode", turned, receiver]) data' := by
    refine .entry [name, kind "CallNode", turned] [] (not_holdsPlace (by decide) (by decide))
      (.here (.extra [kind "SelfNode"] [] (by decide) ?_))
    intro own hown
    cases hown
    decide
  have hedits : Relation.EqvGen (Json.EditedBy Unseen) data data' :=
    .trans _ _ _ (.symm _ _ (.rel _ _ hflags)) <| .trans _ _ _ (.rel _ _ hplace) <|
      .trans _ _ _ (.rel _ _ horder) (.rel _ _ hnewline)
  obtain ⟨tree, htree⟩ : ∃ tree, (load data).result = .ok tree := ⟨_, rfl⟩
  obtain ⟨tree', htree'⟩ := (load_of_recognised hedits).1.mp ⟨tree, htree⟩
  obtain ⟨rfl, -⟩ := (load_of_recognised hedits).2 tree tree' htree htree'
  exact ⟨hedits, tree, htree, htree'⟩

end Tree

end RubySexp
