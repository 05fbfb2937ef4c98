import RubySexp.Proofs.Load.Entry

/-!
# How a Load Fails

Data that is no dump is reported as malformed, whatever is wrong with it and wherever, with one
exception: the kind of a node is looked up before anything is known of it, and an array or an object
cannot be looked up. The load then ends in a fault of its own, and it does so exactly if it comes to
an object of this sort. What stands behind the first failure is never looked at.
-/

namespace RubySexp

namespace Loading

variable {α β : Type} {m : Loading α} {f : α → Loading β}

lemma result_bind : (m >>= f).result = m.result >>= fun a => (f a).result := by
  obtain ⟨skipped, _ | a⟩ := m <;> rfl

lemma result_bind_eq_error_iff {e : LoadError} : (m >>= f).result = .error e ↔
    m.result = .error e ∨ ∃ a, m.result = .ok a ∧ (f a).result = .error e := by
  rw [result_bind]
  cases hm : m.result with
  | error e' => simp [bind, Except.bind]
  | ok a => simp [bind, Except.bind]

end Loading

def Json.isCompound : Json → Bool
  | .scalar _ => false
  | .array _ | .object _ => true

namespace Tree

variable {kind : Kind} {key : String} {data part : Json} {items : List Json}
  {entries before after : List (String × Json)}

/-! ### Where a load comes to -/

/-- The kind of a node is given by an array or an object. -/
def HasCompoundKind (entries : List (String × Json)) : Prop :=
  ∃ data, Json.lookup? "type" entries = some data ∧ data.isCompound = true

lemma kindOf_eq_compoundKind_iff :
    kindOf entries = .error .compoundKind ↔ HasCompoundKind entries := by
  unfold kindOf HasCompoundKind
  cases Json.lookup? "type" entries with
  | none => simp
  | some data =>
    rcases data with (_ | _ | _ | _ | name) | _ | _
    case scalar.text => rcases hname : Kind.ofName? name <;> simp [hname, Json.isCompound]
    all_goals simp [Json.isCompound]

/-- The load of data comes to a part of it: what stands before the part has been loaded. Data that
states a place is not loaded, and neither are entries that are no fields. -/
inductive Reaches : Json → Json → Prop
  | here (data : Json) : Reaches data data
  | item {before after : List Json} {data part : Json} {trees : List Tree}
    (hbefore : (loadItems before).result = .ok trees) (h : Reaches data part) :
    Reaches (.array (before ++ data :: after)) part
  | entry {before after : List (String × Json)} {key : String} {data part : Json} {kind : Kind}
    {field : Field} {parts : List Part}
    (hkind : kindOf (before ++ (key, data) :: after) = .ok kind)
    (hbefore : (loadParts kind before).result = .ok parts)
    (hfield : fieldOf? kind key = some field) (hplace : field.isLocation = false)
    (h : Reaches data part) : Reaches (.object (before ++ (key, data) :: after)) part

def ReachesCompoundKind (data : Json) : Prop :=
  ∃ entries, Reaches data (.object entries) ∧ HasCompoundKind entries

/-! ### What it meets there -/

lemma loadLocation_ne_compoundKind (data : Json) :
    (loadLocation data).result ≠ .error .compoundKind := by
  unfold loadLocation
  split
  · simp [pure]
  · split <;> simp [pure, Loading.fail]

lemma readPart_of_fieldOf? {field : Field} (hfield : fieldOf? kind key = some field)
    (hplace : field.isLocation = false) :
    readPart kind key data = do return some (.field field (← load data)) := by
  obtain ⟨slot, hslot, rfl⟩ := Option.map_eq_some_iff.mp hfield
  obtain ⟨htype, hlocation⟩ := Kind.label_ne (List.mem_of_find?_eq_some hslot)
  rw [label_of_fieldOf? hfield] at htype hlocation
  rw [readPart, if_neg (by simpa using htype), if_neg (by simpa using hlocation), hfield]
  simp only [readField, hplace, Bool.false_eq_true, if_false]

lemma exists_field_of_readPart (h : (readPart kind key data).result = .error .compoundKind) :
    ∃ field, fieldOf? kind key = some field ∧ field.isLocation = false ∧
      (load data).result = .error .compoundKind := by
  unfold readPart at h
  split at h
  · cases h
  split at h
  · rcases Loading.result_bind_eq_error_iff.mp h with h | ⟨_, -, h⟩
    · exact absurd h (loadLocation_ne_compoundKind data)
    · cases h
  split at h
  · cases h
  · next field hfield =>
    rcases Loading.result_bind_eq_error_iff.mp h with h | ⟨_, -, h⟩
    · unfold readField at h
      split at h
      · rw [map_eq_pure_bind] at h
        rcases Loading.result_bind_eq_error_iff.mp h with h | ⟨_, -, h⟩
        · exact absurd h (loadLocation_ne_compoundKind data)
        · cases h
      · next hplace => exact ⟨field, hfield, by simpa using hplace, h⟩
    · cases h

lemma assemble_ne_compoundKind (kind : Kind) (parts : List Part) :
    assemble kind parts ≠ .error .compoundKind := by
  unfold assemble
  extract_lets content missing location
  split <;> simp

mutual

/-- **A load that fails in this way has come to such a kind.** -/
lemma reaches_of_load : ∀ {data : Json}, (load data).result = .error .compoundKind →
    ReachesCompoundKind data
  | .scalar _, h => by
    rw [load] at h
    cases h
  | .array items, h => by
    rw [load] at h
    rcases Loading.result_bind_eq_error_iff.mp h with h | ⟨_, -, h⟩
    · obtain ⟨before, data, after, trees, rfl, hbefore, entries, hreaches, hkind⟩ :=
        reaches_of_loadItems h
      exact ⟨entries, .item hbefore hreaches, hkind⟩
    · cases h
  | .object entries, h => by
    rw [load] at h
    split at h
    · next e hkind =>
      cases h
      exact ⟨entries, .here _, kindOf_eq_compoundKind_iff.mp hkind⟩
    · next kind hkind =>
      rcases Loading.result_bind_eq_error_iff.mp h with h | ⟨parts, -, h⟩
      · obtain ⟨before, key, data, after, parts, field, rfl, hbefore, hfield, hplace, inner,
          hreaches, hcompound⟩ := reaches_of_loadParts h
        exact ⟨inner, .entry hkind hbefore hfield hplace hreaches, hcompound⟩
      · exact absurd h (assemble_ne_compoundKind kind parts)

lemma reaches_of_loadItems : ∀ {items : List Json},
    (loadItems items).result = .error .compoundKind →
    ∃ before data after trees, items = before ++ data :: after ∧
      (loadItems before).result = .ok trees ∧ ReachesCompoundKind data
  | [], h => by
    rw [loadItems] at h
    cases h
  | item :: rest, h => by
    rw [loadItems] at h
    rcases Loading.result_bind_eq_error_iff.mp h with h | ⟨tree, htree, h⟩
    · exact ⟨[], item, rest, [], rfl, by rw [loadItems]; rfl, reaches_of_load h⟩
    rcases Loading.result_bind_eq_error_iff.mp h with h | ⟨_, -, h⟩
    · obtain ⟨before, data, after, trees, rfl, hbefore, hreaches⟩ := reaches_of_loadItems h
      refine ⟨item :: before, data, after, tree :: trees, rfl, ?_, hreaches⟩
      simp only [loadItems, Loading.result_bind, htree, hbefore]
      rfl
    · cases h

lemma reaches_of_loadParts {kind : Kind} : ∀ {entries : List (String × Json)},
    (loadParts kind entries).result = .error .compoundKind →
    ∃ before key data after parts field, entries = before ++ (key, data) :: after ∧
      (loadParts kind before).result = .ok parts ∧ fieldOf? kind key = some field ∧
      field.isLocation = false ∧ ReachesCompoundKind data
  | [], h => by
    rw [loadParts] at h
    cases h
  | (key, data) :: rest, h => by
    rw [loadParts_cons] at h
    rcases Loading.result_bind_eq_error_iff.mp h with h | ⟨part, hpart, h⟩
    · obtain ⟨field, hfield, hplace, h⟩ := exists_field_of_readPart h
      exact ⟨[], key, data, rest, [], field, rfl, by rw [loadParts]; rfl, hfield, hplace,
        reaches_of_load h⟩
    rcases Loading.result_bind_eq_error_iff.mp h with h | ⟨_, -, h⟩
    · obtain ⟨before, own, inner, after, parts, field, rfl, hbefore, hfield, hplace, hreaches⟩ :=
        reaches_of_loadParts h
      refine ⟨(key, data) :: before, own, inner, after, part.toList ++ parts, field, rfl, ?_,
        hfield, hplace, hreaches⟩
      simp only [loadParts_cons, Loading.result_bind, hpart, hbefore]
      rfl
    · cases h

end

lemma load_eq_error_of_reaches {e : LoadError} (hreaches : Reaches data part)
    (h : (load part).result = .error e) : (load data).result = .error e := by
  induction hreaches with
  | here => exact h
  | item hbefore _ ih =>
    simp only [load, loadItems_append, loadItems, Loading.result_bind, hbefore, ih h]
    rfl
  | entry hkind hbefore hfield hplace _ ih =>
    rw [load, hkind]
    simp only [loadParts_append, loadParts_cons, readPart_of_fieldOf? hfield hplace,
      Loading.result_bind, hbefore, ih h]
    rfl

lemma load_eq_compoundKind_iff :
    (load data).result = .error .compoundKind ↔ ReachesCompoundKind data := by
  constructor
  · exact reaches_of_load
  · rintro ⟨entries, hreaches, hkind⟩
    refine load_eq_error_of_reaches hreaches ?_
    rw [load, kindOf_eq_compoundKind_iff.mpr hkind]
    rfl

end Tree

namespace Loading

variable {α : Type} {m : Loading α}

/-- A load gives a tree, or reports that the data is malformed. -/
def Reported (m : Loading α) : Prop :=
  (∃ a, m.result = .ok a) ∨ ∃ e, m.result = .error e ∧ e.fault? = none

/-- A load ends in a fault that is no report: content is used as what it is not. -/
def Faulty (m : Loading α) : Prop := ∃ e, m.result = .error e ∧ e.fault? = some .wrongType

lemma reported_iff : m.Reported ↔ m.result ≠ .error .compoundKind := by
  unfold Reported
  rcases m.result with e | a
  · cases e <;> simp [LoadError.fault?]
  · simp

lemma faulty_iff : m.Faulty ↔ m.result = .error .compoundKind := by
  unfold Faulty
  rcases m.result with e | a
  · cases e <;> simp [LoadError.fault?]
  · simp

end Loading

namespace Tree

lemma loadText_eq_compoundKind_iff {text : String} :
    (loadText text).result = .error .compoundKind ↔
      ∃ data, Json.read text = .ok data ∧ ReachesCompoundKind data := by
  unfold loadText
  rcases Json.read text with e | data
  · simp [Loading.fail]
  · simp [load_eq_compoundKind_iff]

/-- **Malformed data is reported**, unless the load comes to a node whose kind is given by an array
or an object; then it ends in a fault. The same holds of texts, where a text that is no JSON is
reported too. -/
theorem load_reports_malformed (data : Json) (text : String) :
    ((load data).Reported ↔ ¬ ReachesCompoundKind data) ∧
    ((load data).Faulty ↔ ReachesCompoundKind data) ∧
    ((loadText text).Reported ↔ ¬ ∃ data, Json.read text = .ok data ∧ ReachesCompoundKind data) ∧
    ((loadText text).Faulty ↔ ∃ data, Json.read text = .ok data ∧ ReachesCompoundKind data) := by
  rw [Loading.reported_iff, Loading.faulty_iff, Loading.reported_iff, Loading.faulty_iff]
  exact ⟨not_congr load_eq_compoundKind_iff, load_eq_compoundKind_iff,
    not_congr loadText_eq_compoundKind_iff, loadText_eq_compoundKind_iff⟩

/-- The kind of a node is an empty array. -/
example : (load (.object [("type", .array [])])).result = .error .compoundKind := rfl

/-- Behind an item of an unknown kind, the same node is not reached. -/
example : (load (.array [.object [("type", .int 5)], .object [("type", .array [])]])).result =
    .error (.unknownKind (.int 5)) := rfl

end Tree

end RubySexp
