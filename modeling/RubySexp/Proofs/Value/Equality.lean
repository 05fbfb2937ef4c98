import Mathlib.Tactic
import RubySexp.Value.Equality

/-!
# Equality as Sameness of Essence

Equality of values is computed side by side. Of Ruby values and of expressions made of them it can
be said more simply: each has an essence, and two of them are equal exactly if their essences are
the same and each number in them is one. Numbers have their quantity for essence, lines do not
belong to it, and where types count the essence keeps them. So equality is symmetric and transitive.
It is reflexive on the values without a float that is no number, for such a float differs from
itself.
-/

namespace RubySexp

def Quantity.isDefined : Quantity → Bool
  | .undefined => false
  | _ => true

@[simp] lemma Quantity.isDefined_exact (q : Rat) : (exact q).isDefined = true := rfl

lemma Quantity.same_iff {p q : Quantity} :
    p.same q = true ↔ p = q ∧ p.isDefined = true ∧ q.isDefined = true := by
  cases p <;> cases q <;> simp [same, isDefined]

/-- Whether a scalar is anything but a float that is no number. -/
def Scalar.isDefinite (s : Scalar) : Bool := s.quantity?.all Quantity.isDefined

namespace Value

/-- Two values are equal and of one type, as the kids of equal expressions are. -/
def Equal (v w : Value) : Prop := v.sameType w = true ∧ v.same w = true

variable {v w : Value} {kids kids' : List Value} {tag tag' : Tag}
variable {line line' maxLine maxLine' : Json}

lemma sameKids_iff : sameKids kids kids' = true ↔ List.Forall₂ Equal kids kids' := by
  induction kids generalizing kids' with
  | nil => cases kids' <;> simp [sameKids]
  | cons kid rest ih =>
    cases kids' with
    | nil => simp [sameKids]
    | cons kid' rest' => simp [sameKids, ih, Equal]

lemma same_sexp : (Value.sexp tag kids line maxLine).same (.sexp tag' kids' line' maxLine') = true ↔
    tag = tag' ∧ List.Forall₂ Equal kids kids' := by
  rw [same, Bool.and_eq_true, beq_iff_eq, sameKids_iff]

lemma equal_sexp :
    (Value.sexp tag kids line maxLine).Equal (.sexp tag' kids' line' maxLine') ↔
      tag = tag' ∧ List.Forall₂ Equal kids kids' := by
  rw [Equal, same_sexp]
  exact and_iff_right rfl

lemma Equal.eq_sexp (h : (Value.sexp tag kids line maxLine).Equal w) :
    ∃ kids' line' maxLine', w = .sexp tag kids' line' maxLine' ∧ List.Forall₂ Equal kids kids' := by
  cases w with
  | sexp tag' kids' line' maxLine' =>
    obtain ⟨rfl, hkids⟩ := equal_sexp.mp h
    exact ⟨kids', line', maxLine', rfl, hkids⟩
  | _ => cases h.1

lemma Equal.isA_eq (h : v.Equal w) (tags : List Tag) : v.isA tags = w.isA tags := by
  cases v with
  | sexp tag kids line maxLine =>
    obtain ⟨kids', line', maxLine', rfl, -⟩ := h.eq_sexp
    rfl
  | _ =>
    cases w with
    | sexp => cases h.1
    | _ => rfl

/-! ### Essence -/

mutual

/-- Whether a value is made of expressions and of Ruby values. -/
def isRuby : Value → Bool
  | .scalar _ | .rational _ | .symbol (.text _) | .regexp (.text _) _ => true
  | .range first last excludeEnd => isRuby first && isRuby last && isRuby excludeEnd
  | .imaginary re im => isRuby re && isRuby im
  | .sexp _ kids _ _ => areRuby kids
  | _ => false

def areRuby : List Value → Bool
  | [] => true
  | v :: rest => isRuby v && areRuby rest

end

mutual

/-- Whether no float in a value is undefined as a number. -/
def isDefinite : Value → Bool
  | .scalar s => s.isDefinite
  | .range first last excludeEnd => isDefinite first && isDefinite last && isDefinite excludeEnd
  | .imaginary re im => isDefinite re && isDefinite im
  | .sexp _ kids _ _ => areDefinite kids
  | _ => true

def areDefinite : List Value → Bool
  | [] => true
  | v :: rest => isDefinite v && areDefinite rest

end

lemma areRuby_iff : areRuby kids = true ↔ ∀ kid ∈ kids, kid.isRuby = true := by
  induction kids with
  | nil => simp [areRuby]
  | cons kid rest ih => simp [areRuby, ih]

lemma areDefinite_iff : areDefinite kids = true ↔ ∀ kid ∈ kids, kid.isDefinite = true := by
  induction kids with
  | nil => simp [areDefinite]
  | cons kid rest ih => simp [areDefinite, ih]

/-- What equality sees of a value. A number has a type only where types count. -/
inductive Essence where
  | number (type : Option String) (q : Quantity)
  | scalar (s : Scalar)
  | symbol (name : Tree)
  | regexp (source : Tree) (options : Nat)
  | range (first last excludeEnd : Essence)
  | imaginary (re im : Essence)
  | sexp (tag : Tag) (kids : List Essence)
  | other

def Essence.ofScalar (typed : Bool) (s : Scalar) : Essence :=
  match s.quantity? with
  | some q => .number (if typed then some s.typeName else none) q
  | none => .scalar s

mutual

/-- The essence of a value, where types count and where they do not. They count between the parts of
an imaginary number and between kids, but not between the ends of ranges. -/
def essence (typed : Bool) : Value → Essence
  | .scalar s => .ofScalar typed s
  | .rational q => .number (if typed then some "Rational" else none) (.exact q)
  | .symbol name => .symbol name
  | .regexp source options => .regexp source options
  | .range first last excludeEnd =>
    .range (essence false first) (essence false last) (essence false excludeEnd)
  | .imaginary re im => .imaginary (essence true re) (essence true im)
  | .sexp tag kids _ _ => .sexp tag (essences kids)
  | _ => .other

def essences : List Value → List Essence
  | [] => []
  | v :: rest => essence true v :: essences rest

end

lemma ne_ofScalar {e : Essence} (hnumber : ∀ type q, e ≠ .number type q)
    (hscalar : ∀ s, e ≠ .scalar s) (typed : Bool) (s : Scalar) : e ≠ .ofScalar typed s := by
  unfold Essence.ofScalar
  split
  · exact hnumber _ _
  · exact hscalar s

lemma ofScalar_ne {e : Essence} (hnumber : ∀ type q, e ≠ .number type q)
    (hscalar : ∀ s, e ≠ .scalar s) (typed : Bool) (s : Scalar) : Essence.ofScalar typed s ≠ e :=
  (ne_ofScalar hnumber hscalar typed s).symm

lemma same_scalar {s t : Scalar} :
    s.same t = true ↔ Essence.ofScalar false s = .ofScalar false t ∧
      s.isDefinite = true ∧ t.isDefinite = true := by
  cases s <;> cases t <;> simp [Scalar.same, Scalar.isDefinite, Scalar.quantity?, Essence.ofScalar,
    Quantity.same_iff]

lemma equal_iff_of_same_iff (hv : v.isRuby = true) (hw : w.isRuby = true)
    (h : v.same w = true ↔
      v.essence false = w.essence false ∧ v.isDefinite = true ∧ w.isDefinite = true) :
    v.Equal w ↔ v.essence true = w.essence true ∧ v.isDefinite = true ∧ w.isDefinite = true := by
  rcases v with s | _ | _ | _ | _ | _ | _ | _ | _ | _ | _ | _
  case scalar =>
    cases w with
    | scalar t =>
      rw [Equal, h]
      cases s <;> cases t <;>
        simp [sameType, Scalar.typeName, essence, Essence.ofScalar, Scalar.quantity?]
    | rational q => cases s <;>
        simp [Equal, sameType, Scalar.typeName, essence, Essence.ofScalar, Scalar.quantity?]
    | _ => simp_all [Equal, sameType, essence, ofScalar_ne, isRuby]
  case rational =>
    cases w with
    | scalar t => cases t <;>
        simp [Equal, sameType, Scalar.typeName, essence, Essence.ofScalar, Scalar.quantity?]
    | _ => simp_all [Equal, sameType, essence, isRuby]
  all_goals cases w <;> simp_all [Equal, sameType, essence, ne_ofScalar, isRuby]

mutual

/-- **Plain equality** is sameness of essence, if each number is one. -/
theorem same_iff_essence : ∀ {v w : Value}, v.isRuby = true → w.isRuby = true →
    (v.same w = true ↔
      v.essence false = w.essence false ∧ v.isDefinite = true ∧ w.isDefinite = true)
  | .scalar s, w, hv, hw => by
    cases w with
    | scalar t => simpa [same, essence, isDefinite] using same_scalar
    | rational q => cases s <;> simp [same, quantity?, Scalar.quantity?, Quantity.same_iff, essence,
        Essence.ofScalar, isDefinite, Scalar.isDefinite]
    | _ => simp_all [same, quantity?, essence, ofScalar_ne, isRuby]
  | .rational q, w, _, hw => by
    cases w with
    | scalar t => cases t <;> simp [same, quantity?, Scalar.quantity?, Quantity.same_iff, essence,
        Essence.ofScalar, isDefinite, Scalar.isDefinite]
    | _ => simp_all [same, quantity?, Quantity.same, essence, isDefinite, isRuby]
  | .symbol name, w, hv, hw => by
    cases w with
    | symbol name' =>
      unfold isRuby at hv hw
      split at hv <;> split at hw <;> simp_all [same, Tree.same, Scalar.same, essence, isDefinite]
    | _ => simp_all [same, quantity?, essence, ne_ofScalar, isRuby]
  | .regexp source options, w, hv, hw => by
    cases w with
    | regexp source' options' =>
      unfold isRuby at hv hw
      split at hv <;> split at hw <;> simp_all [same, Tree.same, Scalar.same, essence, isDefinite]
    | _ => simp_all [same, quantity?, essence, ne_ofScalar, isRuby]
  | .range first last excludeEnd, w, hv, hw => by
    cases w with
    | range first' last' excludeEnd' =>
      simp only [isRuby, Bool.and_eq_true] at hv hw
      simp only [same, Bool.and_eq_true, essence, Essence.range.injEq, isDefinite,
        same_iff_essence hv.1.1 hw.1.1, same_iff_essence hv.1.2 hw.1.2, same_iff_essence hv.2 hw.2]
      tauto
    | _ => simp_all [same, quantity?, essence, ne_ofScalar, isRuby]
  | .imaginary re im, w, hv, hw => by
    cases w with
    | imaginary re' im' =>
      simp only [isRuby, Bool.and_eq_true] at hv hw
      -- Unlike the ends of a range, the parts of an imaginary number have to be of one type.
      have hre := equal_iff_of_same_iff hv.1 hw.1 (same_iff_essence hv.1 hw.1)
      have him := equal_iff_of_same_iff hv.2 hw.2 (same_iff_essence hv.2 hw.2)
      simp only [Equal] at hre him
      simp only [same, Bool.and_eq_true, essence, Essence.imaginary.injEq, isDefinite, hre, him]
      tauto
    | _ => simp_all [same, quantity?, essence, ne_ofScalar, isRuby]
  | .sexp tag kids _ _, w, hv, hw => by
    cases w with
    | sexp tag' kids' _ _ =>
      simp only [isRuby] at hv hw
      simp [same, essence, isDefinite, sameKids_iff_essences hv hw, and_assoc]
    | _ => simp_all [same, quantity?, essence, ne_ofScalar, isRuby]
  | .list _, _, hv, _ | .tuple _, _, hv, _ | .mapping _, _, hv, _ | .span _, _, hv, _
  | .node _, _, hv, _ => by simp [isRuby] at hv

theorem sameKids_iff_essences : ∀ {kids kids' : List Value}, areRuby kids = true →
    areRuby kids' = true → (sameKids kids kids' = true ↔
      essences kids = essences kids' ∧ areDefinite kids = true ∧ areDefinite kids' = true)
  | [], kids', _, _ => by cases kids' <;> simp [sameKids, essences, areDefinite]
  | kid :: rest, [], _, _ => by simp [sameKids, essences]
  | kid :: rest, kid' :: rest', hkids, hkids' => by
    simp only [areRuby, Bool.and_eq_true] at hkids hkids'
    have hkid := equal_iff_of_same_iff hkids.1 hkids'.1 (same_iff_essence hkids.1 hkids'.1)
    simp only [Equal] at hkid
    simp only [sameKids, essences, areDefinite, Bool.and_eq_true, hkid, List.cons.injEq,
      sameKids_iff_essences hkids.2 hkids'.2]
    tauto

end

lemma equal_iff_essence (hv : v.isRuby = true) (hw : w.isRuby = true) :
    v.Equal w ↔ v.essence true = w.essence true ∧ v.isDefinite = true ∧ w.isDefinite = true :=
  equal_iff_of_same_iff hv hw (same_iff_essence hv hw)

lemma equal_self_iff (hv : v.isRuby = true) : v.Equal v ↔ v.isDefinite = true := by
  simp [equal_iff_essence hv hv]

lemma Equal.refl (hv : v.isRuby = true) (hdefinite : v.isDefinite = true) : v.Equal v :=
  (equal_self_iff hv).mpr hdefinite

lemma Equal.symm (hv : v.isRuby = true) (hw : w.isRuby = true) (h : v.Equal w) : w.Equal v := by
  obtain ⟨hessence, hdefinite, hdefinite'⟩ := (equal_iff_essence hv hw).mp h
  exact (equal_iff_essence hw hv).mpr ⟨hessence.symm, hdefinite', hdefinite⟩

lemma Equal.trans {u : Value} (hu : u.isRuby = true) (hv : v.isRuby = true) (hw : w.isRuby = true)
    (h : u.Equal v) (h' : v.Equal w) : u.Equal w := by
  obtain ⟨hessence, hdefinite, -⟩ := (equal_iff_essence hu hv).mp h
  obtain ⟨hessence', -, hdefinite'⟩ := (equal_iff_essence hv hw).mp h'
  exact (equal_iff_essence hu hw).mpr ⟨hessence.trans hessence', hdefinite, hdefinite'⟩

end Value

end RubySexp
