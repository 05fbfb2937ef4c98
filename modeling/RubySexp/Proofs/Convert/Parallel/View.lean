import RubySexp.Proofs.Convert.Parallel.Blur
import RubySexp.Proofs.Value.Places

/-!
# Values Seen in One View

A view blurs some differences between values and says at which places expressions may stand. Two
values are the same in a view if they look alike and come from its places. What the rules do with
values keeps this: they look at a value only in ways that no blurred difference can be seen in,
apart from a few tags and from whether a text is empty, and the lines of expressions stay as they
are.
-/

namespace RubySexp

structure View extends Blur where
  place : Location → Prop

namespace Value

variable {φ : Blur} {places : Location → Prop}

mutual

lemma comesFrom_blur : ∀ v : Value, (v.blur φ).ComesFrom places ↔ v.ComesFrom places
  | .scalar _ | .rational _ | .mapping _ | .span _ | .node _ => by simp
  | .symbol _ | .regexp .. => by simp
  | .range first last excludeEnd => by
    simp [comesFrom_blur first, comesFrom_blur last, comesFrom_blur excludeEnd]
  | .imaginary re im => by simp [comesFrom_blur re, comesFrom_blur im]
  | .sexp _ kids _ _ => by simp [comesFrom_blurAll kids]
  | .list items | .tuple items => by simp [comesFrom_blurAll items]

lemma comesFrom_blurAll : ∀ vs : List Value,
    (∀ v ∈ blurAll φ vs, v.ComesFrom places) ↔ ∀ v ∈ vs, v.ComesFrom places
  | [] => by simp
  | v :: vs => by simp [comesFrom_blur v, comesFrom_blurAll vs]

end

end Value

namespace View

variable {φ : View} {v w : Value} {vs ws : List Value}

def Same (φ : View) (v w : Value) : Prop := φ.toBlur.Same v w ∧ v.ComesFrom φ.place

abbrev SameAll (φ : View) : List Value → List Value → Prop := List.Forall₂ φ.Same

@[simp] lemma same_self : φ.Same v v ↔ v.ComesFrom φ.place := and_iff_right rfl

lemma Same.symm (h : φ.Same v w) : φ.Same w v := by
  refine ⟨h.1.symm, ?_⟩
  rw [← Value.comesFrom_blur, ← h.1, Value.comesFrom_blur]
  exact h.2

lemma sameAll_iff : φ.SameAll vs ws ↔
    Value.blurAll φ.toBlur vs = Value.blurAll φ.toBlur ws ∧ ∀ v ∈ vs, v.ComesFrom φ.place := by
  induction vs generalizing ws with
  | nil => cases ws <;> simp
  | cons v vs ih =>
    cases ws with
    | nil => simp
    | cons w ws =>
      simp only [List.forall₂_cons, ih, Same, Blur.Same, Value.blurAll, List.cons.injEq,
        List.forall_mem_cons]
      tauto

namespace SameAll

lemma symm (h : φ.SameAll vs ws) : φ.SameAll ws vs := (h.imp fun _ _ => Same.symm).flip

lemma eq_nil (h : φ.SameAll [] ws) : ws = [] := List.forall₂_nil_left_iff.mp h

lemma eq_cons (h : φ.SameAll (v :: vs) ws) :
    ∃ w ws', ws = w :: ws' ∧ φ.Same v w ∧ φ.SameAll vs ws' := by
  obtain ⟨w, ws', hv, hvs, rfl⟩ := List.forall₂_cons_left_iff.mp h
  exact ⟨w, ws', rfl, hv, hvs⟩

lemma append {vs' ws' : List Value} (h : φ.SameAll vs ws) (h' : φ.SameAll vs' ws') :
    φ.SameAll (vs ++ vs') (ws ++ ws') :=
  List.rel_append h h'

lemma isEmpty_eq (h : φ.SameAll vs ws) : vs.isEmpty = ws.isEmpty := by
  cases h <;> rfl

end SameAll

/-! ### What values that are the same are made of -/

section Constructors

variable {tag tag' : Tag} {kids kids' : List Value} {l l' m m' : Json}

@[simp] lemma same_sexp : φ.Same (.sexp tag kids l m) (.sexp tag' kids' l' m') ↔
    φ.tag tag = φ.tag tag' ∧ φ.SameAll kids kids' ∧ l = l' ∧ m = m' ∧
      ∃ place, φ.place place ∧ l = place.startLine ∧ m = place.endLine := by
  simp only [Same, Blur.Same, Value.blur, Value.sexp.injEq, Value.comesFrom_sexp, sameAll_iff]
  tauto

@[simp] lemma same_list : φ.Same (.list vs) (.list ws) ↔ φ.SameAll vs ws := by
  simp [Same, Blur.Same, sameAll_iff]

@[simp] lemma same_tuple : φ.Same (.tuple vs) (.tuple ws) ↔ φ.SameAll vs ws := by
  simp [Same, Blur.Same, sameAll_iff]

@[simp] lemma same_text {a b : String} : φ.Same (.text a) (.text b) ↔ φ.text a = φ.text b := by
  simp [Same, Blur.Same, Scalar.blur]

@[simp] lemma same_sym {a b : String} : φ.Same (.sym a) (.sym b) ↔ φ.name a = φ.name b := by
  simp [Same, Blur.Same, Tree.mapText]

@[simp] lemma same_regexp {a b : String} {options options' : Nat} :
    φ.Same (.regexp (.text a) options) (.regexp (.text b) options') ↔
      φ.text a = φ.text b ∧ options = options' := by
  simp [Same, Blur.Same, Tree.mapText]

@[simp] lemma same_imaginary {re re' im im' : Value} :
    φ.Same (.imaginary re im) (.imaginary re' im') ↔ φ.Same re re' ∧ φ.Same im im' := by
  simp only [Same, Blur.Same, Value.blur, Value.imaginary.injEq, Value.comesFrom_imaginary]
  tauto

lemma Same.eq_sexp (h : φ.Same (.sexp tag kids l m) w) :
    ∃ tag' kids', w = .sexp tag' kids' l m ∧ φ.tag tag = φ.tag tag' ∧ φ.SameAll kids kids' := by
  cases w with
  | sexp tag' kids' l' m' =>
    obtain ⟨htag, hkids, rfl, rfl, -⟩ := same_sexp.mp h
    exact ⟨tag', kids', rfl, htag, hkids⟩
  | _ => simp [Same, Blur.Same] at h

lemma Same.withKids {tags tags' : Tag} (h : φ.Same (.sexp tag vs l m) (.sexp tag' ws l m))
    (htag : φ.tag tags = φ.tag tags') (hkids : φ.SameAll kids kids') :
    φ.Same (.sexp tags kids l m) (.sexp tags' kids' l m) := by
  obtain ⟨-, -, -, -, hplace⟩ := same_sexp.mp h
  exact same_sexp.mpr ⟨htag, hkids, rfl, rfl, hplace⟩

lemma Same.eq_list (h : φ.Same (.list vs) w) : ∃ ws, w = .list ws ∧ φ.SameAll vs ws := by
  cases w with
  | list ws => exact ⟨ws, rfl, same_list.mp h⟩
  | _ => simp [Same, Blur.Same] at h

lemma Same.eq_tuple (h : φ.Same (.tuple vs) w) : ∃ ws, w = .tuple ws ∧ φ.SameAll vs ws := by
  cases w with
  | tuple ws => exact ⟨ws, rfl, same_tuple.mp h⟩
  | _ => simp [Same, Blur.Same] at h

lemma Same.eq_scalar {s : Scalar} (h : φ.Same (.scalar s) w) :
    ∃ s', w = .scalar s' ∧ s.blur φ.toBlur = s'.blur φ.toBlur := by
  cases w with
  | scalar s' => exact ⟨s', rfl, by simpa [Same, Blur.Same] using h⟩
  | _ => simp [Same, Blur.Same] at h

lemma eq_or_text_of_blur {s s' : Scalar} (h : s.blur φ.toBlur = s'.blur φ.toBlur) :
    s' = s ∨ ∃ a b, s = .text a ∧ s' = .text b ∧ φ.text a = φ.text b := by
  cases s with
  | text a =>
    cases s' with
    | text b => exact .inr ⟨a, b, rfl, rfl, by simpa [Scalar.blur] using h⟩
    | _ => simp [Scalar.blur] at h
  | _ =>
    cases s' with
    | text b => simp [Scalar.blur] at h
    | _ => exact .inl h.symm

lemma Same.eq_text {a : String} (h : φ.Same (.text a) w) :
    ∃ b, w = .text b ∧ φ.text a = φ.text b := by
  obtain ⟨s', rfl, hs⟩ := h.eq_scalar
  obtain rfl | ⟨a', b, heq, rfl, hb⟩ := eq_or_text_of_blur hs
  · exact ⟨a, rfl, rfl⟩
  · cases heq
    exact ⟨b, rfl, hb⟩

lemma Same.eq_int {n : Int} (h : φ.Same (.int n) w) : w = .int n := by
  obtain ⟨s', rfl, hs⟩ := h.eq_scalar
  obtain rfl | ⟨a, b, heq, -, -⟩ := eq_or_text_of_blur hs
  · rfl
  · cases heq

end Constructors

structure SameSexp (φ : View) (s s' : Sexp) : Prop where
  tag : φ.tag s.tag = φ.tag s'.tag
  kids : φ.SameAll s.kids s'.kids
  line : s.line = s'.line
  maxLine : s.maxLine = s'.maxLine
  place : ∃ place, φ.place place ∧ s.StandsAt place

lemma SameSexp.toValue {s s' : Sexp} (h : φ.SameSexp s s') : φ.Same s.toValue s'.toValue :=
  same_sexp.mpr ⟨h.tag, h.kids, h.line, h.maxLine, h.place⟩

lemma Same.asSexp?_cases (h : φ.Same v w) : (v.asSexp? = none ∧ w.asSexp? = none) ∨
    ∃ s s', v.asSexp? = some s ∧ w.asSexp? = some s' ∧ φ.SameSexp s s' := by
  cases v with
  | sexp tag kids l m =>
    obtain ⟨tag', kids', rfl, -, -⟩ := h.eq_sexp
    obtain ⟨htag, hkids, -, -, hplace⟩ := same_sexp.mp h
    exact .inr ⟨_, _, rfl, rfl, htag, hkids, rfl, rfl, hplace⟩
  | _ =>
    cases w with
    | sexp => simp [Same, Blur.Same] at h
    | _ => exact .inl ⟨rfl, rfl⟩

lemma tag_beq {a b tag : Tag} (h : φ.tag a = φ.tag b) (htag : tag ∈ watchedTags) :
    (a == tag) = (b == tag) := by
  by_cases ha : a = tag
  · subst ha
    rw [φ.watched h htag]
  · have hb : b ≠ tag := by
      rintro rfl
      exact ha (φ.watched h.symm htag)
    rw [beq_eq_false_iff_ne.mpr ha, beq_eq_false_iff_ne.mpr hb]

lemma Same.isA_eq (h : φ.Same v w) {tag : Tag} (htag : tag ∈ watchedTags) :
    v.isA [tag] = w.isA [tag] := by
  cases v with
  | sexp a kids l m =>
    obtain ⟨b, kids', rfl, hab, -⟩ := h.eq_sexp
    simpa [Value.isA, List.contains_cons] using tag_beq hab htag
  | _ =>
    cases w with
    | sexp => simp [Same, Blur.Same] at h
    | _ => rfl

lemma truthy_scalar {s s' : Scalar} (h : s.blur φ.toBlur = s'.blur φ.toBlur) :
    s.truthy = s'.truthy := by
  obtain rfl | ⟨a, b, rfl, rfl, hab⟩ := eq_or_text_of_blur h
  · rfl
  · by_cases ha : a = ""
    · rw [ha, φ.empty_of_text hab ha]
    · have hb : b ≠ "" := fun hb => ha (φ.empty_of_text hab.symm hb)
      rw [Scalar.truthy, Scalar.truthy, bne_iff_ne.mpr ha, bne_iff_ne.mpr hb]

lemma Same.truthy_eq (h : φ.Same v w) : v.truthy = w.truthy := by
  cases v with
  | scalar s =>
    obtain ⟨s', rfl, hs⟩ := h.eq_scalar
    exact truthy_scalar hs
  | list vs =>
    obtain ⟨ws, rfl, hvs⟩ := h.eq_list
    simp [Value.truthy, hvs.isEmpty_eq]
  | tuple vs =>
    obtain ⟨ws, rfl, hvs⟩ := h.eq_tuple
    simp [Value.truthy, hvs.isEmpty_eq]
  | _ => cases w <;> simp_all [Same, Blur.Same, Value.truthy]

lemma SameSexp.value {s s' : Sexp} (h : φ.SameSexp s s') : φ.Same s.value s'.value := by
  have hlast : φ.SameAll s.kids.reverse s'.kids.reverse := List.rel_reverse h.kids
  unfold Sexp.value
  rw [← List.head?_reverse, ← List.head?_reverse]
  rcases hvs : s.kids.reverse with _ | ⟨v, vs⟩
  · rw [hvs] at hlast
    rw [hlast.eq_nil]
    exact same_sym.mpr (φ.name_of_tag h.tag)
  · rw [hvs] at hlast
    obtain ⟨w, ws, hws, hv, -⟩ := hlast.eq_cons
    rw [hws]
    exact hv

/-! ### Operations on values -/

abbrev Like (φ : View) : Except Fault Value → Except Fault Value → Prop := φ.Side φ.Same

abbrev LikeAll (φ : View) : Except Fault (List Value) → Except Fault (List Value) → Prop :=
  φ.Side φ.SameAll

lemma Same.items (h : φ.Same v w) : φ.LikeAll v.items w.items := by
  cases v with
  | list vs =>
    obtain ⟨ws, rfl, hvs⟩ := h.eq_list
    exact .ok hvs
  | tuple vs =>
    obtain ⟨ws, rfl, hvs⟩ := h.eq_tuple
    exact .ok hvs
  | sexp tag kids l m =>
    obtain ⟨tag', kids', rfl, htag, hkids⟩ := h.eq_sexp
    exact .ok (.cons (same_sym.mpr (φ.name_of_tag htag)) hkids)
  | _ =>
    cases w with
    | list | tuple | sexp => simp [Same, Blur.Same] at h
    | _ => exact .error .wrongType

lemma build {place : Option Location} {tag tag' : Tag} {kids kids' : List Value}
    (hplace : ∀ l, place = some l → φ.place l) (htag : φ.tag tag = φ.tag tag')
    (h : φ.SameAll kids kids') :
    φ.Like (Convert.build place tag kids) (Convert.build place tag' kids') := by
  unfold Convert.build
  cases place with
  | none => exact .error .noSuchPart
  | some l => exact .ok (same_sexp.mpr ⟨htag, h, rfl, rfl, l, hplace l rfl, rfl, rfl⟩)

lemma exists_scalar_of_join {s t : Scalar} (h : Value.join (.scalar s) (.scalar t) = .ok v) :
    ∃ r, v = .scalar r := by
  unfold Value.join at h
  split at h
  · cases h
    exact ⟨_, rfl⟩
  · cases h
    exact ⟨_, rfl⟩
  · obtain ⟨_, -, h⟩ := exists_ok_of_bind h
    obtain ⟨_, -, h⟩ := exists_ok_of_bind h
    cases h
    exact ⟨_, rfl⟩
  · obtain ⟨_, -, h⟩ := exists_ok_of_bind h
    obtain ⟨_, -, h⟩ := exists_ok_of_bind h
    cases h
    exact ⟨_, rfl⟩
  · obtain ⟨_, -, h⟩ := exists_ok_of_bind h
    obtain ⟨_, -, h⟩ := exists_ok_of_bind h
    cases h
    exact ⟨_, rfl⟩
  · next hscalars => exact absurd rfl (hscalars _ _ rfl)

lemma join_scalars {s s' t t' : Scalar} (hs : s.blur φ.toBlur = s'.blur φ.toBlur)
    (ht : t.blur φ.toBlur = t'.blur φ.toBlur) :
    φ.Like (Value.join (.scalar s) (.scalar t)) (Value.join (.scalar s') (.scalar t')) := by
  have hjoin : ∀ (s t : Scalar) (v : Value), Value.join (.scalar s) (.scalar t) = .ok v →
      φ.Same v v := by
    intro s t v hv
    obtain ⟨r, rfl⟩ := exists_scalar_of_join hv
    simp
  obtain rfl | ⟨a, a', rfl, rfl, ha⟩ := eq_or_text_of_blur hs
  · obtain rfl | ⟨b, b', rfl, rfl, hb⟩ := eq_or_text_of_blur ht
    · exact .of_eq rfl (hjoin _ _)
    · cases s' with
      | text a => exact .ok (same_text.mpr (φ.text_append rfl hb))
      | _ => exact .of_eq rfl (hjoin _ _)
  · obtain rfl | ⟨b, b', rfl, rfl, hb⟩ := eq_or_text_of_blur ht
    · cases t' with
      | text b => exact .ok (same_text.mpr (φ.text_append ha rfl))
      | _ => exact .of_eq rfl (hjoin _ _)
    · exact .ok (same_text.mpr (φ.text_append ha hb))

/-- Lists are joined to nothing. Whatever else has items, apart from two scalars, is joined by
them. -/
lemma join_eq {a b : Value} (h : ∀ s t, a = .scalar s → b ≠ .scalar t)
    (ha : ∀ vs, a ≠ .list vs) (hb : ∀ vs, b ≠ .list vs) :
    a.join b = a.items >>= fun vs => b.items >>= fun ws => .ok (.tuple (vs ++ ws)) := by
  unfold Value.join
  split
  · exact absurd rfl (h _ _ rfl)
  · exact absurd rfl (h _ _ rfl)
  · exact absurd rfl (h _ _ rfl)
  · exact absurd rfl (h _ _ rfl)
  · exact absurd rfl (h _ _ rfl)
  · split
    · exact absurd rfl (ha _)
    · exact absurd rfl (hb _)
    · rfl

lemma join_list_right (a : Value) (vs : List Value) :
    a.join (.list vs) = .error .wrongType := by
  cases a with
  | scalar s => cases s <;> rfl
  | _ => rfl

lemma Same.join {a a' b b' : Value} (ha : φ.Same a a') (hb : φ.Same b b') :
    φ.Like (a.join b) (a'.join b') := by
  by_cases hlist : ∃ vs, a = .list vs
  · obtain ⟨vs, rfl⟩ := hlist
    obtain ⟨ws, rfl, -⟩ := ha.eq_list
    exact .error .wrongType
  by_cases hlist' : ∃ vs, b = .list vs
  · obtain ⟨vs, rfl⟩ := hlist'
    obtain ⟨ws, rfl, -⟩ := hb.eq_list
    rw [join_list_right, join_list_right]
    exact .error .wrongType
  by_cases hscalars : ∃ s t, a = .scalar s ∧ b = .scalar t
  · obtain ⟨s, t, rfl, rfl⟩ := hscalars
    obtain ⟨s', rfl, hs⟩ := ha.eq_scalar
    obtain ⟨t', rfl, ht⟩ := hb.eq_scalar
    exact join_scalars hs ht
  -- The remaining cases are told apart by the heads of the values, and these do not blur.
  have hne {a a' : Value} (ha : φ.Same a a') (h : ¬ ∃ vs, a = .list vs) (vs : List Value) :
      a' ≠ .list vs := by
    rintro rfl
    obtain ⟨ws, rfl, -⟩ := ha.symm.eq_list
    exact h ⟨ws, rfl⟩
  rw [join_eq (fun s t has hbt => hscalars ⟨s, t, has, hbt⟩) (fun vs hvs => hlist ⟨vs, hvs⟩)
    (fun vs hvs => hlist' ⟨vs, hvs⟩), join_eq ?scalars (hne ha hlist) (hne hb hlist')]
  case scalars =>
    rintro s t rfl rfl
    obtain ⟨s', rfl, -⟩ := ha.symm.eq_scalar
    obtain ⟨t', rfl, -⟩ := hb.symm.eq_scalar
    exact hscalars ⟨s', t', rfl, rfl⟩
  refine ha.items.bind fun vs vs' _ hvs => hb.items.bind fun ws ws' _ hws => ?_
  exact .ok (same_tuple.mpr (hvs.append hws))

lemma SameSexp.append {s s' : Sexp} (h : φ.SameSexp s s') (hvs : φ.SameAll vs ws) :
    φ.SameSexp (s.append vs) (s'.append ws) :=
  ⟨h.tag, h.kids.append hvs, h.line, h.maxLine, h.place⟩

lemma SameSexp.replaceValue {s s' : Sexp} (h : φ.SameSexp s s') (hv : φ.Same v w) :
    φ.Side φ.SameSexp (s.replaceValue v) (s'.replaceValue w) := by
  have hkids := h.kids
  unfold Sexp.replaceValue
  split
  · next old hold =>
    rw [hold] at hkids
    obtain ⟨new, others, hnew, -, hothers⟩ := hkids.eq_cons
    rw [hnew, hothers.eq_nil]
    exact .ok ⟨h.tag, .cons hv .nil, h.line, h.maxLine, h.place⟩
  · next hmany =>
    split
    · next new hnew =>
      rw [hnew] at hkids
      obtain ⟨old, others, hold, -, hothers⟩ := hkids.symm.eq_cons
      exact absurd (hothers.eq_nil ▸ hold) (hmany old)
    · have hprintable := h.toValue.1.printable_eq .ruby
      unfold Value.inspect
      rw [hprintable]
      split
      · next hp =>
        refine .shown h.toValue.1 ?_ ?_
        · rw [Value.inspect, hprintable, if_pos hp]
        · rw [Value.inspect, if_pos hp]
      · exact .error .wrongType

end View

/-! ### Views of all places -/

namespace Blur

/-- A view in which expressions may stand anywhere. -/
def everywhere (φ : Blur) : View := { φ with place := fun _ => True }

lemma like_everywhere {φ : Blur} {x y : Except Fault Value} : φ.everywhere.Like x y ↔ φ.Like x y :=
  ⟨fun h => h.mono fun _ _ _ => And.left,
    fun h => h.mono fun v _ _ hv => ⟨hv, v.comesFrom_everywhere⟩⟩

end Blur

end RubySexp
