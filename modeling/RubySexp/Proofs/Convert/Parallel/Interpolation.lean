import RubySexp.Proofs.Convert.Parallel.Literal

/-!
# Interpolation Side by Side

Parts are folded alike: whether a part is joined to the text before it depends on tags that can be
told from all others, and texts that are the same stay so when others are added to them.
-/

namespace RubySexp.Convert

lemma Interpolated.isOwn_tag (form : Interpolated) : form.tag.isOwn = true := by
  cases form <;> rfl

namespace Parallel

variable {φ : View} {g : Scope → Tree → Tree} {R : Scope → Scope → Prop} {Q : Tree → Prop}
  {conv conv' : Conversion} {s s' : Scope} {n n' : Node} {tree : Tree}
  (h : Parallel φ g R Q conv conv') (hs : R s s') (hn : Beside φ g Q s n n')

include hn in
lemma plainLiteral (form : Interpolated) {a b : String} (hab : φ.text a = φ.text b) :
    Makes φ conv s n (plainLiteral n form a) (plainLiteral n' form b) := by
  cases form with
  | string =>
    refine (build hn (by simpa using hab)).mono fun v w hv hsame => ⟨hsame, ?_⟩
    obtain ⟨l, rfl⟩ := eq_sexp_of_build hv
    exact .text a _ _
  | command => exact own hn rfl (by simpa using hab)
  | symbol => exact own hn rfl (by simpa using φ.name_of_text hab)
  | regexp =>
    simp only [Convert.plainLiteral, regexpOptions_eq hn]
    exact .bind_same fun options _ => own hn rfl (by simpa using hab)

lemma absorb {folded folded' : List Value} {part part' : Value}
    (hfolded : φ.SameAll folded folded') (hpart : φ.Same part part') :
    φ.LikeAll (absorb folded part) (absorb folded' part') := by
  have hpush : φ.SameAll (part :: folded) (part' :: folded') := .cons hpart hfolded
  unfold Convert.absorb
  obtain ⟨hnone, hnone'⟩ | ⟨e, e', he, he', hsame⟩ := hpart.asSexp?_cases
  · rw [hnone, hnone']
    exact .ok hpush
  rw [he, he']
  rcases folded with _ | ⟨last, before⟩
  · obtain rfl := hfolded.eq_nil
    exact .ok hpush
  obtain ⟨last', before', rfl, hlast, hbefore⟩ := hfolded.eq_cons
  have htag := View.tag_beq hsame.tag (show Tag.str ∈ watchedTags by decide)
  simp only [htag]
  refine .ite ?_ (.ok hpush)
  -- A text is joined to a text, and to a string; anything else stays as it is.
  obtain ⟨hnone, hnone'⟩ | ⟨t, t', ht, ht', hsame'⟩ := hlast.asSexp?_cases
  · rw [hnone, hnone']
    cases last with
    | scalar x =>
      obtain ⟨x', rfl, hx⟩ := hlast.eq_scalar
      cases x with
      | text a =>
        obtain ⟨b, hb, -⟩ := hlast.eq_text
        cases hb
        exact (hlast.join hsame.value).bind fun v v' _ hv => .ok (.cons hv hbefore)
      | _ =>
        obtain rfl | ⟨a, b, heq, -, -⟩ := View.eq_or_text_of_blur hx
        · exact .ok hpush
        · cases heq
    | _ =>
      cases last' with
      | scalar => simp [View.Same, Blur.Same] at hlast
      | _ => exact .ok hpush
  · rw [ht, ht']
    cases last with
    | sexp =>
      obtain ⟨tag', kids', rfl, -, -⟩ := hlast.eq_sexp
      simp only [View.tag_beq hsame'.tag (show Tag.str ∈ watchedTags by decide)]
      refine .ite ?_ (.ok hpush)
      refine (hsame'.value.join hsame.value).bind fun v v' _ hv => ?_
      refine (hsame'.replaceValue hv).bind fun r r' _ hr => .ok ?_
      exact .cons hr.toValue hbefore
    | _ => cases ht

include h hs

lemma absorbTree {folded folded' : List Value} (hfolded : φ.SameAll folded folded')
    (ht : Q tree) :
    φ.LikeAll (absorbTree conv s folded tree) (absorbTree conv' s' folded' (g s tree)) := by
  unfold Convert.absorbTree
  refine (h.conv hs ht).bind fun v v' _ hv => ?_
  rw [h.isA_eq, h.location?_eq]
  have hall : ∀ {start start' rest rest'}, φ.SameAll start start' → φ.SameAll rest rest' →
      φ.LikeAll (rest.foldlM Convert.absorb start) (rest'.foldlM Convert.absorb start') :=
    fun hstart hrest => .foldlM hrest (fun _ _ _ _ hfolded hpart => absorb hfolded hpart) hstart
  rcases tree.isA .interpolatedStringNode with _ | _
  · exact absorb hfolded hv
  split
  · obtain ⟨tag', kids', rfl, htag, hkids⟩ := hv.eq_sexp
    obtain rfl := φ.watched htag (by decide)
    obtain ⟨head', rest', rfl, hhead, hrest⟩ := hkids.eq_cons
    simp only [hhead.truthy_eq]
    refine .ite ?_ (hall hfolded hrest)
    refine (View.build (fun _ => h.place ht) rfl (.cons hhead .nil)).bind
      fun text text' _ htext => ?_
    exact (absorb hfolded htext).bind fun start start' _ hstart => hall hstart hrest
  · next hother _ =>
    split
    · obtain ⟨tag, kids, rfl, htag, hkids⟩ := hv.symm.eq_sexp
      obtain rfl := φ.watched htag (by decide)
      obtain ⟨head, rest, rfl, -, -⟩ := hkids.eq_cons
      exact (hother _ _ _ _ rfl rfl).elim
    · exact absorb hfolded hv

lemma foldParts {parts : List Tree} (hparts : ∀ part ∈ parts, Q part) :
    φ.LikeAll (foldParts conv s parts) (foldParts conv' s' (parts.map (g s))) := by
  rcases parts with _ | ⟨first, rest⟩
  · exact .ok .nil
  have hrest : ∀ {start start'}, φ.SameAll start start' → φ.LikeAll
      (rest.foldlM (Convert.absorbTree conv s) start)
      ((rest.map (g s)).foldlM (Convert.absorbTree conv' s') start') := by
    intro start start' hstart
    refine .foldlM (s := fun part part' => Q part ∧ part' = g s part) ?_ ?_ hstart
    · rw [List.forall₂_map_right_iff]
      exact List.forall₂_same.mpr fun part hpart => ⟨hparts part (by simp [hpart]), rfl⟩
    · rintro folded folded' part part' hfolded ⟨hpart, rfl⟩
      exact absorbTree h hs hfolded hpart
  have hfirst := hparts first (by simp)
  have hget : (g s first).get .unescaped = first.get .unescaped :=
    h.get_data s first fun _ => rfl
  simp only [List.map_cons, Convert.foldParts, h.isA_eq, hget]
  refine .ite ?_ ((absorbTree h hs (by simp) hfirst).bind fun start start' _ hs => hrest hs)
  exact .bind_same fun content _ => hrest (by simp)

include hn

lemma interpolated (form : Interpolated) :
    Makes φ conv s n (interpolated conv s n form) (interpolated conv' s' n' form) := by
  unfold Convert.interpolated
  rw [hn.plain rfl]
  refine .bind_map fun list hlist => ?_
  rw [h.elements_eq]
  refine .bind_map fun parts hparts => ?_
  refine (h.foldParts hs fun part hpart => (hn.held hlist).item hparts hpart).bind ?_
  intro folded folded' _ hfolded
  split
  · obtain rfl := hfolded.eq_nil
    exact plainLiteral hn form rfl
  · obtain ⟨v', rest', rfl, hv, hrest⟩ := hfolded.eq_cons
    obtain rfl := hrest.eq_nil
    obtain ⟨content', rfl, hcontent⟩ := hv.eq_text
    exact plainLiteral hn form hcontent
  · next hempty htext =>
    split
    · obtain rfl := hfolded.symm.eq_nil
      exact (hempty rfl).elim
    · obtain ⟨v, rest, rfl, hv, hrest⟩ := hfolded.symm.eq_cons
      obtain rfl := hrest.eq_nil
      obtain ⟨content, rfl, -⟩ := hv.eq_text
      exact (htext _ rfl).elim
    · exact own hn form.isOwn_tag (List.rel_reverse hfolded)

lemma interpolatedRegexp :
    Makes φ conv s n (interpolatedRegexp conv s n) (interpolatedRegexp conv' s' n') := by
  unfold Convert.interpolatedRegexp
  refine (interpolated h hs hn .regexp).bind ?_
  rintro v v' - ⟨hv, hmade⟩
  rw [regexpOptions_eq hn, hn.data rfl]
  split
  · obtain ⟨tag', kids', rfl, htag, hkids⟩ := hv.eq_sexp
    obtain rfl := φ.watched htag (by decide)
    refine .bind_same fun options _ => .bind_same fun once _ => ?_
    refine .ok ⟨hv.withKids rfl ?_, .own (by split <;> rfl) _ _ _⟩
    split
    · exact hkids
    · exact hkids.append (by simp)
  · next hother =>
    split
    · obtain ⟨tag, kids, rfl, htag, -⟩ := hv.symm.eq_sexp
      obtain rfl := φ.watched htag (by decide)
      exact (hother _ _ _ rfl).elim
    · exact .ok ⟨hv, hmade⟩

lemma interpolatedMatch :
    Makes φ conv s n (interpolatedMatch conv s n) (interpolatedMatch conv' s' n') := by
  unfold Convert.interpolatedMatch
  refine (interpolatedRegexp h hs hn).bind ?_
  rintro v v' - ⟨hv, -⟩
  rw [hv.isA_eq (show Tag.lit ∈ watchedTags by decide)]
  refine .ite (own hn rfl (by simpa using hv)) ?_
  exact (build hn (by simp)).bind fun line line' _ hline => own hn rfl (by simp [hv, hline])

lemma embeddedStatements (hkind : n.kind = .embeddedStatementsNode) :
    Makes φ conv s n (embeddedStatements conv s n) (embeddedStatements conv' s' n') := by
  unfold Convert.embeddedStatements
  rw [hn.plain rfl]
  refine .bind_map fun body hbody => ?_
  rw [h.isNull_eq]
  refine .ite (own hn rfl .nil) ?_
  refine (h.conv hs (hn.below hbody)).bind fun v v' hconv hv => ?_
  have hstr : isStr v' = isStr v := (hv.isA_eq (by decide)).symm
  rw [hstr]
  split
  · next hstr => exact .ok ⟨hv, .embedded hkind hbody hconv hstr⟩
  · exact own hn rfl (by simpa using hv)

lemma embeddedVariable :
    Makes φ conv s n (embeddedVariable conv s n) (embeddedVariable conv' s' n') := by
  unfold Convert.embeddedVariable
  exact (h.convertField hs hn rfl).bind fun v v' _ hv => own hn rfl (by simpa using hv)

end Parallel

end RubySexp.Convert
