import RubySexp.Proofs.Convert.Parallel.Part

/-!
# Literals Side by Side

What a literal holds is data, and between conversions it differs only where one literal is made of
another.
-/

namespace RubySexp.Convert.Parallel

variable {φ : View} {g : Scope → Tree → Tree} {R : Scope → Scope → Prop} {Q : Tree → Prop}
  {conv conv' : Conversion} {s s' : Scope} {n n' : Node} {tree : Tree}
  (h : Parallel φ g R Q conv conv') (hs : R s s') (hn : Beside φ g Q s n n')

include hn

lemma dataLiteral {tag : Tag} {field : Field} (hown : tag.isOwn = true)
    (hfield : n.kind.isData field = true) :
    Makes φ conv s n (do Convert.build n.location tag [(← n.get field).toValue])
      (do Convert.build n'.location tag [(← n'.get field).toValue]) := by
  rw [hn.data hfield]
  exact .bind_same fun tree _ => own hn hown (by simp)

lemma string (hkind : n.kind = .stringNode) :
    Makes φ conv s n (do Convert.build n.location .str [(← n.get .unescaped).toValue])
      (do Convert.build n'.location .str [(← n'.get .unescaped).toValue]) := by
  rw [hn.data rfl]
  refine .bind_same fun content hget => ?_
  refine (build hn (by simp)).mono fun v w hv hsame => ⟨hsame, ?_⟩
  obtain ⟨l, rfl⟩ := eq_sexp_of_build hv
  exact .field (by rw [hkind]; rfl) hget _ _

lemma rational : Makes φ conv s n (rational n) (rational n') := by
  unfold Convert.rational
  rw [hn.data rfl, hn.data rfl]
  refine .bind_same fun numerator _ => .bind_same fun denominator _ => ?_
  split
  · exact .bind_same fun q _ => own hn rfl (by simp)
  · refine .bind_same fun a _ => .bind_same fun b _ => .bind_same fun q _ => ?_
    exact own hn rfl (by simp)

lemma sourceLine : Makes φ conv s n (sourceLine n) (sourceLine n') := by
  have hmade : ∀ l : Location, Makes φ conv s n
      (Convert.build n.location .lit [l.startLine.toValue])
      (Convert.build n'.location .lit [l.startLine.toValue]) := fun l => own hn rfl (by simp)
  unfold Convert.sourceLine
  rw [hn.location] at hmade ⊢
  split
  · exact hmade _
  · exact .error .noSuchPart

lemma sourceEncoding : Makes φ conv s n (sourceEncoding n) (sourceEncoding n') := by
  unfold Convert.sourceEncoding
  exact (build hn (by simp)).bind fun v v' _ hv => own hn rfl (by simp [hv])

lemma regexpOptions_eq : regexpOptions n' = regexpOptions n := by
  have hmultiLine : n'.get .multiLine = n.get .multiLine := hn.data rfl
  have hignoreCase : n'.get .ignoreCase = n.get .ignoreCase := hn.data rfl
  have hextended : n'.get .extended = n.get .extended := hn.data rfl
  have hascii8bit : n'.get .ascii8bit = n.get .ascii8bit := hn.data rfl
  simp only [Convert.regexpOptions, hmultiLine, hignoreCase, hextended, hascii8bit]

lemma regexp : Makes φ conv s n (regexp n) (regexp n') := by
  unfold Convert.regexp
  rw [hn.data rfl, regexpOptions_eq hn]
  exact .bind_same fun source _ => .bind_same fun options _ => own hn rfl (by simp)

lemma matchLastLine : Makes φ conv s n (matchLastLine n) (matchLastLine n') := by
  have hregexp : Makes φ conv s n (Convert.regexp n) (Convert.regexp n') := regexp hn
  exact hregexp.bind fun v v' _ hv => own hn rfl (by simpa using hv.1)

omit hn in
lemma sourceFile (hkind : n.kind = .sourceFileNode)
    (hfile : φ.Like (sourceFile s n) (sourceFile s' n')) :
    Makes φ conv s n (sourceFile s n) (sourceFile s' n') := by
  refine hfile.mono fun v w hv hsame => ⟨hsame, ?_⟩
  obtain ⟨recorded, hget, hv⟩ := exists_ok_of_bind hv
  obtain ⟨l, rfl⟩ := eq_sexp_of_build hv
  have hrecorded : ∀ line maxLine, Built conv s n (.sexp .str
      [if recorded.truthy then recorded.toValue else .text "(string)"] line maxLine) := by
    intro line maxLine
    split
    · exact .field (by rw [hkind]; rfl) hget line maxLine
    · exact .text _ line maxLine
  rcases s.filepath with _ | path
  · exact hrecorded _ _
  · dsimp only
    split
    · exact hrecorded _ _
    · exact .text path _ _

include h hs

lemma imaginary : Makes φ conv s n (imaginary conv s n) (imaginary conv' s' n') := by
  unfold Convert.imaginary
  refine (h.convertField hs hn rfl).bind fun v v' _ hv => ?_
  obtain ⟨hnone, hnone'⟩ | ⟨e, e', he, he', hsame⟩ := hv.asSexp?_cases
  · rw [hnone, hnone']
    exact .error .noSuchPart
  · rw [he, he']
    exact own hn rfl (by simpa using hsame.value)

lemma pairs : φ.LikeAll (pairs conv s n .elements) (pairs conv' s' n' .elements) := by
  unfold Convert.pairs
  rw [hn.plain rfl]
  refine .bind_map fun list hlist => ?_
  rw [h.elements_eq]
  refine .bind_map fun elements helements => ?_
  have hlists : φ.Side (List.Forall₂ φ.SameAll)
      (elements.mapM fun element => do (← conv s element).items)
      ((elements.map (g s)).mapM fun element => do (← conv' s' element).items) := by
    refine .mapM_map fun element helement => ?_
    exact (h.conv hs ((hn.held hlist).item helements helement)).bind fun v v' _ hv => hv.items
  exact hlists.bind fun lists lists' _ hlists => .ok (List.rel_flatten hlists)

omit h hs hn in
lemma integerLiteral?_eq {v v' : Value} (hv : φ.Same v v') :
    integerLiteral? v = integerLiteral? v' := by
  unfold Convert.integerLiteral?
  obtain ⟨hnone, hnone'⟩ | ⟨e, e', he, he', hsame⟩ := hv.asSexp?_cases
  · rw [hnone, hnone']
  rw [he, he']
  have htag := hsame.tag
  have hvalue := hsame.value
  dsimp only
  split
  · next hlit hint =>
    rw [hlit] at htag
    rw [hint] at hvalue
    rw [φ.watched htag (by decide), hvalue.eq_int]
  · next hother =>
    split
    · next hlit hint =>
      rw [hlit] at htag
      rw [hint] at hvalue
      exact (hother _ (φ.watched htag.symm (by decide)) hvalue.symm.eq_int).elim
    · rfl

lemma range : Makes φ conv s n (range conv s n) (range conv' s' n') := by
  unfold Convert.range
  refine (h.convertField hs hn rfl).bind fun left left' _ hleft => ?_
  refine (h.convertField hs hn rfl).bind fun right right' _ hright => ?_
  rw [hn.data rfl]
  refine .bind_same fun excludeEnd _ => ?_
  rw [integerLiteral?_eq hleft, integerLiteral?_eq hright]
  split
  · exact own hn rfl (by simp)
  · exact own hn (by split <;> rfl) (by simp [hleft, hright])

lemma assocSplat (hvalue : n.kind.isPlain .value = true) :
    Makes φ conv s n (assocSplat conv s n) (assocSplat conv' s' n') := by
  unfold Convert.assocSplat
  refine (h.convertOptional hs hn hvalue).bind fun kids kids' _ hkids => ?_
  exact (build hn hkids).bind fun v v' _ hv => .ok ⟨by simpa using hv, .list _⟩

lemma assoc (hvalue : n.kind.isPlain .value = true) :
    Makes φ conv s n (assoc conv s n) (assoc conv' s' n') := by
  unfold Convert.assoc
  refine (h.convertField hs hn rfl).bind fun key key' _ hkey => ?_
  exact (h.convertField hs hn hvalue).bind fun v v' _ hv => .ok ⟨by simp [hkey, hv], .list _⟩

end RubySexp.Convert.Parallel
