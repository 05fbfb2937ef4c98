import RubySexp.Proofs.Convert.Parallel.Part

/-!
# Calls Side by Side

A literal block wraps the call that it belongs to, any other is added to its arguments. In both
cases the rule makes an expression with a tag of its own.
-/

namespace RubySexp.Convert.Parallel

variable {φ : View} {g : Scope → Tree → Tree} {R : Scope → Scope → Prop} {Q : Tree → Prop}
  {conv conv' : Conversion} {s s' : Scope} {n n' : Node} {tree : Tree}
  (h : Parallel φ g R Q conv conv') (hs : R s s') (hn : Beside φ g Q s n n')

include h hs

lemma blockSlot (ht : Q tree) :
    φ.Like (blockSlot conv s tree) (blockSlot conv' s' (g s tree)) := by
  unfold Convert.blockSlot
  rw [h.isNull_eq, h.isA_eq]
  split
  · exact .ok (by simp)
  · exact h.conv hs ht

include hn

lemma attachBlock (hblock : n.kind.isPlain .block = true) {tag : Tag} {kids kids' : List Value}
    (hown : tag.isOwn = true) (hkids : φ.SameAll kids kids') :
    Makes φ conv s n (Convert.build n.location tag kids >>= Convert.attachBlock conv s n)
      (Convert.build n'.location tag kids' >>= Convert.attachBlock conv' s' n') := by
  refine (build hn hkids).bind fun v v' hcall hv => ?_
  obtain ⟨l, rfl⟩ := eq_sexp_of_build hcall
  unfold Convert.attachBlock
  rw [hn.plain hblock]
  refine .bind_map fun block hget => ?_
  have hbelow := hn.below hget
  rw [h.isNull_eq, h.isA_eq]
  split
  · exact .ok ⟨hv, .own hown _ _ _⟩
  split
  · next hisA =>
    -- A literal block is asked for its parts; they stand in the scope of the call.
    cases block with
    | node kind location fields =>
      obtain rfl : kind = .blockNode := by simpa [Tree.isA] using hisA
      obtain ⟨m', heq, hm⟩ := h.beside (n := ⟨.blockNode, location, fields⟩) hbelow s
      have hconv := h.conv hs hbelow
      rw [show g s (.node .blockNode location fields) = .ofNode m' from heq] at hconv ⊢
      have hparameters : (Tree.ofNode m').get .parameters =
          ((Tree.node .blockNode location fields).get .parameters).map (g s) := hm.plain rfl
      have hbody : (Tree.ofNode m').get .body =
          ((Tree.node .blockNode location fields).get .body).map (g s) := hm.plain rfl
      rw [hparameters, hbody]
      refine .bind_map fun declared hdeclared => ?_
      refine (h.blockSlot hs (h.get hbelow hdeclared)).bind fun slot slot' _ hslot => ?_
      refine .bind_map fun body _ => ?_
      rw [h.isNull_eq]
      split
      · exact own hn rfl (.cons hv (by simpa using hslot))
      · refine hconv.bind fun w w' _ hw => ?_
        exact own hn rfl (.cons hv (by simp [hslot, hw]))
    | _ => cases hisA
  · refine (h.conv hs hbelow).bind fun last last' _ hlast => ?_
    obtain ⟨hnone, -⟩ | ⟨e, e', he, he', hsame⟩ := hv.asSexp?_cases
    · cases hnone
    · rw [he']
      cases he
      exact .ok ⟨(hsame.append (.cons hlast .nil)).toValue, .own hown _ _ _⟩

lemma literalMatch (ht : Q tree) :
    Makes φ conv s n (literalMatch conv s n tree) (literalMatch conv' s' n' (g s tree)) := by
  unfold Convert.literalMatch
  simp only [← bind_assoc]
  refine (h.argumentsIn hs hn rfl).bind fun given given' _ hgiven => ?_
  rcases given with _ | ⟨argument, others⟩
  · rw [hgiven.eq_nil]
    exact .error .noItem
  · obtain ⟨argument', others', rfl, hargument, -⟩ := hgiven.eq_cons
    refine (h.conv hs ht).bind fun subject subject' _ hsubject => ?_
    rw [h.isA_eq]
    split
    · exact own hn rfl (by simp [hargument, hsubject])
    · exact own hn rfl (by simp [hargument, hsubject])

lemma plainCall (hblock : n.kind.isPlain .block = true) (name : Tree) (ht : Q tree) :
    Makes φ conv s n (plainCall conv s n name tree) (plainCall conv' s' n' name (g s tree)) := by
  unfold Convert.plainCall
  rw [hn.data rfl, hn.plain rfl]
  split
  · refine .bind_same fun safe _ => ?_
    refine (h.conv hs ht).bind fun subject subject' _ hsubject => ?_
    refine .bind_map fun list hlist => ?_
    refine (h.arguments hs (hn.below hlist)).bind fun given given' _ hgiven => ?_
    refine attachBlock h hs hn hblock ?_ (by simp [hsubject, hgiven])
    split <;> rfl
  · exact .error .noSuchPart

lemma call (hblock : n.kind.isPlain .block = true) :
    Makes φ conv s n (call conv s n) (call conv' s' n') := by
  unfold Convert.call
  rw [hn.data rfl, hn.plain rfl]
  refine .bind_same fun name _ => .bind_map fun receiver hreceiver => ?_
  have hbelow := hn.below hreceiver
  simp only [h.isA_eq]
  exact .ite (literalMatch h hs hn hbelow) (plainCall h hs hn hblock name hbelow)

lemma superCall (hblock : n.kind.isPlain .block = true) :
    Makes φ conv s n (superCall conv s n) (superCall conv' s' n') := by
  unfold Convert.superCall
  rw [hn.plain rfl]
  refine .bind_map fun list hlist => ?_
  refine (h.arguments hs (hn.below hlist)).bind fun given given' _ hgiven => ?_
  exact attachBlock h hs hn hblock rfl hgiven

lemma forwardingSuper (hblock : n.kind.isPlain .block = true) :
    Makes φ conv s n (forwardingSuper conv s n) (forwardingSuper conv' s' n') := by
  unfold Convert.forwardingSuper
  exact attachBlock h hs hn hblock rfl .nil

lemma yieldCall : Makes φ conv s n (yieldCall conv s n) (yieldCall conv' s' n') := by
  unfold Convert.yieldCall
  simp only [← bind_assoc]
  exact (h.argumentsIn hs hn rfl).bind fun given given' _ hgiven => own hn rfl hgiven

lemma lambda (hparameters : n.kind.isPlain .parameters = true)
    (hbody : n.kind.isPlain .body = true) :
    Makes φ conv s n (lambda conv s n) (lambda conv' s' n') := by
  unfold Convert.lambda
  rw [hn.plain hparameters]
  refine .bind_map fun declared hdeclared => ?_
  refine (h.blockSlot hs (hn.below hdeclared)).bind fun slot slot' _ hslot => ?_
  refine (build hn .nil).bind fun head head' _ hhead => ?_
  refine (h.convertOptional hs hn hbody).bind fun body body' _ hbody => ?_
  exact own hn rfl (by simp [hhead, hslot, hbody])

lemma execution (tag : Tag) :
    Makes φ conv s n (execution conv s n tag) (execution conv' s' n' tag) := by
  unfold Convert.execution
  refine (build hn .nil).bind fun head head' _ hhead => ?_
  refine (h.convertOptional hs hn rfl).bind fun body body' _ hbody => ?_
  exact own hn rfl (by simp [hhead, hbody])

lemma blockArgument : Makes φ conv s n (blockArgument conv s n) (blockArgument conv' s' n') := by
  unfold Convert.blockArgument
  exact (h.convertOptional hs hn rfl).bind fun kids kids' _ hkids => own hn rfl hkids

lemma callWrite (hvalue : n.kind.isPlain .value = true) {operator operator' : Value}
    (hoperator : φ.Same operator operator') :
    Makes φ conv s n (callWrite conv s n operator) (callWrite conv' s' n' operator') := by
  unfold Convert.callWrite
  rw [hn.data rfl]
  refine .bind_same fun safe _ => ?_
  refine (h.convertField hs hn rfl).bind fun receiver receiver' _ hreceiver => ?_
  refine (nameIn hn rfl).bind fun name name' _ hname => ?_
  refine (h.convertField hs hn hvalue).bind fun v v' _ hv => ?_
  exact own hn (by split <;> rfl) (by simp [hreceiver, hname, hoperator, hv])

lemma indexWrite (hvalue : n.kind.isPlain .value = true) {operator operator' : Value}
    (hoperator : φ.Same operator operator') :
    Makes φ conv s n (indexWrite conv s n operator) (indexWrite conv' s' n' operator') := by
  unfold Convert.indexWrite
  rw [hn.plain rfl]
  refine .bind_map fun indices hindices => ?_
  refine (h.arguments hs (hn.below hindices)).bind fun given given' _ hgiven => ?_
  have hplace : ∀ l, (if indices.truthy then indices.location? else n.location) = some l →
      φ.place l := by
    intro l hl
    split at hl
    · exact h.place (hn.below hindices) hl
    · exact hn.place l hl
  have hsame : (if (g s indices).truthy then (g s indices).location? else n'.location) =
      if indices.truthy then indices.location? else n.location := by
    rw [h.truthy_eq, h.location?_eq, hn.location]
  rw [hsame]
  refine (View.build hplace rfl hgiven).bind fun list list' _ hlist => ?_
  refine (h.convertField hs hn rfl).bind fun receiver receiver' _ hreceiver => ?_
  refine (h.convertField hs hn hvalue).bind fun v v' _ hv => ?_
  exact own hn rfl (by simp [hreceiver, hlist, hoperator, hv])

lemma callTarget : Makes φ conv s n (callTarget conv s n) (callTarget conv' s' n') := by
  unfold Convert.callTarget
  rw [hn.data rfl]
  refine .bind_same fun safe _ => ?_
  refine (h.convertField hs hn rfl).bind fun receiver receiver' _ hreceiver => ?_
  refine (nameIn hn rfl).bind fun name name' _ hname => ?_
  exact own hn (by split <;> rfl) (by simp [hreceiver, hname])

lemma indexTarget : Makes φ conv s n (indexTarget conv s n) (indexTarget conv' s' n') := by
  unfold Convert.indexTarget
  refine (h.convertField hs hn rfl).bind fun receiver receiver' _ hreceiver => ?_
  rw [hn.plain rfl]
  refine .bind_map fun indices hindices => ?_
  refine (h.arguments hs (hn.below hindices)).bind fun given given' _ hgiven => ?_
  exact own hn rfl (by simp [hreceiver, hgiven])

end RubySexp.Convert.Parallel
