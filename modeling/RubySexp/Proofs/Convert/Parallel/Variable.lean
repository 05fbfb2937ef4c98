import RubySexp.Proofs.Convert.Parallel.Part

/-!
# Variables and Constants Side by Side

The tag of an assignment depends on the scope only where a class variable is assigned.
-/

namespace RubySexp.Convert

lemma Variable.isOwn_writeTag (sort : Variable) (scope : Scope) :
    (sort.writeTag scope).isOwn = true := by
  cases sort <;> simp only [writeTag] <;> first | rfl | (split <;> rfl)

namespace Parallel

variable {φ : View} {g : Scope → Tree → Tree} {R : Scope → Scope → Prop} {Q : Tree → Prop}
  {conv conv' : Conversion} {s s' : Scope} {n n' : Node} {tree : Tree}
  (h : Parallel φ g R Q conv conv') (hs : R s s') (hn : Beside φ g Q s n n')

include hn

lemma named {tag tag' : Tag} (hown : tag.isOwn = true) (htag : φ.tag tag = φ.tag tag') :
    Makes φ conv s n (named n tag) (named n' tag') := by
  unfold Convert.named
  exact (nameIn hn rfl).bind fun name name' _ hname => ownAs hn hown htag (by simpa using hname)

lemma localRead : Makes φ conv s n (localRead n) (localRead n') := by
  unfold Convert.localRead
  rw [hn.data rfl]
  refine .bind_same fun name _ => ?_
  split
  · split
    · exact own hn rfl (by simp)
    · exact named hn rfl rfl
  · exact .error .wrongType

lemma backReference : Makes φ conv s n (backReference n) (backReference n') := by
  unfold Convert.backReference
  rw [hn.data rfl]
  refine .bind_same fun name _ => ?_
  split
  · split
    · exact own hn rfl (by simp [symbolOf])
    · exact .error .noItem
  · split
    · exact own hn rfl (by simp)
    · exact .error .noItem
  · exact .error .wrongType

include h

lemma implicitList {v v' : Value} (hv : φ.Same v v') :
    φ.Like (implicitList n v) (implicitList n' v') := by
  unfold Convert.implicitList
  rw [hn.plain rfl]
  refine .bind_map fun list _ => ?_
  rw [h.elements_eq]
  refine .bind_map fun elements _ => build hn (.cons ?_ .nil)
  rcases elements with _ | ⟨element, _ | ⟨second, rest⟩⟩
  · exact hv
  · cases v with
    | sexp tag kids l m =>
      obtain ⟨tag', kids', rfl, -, hkids⟩ := hv.eq_sexp
      rcases kids with _ | ⟨kid, kids⟩
      · rw [hkids.eq_nil] at hv ⊢
        exact hv
      · obtain ⟨kid', kids', rfl, hkid, -⟩ := hkids.eq_cons
        simp only [List.map_cons, List.map_nil, h.isA_eq]
        split
        · exact hkid
        · exact hv
    | _ =>
      cases v' with
      | sexp => simp [View.Same, Blur.Same] at hv
      | _ => exact hv
  · cases v <;> cases v' <;> exact hv

include hs

omit hn in
lemma assignedValue (ht : Q tree) :
    φ.Like (assignedValue conv s tree) (assignedValue conv' s' (g s tree)) := by
  unfold Convert.assignedValue
  refine (h.conv hs ht).bind fun v v' _ hv => ?_
  rcases hnode : tree.asNode? with _ | array
  · rw [h.asNode?_none s hnode]
    exact .ok hv
  obtain rfl := Tree.eq_ofNode hnode
  obtain ⟨array', heq, harray⟩ := h.beside ht s
  rw [heq]
  simp only [Tree.asNode?_ofNode, harray.kind]
  split
  · rw [harray.data rfl]
    refine .bind_same fun opening _ => ?_
    split
    · exact implicitList h harray hv
    · exact .ok hv
  · exact .ok hv

lemma variableWrite {sort : Variable} (hvalue : n.kind.isPlain .value = true)
    (htag : φ.tag (sort.writeTag s) = φ.tag (sort.writeTag s')) :
    Makes φ conv s n (variableWrite conv s n sort) (variableWrite conv' s' n' sort) := by
  unfold Convert.variableWrite
  refine (nameIn hn rfl).bind fun name name' _ hname => ?_
  rw [hn.plain hvalue]
  refine .bind_map fun value hget => ?_
  refine (assignedValue h hs (hn.below hget)).bind fun v v' _ hv => ?_
  exact ownAs hn (sort.isOwn_writeTag s) htag (by simp [hname, hv])

lemma variableLogicWrite {tag : Tag} {sort : Variable} (hown : tag.isOwn = true)
    (hvalue : n.kind.isPlain .value = true)
    (htag : φ.tag (sort.writeTag s) = φ.tag (sort.writeTag s')) :
    Makes φ conv s n (variableLogicWrite conv s n tag sort)
      (variableLogicWrite conv' s' n' tag sort) := by
  unfold Convert.variableLogicWrite
  refine (nameIn hn rfl).bind fun name name' _ hname => ?_
  refine (build hn (by simpa using hname)).bind fun read read' _ hread => ?_
  refine (h.convertField hs hn hvalue).bind fun v v' _ hv => ?_
  refine (buildAs hn htag (by simp [hname, hv])).bind fun write write' _ hwrite => ?_
  exact own hn hown (by simp [hread, hwrite])

lemma variableOperatorWrite {sort : Variable} (hvalue : n.kind.isPlain .value = true)
    (htag : φ.tag (sort.writeTag s) = φ.tag (sort.writeTag s')) :
    Makes φ conv s n (variableOperatorWrite conv s n sort)
      (variableOperatorWrite conv' s' n' sort) := by
  unfold Convert.variableOperatorWrite
  refine (nameIn hn rfl).bind fun name name' _ hname => ?_
  refine (build hn (by simpa using hname)).bind fun read read' _ hread => ?_
  refine (nameIn hn rfl).bind fun operator operator' _ hoperator => ?_
  refine (h.convertField hs hn hvalue).bind fun v v' _ hv => ?_
  refine (build hn (by simp [hread, hoperator, hv])).bind fun call call' _ hcall => ?_
  exact ownAs hn (sort.isOwn_writeTag s) htag (by simp [hname, hcall])

lemma constantPath : Makes φ conv s n (constantPath conv s n) (constantPath conv' s' n') := by
  unfold Convert.constantPath
  rw [hn.plain rfl]
  refine .bind_map fun parent hparent => ?_
  rw [h.isNull_eq]
  split
  · exact (nameIn hn rfl).bind fun name name' _ hname => own hn rfl (by simpa using hname)
  · refine (h.conv hs (hn.below hparent)).bind fun outer outer' _ houter => ?_
    exact (nameIn hn rfl).bind fun name name' _ hname => own hn rfl (by simp [houter, hname])

lemma constantPathWrite (hvalue : n.kind.isPlain .value = true) :
    Makes φ conv s n (constantPathWrite conv s n) (constantPathWrite conv' s' n') := by
  unfold Convert.constantPathWrite
  refine (h.convertField hs hn rfl).bind fun target target' _ htarget => ?_
  rw [hn.plain hvalue]
  refine .bind_map fun value hget => ?_
  refine (assignedValue h hs (hn.below hget)).bind fun v v' _ hv => ?_
  exact own hn rfl (by simp [htarget, hv])

lemma constantPathLogicWrite {tag : Tag} (hown : tag.isOwn = true)
    (hvalue : n.kind.isPlain .value = true) :
    Makes φ conv s n (constantPathLogicWrite conv s n tag)
      (constantPathLogicWrite conv' s' n' tag) := by
  unfold Convert.constantPathLogicWrite
  refine (h.convertField hs hn rfl).bind fun target target' _ htarget => ?_
  refine (h.convertField hs hn hvalue).bind fun v v' _ hv => ?_
  exact own hn hown (by simp [htarget, hv])

lemma constantPathOperatorWrite (hvalue : n.kind.isPlain .value = true) :
    Makes φ conv s n (constantPathOperatorWrite conv s n)
      (constantPathOperatorWrite conv' s' n') := by
  unfold Convert.constantPathOperatorWrite
  refine (h.convertField hs hn rfl).bind fun target target' _ htarget => ?_
  refine (nameIn hn rfl).bind fun operator operator' _ hoperator => ?_
  refine (h.convertField hs hn hvalue).bind fun v v' _ hv => ?_
  exact own hn rfl (by simp [htarget, hoperator, hv])

end Parallel

end RubySexp.Convert
