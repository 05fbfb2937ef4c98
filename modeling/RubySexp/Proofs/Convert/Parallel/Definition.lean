import RubySexp.Proofs.Convert.Parallel.Part

/-!
# Definitions Side by Side

The parameters and the body of a method, and the body of a class or module, are converted in scopes
of their own.
-/

namespace RubySexp.Convert.Parallel

variable {φ : View} {g : Scope → Tree → Tree} {R : Scope → Scope → Prop} {Q : Tree → Prop}
  {conv conv' : Conversion} {s s' : Scope} {n n' : Node} {tree : Tree}
  (h : Parallel φ g R Q conv conv') (hs : R s s') (hn : Beside φ g Q s n n')

include h hs

lemma definitionBody (ht : Q tree) :
    φ.LikeAll (definitionBody conv s tree) (definitionBody conv' s' (g s tree)) := by
  unfold Convert.definitionBody
  rw [h.isNull_eq, h.isA_eq]
  refine .ite (.ok .nil) ?_
  split
  · next hisA =>
    refine h.statements hs (h.held ht) fun m hm scope => ?_
    obtain rfl := Tree.eq_ofNode hm
    have hkind : m.kind = .statementsNode := by simpa [Tree.isA, Tree.ofNode] using hisA
    rw [scopeBelow_of_isPlain (by rw [hkind]; rfl)]
  · exact (h.conv hs ht).bind fun v v' _ hv => .ok (by simpa using hv)

lemma definitionName (ht : Q tree) :
    φ.Like (definitionName conv s tree) (definitionName conv' s' (g s tree)) := by
  unfold Convert.definitionName
  rw [h.isA_eq, h.get_data s tree fun _ => rfl]
  exact .ite (.bind_same fun name _ => .ok (by simp)) (h.conv hs ht)

include hn

lemma method (hkind : n.kind = .defNode) :
    Makes φ conv s n (method conv s n) (method conv' s' n') := by
  unfold Convert.method
  have hinner : R (methodScope s) (methodScope s') := by
    simpa [scopeBelow, Kind.opensScope] using h.below hs .defNode .parameters
  have hparameters : n'.get .parameters = (n.get .parameters).map (g (methodScope s)) := by
    simpa [hkind, scopeBelow, Kind.opensScope] using hn.part .parameters rfl
  have hbody : n'.get .body = (n.get .body).map (g (methodScope s)) := by
    simpa [hkind, scopeBelow, Kind.opensScope] using hn.part .body rfl
  have hreceiver : n'.get .receiver = (n.get .receiver).map (g s) := hn.plain rfl
  rw [hparameters, hbody, hreceiver]
  refine .bind_map fun declared hdeclared => ?_
  rw [h.isNull_eq]
  refine .ite_bind (build hn .nil) (h.conv hinner (hn.below hdeclared)) fun p p' hp => ?_
  refine .bind_map fun content hcontent => ?_
  extract_lets rest rest'
  have hrest : ∀ {body body'}, φ.SameAll body body' →
      Makes φ conv s n (rest body) (rest' body') := by
    intro body body' hb
    refine .bind_map fun receiver hget => ?_
    refine (nameIn hn rfl).bind fun name name' _ hname => ?_
    rw [h.isNull_eq]
    refine .ite (own hn rfl (by simp [hname, hp, hb])) ?_
    refine (h.conv hs (hn.below hget)).bind fun owner owner' _ howner => ?_
    exact own hn rfl (by simp [howner, hname, hp, hb])
  rw [h.isNull_eq]
  refine .ite ((build hn .nil).bind fun v v' _ hv => hrest (by simpa using hv)) ?_
  exact (h.definitionBody hinner (hn.below hcontent)).bind fun body body' _ hb => hrest hb

lemma ownBody (hkind : n.kind = .classNode ∨ n.kind = .moduleNode ∨ n.kind = .singletonClassNode) :
    φ.LikeAll (n.get .body >>= Convert.definitionBody conv (bodyScope s))
      (n'.get .body >>= Convert.definitionBody conv' (bodyScope s')) := by
  have hinner : R (bodyScope s) (bodyScope s') := by
    simpa [scopeBelow, Kind.opensScope] using h.below hs .classNode .body
  have hbody : n'.get .body = (n.get .body).map (g (bodyScope s)) := by
    have hpart := hn.part .body rfl
    rcases hkind with hkind | hkind | hkind <;>
      simpa [hkind, scopeBelow, Kind.opensScope] using hpart
  rw [hbody]
  exact .bind_map fun body hget => h.definitionBody hinner (hn.below hget)

lemma classDefinition (hkind : n.kind = .classNode) :
    Makes φ conv s n (classDefinition conv s n) (classDefinition conv' s' n') := by
  unfold Convert.classDefinition
  rw [hn.plain rfl]
  refine .bind_map fun path hpath => ?_
  refine (h.definitionName hs (hn.below hpath)).bind fun name name' _ hname => ?_
  refine (h.convertField hs hn rfl).bind fun superclass superclass' _ hsuperclass => ?_
  simp only [← bind_assoc]
  refine (ownBody h hs hn (.inl hkind)).bind fun body body' _ hbody => ?_
  exact own hn rfl (by simp [hname, hsuperclass, hbody])

lemma moduleDefinition (hkind : n.kind = .moduleNode) :
    Makes φ conv s n (moduleDefinition conv s n) (moduleDefinition conv' s' n') := by
  unfold Convert.moduleDefinition
  rw [hn.plain rfl]
  refine .bind_map fun path hpath => ?_
  refine (h.definitionName hs (hn.below hpath)).bind fun name name' _ hname => ?_
  simp only [← bind_assoc]
  refine (ownBody h hs hn (.inr (.inl hkind))).bind fun body body' _ hbody => ?_
  exact own hn rfl (by simp [hname, hbody])

lemma singletonClass (hkind : n.kind = .singletonClassNode) :
    Makes φ conv s n (singletonClass conv s n) (singletonClass conv' s' n') := by
  unfold Convert.singletonClass
  refine (h.convertField hs hn rfl).bind fun object object' _ hobject => ?_
  simp only [← bind_assoc]
  refine (ownBody h hs hn (.inr (.inr hkind))).bind fun body body' _ hbody => ?_
  exact own hn rfl (by simp [hobject, hbody])

omit hs in
lemma aliasGlobal : Makes φ conv s n (aliasGlobal n) (aliasGlobal n') := by
  unfold Convert.aliasGlobal
  rw [hn.plain rfl, hn.plain rfl]
  refine .bind_map fun fresh _ => ?_
  rw [h.get_data s fresh fun _ => rfl]
  refine .bind_same fun freshName _ => .bind_map fun known _ => ?_
  rw [h.get_data s known fun _ => rfl]
  exact .bind_same fun knownName _ => own hn rfl (by simp)

lemma undefine : Makes φ conv s n (undefine conv s n) (undefine conv' s' n') := by
  unfold Convert.undefine
  rw [hn.plain rfl]
  refine .bind_map fun list hlist => ?_
  rw [h.elements_eq]
  refine .bind_map fun names hnames => ?_
  have hbelow : ∀ name ∈ names, Q name := fun name hname => (hn.held hlist).item hnames hname
  have hremovals : φ.LikeAll
      (names.mapM fun name => do Convert.build name.location? .undefName [← conv s name])
      ((names.map (g s)).mapM fun name => do
        Convert.build name.location? .undefName [← conv' s' name]) := by
    refine .mapM_map fun name hname => ?_
    rw [h.location?_eq]
    exact (h.conv hs (hbelow name hname)).bind fun v v' _ hv =>
      View.build (fun _ => h.place (hbelow name hname)) rfl (by simpa using hv)
  rcases names with _ | ⟨name, _ | ⟨second, rest⟩⟩
  · exact hremovals.bind fun removals removals' _ h => own hn rfl h
  · exact (h.conv hs (hbelow name (by simp))).bind fun v v' _ hv => own hn rfl (by simpa using hv)
  · exact hremovals.bind fun removals removals' _ h => own hn rfl h

end RubySexp.Convert.Parallel
