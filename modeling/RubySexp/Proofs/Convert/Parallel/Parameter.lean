import RubySexp.Proofs.Convert.Parallel.Part

/-!
# Targets and Parameters Side by Side

Positional parameters are converted in a scope of their own, where targets and splats look
different. The parameters of a block are those declared, extended by the names that it keeps to
itself.
-/

namespace RubySexp.Convert.Parallel

variable {φ : View} {g : Scope → Tree → Tree} {R : Scope → Scope → Prop} {Q : Tree → Prop}
  {conv conv' : Conversion} {s s' : Scope} {n n' : Node} {tree : Tree}
  (h : Parallel φ g R Q conv conv') (hs : R s s') (hn : Beside φ g Q s n n')

include h hs hn

lemma targets (hrest : n.kind.isPlain .rest = true) :
    φ.LikeAll (targets conv s n) (targets conv' s' n') := by
  unfold Convert.targets
  refine (h.convertItems hs hn rfl).bind fun lefts lefts' _ hlefts => ?_
  rw [hn.plain hrest]
  refine .bind_map fun rest hget => ?_
  extract_lets close close'
  have hclose : ∀ {middle middle'}, φ.SameAll middle middle' →
      φ.LikeAll (close middle) (close' middle') := by
    intro middle middle' hmiddle
    refine (h.convertItems hs hn rfl).bind fun rights rights' _ hrights => ?_
    exact .ok ((hlefts.append hmiddle).append hrights)
  rw [h.isNull_eq, h.isA_eq]
  refine .ite (hclose .nil) ?_
  exact (h.conv hs (hn.below hget)).bind fun v v' _ hv => hclose (by simpa using hv)

lemma multiValue (ht : Q tree) :
    φ.Like (multiValue conv s n tree) (multiValue conv' s' n' (g s tree)) := by
  unfold Convert.multiValue
  have hconv := h.conv hs ht
  rcases hnode : tree.asNode? with _ | array
  · rw [h.asNode?_none s hnode]
    exact hconv.bind fun v v' _ hv => build hn (by simpa using hv)
  obtain rfl := Tree.eq_ofNode hnode
  obtain ⟨array', heq, harray⟩ := h.beside ht s
  rw [heq] at hconv ⊢
  simp only [Tree.asNode?_ofNode, harray.kind]
  refine .ite ?_ (.ite hconv (hconv.bind fun v v' _ hv => build hn (by simpa using hv)))
  rw [harray.data rfl, harray.plain rfl]
  refine .bind_same fun opening _ => .ite ?_ ?_
  · refine .bind_map fun list hlist => ?_
    rw [h.elements_eq]
    refine .bind_map fun elements helements => ?_
    rcases elements with _ | ⟨element, _ | ⟨second, rest⟩⟩
    · exact hconv
    · simp only [List.map_cons, List.map_nil, h.isA_eq]
      split
      · exact h.conv hs ((harray.held hlist).item helements (by simp))
      · exact hconv
    · exact hconv
  · exact hconv.bind fun v v' _ hv => build harray (by simpa using hv)

lemma multiWrite (hrest : n.kind.isPlain .rest = true) (hvalue : n.kind.isPlain .value = true) :
    Makes φ conv s n (multiWrite conv s n) (multiWrite conv' s' n') := by
  unfold Convert.multiWrite
  refine (targets h hs hn hrest).bind fun list list' _ hlist => ?_
  refine (build hn hlist).bind fun left left' _ hleft => ?_
  rw [hn.plain hvalue]
  refine .bind_map fun value hget => ?_
  refine (multiValue h hs hn (hn.below hget)).bind fun right right' _ hright => ?_
  exact own hn rfl (by simp [hleft, hright])

lemma multiTarget (hrest : n.kind.isPlain .rest = true) :
    Makes φ conv s n (multiTarget conv s n) (multiTarget conv' s' n') := by
  unfold Convert.multiTarget
  refine (targets h hs hn hrest).bind fun inner inner' _ hinner => ?_
  rw [h.inParameters hs]
  refine .ite (own hn rfl hinner) ?_
  exact (build hn hinner).bind fun array array' _ harray => own hn rfl (by simpa using harray)

lemma splat : Makes φ conv s n (splat conv s n) (splat conv' s' n') := by
  unfold Convert.splat
  rw [hn.plain rfl, h.inParameters hs]
  refine .bind_map fun expression hexpression => ?_
  rw [h.isNull_eq]
  refine .ite (.ite (.ok ⟨by simp, .symbol _⟩) ?_) (.ite (own hn rfl .nil) ?_)
  · unfold Convert.markedName
    rw [h.get_data s expression fun _ => rfl]
    exact .bind_same fun name _ => .ok ⟨by simp [symbolOf], .symbol _⟩
  · refine (h.conv hs (hn.below hexpression)).bind fun v v' _ hv => ?_
    exact own hn rfl (by simpa using hv)

/-! ### Parameters -/

lemma parameterList (hkind : n.kind = .parametersNode) :
    φ.LikeAll (parameterList conv s n) (parameterList conv' s' n') := by
  unfold Convert.parameterList
  have hinner : R (positionalScope s) (positionalScope s') := by
    simpa [scopeBelow, Kind.opensScope] using h.below hs .parametersNode .rest
  have hget : ∀ field, field = .requireds ∨ field = .rest ∨ field = .posts →
      n'.get field = (n.get field).map (g (positionalScope s)) := by
    rintro field (rfl | rfl | rfl)
    · simpa [hkind, scopeBelow, Kind.opensScope] using hn.part .requireds rfl
    · simpa [hkind, scopeBelow, Kind.opensScope] using hn.part .rest rfl
    · simpa [hkind, scopeBelow, Kind.opensScope] using hn.part .posts rfl
  have hitems : ∀ field, field = .requireds ∨ field = .rest ∨ field = .posts → φ.LikeAll
      (Convert.convertItems conv (positionalScope s) n field)
      (Convert.convertItems conv' (positionalScope s') n' field) := by
    intro field hfield
    unfold Convert.convertItems
    rw [hget field hfield]
    exact .bind_map fun list hlist => h.convertAll hinner (hn.held hlist)
  have hrest : φ.LikeAll (Convert.convertOptional conv (positionalScope s) n .rest)
      (Convert.convertOptional conv' (positionalScope s') n' .rest) := by
    unfold Convert.convertOptional
    rw [hget .rest (by simp)]
    exact .bind_map fun rest hrest => h.convertIfPresent hinner (hn.below hrest)
  refine (hitems .requireds (by simp)).bind fun requireds requireds' _ hrequireds => ?_
  refine (h.convertItems hs hn rfl).bind fun optionals optionals' _ hoptionals => ?_
  refine hrest.bind fun rest rest' _ hrest => ?_
  refine (hitems .posts (by simp)).bind fun posts posts' _ hposts => ?_
  refine (h.convertItems hs hn rfl).bind fun keywords keywords' _ hkeywords => ?_
  refine (h.convertOptional hs hn rfl).bind fun keywordRest keywordRest' _ hkeywordRest => ?_
  refine (h.convertOptional hs hn rfl).bind fun block block' _ hblock => .ok ?_
  exact (((((hrequireds.append hoptionals).append hrest).append hposts).append hkeywords).append
    hkeywordRest).append hblock

lemma parameters (hkind : n.kind = .parametersNode) :
    Makes φ conv s n (parameters conv s n) (parameters conv' s' n') := by
  unfold Convert.parameters
  exact (parameterList h hs hn hkind).bind fun list list' _ hlist => own hn rfl hlist

lemma optionalParameter (hvalue : n.kind.isPlain .value = true) :
    Makes φ conv s n (optionalParameter conv s n) (optionalParameter conv' s' n') := by
  unfold Convert.optionalParameter
  refine (nameIn hn rfl).bind fun name name' _ hname => ?_
  exact (h.convertField hs hn hvalue).bind fun v v' _ hv => own hn rfl (by simp [hname, hv])

lemma optionalKeyword (hvalue : n.kind.isPlain .value = true) :
    Makes φ conv s n (optionalKeyword conv s n) (optionalKeyword conv' s' n') := by
  unfold Convert.optionalKeyword
  refine (nameIn hn rfl).bind fun name name' _ hname => ?_
  exact (h.convertField hs hn hvalue).bind fun v v' _ hv => own hn rfl (by simp [hname, hv])

omit h hs in
lemma restParameter (mark : List Char) :
    Makes φ conv s n (restParameter n mark) (restParameter n' mark) := by
  unfold Convert.restParameter
  rw [hn.data rfl]
  exact .bind_same fun name _ => .ok ⟨by simp [symbolOf], .symbol _⟩

omit h hs hn in
lemma extendParameters {v v' : Value} {kids kids' : List Value} (hv : φ.Same v v')
    (hkids : φ.SameAll kids kids') :
    φ.Like (extendParameters v kids) (extendParameters v' kids') := by
  unfold Convert.extendParameters
  cases v with
  | sexp tag present l m =>
    obtain ⟨tag', present', rfl, htag, hpresent⟩ := hv.eq_sexp
    exact .ok (hv.withKids htag (hpresent.append hkids))
  | list vs =>
    obtain ⟨ws, rfl, -⟩ := hv.eq_list
    exact .ok (by simp)
  | _ =>
    cases v' with
    | sexp | list => simp [View.Same, Blur.Same] at hv
    | _ => exact .error .noSuchPart

lemma blockParameters (hkind : n.kind = .blockParametersNode)
    (hplain : n.kind.isPlain .parameters = true) :
    Makes φ conv s n (blockParameters conv s n) (blockParameters conv' s' n') := by
  unfold Convert.blockParameters
  rw [hn.plain rfl, hn.plain hplain]
  refine .bind_map fun locals hlocals => ?_
  extract_lets rest rest'
  have hrest : ∀ {shadow shadow'}, φ.SameAll shadow shadow' →
      (shadow = [] ∨ ∃ names line maxLine, shadow = [.sexp .shadow names line maxLine]) →
      Makes φ conv s n (rest shadow) (rest' shadow') := by
    intro shadow shadow' hsame hshadow
    refine .bind_map fun declared hget => ?_
    rw [h.isNull_eq]
    refine .ite (own hn rfl hsame) ?_
    refine (h.conv hs (hn.below hget)).bind fun v v' hconv hv => ?_
    have hpart : n.HandsOn declared := .field (by rw [hkind]; rfl) hget
    rw [hsame.isEmpty_eq]
    rcases hshadow with rfl | ⟨names, line, maxLine, rfl⟩
    · obtain rfl := hsame.eq_nil
      exact .ok ⟨hv, .part hpart hconv⟩
    · obtain ⟨shadow', rest', rfl, -, -⟩ := hsame.eq_cons
      exact (extendParameters hv hsame).mono fun w w' hw hsame => ⟨hsame, .extended hpart hconv hw⟩
  rw [h.truthy_eq]
  refine .ite ?_ (hrest .nil (.inl rfl))
  refine (h.convertAll hs (hn.held hlocals)).bind fun names names' _ hnames => ?_
  refine (build hn hnames).bind fun shadow shadow' hbuild hshadow => hrest (.cons hshadow .nil) ?_
  obtain ⟨l, rfl⟩ := eq_sexp_of_build hbuild
  exact .inr ⟨_, _, _, rfl⟩

end RubySexp.Convert.Parallel
