import RubySexp.Proofs.Convert.Outcome.Variable

/-!
# Outcomes of Targets and Parameters

Targets are written as parameters where they stand among positional parameters: a splat is a symbol
there, and nested targets are not put in an array.
-/

namespace RubySexp

/-! ### Nodes that are read for their names -/

lemma Kind.lookup_name_of_isNamed {kind : Kind} (h : kind.isNamed = true) (role : Role) :
    (kind.contents role).lookup .name = some .text ∨
      (kind.contents role).lookup .name = some .name := by
  cases kind <;> first | exact Or.inl rfl | exact Or.inr rfl | cases h

lemma Kind.lookup_name_of_takesExpression {r : Rigour} {kind : Kind}
    (h : r.takesExpression kind = true) (role : Role) :
    (kind.contents role).lookup .name = none ∨ kind.isNamed = true := by
  cases kind <;> first
    | exact Or.inl rfl
    | exact Or.inr rfl
    | (simp [Rigour.takesExpression, isExpression] at h)

namespace Convert

variable {r : Rigour} {E : Fault → Prop} {n : Node} {conv : Conversion} {scope : Scope}
  {tree : Tree}

lemma exists_name_of_isNamed {m : Node} {role : Role} (h : (Tree.ofNode m).fits r role = true)
    (hnamed : m.kind.isNamed = true) : ∃ s, m.get .name = .ok (.text s) := by
  rcases Kind.lookup_name_of_isNamed hnamed role with hlookup | hlookup
  · obtain ⟨tree, hget, htree⟩ := Tree.exists_get_of_fits h hlookup
    obtain ⟨s, rfl⟩ := Tree.eq_text_of_holds htree
    exact ⟨s, hget⟩
  · obtain ⟨tree, hget, htree⟩ := Tree.exists_get_of_fits h hlookup
    obtain ⟨s, rfl, -⟩ := Tree.eq_name_of_holds htree
    exact ⟨s, hget⟩

lemma isExpression_targets {kids : List Value} (hkids : ∀ v ∈ kids, v.Sits r .any)
    (more : List Value) (hmore : more.length ≤ 1 ∧ ∀ v ∈ more, v.Sits r .branch)
    (line maxLine : Json) :
    ∀ line' maxLine', (Value.sexp .masgn ([.sexp .array kids line maxLine] ++ more) line'
      maxLine').IsExpression r := by
  intro line' maxLine'
  have harray := Value.isExpression_atLeast .array rfl [] kids trivial (Nat.zero_le _) hkids
    line maxLine
  have hlayout : Layout.upTo [.tagged [.array]] .branch ∈ Tag.masgn.ownLayouts := by decide
  have := Value.isExpression_layout hlayout [_] more [] ⟨harray.tagged rfl, trivial⟩ hmore.2 trivial
    (Nat.zero_le _) (by rintro _ ⟨⟩; exact hmore.1) line' maxLine'
  rwa [List.append_nil] at this

namespace Setting

variable (S : Setting r E n conv)

include S

lemma name (h : tree.fits r .named = true) :
    Outcome E (fun name => ∃ s, name = .text s) (tree.get .name) := by
  obtain ⟨m, rfl⟩ := Tree.eq_ofNode_of_fits h
  have hadmits := (Tree.fits_node.mp h).1
  simp only [Rigour.admits, S.placed, Rigour.takes, Bool.not_true, Bool.false_or, Bool.or_eq_true,
    Bool.and_eq_true, Bool.not_eq_true'] at hadmits
  have hcases : m.kind.isNamed = true ∨
      r.sound = false ∧ (m.kind.contents .named).lookup .name = none := by
    rcases hadmits with hnamed | ⟨hloose, hexpression⟩
    · exact Or.inl hnamed
    · rcases Kind.lookup_name_of_takesExpression hexpression .named with hnone | hnamed
      · exact Or.inr ⟨hloose, hnone⟩
      · exact Or.inl hnamed
  rcases hcases with hnamed | ⟨hloose, hnone⟩
  · obtain ⟨s, hget⟩ := exists_name_of_isNamed h hnamed
    have hget : (Tree.ofNode m).get .name = .ok (.text s) := hget
    rw [hget]
    exact ⟨s, rfl⟩
  · have hget : (Tree.ofNode m).get .name = .error .noSuchPart := Tree.get_error_of_fits h hnone
    rw [hget]
    exact S.excuse hloose _

lemma positional_of_rest (h : tree.fits r .positionalRest = true)
    (himplicit : tree.isA .implicitRestNode = false) : tree.fits r .positional = true := by
  obtain ⟨m, rfl⟩ := Tree.eq_ofNode_of_fits h
  obtain ⟨hadmits, hplace, hbare, hfields⟩ := Tree.fits_node.mp h
  have hkind : m.kind = .splatNode := by
    have himplicit : m.kind ≠ .implicitRestNode := by simpa [Tree.isA, Tree.ofNode] using himplicit
    simpa [Rigour.admits, S.placed, Rigour.takes, himplicit] using hadmits
  refine Tree.fits_node.mpr ⟨?_, hplace, hbare, ?_⟩
  · simp [Rigour.admits, Rigour.takes, hkind]
  · rw [hkind] at hfields ⊢
    exact hfields

omit S in
lemma markedName (mark : List Char) (h : Outcome E (fun _ => True) (tree.get .name)) :
    Outcome E (fun v : Value => v.Sits r .symbol) (markedName mark tree) :=
  h.bind fun _ _ => .pure (Value.sits_symbol _)

/-! ### Targets of an assignment -/

section Expressions

variable (hscope : scope.inParameters = false)

include hscope

lemma targets (hlefts : n.Keeps r .lefts (.many .expression))
    (hrest : n.Keeps r .rest (.optional .targetRest))
    (hrights : n.Keeps r .rights (.many .expression)) :
    Outcome E (fun vs => ∀ v ∈ vs, v.Sits r .any) (targets conv scope n) := by
  refine (S.expressions hscope hlefts).bind fun lefts hl => ?_
  refine (own_outcome hrest).bind fun rest ht => ?_
  have hfinish : ∀ middle : List Value, (∀ v ∈ middle, v.Sits r .any) →
      Outcome E (fun vs => ∀ v ∈ vs, v.Sits r .any) (do
        let rights ← convertItems conv scope n .rights
        return lefts ++ middle ++ rights) := by
    intro middle hm
    refine (S.expressions hscope hrights).bind fun rights hr => .pure ?_
    simp only [List.forall_mem_append]
    exact ⟨⟨fun v hv => (hl v hv).sits.any, hm⟩, fun v hv => (hr v hv).sits.any⟩
  rcases Tree.null_or_fits_of_holds ht.2 with rfl | hfits
  · exact hfinish [] (List.forall_mem_nil _)
  · split
    · exact hfinish [] (List.forall_mem_nil _)
    · refine (S.below ht.1 hfits rfl hscope).bind fun v hv => hfinish [v] ?_
      rcases hv with hv | rfl
      · simpa using hv.sits.any
      · simpa using Value.sits_nil.any

lemma multiValue (hw : tree.Within n) (h : tree.fits r .expression = true) :
    Outcome E (fun v : Value => v.Sits r .branch) (multiValue conv scope n tree) := by
  have hplain : Outcome E (fun v : Value => v.Sits r .branch) (conv scope tree) :=
    (S.below hw h rfl hscope).mono fun _ hv => Value.IsExpression.sits hv
  have hmarked : ∀ {place : Option Location}, Location.isNumbered place = true →
      Outcome E (fun v : Value => v.Sits r .branch)
        (do build place .toAry [← conv scope tree]) := by
    intro place hplace
    refine hplain.bind fun v hv => ?_
    exact Outcome.mono (P := fun v : Value => v.IsExpression r)
      (.build hplace (Value.isExpression_exactly .toAry rfl ⟨hv, trivial⟩)) fun _ h => h.sits
  have hplace := Tree.isNumbered_of_fits h
  obtain ⟨m, rfl⟩ := Tree.eq_ofNode_of_fits h
  by_cases hkind : m.kind = .arrayNode
  · have hopening : m.Keeps r .openingLoc .place :=
      Tree.exists_get_of_fits h (by rw [hkind]; rfl)
    have helements : m.Keeps r .elements (.many .expression) :=
      Tree.exists_get_of_fits h (by rw [hkind]; rfl)
    have hbeq : (m.kind == .arrayNode) = true := by simp [hkind]
    simp only [Convert.multiValue, Tree.asNode?, Tree.ofNode, hbeq, if_true]
    refine (get_outcome hw.under hopening).bind fun opening _ => ?_
    split
    · refine (get_outcome hw.under helements).bind fun list hl => ?_
      obtain ⟨items, rfl, -, hitems⟩ := Tree.eq_tuple_of_holds hl.2 rfl
      rcases items with _ | ⟨element, _ | ⟨second, rest⟩⟩
      · exact hplain
      · show Outcome E _ (conv scope (if element.isA .splatNode then element else .ofNode m))
        split
        · obtain ⟨inner, rfl⟩ := Tree.eq_ofNode_of_fits (hitems element (by simp))
          exact (S.below (hl.1.item (by simp)) (hitems _ (by simp)) rfl hscope).mono
            fun _ hv => Value.IsExpression.sits hv
        · exact hplain
      · exact hplain
    · exact hmarked hplace
  · simp only [Convert.multiValue, Tree.asNode?, Tree.ofNode, beq_eq_false_iff_ne.mpr hkind,
      Bool.false_eq_true, if_false]
    split
    · exact hplain
    · exact hmarked S.place

lemma multiWrite (hlefts : n.Keeps r .lefts (.many .expression))
    (hrest : n.Keeps r .rest (.optional .targetRest))
    (hrights : n.Keeps r .rights (.many .expression))
    (hvalue : n.Keeps r .value (.one .expression)) :
    Outcome E (fun v : Value => v.IsExpression r) (multiWrite conv scope n) := by
  refine (S.targets hscope hlefts hrest hrights).bind fun kids hk => ?_
  refine .build_bind S.place fun line maxLine => ?_
  refine (own_outcome hvalue).bind fun value ht => ?_
  refine (S.multiValue hscope ht.1 ht.2).bind fun right hr => .build S.place ?_
  exact isExpression_targets hk [right] (atMostOne_singleton hr) line maxLine

lemma multiTarget (hlefts : n.Keeps r .lefts (.many .expression))
    (hrest : n.Keeps r .rest (.optional .targetRest))
    (hrights : n.Keeps r .rights (.many .expression)) :
    Outcome E (fun v : Value => v.IsExpression r) (multiTarget conv scope n) := by
  refine (S.targets hscope hlefts hrest hrights).bind fun kids hk => ?_
  simp only [hscope, Bool.false_eq_true, if_false]
  refine .build_bind S.place fun line maxLine => .build S.place ?_
  exact isExpression_targets hk [] (atMostOne_nil _) line maxLine

lemma splat (h : n.Keeps r .expression (.optional .expression)) :
    Outcome E (fun v : Value => v.IsExpression r) (splat conv scope n) := by
  have hsplat : ∀ more : List Value, (more.length ≤ 1 ∧ ∀ v ∈ more, v.Sits r .branch) →
      Outcome E (fun v : Value => v.IsExpression r) (build n.location .splat more) :=
    fun more hm => .build S.place (Value.isExpression_upTo .splat rfl [] more trivial hm)
  refine (own_outcome h).bind fun tree ht => ?_
  simp only [hscope, Bool.false_eq_true, if_false]
  rcases Tree.null_or_fits_of_holds ht.2 with rfl | hfits
  · exact hsplat [] (atMostOne_nil _)
  · simp only [Tree.isNull_of_fits hfits, Bool.false_eq_true, if_false]
    exact (S.below ht.1 hfits rfl hscope).bind fun v hv =>
      hsplat [v] (atMostOne_singleton (Value.IsExpression.sits hv))

end Expressions

/-! ### Targets among positional parameters -/

section Positional

variable (hscope : scope.inParameters = true)

include hscope

lemma positionalSplat (h : n.Keeps r .expression (.optional .parameterName)) :
    Outcome E (fun v : Value => v.Sits r .symbol) (Convert.splat conv scope n) := by
  refine (own_outcome h).bind fun tree ht => ?_
  simp only [hscope, if_true]
  rcases Tree.null_or_fits_of_holds ht.2 with rfl | hfits
  · exact .pure (Value.sits_symbol _)
  · simp only [Tree.isNull_of_fits hfits, Bool.false_eq_true, if_false]
    refine markedName ['*'] ?_
    obtain ⟨m, rfl⟩ := Tree.eq_ofNode_of_fits hfits
    have hadmits := (Tree.fits_node.mp hfits).1
    simp only [Rigour.admits, S.placed, Rigour.takes, Bool.not_true, Bool.false_or,
      Bool.or_eq_true, beq_iff_eq, Bool.and_eq_true, Bool.not_eq_true'] at hadmits
    rcases hadmits with hkind | ⟨hloose, -⟩
    · obtain ⟨s, hget⟩ := exists_name_of_isNamed hfits (by rw [hkind]; rfl)
      have hget : (Tree.ofNode m).get .name = .ok (.text s) := hget
      rw [hget]
      trivial
    · exact S.loose hloose _

lemma positionalTargets (hlefts : n.Keeps r .lefts (.many .positional))
    (hrest : n.Keeps r .rest (.optional .positionalRest))
    (hrights : n.Keeps r .rights (.many .positional)) :
    Outcome E (fun vs => ∀ v ∈ vs, v.Sits r (.symbolOr [.masgn]))
      (Convert.targets conv scope n) := by
  refine (S.items hlefts rfl rfl hscope).bind fun lefts hl => ?_
  refine (own_outcome hrest).bind fun rest ht => ?_
  have hfinish : ∀ middle : List Value, (∀ v ∈ middle, v.Sits r (.symbolOr [.masgn])) →
      Outcome E (fun vs => ∀ v ∈ vs, v.Sits r (.symbolOr [.masgn])) (do
        let rights ← convertItems conv scope n .rights
        return lefts ++ middle ++ rights) := by
    intro middle hm
    refine (S.items hrights rfl rfl hscope).bind fun rights hr => .pure ?_
    simp only [List.forall_mem_append]
    exact ⟨⟨hl.2, hm⟩, hr.2⟩
  rcases Tree.null_or_fits_of_holds ht.2 with rfl | hfits
  · exact hfinish [] (List.forall_mem_nil _)
  · split
    · exact hfinish [] (List.forall_mem_nil _)
    · next himplicit =>
      refine (S.below ht.1 (S.positional_of_rest hfits ?_) rfl hscope).bind fun v hv =>
        hfinish [v] (List.forall_mem_singleton.mpr hv)
      simp only [Bool.or_eq_true, not_or, Bool.not_eq_true] at himplicit
      exact himplicit.2

lemma positionalMultiTarget (hlefts : n.Keeps r .lefts (.many .positional))
    (hrest : n.Keeps r .rest (.optional .positionalRest))
    (hrights : n.Keeps r .rights (.many .positional)) :
    Outcome E (fun v : Value => v.Sits r (.tagged [.masgn]))
      (Convert.multiTarget conv scope n) := by
  refine (S.positionalTargets hscope hlefts hrest hrights).bind fun kids hk => ?_
  simp only [hscope, if_true]
  refine .build S.place fun line maxLine => Value.IsExpression.tagged ?_ rfl
  have hlayout : Layout.atLeastThen [] 0 (.symbolOr [.masgn]) ∈ Tag.masgn.ownLayouts := by decide
  have := Value.isExpression_layout hlayout [] kids [] trivial hk trivial (Nat.zero_le _) nofun
    line maxLine
  simpa using this

end Positional

end Setting

end Convert

end RubySexp
