import RubySexp.Proofs.Convert.Census.Control

/-!
# Targets, Parameters and Patterns Keep the Count

What is assigned to, declared or matched against. A rest is often only a name with a mark, and
counts for nothing.
-/

namespace RubySexp.Convert.Census

open Value (Kept KeptAll Yielded)

variable {c : Construct} {conv : Conversion} {s : Scope} {own : Standing} {n : Node} {tree : Tree}
  {v : Value} {vs : List Value} {tag : Tag} {field : Field} {k : Nat}

lemma kept_restParameter {mark : List Char} (hv : restParameter n mark = .ok v) : Kept c v 0 := by
  obtain ⟨name, -, hv⟩ := exists_ok_of_bind hv
  cases hv
  exact .symbol _

lemma reached_of_not_truthy {positional : Bool} (h : tree.truthy = false) :
    tree.reached c positional own = 0 := by
  cases tree with
  | tuple items =>
    cases items with
    | nil => rfl
    | cons item rest => cases h
  | node kind location fields => cases h
  | _ => rfl

namespace Setting

/-! ### Multiple assignment -/

lemma targets (h : Setting c conv s .ordinary n) (hlefts : Plain s .ordinary n .lefts)
    (hrest : Plain s .ordinary n .rest) (hrights : Plain s .ordinary n .rights)
    (hvs : targets conv s n = .ok vs) :
    KeptAll c vs (share c s .ordinary n .lefts +
      (share c s .ordinary n .rest + share c s .ordinary n .rights)) := by
  obtain ⟨lefts, hl, hvs⟩ := exists_ok_of_bind hvs
  obtain ⟨rest, hget, hvs⟩ := exists_ok_of_bind hvs
  extract_lets withMiddle at hvs
  have hmiddle : ∀ middle, KeptAll c middle (share c s .ordinary n .rest) →
      withMiddle middle = .ok vs → KeptAll c vs (share c s .ordinary n .lefts +
        (share c s .ordinary n .rest + share c s .ordinary n .rights)) := by
    intro middle hm hvs
    obtain ⟨rights, hr, hvs⟩ := exists_ok_of_bind hvs
    cases hvs
    refine (((h.convertItems hlefts hl).append hm).append (h.convertItems hrights hr)).cast ?_
    omega
  split at hvs
  · next hnone =>
    refine hmiddle [] ?_ hvs
    rcases Bool.or_eq_true _ _ ▸ hnone with hnull | hkind
    · rw [share_of_isNull hget hnull]
      exact .nil
    · obtain ⟨location, fields, rfl⟩ := Tree.exists_of_isA hkind
      obtain ⟨-, ht, hshare⟩ := h.get hrest hget
      rw [← hshare, reached_nothing ht.declared rfl rfl]
      exact .nil
  · obtain ⟨middle, hm, hvs⟩ := exists_ok_of_bind hvs
    exact hmiddle [middle] (.single (h.part hrest hget hm)) hvs

lemma kept_element (h : Setting c conv s .ordinary n) {location : Option Location}
    {fields : List (Field × Tree)} {elements element : Tree}
    (hheight : (Tree.ofNode ⟨.arrayNode, location, fields⟩).height < (Tree.ofNode n).height)
    (hm : Node.Orderly c s.inParameters .ordinary ⟨.arrayNode, location, fields⟩)
    (hget : Node.get ⟨.arrayNode, location, fields⟩ .elements = .ok elements)
    (helements : elements.elements = .ok [element]) (hv : conv s element = .ok v) :
    Kept c v ((Tree.ofNode ⟨.arrayNode, location, fields⟩).reached c s.inParameters .ordinary) := by
  have hplain : Plain s .ordinary ⟨.arrayNode, location, fields⟩ .elements := rfl
  obtain ⟨hbelow, ht, hshare⟩ := (h.down hheight hm).get hplain hget
  rw [reached_single .elements hm.declared rfl rfl, ← hshare, Tree.reached_of_elements helements]
  exact h.kept_item (hbelow.trans hheight) ht helements (List.mem_singleton_self _) hv

lemma multiValue (h : Setting c conv s .ordinary n) (hplain : Plain s .ordinary n field)
    (hget : n.get field = .ok tree) (hv : multiValue conv s n tree = .ok v) :
    Kept c v (share c s .ordinary n field) := by
  have hmarked : ∀ {place value}, conv s tree = .ok value → build place .toAry [value] = .ok v →
      Kept c v (share c s .ordinary n field) := by
    intro place value hvalue hv
    have hk := KeptAll.single (h.part hplain hget hvalue)
    exact (kept_build rfl hk.tally hv).cast (Nat.zero_add _)
  unfold Convert.multiValue at hv
  rcases hnode : tree.asNode? with _ | array
  · rw [hnode] at hv
    obtain ⟨value, hvalue, hv⟩ := exists_ok_of_bind hv
    exact hmarked hvalue hv
  rw [hnode] at hv
  obtain rfl := Tree.eq_ofNode hnode
  dsimp only at hv
  split at hv
  · next hkind =>
    obtain ⟨kind, location, fields⟩ := array
    obtain rfl : kind = .arrayNode := beq_iff_eq.mp hkind
    obtain ⟨opening, -, hv⟩ := exists_ok_of_bind hv
    split at hv
    · obtain ⟨elements, helements, hv⟩ := exists_ok_of_bind hv
      obtain ⟨items, hitems, hv⟩ := exists_ok_of_bind hv
      split at hv
      · split at hv
        · obtain ⟨hheight, ht, hshare⟩ := h.get hplain hget
          rw [← hshare]
          exact h.kept_element hheight ht.node helements hitems hv
        · exact h.part hplain hget hv
      · exact h.part hplain hget hv
    · obtain ⟨value, hvalue, hv⟩ := exists_ok_of_bind hv
      exact hmarked hvalue hv
  split at hv
  · exact h.part hplain hget hv
  · obtain ⟨value, hvalue, hv⟩ := exists_ok_of_bind hv
    exact hmarked hvalue hv

lemma multiWrite (h : Setting c conv s .ordinary n) (hlefts : Plain s .ordinary n .lefts)
    (hrest : Plain s .ordinary n .rest) (hrights : Plain s .ordinary n .rights)
    (hvalue : Plain s .ordinary n .value) (hv : multiWrite conv s n = .ok v) :
    Kept c v (c.ofTag .masgn + (share c s .ordinary n .lefts + (share c s .ordinary n .rest +
      (share c s .ordinary n .rights + share c s .ordinary n .value)))) := by
  obtain ⟨targets, htargets, hv⟩ := exists_ok_of_bind hv
  obtain ⟨left, hleft, hv⟩ := exists_ok_of_bind hv
  obtain ⟨tree, hget, hv⟩ := exists_ok_of_bind hv
  obtain ⟨right, hright, hv⟩ := exists_ok_of_bind hv
  have hleft' := kept_build rfl (h.targets hlefts hrest hrights htargets).tally hleft
  have hkids := KeptAll.cons hleft' (.single (h.multiValue hvalue hget hright))
  refine (kept_build rfl hkids.tally hv).cast ?_
  rw [show c.ofTag .array = 0 from rfl]
  omega

lemma multiTarget (h : Setting c conv s .ordinary n) (hlefts : Plain s .ordinary n .lefts)
    (hrest : Plain s .ordinary n .rest) (hrights : Plain s .ordinary n .rights)
    (hv : multiTarget conv s n = .ok v) :
    Kept c v (c.ofTag .masgn + (share c s .ordinary n .lefts +
      (share c s .ordinary n .rest + share c s .ordinary n .rights))) := by
  obtain ⟨inner, hinner, hv⟩ := exists_ok_of_bind hv
  have hinner' := h.targets hlefts hrest hrights hinner
  split at hv
  · exact kept_build rfl hinner'.tally hv
  · obtain ⟨array, harray, hv⟩ := exists_ok_of_bind hv
    have harray' := (kept_build rfl hinner'.tally harray).cast (Nat.zero_add _)
    exact kept_build rfl (KeptAll.single harray').tally hv

lemma markedName (h : Setting c conv s own n)
    (hslot : Stands s own n field .name)
    (hget : n.get field = .ok tree) {mark : List Char}
    (hv : markedName mark tree = .ok v) : Kept c v (share c s own n field) := by
  obtain ⟨name, hname, hv⟩ := exists_ok_of_bind hv
  cases hv
  rw [h.share_name hslot hget hname]
  exact .symbol _

lemma splat (h : Setting c conv s .ordinary n)
    (hslot : n.slot s.inParameters .ordinary .expression =
      some (if s.inParameters then .name else .ordinary, s.inParameters))
    (hv : splat conv s n = .ok v) : Kept c v (share c s .ordinary n .expression) := by
  obtain ⟨expression, hget, hv⟩ := exists_ok_of_bind hv
  split at hv
  · next hpositional =>
    rw [if_pos hpositional] at hslot
    split at hv
    · next hnull =>
      cases hv
      rw [share_of_isNull hget hnull]
      exact .symbol _
    · exact h.markedName hslot hget hv
  · next hpositional =>
    rw [if_neg hpositional] at hslot
    split at hv
    · next hnull =>
      rw [share_of_isNull hget hnull]
      exact kept_build_data rfl hv
    · obtain ⟨value, hvalue, hv⟩ := exists_ok_of_bind hv
      exact (kept_build rfl (KeptAll.single (h.part hslot hget hvalue)).tally hv).cast
        (Nat.zero_add _)

/-! ### Parameters -/

lemma parameters (h : Setting c conv s .ordinary n)
    (hrequireds : n.slot s.inParameters .ordinary .requireds = some (.ordinary, true))
    (hoptionals : Plain s .ordinary n .optionals)
    (hrest : n.slot s.inParameters .ordinary .rest = some (.ordinary, true))
    (hposts : n.slot s.inParameters .ordinary .posts = some (.ordinary, true))
    (hkeywords : Plain s .ordinary n .keywords) (hkeywordRest : Plain s .ordinary n .keywordRest)
    (hblock : Plain s .ordinary n .block) (hv : parameters conv s n = .ok v) :
    Kept c v (share c s .ordinary n .requireds + (share c s .ordinary n .optionals +
      (share c s .ordinary n .rest + (share c s .ordinary n .posts +
        (share c s .ordinary n .keywords + (share c s .ordinary n .keywordRest +
          share c s .ordinary n .block)))))) := by
  obtain ⟨list, hlist, hv⟩ := exists_ok_of_bind hv
  unfold parameterList at hlist
  extract_lets positional at hlist
  obtain ⟨requireds, h₁, hlist⟩ := exists_ok_of_bind hlist
  obtain ⟨optionals, h₂, hlist⟩ := exists_ok_of_bind hlist
  obtain ⟨rest, h₃, hlist⟩ := exists_ok_of_bind hlist
  obtain ⟨posts, h₄, hlist⟩ := exists_ok_of_bind hlist
  obtain ⟨keywords, h₅, hlist⟩ := exists_ok_of_bind hlist
  obtain ⟨keywordRest, h₆, hlist⟩ := exists_ok_of_bind hlist
  obtain ⟨block, h₇, hlist⟩ := exists_ok_of_bind hlist
  cases hlist
  have hk₁ := h.partItems (t := positional) hrequireds h₁
  have hk₃ := h.partOptional (t := positional) hrest h₃
  have hk₄ := h.partItems (t := positional) hposts h₄
  have hkids := hk₁.append ((h.convertItems hoptionals h₂).append (hk₃.append (hk₄.append
    ((h.convertItems hkeywords h₅).append ((h.convertOptional hkeywordRest h₆).append
      (h.convertOptional hblock h₇))))))
  simp only [← List.append_assoc] at hkids
  exact (kept_build rfl hkids.tally hv).cast (Nat.zero_add _)

lemma optionalParameter (h : Setting c conv s .ordinary n) (hvalue : Plain s .ordinary n .value)
    (hv : optionalParameter conv s n = .ok v) : Kept c v (share c s .ordinary n .value) := by
  obtain ⟨name, hname, hv⟩ := exists_ok_of_bind hv
  obtain ⟨value, hval, hv⟩ := exists_ok_of_bind hv
  have hkids := KeptAll.cons (kept_nameIn hname) (.single (h.convertField hvalue hval))
  refine (kept_build rfl hkids.tally hv).cast ?_
  rw [show c.ofTag .lasgn = 0 from rfl, Nat.zero_add, Nat.zero_add]

lemma optionalKeyword (h : Setting c conv s .ordinary n) (hvalue : Plain s .ordinary n .value)
    (hv : optionalKeyword conv s n = .ok v) : Kept c v (share c s .ordinary n .value) := by
  obtain ⟨name, hname, hv⟩ := exists_ok_of_bind hv
  obtain ⟨value, hval, hv⟩ := exists_ok_of_bind hv
  have hkids := KeptAll.cons (kept_nameIn hname) (.single (h.convertField hvalue hval))
  refine (kept_build rfl hkids.tally hv).cast ?_
  rw [show c.ofTag .kwarg = 0 from rfl, Nat.zero_add, Nat.zero_add]

lemma extended (h : Setting c conv s own n) (ht : tree.Orderly c s.inParameters .parameters)
    {parameters : Value} {kids : List Value} {k' : Nat} (hparameters : conv s tree = .ok parameters)
    (hk : Kept c parameters k) (hkids : Value.tallyAll c kids = k')
    (hv : extendParameters parameters kids = .ok v) : Kept c v (k + k') := by
  rcases ht.placed with hsilent | ⟨htakes, -⟩
  · have hzero : k = 0 := by rw [← hk.tally, Value.tally_of_isSilent hsilent]
    have hzero' : k' = 0 := by rw [← hkids, Value.tallyAll_of_isSilent hsilent]
    rw [hzero, hzero']
    exact .of_isSilent hsilent v
  rcases hnode : tree.asNode? with _ | m
  · obtain ⟨-, rfl⟩ := h.leaf hnode hparameters
    cases hv
  obtain rfl := Tree.eq_ofNode hnode
  obtain ⟨kind, location, fields⟩ := m
  obtain rfl : kind = .parametersNode := by
    simpa [Standing.takes, Standing.admits, Tree.ofNode, Tree.ownNodes] using htakes
  rw [h.node] at hparameters
  obtain ⟨list, -, hparameters⟩ := exists_ok_of_bind hparameters
  obtain ⟨l, rfl⟩ := eq_sexp_of_build hparameters
  cases hv
  refine ⟨?_, .inr (Value.firm_sexp rfl _ _ _)⟩
  rw [← hk.tally, ← hkids, Value.tally_sexp, Value.tally_sexp, Value.tallyAll_append,
    Nat.add_assoc]

lemma blockParameters (h : Setting c conv s .ordinary n)
    (hslot : Stands s .ordinary n .parameters .parameters)
    (hlocals : Plain s .ordinary n .locals) (hv : blockParameters conv s n = .ok v) :
    Kept c v (share c s .ordinary n .parameters + share c s .ordinary n .locals) := by
  obtain ⟨locals, hget, hv⟩ := exists_ok_of_bind hv
  obtain ⟨hheight, ht, hshare⟩ := h.get hlocals hget
  extract_lets withShadow at hv
  have hrest : ∀ shadow, Value.tallyAll c shadow = share c s .ordinary n .locals →
      withShadow shadow = .ok v →
      Kept c v (share c s .ordinary n .parameters + share c s .ordinary n .locals) := by
    intro shadow hshadow hv
    obtain ⟨declared, hdeclared, hv⟩ := exists_ok_of_bind hv
    split at hv
    · next hnull =>
      rw [share_of_isNull hdeclared hnull]
      exact kept_build rfl hshadow hv
    · obtain ⟨parameters, hp, hv⟩ := exists_ok_of_bind hv
      obtain ⟨hbelow, hd, hshare'⟩ := h.get hslot hdeclared
      have hk : Kept c parameters (share c s .ordinary n .parameters) := by
        refine (h.kept rfl (fun kind hkind => ?_) hbelow hd hp).cast hshare'
        rw [beq_iff_eq.mp hkind]
        rfl
      split at hv
      · next hempty =>
        cases hv
        rw [← hshadow, List.isEmpty_iff.mp hempty]
        exact hk
      · exact h.extended hd hp hk hshadow hv
  split at hv
  · obtain ⟨names, hnames, hv⟩ := exists_ok_of_bind hv
    obtain ⟨shadow, hshadow, hv⟩ := exists_ok_of_bind hv
    have hshadow' := (kept_build rfl (h.keptAll hheight ht hnames).tally hshadow).cast
      ((Nat.zero_add _).trans hshare)
    exact hrest [shadow] (KeptAll.single hshadow').tally hv
  · next htruthy =>
    refine hrest [] ?_ hv
    rw [← hshare, reached_of_not_truthy (Bool.eq_false_iff.mpr htruthy)]
    rfl

/-! ### Patterns -/

lemma patternMatch (h : Setting c conv s .ordinary n) (hvalue : Plain s .ordinary n .value)
    (hpattern : Plain s .ordinary n .pattern) (hv : patternMatch conv s n = .ok v) :
    Kept c v (c.ofKind .matchPredicateNode +
      (share c s .ordinary n .value + share c s .ordinary n .pattern)) := by
  obtain ⟨pattern, hp, hv⟩ := exists_ok_of_bind hv
  obtain ⟨clause, hclause, hv⟩ := exists_ok_of_bind hv
  obtain ⟨value, hval, hv⟩ := exists_ok_of_bind hv
  have hclause' := kept_build rfl
    (KeptAll.cons (h.convertField hpattern hp) (.single (.scalar .null))).tally hclause
  have hkids := KeptAll.cons (h.convertField hvalue hval)
    (.cons hclause' (.single (.scalar .null)))
  refine (kept_build rfl hkids.tally hv).cast ?_
  have hboth : c.ofKind .matchPredicateNode = c.ofTag .caseOf + c.ofTag .inClause := by
    cases c <;> rfl
  rw [hboth]
  omega

lemma patternRest (h : Setting c conv s .ordinary n)
    (hslot : n.slot s.inParameters .ordinary field =
      if (n.part field).isA .splatNode then some (.rest, s.inParameters) else none)
    (hget : n.get field = .ok tree) (hv : patternRest tree = .ok v) :
    Kept c v (share c s .ordinary n field) := by
  have hpart : n.part field = tree := by rw [Node.part, Node.get?_of_get hget]; rfl
  rw [hpart] at hslot
  unfold Convert.patternRest at hv
  split at hv
  · next hkind =>
    rw [if_pos hkind] at hslot
    obtain ⟨hheight, ht, hshare⟩ := h.get hslot hget
    obtain ⟨location, fields, rfl⟩ := Tree.exists_of_isA hkind
    rw [← hshare, reached_single .expression ht.declared rfl rfl]
    obtain ⟨expression, hexpression, hv⟩ := exists_ok_of_bind hv
    split at hv
    · next hnull =>
      cases hv
      rw [share_of_isNull hexpression hnull]
      exact .symbol _
    · exact (h.down hheight ht.node).markedName rfl hexpression hv
  · next hkind =>
    rw [if_neg hkind] at hslot
    cases hv
    rw [share, Node.share, hslot]
    exact .symbol _

lemma patternKeywordRest (h : Setting c conv s .ordinary n)
    (hslot : Stands s .ordinary n field .keywordRest)
    (hget : n.get field = .ok tree) (hv : patternKeywordRest tree = .ok v) :
    Kept c v (share c s .ordinary n field) := by
  obtain ⟨hheight, ht, hshare⟩ := h.get hslot hget
  rw [← hshare]
  unfold Convert.patternKeywordRest at hv
  split at hv
  · next hkind =>
    obtain ⟨location, fields, rfl⟩ := Tree.exists_of_isA hkind
    rw [reached_nothing ht.declared rfl rfl]
    exact kept_build_data rfl hv
  obtain ⟨value, hvalue, hv⟩ := exists_ok_of_bind hv
  rcases hnode : tree.asNode? with _ | m
  · rw [Tree.get, hnode] at hvalue
    cases hvalue
  obtain rfl := Tree.eq_ofNode hnode
  have hdown := h.down hheight ht.node
  have hkept : Kept c v 0 ∧ share c s .keywordRest m .value = 0 := by
    split at hv
    · next hnull => exact ⟨kept_build_data rfl hv, share_of_isNull hvalue hnull⟩
    · obtain ⟨name, hname, hv⟩ := exists_ok_of_bind hv
      obtain ⟨spelled, hspelled, hname⟩ := exists_ok_of_bind hname
      cases hname
      exact ⟨kept_build_data rfl hv, hdown.share_name rfl hvalue hspelled⟩
  have hkind : c.ofKind m.kind = 0 := by
    rcases ht.admits with hsilent | hadmits
    · exact ofKind_of_get hsilent ht.declared hvalue
    · rcases Bool.or_eq_true _ _ ▸ hadmits with hkind | hkind
      all_goals
        rw [beq_iff_eq.mp hkind]
        rfl
  rw [reached_nothing ht.declared hkind (Node.shares_eq_zero rfl (by simpa using hkept.2) _)]
  exact hkept.1

lemma arrayPattern (h : Setting c conv s .ordinary n) (hconstant : Plain s .ordinary n .constant)
    (hrequireds : Plain s .ordinary n .requireds) (hposts : Plain s .ordinary n .posts)
    (hslot : n.slot s.inParameters .ordinary .rest =
      if (n.part .rest).isA .splatNode then some (.rest, s.inParameters) else none)
    (hv : arrayPattern conv s n = .ok v) :
    Kept c v (c.ofTag .arrayPat + (share c s .ordinary n .constant +
      (share c s .ordinary n .requireds +
        (share c s .ordinary n .rest + share c s .ordinary n .posts)))) := by
  obtain ⟨requireds, hr, hv⟩ := exists_ok_of_bind hv
  obtain ⟨tree, hget, hv⟩ := exists_ok_of_bind hv
  extract_lets withRest at hv
  have hrest : ∀ rest, KeptAll c rest (share c s .ordinary n .rest) → withRest rest = .ok v →
      Kept c v (c.ofTag .arrayPat + (share c s .ordinary n .constant +
        (share c s .ordinary n .requireds +
          (share c s .ordinary n .rest + share c s .ordinary n .posts)))) := by
    intro rest hrest hv
    obtain ⟨posts, hp, hv⟩ := exists_ok_of_bind hv
    obtain ⟨constant, hc, hv⟩ := exists_ok_of_bind hv
    have hkids := KeptAll.cons (h.convertField hconstant hc)
      (((h.convertItems hrequireds hr).append hrest).append (h.convertItems hposts hp))
    exact (kept_build rfl hkids.tally hv).cast (by omega)
  split at hv
  · next hnull =>
    refine hrest [] ?_ hv
    rw [share_of_isNull hget hnull]
    exact .nil
  · obtain ⟨rest, hvalue, hv⟩ := exists_ok_of_bind hv
    exact hrest [rest] (.single (h.patternRest hslot hget hvalue)) hv

lemma findPattern (h : Setting c conv s .ordinary n) (hconstant : Plain s .ordinary n .constant)
    (hrequireds : Plain s .ordinary n .requireds)
    (hleft : n.slot s.inParameters .ordinary .left =
      if (n.part .left).isA .splatNode then some (.rest, s.inParameters) else none)
    (hright : n.slot s.inParameters .ordinary .right =
      if (n.part .right).isA .splatNode then some (.rest, s.inParameters) else none)
    (hv : findPattern conv s n = .ok v) :
    Kept c v (c.ofTag .findPat + (share c s .ordinary n .constant + (share c s .ordinary n .left +
      (share c s .ordinary n .requireds + share c s .ordinary n .right)))) := by
  obtain ⟨constant, hc, hv⟩ := exists_ok_of_bind hv
  obtain ⟨leftTree, hgetLeft, hv⟩ := exists_ok_of_bind hv
  obtain ⟨left, hl, hv⟩ := exists_ok_of_bind hv
  obtain ⟨requireds, hr, hv⟩ := exists_ok_of_bind hv
  obtain ⟨rightTree, hgetRight, hv⟩ := exists_ok_of_bind hv
  obtain ⟨right, hrt, hv⟩ := exists_ok_of_bind hv
  have hkids := ((KeptAll.cons (h.convertField hconstant hc)
    (.single (h.patternRest hleft hgetLeft hl))).append (h.convertItems hrequireds hr)).append
    (.single (h.patternRest hright hgetRight hrt))
  exact (kept_build rfl hkids.tally hv).cast (by omega)

lemma hashPattern (h : Setting c conv s .ordinary n) (hconstant : Plain s .ordinary n .constant)
    (helements : Stands s .ordinary n .elements .element)
    (hslot : Stands s .ordinary n .rest .keywordRest)
    (hv : hashPattern conv s n = .ok v) :
    Kept c v (c.ofTag .hashPat + (share c s .ordinary n .constant +
      (share c s .ordinary n .elements + share c s .ordinary n .rest))) := by
  obtain ⟨elements, he, hv⟩ := exists_ok_of_bind hv
  obtain ⟨tree, hget, hv⟩ := exists_ok_of_bind hv
  extract_lets withRest at hv
  have hrest : ∀ rest, KeptAll c rest (share c s .ordinary n .rest) → withRest rest = .ok v →
      Kept c v (c.ofTag .hashPat + (share c s .ordinary n .constant +
        (share c s .ordinary n .elements + share c s .ordinary n .rest))) := by
    intro rest hrest hv
    obtain ⟨constant, hc, hv⟩ := exists_ok_of_bind hv
    have hkids := KeptAll.cons (h.convertField hconstant hc) ((h.pairs helements he).append hrest)
    exact kept_build rfl hkids.tally hv
  split at hv
  · next hnull =>
    refine hrest [] ?_ hv
    rw [share_of_isNull hget hnull]
    exact .nil
  · obtain ⟨rest, hvalue, hv⟩ := exists_ok_of_bind hv
    exact hrest [rest] (.single (h.patternKeywordRest hslot hget hvalue)) hv

lemma capturePattern (h : Setting c conv s .ordinary n) (hvalue : Plain s .ordinary n .value)
    (htarget : Stands s .ordinary n .target .name)
    (hv : capturePattern conv s n = .ok v) :
    Kept c v (share c s .ordinary n .value + share c s .ordinary n .target) := by
  obtain ⟨target, hget, hv⟩ := exists_ok_of_bind hv
  obtain ⟨name, hname, hv⟩ := exists_ok_of_bind hv
  obtain ⟨value, hval, hv⟩ := exists_ok_of_bind hv
  have hkids := KeptAll.cons (.symbol name) (.single (h.convertField hvalue hval))
  refine (kept_build rfl hkids.tally hv).cast ?_
  rw [h.share_name htarget hget hname, show c.ofTag .lasgn = 0 from rfl]
  omega

end Setting

end RubySexp.Convert.Census
