import RubySexp.Proofs.Convert.Census.Setting

/-!
# Control Flow and Definitions Keep the Count

An expression holds as many of a construct as the parts that were converted for it, and one more if
it is one itself: variables and constants, control flow, bodies with their handlers, and
definitions.
-/

namespace RubySexp.Convert.Census

open Value (Kept KeptAll Yielded)

variable {c : Construct} {conv : Conversion} {s t : Scope} {own : Standing} {n m : Node}
  {tree : Tree} {v : Value} {vs : List Value} {tag : Tag} {field : Field} {k : Nat}

/-! ### Variables and constants -/

lemma kept_nameIn (hv : nameIn n field = .ok v) : Kept c v 0 := by
  obtain ⟨name, -, hv⟩ := exists_ok_of_bind hv
  cases hv
  exact .symbol name

lemma kept_named (hv : named n tag = .ok v) : Kept c v (c.ofTag tag) := by
  obtain ⟨name, hname, hv⟩ := exists_ok_of_bind hv
  exact kept_build_data (KeptAll.single (kept_nameIn hname)).tally hv

lemma ofTag_writeTag (sort : Variable) (s : Scope) : c.ofTag (sort.writeTag s) = 0 := by
  cases sort with
  | classVar =>
    rw [Variable.writeTag]
    split <;> rfl
  | _ => rfl

lemma isFolded_writeTag (sort : Variable) (s : Scope) : (sort.writeTag s).isFolded = false := by
  cases sort with
  | classVar =>
    rw [Variable.writeTag]
    split <;> rfl
  | _ => rfl

lemma kept_localRead (hv : localRead n = .ok v) : Kept c v 0 := by
  obtain ⟨name, -, hv⟩ := exists_ok_of_bind hv
  split at hv
  · split at hv
    · exact kept_build_data rfl hv
    · exact kept_named hv
  · cases hv

lemma kept_backReference (hv : backReference n = .ok v) : Kept c v 0 := by
  obtain ⟨name, -, hv⟩ := exists_ok_of_bind hv
  split at hv
  · split at hv
    · exact kept_build_data rfl hv
    · cases hv
  · split at hv
    · exact kept_build_data rfl hv
    · cases hv
  · cases hv

namespace Setting

variable (h : Setting c conv s .ordinary n)

include h

lemma array_single {array : Node} {element : Tree} {elements : Tree} {kid : Value}
    {kids : List Value} {l m : Json} (hkind : array.kind = .arrayNode)
    (hget : array.get .elements = .ok elements) (helements : elements.elements = .ok [element])
    (hv : conv t (.ofNode array) = .ok (.sexp tag (kid :: kids) l m)) :
    tag = .array ∧ kids = [] := by
  rw [h.node, rule, hkind] at hv
  obtain ⟨vs, hvs, hv⟩ := exists_ok_of_bind hv
  obtain ⟨tree, htree, hvs⟩ := exists_ok_of_bind hvs
  obtain rfl : elements = tree := Except.ok.inj (hget.symm.trans htree)
  obtain ⟨items, hitems, hvs⟩ := exists_ok_of_bind hvs
  obtain rfl : [element] = items := Except.ok.inj (helements.symm.trans hitems)
  rw [List.mapM_cons] at hvs
  obtain ⟨w, -, hvs⟩ := exists_ok_of_bind hvs
  obtain ⟨place, heq⟩ := eq_sexp_of_build hv
  cases hvs
  cases heq
  exact ⟨rfl, rfl⟩

lemma assignedValue (hplain : Plain s .ordinary n field) (hget : n.get field = .ok tree)
    (hv : assignedValue conv s tree = .ok v) : Kept c v (share c s .ordinary n field) := by
  obtain ⟨converted, hconverted, hv⟩ := exists_ok_of_bind hv
  have hk := h.part hplain hget hconverted
  rcases hnode : tree.asNode? with _ | array
  · rw [hnode] at hv
    cases hv
    exact hk
  obtain rfl := Tree.eq_ofNode hnode
  rw [hnode] at hv
  dsimp only at hv
  split at hv
  · next hkind =>
    obtain ⟨opening, -, hv⟩ := exists_ok_of_bind hv
    split at hv
    · unfold implicitList at hv
      obtain ⟨elements, helements, hv⟩ := exists_ok_of_bind hv
      obtain ⟨items, hitems, hv⟩ := exists_ok_of_bind hv
      refine (kept_build rfl ?_ hv).cast (Nat.zero_add _)
      rw [← hk.tally, Value.tallyAll_cons, Value.tallyAll_nil, Nat.add_zero]
      split
      · split
        · -- The array is dropped, and with it nothing that counts.
          obtain ⟨rfl, rfl⟩ := h.array_single (beq_iff_eq.mp hkind) helements hitems hconverted
          exact (Nat.zero_add _).symm
        · rfl
      · rfl
    · cases hv
      exact hk
  · cases hv
    exact hk

lemma variableWrite (hplain : Plain s .ordinary n .value) {sort : Variable}
    (hv : variableWrite conv s n sort = .ok v) : Kept c v (share c s .ordinary n .value) := by
  obtain ⟨name, hname, hv⟩ := exists_ok_of_bind hv
  obtain ⟨tree, hget, hv⟩ := exists_ok_of_bind hv
  obtain ⟨value, hvalue, hv⟩ := exists_ok_of_bind hv
  have hkids := KeptAll.cons (kept_nameIn hname) (.single (h.assignedValue hplain hget hvalue))
  refine (kept_build (isFolded_writeTag sort s) hkids.tally hv).cast ?_
  rw [ofTag_writeTag, Nat.zero_add, Nat.zero_add]

lemma variableLogicWrite (hplain : Plain s .ordinary n .value) {sort : Variable}
    (htag : tag.isFolded = false) (hv : variableLogicWrite conv s n tag sort = .ok v) :
    Kept c v (c.ofTag tag + share c s .ordinary n .value) := by
  obtain ⟨name, hname, hv⟩ := exists_ok_of_bind hv
  obtain ⟨read, hread, hv⟩ := exists_ok_of_bind hv
  obtain ⟨value, hvalue, hv⟩ := exists_ok_of_bind hv
  obtain ⟨write, hwrite, hv⟩ := exists_ok_of_bind hv
  have hname' : Value.tallyAll c [name] = 0 := (KeptAll.single (kept_nameIn hname)).tally
  have hkids := KeptAll.cons (kept_nameIn hname) (.single (h.convertField hplain hvalue))
  have hwrite' := kept_build (isFolded_writeTag sort s) hkids.tally hwrite
  have hread' : Kept c read 0 := by
    refine (kept_build_data hname' hread).cast ?_
    cases sort <;> rfl
  refine (kept_build htag (KeptAll.cons hread' (.single hwrite')).tally hv).cast ?_
  rw [ofTag_writeTag]
  omega

lemma variableOperatorWrite (hplain : Plain s .ordinary n .value) {sort : Variable}
    (hv : variableOperatorWrite conv s n sort = .ok v) :
    Kept c v (share c s .ordinary n .value) := by
  obtain ⟨name, hname, hv⟩ := exists_ok_of_bind hv
  obtain ⟨read, hread, hv⟩ := exists_ok_of_bind hv
  obtain ⟨operator, hoperator, hv⟩ := exists_ok_of_bind hv
  obtain ⟨value, hvalue, hv⟩ := exists_ok_of_bind hv
  obtain ⟨call, hcall, hv⟩ := exists_ok_of_bind hv
  have hname' : Value.tallyAll c [name] = 0 := (KeptAll.single (kept_nameIn hname)).tally
  have hread' : Kept c read 0 := by
    refine (kept_build_data hname' hread).cast ?_
    cases sort <;> rfl
  have hkids := KeptAll.cons hread' (.cons (kept_nameIn hoperator)
    (.single (h.convertField hplain hvalue)))
  have hcall' := kept_build rfl hkids.tally hcall
  refine (kept_build (isFolded_writeTag sort s)
    (KeptAll.cons (kept_nameIn hname) (.single hcall')).tally hv).cast ?_
  rw [ofTag_writeTag, show c.ofTag .call = 0 from rfl]
  omega

lemma constantPath (hplain : Plain s .ordinary n .parent) (hv : constantPath conv s n = .ok v) :
    Kept c v (share c s .ordinary n .parent) := by
  obtain ⟨parent, hget, hv⟩ := exists_ok_of_bind hv
  split at hv
  · next hnull =>
    obtain ⟨name, hname, hv⟩ := exists_ok_of_bind hv
    rw [share_of_isNull hget hnull]
    exact kept_build_data (KeptAll.single (kept_nameIn hname)).tally hv
  · obtain ⟨outer, houter, hv⟩ := exists_ok_of_bind hv
    obtain ⟨name, hname, hv⟩ := exists_ok_of_bind hv
    have hkids := KeptAll.cons (h.part hplain hget houter) (.single (kept_nameIn hname))
    exact (kept_build rfl hkids.tally hv).cast (Nat.zero_add _)

lemma constantPathWrite (htarget : Plain s .ordinary n .target)
    (hvalue : Plain s .ordinary n .value) (hv : constantPathWrite conv s n = .ok v) :
    Kept c v (0 + (share c s .ordinary n .target + share c s .ordinary n .value)) := by
  obtain ⟨target, ht, hv⟩ := exists_ok_of_bind hv
  obtain ⟨tree, hget, hv⟩ := exists_ok_of_bind hv
  obtain ⟨value, hval, hv⟩ := exists_ok_of_bind hv
  have hkids := KeptAll.cons (h.convertField htarget ht)
    (.single (h.assignedValue hvalue hget hval))
  exact kept_build rfl hkids.tally hv

lemma constantPathLogicWrite (htarget : Plain s .ordinary n .target)
    (hvalue : Plain s .ordinary n .value) (htag : tag.isFolded = false)
    (hv : constantPathLogicWrite conv s n tag = .ok v) :
    Kept c v (c.ofTag tag + (share c s .ordinary n .target + share c s .ordinary n .value)) := by
  obtain ⟨target, ht, hv⟩ := exists_ok_of_bind hv
  obtain ⟨value, hval, hv⟩ := exists_ok_of_bind hv
  have hkids := KeptAll.cons (h.convertField htarget ht) (.single (h.convertField hvalue hval))
  exact kept_build htag hkids.tally hv

lemma constantPathOperatorWrite (htarget : Plain s .ordinary n .target)
    (hvalue : Plain s .ordinary n .value) (hv : constantPathOperatorWrite conv s n = .ok v) :
    Kept c v (0 + (share c s .ordinary n .target + share c s .ordinary n .value)) := by
  obtain ⟨target, ht, hv⟩ := exists_ok_of_bind hv
  obtain ⟨operator, hoperator, hv⟩ := exists_ok_of_bind hv
  obtain ⟨value, hval, hv⟩ := exists_ok_of_bind hv
  have hkids := KeptAll.cons (h.convertField htarget ht)
    (.cons (kept_nameIn hoperator) (.single (h.convertField hvalue hval)))
  refine (kept_build rfl hkids.tally hv).cast ?_
  rw [Nat.zero_add (share c s .ordinary n .value)]
  rfl

/-! ### Control flow -/

lemma binary {first second : Field} (hfirst : Plain s .ordinary n first)
    (hsecond : Plain s .ordinary n second) (htag : tag.isFolded = false)
    (hv : binary conv s n tag first second = .ok v) :
    Kept c v (c.ofTag tag + (share c s .ordinary n first + share c s .ordinary n second)) := by
  obtain ⟨a, ha, hv⟩ := exists_ok_of_bind hv
  obtain ⟨b, hb, hv⟩ := exists_ok_of_bind hv
  have hkids := KeptAll.cons (h.convertField hfirst ha) (.single (h.convertField hsecond hb))
  exact kept_build htag hkids.tally hv

lemma unary (hplain : Plain s .ordinary n field) (htag : tag.isFolded = false)
    (hv : unary conv s n tag field = .ok v) :
    Kept c v (c.ofTag tag + share c s .ordinary n field) := by
  obtain ⟨a, ha, hv⟩ := exists_ok_of_bind hv
  exact kept_build htag (KeptAll.single (h.convertField hplain ha)).tally hv

lemma conditional {holds fails : Field} (hpredicate : Plain s .ordinary n .predicate)
    (hholds : Plain s .ordinary n holds) (hfails : Plain s .ordinary n fails)
    (hv : conditional conv s n holds fails = .ok v) :
    Kept c v (c.ofTag .ifElse + (share c s .ordinary n .predicate +
      (share c s .ordinary n holds + share c s .ordinary n fails))) := by
  obtain ⟨predicate, hp, hv⟩ := exists_ok_of_bind hv
  obtain ⟨yes, hyes, hv⟩ := exists_ok_of_bind hv
  obtain ⟨no, hno, hv⟩ := exists_ok_of_bind hv
  have hkids := KeptAll.cons (h.convertField hpredicate hp)
    (.cons (h.convertField hholds hyes) (.single (h.convertField hfails hno)))
  exact kept_build rfl hkids.tally hv

lemma loop (hpredicate : Plain s .ordinary n .predicate) (hbody : Plain s .ordinary n .statements)
    (htag : tag.isFolded = false) (hv : loop conv s n tag = .ok v) :
    Kept c v (c.ofTag tag +
      (share c s .ordinary n .predicate + share c s .ordinary n .statements)) := by
  obtain ⟨predicate, hp, hv⟩ := exists_ok_of_bind hv
  obtain ⟨body, hb, hv⟩ := exists_ok_of_bind hv
  obtain ⟨modifier, -, hv⟩ := exists_ok_of_bind hv
  have hkids := KeptAll.cons (h.convertField hpredicate hp)
    (.cons (h.convertField hbody hb) (.single (.scalar (.bool !modifier.truthy))))
  exact kept_build htag hkids.tally hv

lemma forLoop (hcollection : Plain s .ordinary n .collection) (hindex : Plain s .ordinary n .index)
    (hbody : Plain s .ordinary n .statements) (hv : forLoop conv s n = .ok v) :
    Kept c v (c.ofTag .forLoop + (share c s .ordinary n .index +
      (share c s .ordinary n .collection + share c s .ordinary n .statements))) := by
  obtain ⟨collection, hc, hv⟩ := exists_ok_of_bind hv
  obtain ⟨index, hi, hv⟩ := exists_ok_of_bind hv
  obtain ⟨body, hb, hv⟩ := exists_ok_of_bind hv
  have hkids := (KeptAll.cons (h.convertField hcollection hc)
    (.single (h.convertField hindex hi))).append (h.convertOptional hbody hb)
  refine (kept_build rfl hkids.tally hv).cast ?_
  omega

lemma caseOf (hpredicate : Plain s .ordinary n .predicate)
    (hconditions : Plain s .ordinary n .conditions) (helse : Plain s .ordinary n .elseClause)
    (hv : caseOf conv s n = .ok v) :
    Kept c v (c.ofTag .caseOf + (share c s .ordinary n .predicate +
      (share c s .ordinary n .conditions + share c s .ordinary n .elseClause))) := by
  obtain ⟨predicate, hp, hv⟩ := exists_ok_of_bind hv
  obtain ⟨clauses, hclauses, hv⟩ := exists_ok_of_bind hv
  obtain ⟨otherwise, ho, hv⟩ := exists_ok_of_bind hv
  have hkids := KeptAll.cons (h.convertField hpredicate hp)
    ((h.convertItems hconditions hclauses).append (.single (h.convertField helse ho)))
  exact kept_build rfl hkids.tally hv

lemma jump (hslot : Stands s .ordinary n .arguments .arguments)
    (htag : tag.isFolded = false) (hv : jump conv s n tag = .ok v) :
    Kept c v (c.ofTag tag + share c s .ordinary n .arguments) := by
  obtain ⟨values, hget, hv⟩ := exists_ok_of_bind hv
  split at hv
  · next hnull =>
    rw [share_of_isNull hget hnull]
    exact kept_build_data rfl hv
  · obtain ⟨given, hgiven, hv⟩ := exists_ok_of_bind hv
    have hk := h.arguments hslot hget hgiven
    split at hv
    · cases hv
    · next value =>
      have hvalue : value.tally c = share c s .ordinary n .arguments := hk.tally
      split at hv
      · obtain ⟨marked, hmarked, hv⟩ := exists_ok_of_bind hv
        have hmarked' := (kept_build rfl hk.tally hmarked).cast (Nat.zero_add _)
        exact kept_build htag (KeptAll.single hmarked').tally hv
      · exact kept_build htag hk.tally hv
    · obtain ⟨array, harray, hv⟩ := exists_ok_of_bind hv
      have harray' := (kept_build rfl hk.tally harray).cast (Nat.zero_add _)
      exact kept_build htag (KeptAll.single harray').tally hv

lemma flipFlop (hleft : Plain s .ordinary n .left) (hright : Plain s .ordinary n .right)
    (hv : flipFlop conv s n = .ok v) :
    Kept c v (c.ofTag .flip2 + (share c s .ordinary n .left + share c s .ordinary n .right)) := by
  obtain ⟨excludeEnd, -, hv⟩ := exists_ok_of_bind hv
  have htag : ∀ b : Bool, (if b then Tag.flip3 else .flip2).isFolded = false ∧
      c.ofTag (if b then .flip3 else .flip2) = c.ofTag .flip2 := by
    intro b
    cases b <;> exact ⟨rfl, rfl⟩
  rw [← (htag excludeEnd.truthy).2]
  exact h.binary hleft hright (htag excludeEnd.truthy).1 hv

lemma rescueModifier (hexpression : Plain s .ordinary n .expression)
    (hrescue : Plain s .ordinary n .rescueExpression) (hv : rescueModifier conv s n = .ok v) :
    Kept c v (c.ofTag .resbody +
      (share c s .ordinary n .expression + share c s .ordinary n .rescueExpression)) := by
  obtain ⟨list, hlist, hv⟩ := exists_ok_of_bind hv
  obtain ⟨body, hbody, hv⟩ := exists_ok_of_bind hv
  obtain ⟨clause, hclause, hv⟩ := exists_ok_of_bind hv
  obtain ⟨expression, he, hv⟩ := exists_ok_of_bind hv
  have hlist' : Kept c list 0 := kept_build_data rfl hlist
  have hclause' := kept_build rfl
    (KeptAll.cons hlist' (.single (h.convertField hrescue hbody))).tally hclause
  have hkids := KeptAll.cons (h.convertField hexpression he) (.single hclause')
  refine (kept_build rfl hkids.tally hv).cast ?_
  rw [show c.ofTag .rescue = 0 from rfl]
  omega

lemma orNil (hplain : Plain s .ordinary n field) (hv : orNil conv s n field = .ok v) :
    Kept c v (share c s .ordinary n field) := by
  obtain ⟨tree, hget, hv⟩ := exists_ok_of_bind hv
  split at hv
  · next hnull =>
    rw [share_of_isNull hget hnull]
    exact kept_build_data rfl hv
  · exact h.part hplain hget hv

end Setting

/-! ### Bodies -/

lemma reached_single (field : Field) (hm : (Tree.ofNode m).declared = true)
    (hkind : c.ofKind m.kind = 0)
    (hshares : m.shares c s.inParameters own (m.kind.slots.map Slot.field) =
      share c s own m field) :
    (Tree.ofNode m).reached c s.inParameters own = share c s own m field := by
  rw [Tree.reached_ofNode hm, hkind, hshares, Nat.zero_add]

lemma reached_nothing {positional : Bool} (hm : (Tree.ofNode m).declared = true)
    (hkind : c.ofKind m.kind = 0)
    (hshares : m.shares c positional own (m.kind.slots.map Slot.field) = 0) :
    (Tree.ofNode m).reached c positional own = 0 := by
  rw [Tree.reached_ofNode hm, hshares, hkind]

lemma ofKind_of_get (hsilent : c.isSilent = true) (hm : (Tree.ofNode m).declared = true)
    (hget : m.get field = .ok tree) : c.ofKind m.kind = 0 := by
  have hempty : ∀ kind : Kind, c.ofKind kind = 0 ∨ kind.slots = [] := by
    rw [Construct.isSilent, beq_iff_eq] at hsilent
    subst hsilent
    intro kind
    cases kind with
    | missingNode | itLocalVariableReadNode | itParametersNode => exact .inr rfl
    | _ => exact .inl rfl
  refine (hempty m.kind).resolve_right fun hslots => ?_
  have hfields : m.fields = [] := by simpa [hslots] using Tree.fields_of_declared hm
  have hmem := Node.mem_of_get hget
  rw [hfields] at hmem
  cases hmem

lemma reached_name {positional : Bool} (ht : tree.Orderly c positional .name) {name : Tree}
    (hget : tree.get .name = .ok name) : tree.reached c positional .name = 0 := by
  rcases hnode : tree.asNode? with _ | m
  · rw [Tree.get, hnode] at hget
    cases hget
  obtain rfl := Tree.eq_ofNode hnode
  refine reached_nothing ht.declared ?_ (Node.shares_eq_zero rfl (by simp) _)
  rcases ht.admits with hsilent | hadmits
  · exact ofKind_of_get hsilent ht.declared hget
  · rw [Construct.ofKind, List.isEmpty_iff.mp hadmits]
    rfl

namespace Setting

lemma statementsNode (h : Setting c conv s own n) (hkind : m.kind = .statementsNode)
    (hheight : (Tree.ofNode m).height < (Tree.ofNode n).height)
    (hm : m.Orderly c t.inParameters .ordinary)
    (hvs : statements conv t (.ofNode m) = .ok vs) :
    KeptAll c vs ((Tree.ofNode m).reached c t.inParameters .ordinary) := by
  obtain ⟨kind, location, fields⟩ := m
  obtain rfl : kind = .statementsNode := hkind
  have hplain : Plain t .ordinary ⟨.statementsNode, location, fields⟩ .body := rfl
  rw [reached_single .body hm.declared rfl rfl]
  exact (h.down hheight hm).convertItems hplain hvs

lemma statements (h : Setting c conv s own n) (hheight : tree.height < (Tree.ofNode n).height)
    (ht : tree.Orderly c t.inParameters .clause) (hvs : statements conv t tree = .ok vs) :
    KeptAll c vs (tree.reached c t.inParameters .clause) := by
  unfold Convert.statements at hvs
  split at hvs
  · next hnull =>
    cases hvs
    rw [reached_of_isNull hnull]
    exact .nil
  rcases hnode : tree.asNode? with _ | m
  · rw [Tree.get, hnode] at hvs
    cases hvs
  obtain rfl := Tree.eq_ofNode hnode
  obtain ⟨body, hbody, hvs⟩ := exists_ok_of_bind hvs
  have hplain : Plain t .clause m .body := rfl
  have hdown := h.down hheight ht.node
  obtain ⟨hbelow, hb, hshare⟩ := hdown.get hplain hbody
  have hk := (hdown.keptAll hbelow hb hvs).cast hshare
  refine hk.cast ?_
  rcases ht.admits with hsilent | hkind
  · -- Nothing else of the node is looked at, and the node itself is not without a conversion.
    have hzero : share c t .clause m .body = 0 := by
      rw [← hk.tally, Value.tallyAll_of_isSilent hsilent]
    have hshares : m.shares c t.inParameters .clause (m.kind.slots.map Slot.field) = 0 :=
      Node.shares_eq_zero rfl (by simpa using hzero) _
    rw [hzero, reached_nothing ht.declared (ofKind_of_get hsilent ht.declared hbody) hshares]
  · obtain ⟨kind, location, fields⟩ := m
    obtain rfl : kind = .statementsNode := beq_iff_eq.mp hkind
    rw [reached_single .body ht.declared rfl rfl]

lemma clauseBody (h : Setting c conv s own n) (hheight : tree.height < (Tree.ofNode n).height)
    (ht : tree.Orderly c t.inParameters .clause) (hvs : clauseBody conv t tree = .ok vs) :
    KeptAll c vs (tree.reached c t.inParameters .clause) := by
  obtain ⟨body, hbody, hvs⟩ := exists_ok_of_bind hvs
  cases hvs
  have hk := h.statements hheight ht hbody
  split
  · next hempty =>
    obtain rfl : body = [] := List.isEmpty_iff.mp hempty
    exact ⟨hk.tally, .inr (by simp [Value.Firm])⟩
  · exact hk

lemma clauseOf (h : Setting c conv s own n)
    (hslot : Stands s own n .statements .clause)
    (hget : n.get .statements = .ok tree) (hvs : Convert.clauseBody conv s tree = .ok vs) :
    KeptAll c vs (share c s own n .statements) := by
  obtain ⟨hheight, ht, hshare⟩ := h.get hslot hget
  exact (h.clauseBody hheight ht hvs).cast hshare

lemma whenClause (h : Setting c conv s .ordinary n) (hconditions : Plain s .ordinary n .conditions)
    (hslot : Stands s .ordinary n .statements .clause)
    (hv : whenClause conv s n = .ok v) :
    Kept c v (c.ofTag .whenClause +
      (share c s .ordinary n .conditions + share c s .ordinary n .statements)) := by
  obtain ⟨items, hitems, hv⟩ := exists_ok_of_bind hv
  obtain ⟨conditions, hc, hv⟩ := exists_ok_of_bind hv
  obtain ⟨clause, hget, hv⟩ := exists_ok_of_bind hv
  obtain ⟨body, hbody, hv⟩ := exists_ok_of_bind hv
  have hc' := (kept_build rfl (h.convertItems hconditions hitems).tally hc).cast (Nat.zero_add _)
  exact kept_build rfl (KeptAll.cons hc' (h.clauseOf hslot hget hbody)).tally hv

lemma inClause (h : Setting c conv s .ordinary n) (hpattern : Plain s .ordinary n .pattern)
    (hslot : Stands s .ordinary n .statements .clause)
    (hv : inClause conv s n = .ok v) :
    Kept c v (c.ofTag .inClause +
      (share c s .ordinary n .pattern + share c s .ordinary n .statements)) := by
  obtain ⟨clause, hget, hv⟩ := exists_ok_of_bind hv
  obtain ⟨body, hbody, hv⟩ := exists_ok_of_bind hv
  obtain ⟨pattern, hp, hv⟩ := exists_ok_of_bind hv
  have hkids := KeptAll.cons (h.convertField hpattern hp) (h.clauseOf hslot hget hbody)
  exact kept_build rfl hkids.tally hv

lemma block (h : Setting c conv s .ordinary n) (hplain : Plain s .ordinary n .body)
    (hv : block conv s (.ofNode n) = .ok v) : Kept c v (share c s .ordinary n .body) := by
  obtain ⟨body, hbody, hv⟩ := exists_ok_of_bind hv
  have hk : KeptAll c body (share c s .ordinary n .body) := h.convertItems hplain hbody
  split at hv
  · cases hv
    rw [← hk.tally]
    exact .scalar .null
  · cases hv
    exact ⟨hk.tally, hk.firm.imp_right fun hall => hall _ (by simp)⟩
  · exact (kept_build rfl hk.tally hv).cast (Nat.zero_add _)

end Setting

/-! ### Handlers -/

lemma tally_caught {target : Value} (htarget : conv s tree = .ok target)
    (hv : caught conv s tree = .ok v) : v.tally c = target.tally c := by
  obtain ⟨target', htarget', hv⟩ := exists_ok_of_bind hv
  obtain rfl : target = target' := Except.ok.inj (htarget.symm.trans htarget')
  cases target with
  | sexp tag kids l m =>
    obtain ⟨exception, hexception, hv⟩ := exists_ok_of_bind hv
    cases hv
    have hzero : Kept c exception 0 := kept_build_data rfl hexception
    simp [hzero.tally]
  | list items =>
    obtain ⟨exception, -, hv⟩ := exists_ok_of_bind hv
    cases hv
    rfl
  | _ => cases hv

namespace Setting

lemma handler (h : Setting c conv s own n) (hexceptions : Plain s own n .exceptions)
    (hreference : Plain s own n .reference)
    (hslot : Stands s own n .statements .clause)
    (hv : handler conv s (.ofNode n) = .ok v) :
    Kept c v (c.ofTag .resbody + (share c s own n .exceptions +
      (share c s own n .reference + share c s own n .statements))) := by
  obtain ⟨list, hlist, hv⟩ := exists_ok_of_bind hv
  obtain ⟨exceptions, he, hv⟩ := exists_ok_of_bind hv
  obtain ⟨reference, hget, hv⟩ := exists_ok_of_bind hv
  obtain ⟨hheight, ht, hshare⟩ := h.get hexceptions hlist
  have he' := (h.keptAll hheight ht he).cast hshare
  extract_lets rest at hv
  have hrest : ∀ target, Value.tallyAll c target = share c s own n .reference →
      rest target = .ok v → Kept c v (c.ofTag .resbody + (share c s own n .exceptions +
        (share c s own n .reference + share c s own n .statements))) := by
    intro target htarget hv
    obtain ⟨clause, hclause, hv⟩ := exists_ok_of_bind hv
    obtain ⟨body, hbody, hv⟩ := exists_ok_of_bind hv
    obtain ⟨array, harray, hv⟩ := exists_ok_of_bind hv
    have hitems : Value.tallyAll c (exceptions ++ target) =
        share c s own n .exceptions + share c s own n .reference := by
      rw [Value.tallyAll_append, he'.tally, htarget]
    have harray' := (kept_build rfl hitems harray).cast (Nat.zero_add _)
    have hkids := KeptAll.cons harray' (h.clauseOf hslot hclause hbody)
    exact (kept_build rfl hkids.tally hv).cast (by rw [Nat.add_assoc (share c s own n .exceptions)])
  split at hv
  · next hnull =>
    exact hrest [] (share_of_isNull hget hnull).symm hv
  · obtain ⟨caught, hcaught, hv⟩ := exists_ok_of_bind hv
    obtain ⟨target, htarget, -⟩ := exists_ok_of_bind hcaught
    refine hrest [caught] ?_ hv
    rw [Value.tallyAll_cons, tally_caught htarget hcaught]
    exact (h.part hreference hget htarget).tally

end Setting

lemma kind_of_exceptions (hm : (Tree.ofNode m).declared = true) {exceptions : Tree}
    (hget : m.get .exceptions = .ok exceptions) : m.kind = .rescueNode := by
  have hkind : ∀ kind : Kind, .exceptions ∈ kind.slots.map Slot.field → kind = .rescueNode := by
    intro kind
    cases kind with
    | rescueNode => simp
    | _ => decide
  refine hkind m.kind ?_
  rw [← Tree.fields_of_declared hm]
  exact List.mem_map.mpr ⟨_, Node.mem_of_get hget, rfl⟩

lemma reached_handler (hm : (Tree.ofNode m).declared = true) (hkind : m.kind = .rescueNode) :
    (Tree.ofNode m).reached c s.inParameters .handler =
      c.ofTag .resbody + (share c s .handler m .exceptions +
        (share c s .handler m .reference + share c s .handler m .statements)) +
        share c s .handler m .subsequent := by
  have hshares : m.shares c s.inParameters .handler (m.kind.slots.map Slot.field) =
      share c s .handler m .exceptions + (share c s .handler m .reference +
        (share c s .handler m .statements + share c s .handler m .subsequent)) := by
    obtain ⟨kind, location, fields⟩ := m
    obtain rfl : kind = .rescueNode := hkind
    rfl
  rw [Tree.reached_ofNode hm, hshares, hkind]
  rw [show c.ofKind .rescueNode = c.ofTag .resbody from rfl]
  omega

namespace Setting

lemma handlers_cons (h : Setting c conv s own n) {others : List Tree}
    (hheight : (Tree.ofNode m).height < (Tree.ofNode n).height)
    (ht : (Tree.ofNode m).Orderly c s.inParameters .handler)
    (hothers : ∀ ws, others.mapM (Convert.handler conv s) = .ok ws → m.kind = .rescueNode →
      KeptAll c ws (share c s .handler m .subsequent))
    (hvs : (Tree.ofNode m :: others).mapM (Convert.handler conv s) = .ok vs) :
    KeptAll c vs ((Tree.ofNode m).reached c s.inParameters .handler) := by
  rw [List.mapM_cons] at hvs
  obtain ⟨v, hv, hvs⟩ := exists_ok_of_bind hvs
  obtain ⟨ws, hws, hvs⟩ := exists_ok_of_bind hvs
  cases hvs
  -- Only a handler has a list of exceptions, so the conversion has found one.
  obtain ⟨list, hlist, -⟩ := exists_ok_of_bind hv
  have hkind := kind_of_exceptions ht.declared hlist
  rw [reached_handler ht.declared hkind]
  refine .cons ?_ (hothers ws hws hkind)
  obtain ⟨kind, location, fields⟩ := m
  obtain rfl : kind = .rescueNode := hkind
  exact (h.down hheight ht.node).handler rfl rfl rfl hv

lemma handlers (h : Setting c conv s own n) (hheight : tree.height < (Tree.ofNode n).height)
    (ht : tree.Orderly c s.inParameters .handler)
    (hvs : (handlers tree).mapM (Convert.handler conv s) = .ok vs) :
    KeptAll c vs (tree.reached c s.inParameters .handler) := by
  induction tree using handlers_induction generalizing vs with
  | leaf tree hnode =>
    rw [handlers_of_leaf hnode] at hvs
    rcases hnull : tree.isNull with _ | _
    · rw [hnull, if_neg (by simp), List.mapM_cons] at hvs
      obtain ⟨v, hv, -⟩ := exists_ok_of_bind hvs
      obtain ⟨list, hlist, -⟩ := exists_ok_of_bind hv
      rw [Tree.get, hnode] at hlist
      cases hlist
    · rw [hnull, if_pos rfl] at hvs
      cases hvs
      rw [reached_of_isNull hnull]
      exact .nil
  | last m fault hlast =>
    rw [handlers_of_last hlast] at hvs
    refine h.handlers_cons hheight ht (fun ws hws _ => ?_) hvs
    cases hws
    rw [share_of_missing hlast]
    exact .nil
  | next m next hget ih =>
    rw [handlers_ofNode hget] at hvs
    refine h.handlers_cons hheight ht (fun ws hws hkind => ?_) hvs
    have hslot : Stands s .handler m .subsequent .handler := by
      obtain ⟨kind, location, fields⟩ := m
      obtain rfl : kind = .rescueNode := hkind
      rfl
    obtain ⟨hbelow, hnext, hshare⟩ := (h.down hheight ht.node).get hslot hget
    rw [← hshare]
    exact ih (hbelow.trans hheight) hnext hws

lemma followedBy (h : Setting c conv s .ordinary n) (hplain : Plain s .ordinary n field)
    (hget : n.get field = .ok tree) {body : Value} (hbody : Kept c body k)
    (hv : followedBy conv s n body tree = .ok v) : Kept c v (k + share c s .ordinary n field) := by
  unfold Convert.followedBy at hv
  cases body with
  | sexp tag kids l m =>
    obtain ⟨last, hlast, hv⟩ := exists_ok_of_bind hv
    refine (kept_build rfl ?_ hv).cast (Nat.zero_add _)
    rw [Value.tallyAll_append, Value.tallyAll_cons, (h.part hplain hget hlast).tally,
      Value.tallyAll_nil, Nat.add_zero]
    congr 1
    rw [← hbody.tally]
    split
    · next htag =>
      obtain rfl : tag = .block := beq_iff_eq.mp htag
      exact (Nat.zero_add _).symm
    · exact Nat.add_zero _
  | _ => cases hv

lemma handled (h : Setting c conv s .ordinary n)
    (hrescue : Stands s .ordinary n .rescueClause .handler)
    (helse : Plain s .ordinary n .elseClause) (hget : n.get .statements = .ok tree) {body : Value}
    (hbody : Kept c body (share c s .ordinary n .statements))
    (hv : handled conv s n tree body = .ok v) :
    Kept c v (share c s .ordinary n .statements +
      (share c s .ordinary n .rescueClause + share c s .ordinary n .elseClause)) := by
  obtain ⟨clause, hclause, hv⟩ := exists_ok_of_bind hv
  obtain ⟨otherwise, hotherwise, hv⟩ := exists_ok_of_bind hv
  split at hv
  · next hnull =>
    rw [share_of_isNull hclause hnull, Nat.zero_add]
    split at hv
    · next hnull' =>
      cases hv
      rw [share_of_isNull hotherwise hnull']
      exact hbody
    · exact h.followedBy helse hotherwise hbody hv
  · obtain ⟨clauses, hclauses, hv⟩ := exists_ok_of_bind hv
    obtain ⟨last, hlast, hv⟩ := exists_ok_of_bind hv
    obtain ⟨hheight, ht, hshare⟩ := h.get hrescue hclause
    have hclauses' := (h.handlers hheight ht hclauses).cast hshare
    have hlast' := h.partIfPresent helse hotherwise hlast
    refine (kept_build rfl ?_ hv).cast (Nat.zero_add _)
    rw [Value.tallyAll_append, Value.tallyAll_append, hclauses'.tally, hlast'.tally, Nat.add_assoc]
    congr 1
    split
    · next hnull => exact (share_of_isNull hget hnull).symm
    · exact hbody.tally

lemma beginBody (h : Setting c conv s .ordinary n) (hstatements : Plain s .ordinary n .statements)
    (hrescue : Stands s .ordinary n .rescueClause .handler)
    (helse : Plain s .ordinary n .elseClause) (hensure : Plain s .ordinary n .ensureClause)
    (hv : beginBody conv s n = .ok v) :
    Kept c v (share c s .ordinary n .statements + (share c s .ordinary n .rescueClause +
      (share c s .ordinary n .elseClause + share c s .ordinary n .ensureClause))) := by
  obtain ⟨tree, hget, hv⟩ := exists_ok_of_bind hv
  extract_lets rest at hv
  have hrest : ∀ body, Kept c body (share c s .ordinary n .statements) → rest body = .ok v →
      Kept c v (share c s .ordinary n .statements + (share c s .ordinary n .rescueClause +
        (share c s .ordinary n .elseClause + share c s .ordinary n .ensureClause))) := by
    intro body hbody hv
    obtain ⟨result, hresult, hv⟩ := exists_ok_of_bind hv
    obtain ⟨clause, hclause, hv⟩ := exists_ok_of_bind hv
    have hresult' := h.handled hrescue helse hget hbody hresult
    split at hv
    · next hnull =>
      cases hv
      rw [share_of_isNull hclause hnull]
      exact hresult'
    · obtain ⟨last, hlast, hv⟩ := exists_ok_of_bind hv
      have hkids := KeptAll.cons hresult' (.single (h.part hensure hclause hlast))
      refine (kept_build rfl hkids.tally hv).cast ?_
      rw [show c.ofTag .ensure = 0 from rfl]
      omega
  split at hv
  · next hnull =>
    obtain ⟨body, hbody, hv⟩ := exists_ok_of_bind hv
    refine hrest body ?_ hv
    rw [share_of_isNull hget hnull]
    exact kept_build_data rfl hbody
  · obtain ⟨body, hbody, hv⟩ := exists_ok_of_bind hv
    exact hrest body (h.part hstatements hget hbody) hv

/-! ### Definitions -/

lemma definitionBody (h : Setting c conv s .ordinary n)
    (hslot : n.slot s.inParameters .ordinary field = some (.ordinary, t.inParameters))
    (hget : n.get field = .ok tree) (hvs : definitionBody conv t tree = .ok vs) :
    KeptAll c vs (share c s .ordinary n field) := by
  unfold Convert.definitionBody at hvs
  split at hvs
  · next hnull =>
    cases hvs
    rw [share_of_isNull hget hnull]
    exact .nil
  split at hvs
  · next hkind =>
    obtain ⟨hheight, ht, hshare⟩ := h.get hslot hget
    rw [← hshare]
    obtain ⟨location, fields, rfl⟩ := Tree.exists_of_isA hkind
    exact h.statementsNode rfl hheight ht.node hvs
  · obtain ⟨v, hv, hvs⟩ := exists_ok_of_bind hvs
    cases hvs
    exact .single (h.part hslot hget hv)

lemma method (h : Setting c conv s .ordinary n) (hreceiver : Plain s .ordinary n .receiver)
    (hparameters : n.slot s.inParameters .ordinary .parameters = some (.ordinary, false))
    (hbody : n.slot s.inParameters .ordinary .body = some (.ordinary, false))
    (hv : method conv s n = .ok v) :
    Kept c v (c.ofTag .defn + (share c s .ordinary n .receiver +
      (share c s .ordinary n .parameters + share c s .ordinary n .body))) := by
  unfold Convert.method at hv
  extract_lets inner withParameters at hv
  obtain ⟨declared, hdeclared, hv⟩ := exists_ok_of_bind hv
  -- The rule goes on alike with what parameters and body are converted to and with what stands in
  -- for them.
  have hrest : ∀ parameters, Kept c parameters (share c s .ordinary n .parameters) →
      withParameters parameters = .ok v →
      Kept c v (c.ofTag .defn + (share c s .ordinary n .receiver +
        (share c s .ordinary n .parameters + share c s .ordinary n .body))) := by
    intro parameters hp hv
    obtain ⟨content, hcontent, hv⟩ := exists_ok_of_bind hv
    extract_lets withBody at hv
    have hrest : ∀ body, KeptAll c body (share c s .ordinary n .body) → withBody body = .ok v →
        Kept c v (c.ofTag .defn + (share c s .ordinary n .receiver +
          (share c s .ordinary n .parameters + share c s .ordinary n .body))) := by
      intro body hb hv
      obtain ⟨receiver, hr, hv⟩ := exists_ok_of_bind hv
      obtain ⟨name, hname, hv⟩ := exists_ok_of_bind hv
      have hkids := (KeptAll.cons (kept_nameIn hname) (.single hp)).append hb
      split at hv
      · next hnull =>
        rw [share_of_isNull hr hnull]
        refine (kept_build rfl hkids.tally hv).cast ?_
        omega
      · obtain ⟨owner, howner, hv⟩ := exists_ok_of_bind hv
        refine (kept_build rfl (KeptAll.cons (h.part hreceiver hr howner) hkids).tally hv).cast ?_
        rw [show c.ofTag .defs = c.ofTag .defn from rfl]
        omega
    split at hv
    · next hnull =>
      obtain ⟨body, hb, hv⟩ := exists_ok_of_bind hv
      refine hrest [body] ?_ hv
      rw [share_of_isNull hcontent hnull]
      exact .single (kept_build_data rfl hb)
    · obtain ⟨body, hb, hv⟩ := exists_ok_of_bind hv
      exact hrest body (h.definitionBody (t := inner) hbody hcontent hb) hv
  split at hv
  · next hnull =>
    obtain ⟨parameters, hp, hv⟩ := exists_ok_of_bind hv
    refine hrest parameters ?_ hv
    rw [share_of_isNull hdeclared hnull]
    exact kept_build_data rfl hp
  · obtain ⟨parameters, hp, hv⟩ := exists_ok_of_bind hv
    exact hrest parameters (h.part (t := inner) hparameters hdeclared hp) hv

lemma definitionName (h : Setting c conv s .ordinary n) (hplain : Plain s .ordinary n field)
    (hget : n.get field = .ok tree) (hv : definitionName conv s tree = .ok v) :
    Kept c v (share c s .ordinary n field) := by
  unfold Convert.definitionName at hv
  split at hv
  · next hkind =>
    obtain ⟨name, -, hv⟩ := exists_ok_of_bind hv
    cases hv
    obtain ⟨-, ht, hshare⟩ := h.get hplain hget
    obtain ⟨location, fields, rfl⟩ := Tree.exists_of_isA hkind
    rw [← hshare, reached_nothing ht.declared rfl rfl]
    exact .symbol name
  · exact h.part hplain hget hv

lemma classDefinition (h : Setting c conv s .ordinary n)
    (hpath : Plain s .ordinary n .constantPath) (hsuperclass : Plain s .ordinary n .superclass)
    (hbody : Plain s .ordinary n .body) (hv : classDefinition conv s n = .ok v) :
    Kept c v (c.ofTag .classDef + (share c s .ordinary n .constantPath +
      (share c s .ordinary n .superclass + share c s .ordinary n .body))) := by
  obtain ⟨path, hp, hv⟩ := exists_ok_of_bind hv
  obtain ⟨name, hname, hv⟩ := exists_ok_of_bind hv
  obtain ⟨superclass, hsuper, hv⟩ := exists_ok_of_bind hv
  obtain ⟨content, hcontent, hv⟩ := exists_ok_of_bind hv
  obtain ⟨body, hb, hv⟩ := exists_ok_of_bind hv
  have hkids := KeptAll.cons (h.definitionName hpath hp hname)
    (.cons (h.convertField hsuperclass hsuper)
      (h.definitionBody (t := bodyScope s) hbody hcontent hb))
  exact kept_build rfl hkids.tally hv

lemma moduleDefinition (h : Setting c conv s .ordinary n)
    (hpath : Plain s .ordinary n .constantPath) (hbody : Plain s .ordinary n .body)
    (hv : moduleDefinition conv s n = .ok v) :
    Kept c v (c.ofTag .moduleDef +
      (share c s .ordinary n .constantPath + share c s .ordinary n .body)) := by
  obtain ⟨path, hp, hv⟩ := exists_ok_of_bind hv
  obtain ⟨name, hname, hv⟩ := exists_ok_of_bind hv
  obtain ⟨content, hcontent, hv⟩ := exists_ok_of_bind hv
  obtain ⟨body, hb, hv⟩ := exists_ok_of_bind hv
  have hkids := KeptAll.cons (h.definitionName hpath hp hname)
    (h.definitionBody (t := bodyScope s) hbody hcontent hb)
  exact kept_build rfl hkids.tally hv

lemma singletonClass (h : Setting c conv s .ordinary n)
    (hexpression : Plain s .ordinary n .expression) (hbody : Plain s .ordinary n .body)
    (hv : singletonClass conv s n = .ok v) :
    Kept c v (c.ofTag .sclass +
      (share c s .ordinary n .expression + share c s .ordinary n .body)) := by
  obtain ⟨object, hobject, hv⟩ := exists_ok_of_bind hv
  obtain ⟨content, hcontent, hv⟩ := exists_ok_of_bind hv
  obtain ⟨body, hb, hv⟩ := exists_ok_of_bind hv
  have hkids := KeptAll.cons (h.convertField hexpression hobject)
    (h.definitionBody (t := bodyScope s) hbody hcontent hb)
  exact kept_build rfl hkids.tally hv

lemma undefine (h : Setting c conv s .ordinary n) (hnames : Plain s .ordinary n .names)
    (hv : undefine conv s n = .ok v) : Kept c v (share c s .ordinary n .names) := by
  obtain ⟨list, hlist, hv⟩ := exists_ok_of_bind hv
  obtain ⟨names, hitems, hv⟩ := exists_ok_of_bind hv
  obtain ⟨hheight, ht, hshare⟩ := h.get hnames hlist
  rw [← hshare, Tree.reached_of_elements hitems]
  have hone : ∀ name v, name ∈ names → conv s name = .ok v →
      KeptAll c [v] (Tree.reachedItems c s.inParameters .ordinary [name]) :=
    fun name v hmem hv => .single (h.kept_item hheight ht hitems hmem hv)
  split at hv
  · obtain ⟨name, hname, hv⟩ := exists_ok_of_bind hv
    have hk := hone _ _ (List.mem_singleton_self _) hname
    exact (kept_build rfl hk.tally hv).cast (Nat.zero_add _)
  · obtain ⟨removals, hremovals, hv⟩ := exists_ok_of_bind hv
    have hall : KeptAll c (removals.flatMap fun removal => [removal])
        (Tree.reachedItems c s.inParameters .ordinary names) := by
      refine keptAll_of_mapM (fun item removal hmem hr => ?_) hremovals
      obtain ⟨name, hname, hr⟩ := exists_ok_of_bind hr
      have hk := hone _ _ hmem hname
      exact .single ((kept_build rfl hk.tally hr).cast (Nat.zero_add _))
    rw [List.flatMap_singleton'] at hall
    exact (kept_build rfl hall.tally hv).cast (Nat.zero_add _)

lemma share_name (h : Setting c conv s own n)
    (hslot : Stands s own n field .name)
    (hget : n.get field = .ok tree) {name : Tree} (hname : tree.get .name = .ok name) :
    share c s own n field = 0 := by
  obtain ⟨-, ht, hshare⟩ := h.get hslot hget
  rw [← hshare, reached_name ht hname]

lemma aliasGlobal (h : Setting c conv s .ordinary n)
    (hfresh : Stands s .ordinary n .newName .name)
    (hknown : Stands s .ordinary n .oldName .name)
    (hv : aliasGlobal n = .ok v) :
    Kept c v (c.ofTag .aliasGlobal +
      (share c s .ordinary n .newName + share c s .ordinary n .oldName)) := by
  obtain ⟨fresh, hgetFresh, hv⟩ := exists_ok_of_bind hv
  obtain ⟨freshName, hfreshName, hv⟩ := exists_ok_of_bind hv
  obtain ⟨known, hgetKnown, hv⟩ := exists_ok_of_bind hv
  obtain ⟨knownName, hknownName, hv⟩ := exists_ok_of_bind hv
  rw [h.share_name hfresh hgetFresh hfreshName, h.share_name hknown hgetKnown hknownName]
  exact kept_build_data rfl hv

end Setting

end RubySexp.Convert.Census
