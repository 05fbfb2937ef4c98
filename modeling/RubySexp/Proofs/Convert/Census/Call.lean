import RubySexp.Proofs.Convert.Census.Control

/-!
# Calls Keep the Count

A call takes the block apart that is written behind it. A match with a literal has no use for a
block, nor for more than one argument, and an assignment through an index none for a block.
-/

namespace RubySexp.Convert.Census

open Value (Kept KeptAll Yielded)

variable {c : Construct} {conv : Conversion} {s t : Scope} {own : Standing} {n m : Node}
  {tree : Tree} {v : Value} {vs : List Value} {tag : Tag} {field : Field} {k : Nat}

/-! ### Blocks -/

namespace Setting

lemma blockSlot (h : Setting c conv s own n) (hplain : Plain s own n .parameters)
    (hget : n.get .parameters = .ok tree) (hv : blockSlot conv s tree = .ok v) :
    Kept c v (share c s own n .parameters) := by
  unfold Convert.blockSlot at hv
  split at hv
  · next hnone =>
    cases hv
    rcases Bool.or_eq_true _ _ ▸ hnone with hnull | hkind
    · rw [share_of_isNull hget hnull]
      exact .scalar _
    · obtain ⟨location, fields, rfl⟩ := Tree.exists_of_isA hkind
      obtain ⟨-, ht, hshare⟩ := h.get hplain hget
      rw [← hshare, reached_nothing ht.declared rfl rfl]
      exact .scalar _
  · exact h.part hplain hget hv

lemma literalBlock (h : Setting c conv s own n) {location : Option Location}
    {fields : List (Field × Tree)} {place : Option Location} {call : Value} {content : Tree}
    {parameters : Value} {body : List Value}
    (hheight : (Tree.ofNode ⟨.blockNode, location, fields⟩).height < (Tree.ofNode n).height)
    (hm : Node.Orderly c s.inParameters .block ⟨.blockNode, location, fields⟩)
    (hcall : Kept c call k)
    (hget : Node.get ⟨.blockNode, location, fields⟩ .parameters = .ok tree)
    (hparameters : Convert.blockSlot conv s tree = .ok parameters)
    (hcontent : Node.get ⟨.blockNode, location, fields⟩ .body = .ok content)
    (hbody : content.isNull = true ∧ body = [] ∨
      ∃ value, conv s (.ofNode ⟨.blockNode, location, fields⟩) = .ok value ∧ body = [value])
    (hv : build place .iter ([call, parameters] ++ body) = .ok v) :
    Kept c v
      (k + (Tree.ofNode ⟨.blockNode, location, fields⟩).reached c s.inParameters .block) := by
  have hdown := h.down hheight hm
  have hbody' : KeptAll c body (share c s .block ⟨.blockNode, location, fields⟩ .body) := by
    rcases hbody with ⟨hnull, rfl⟩ | ⟨value, hvalue, rfl⟩
    · rw [share_of_isNull hcontent hnull]
      exact .nil
    · rw [h.node] at hvalue
      exact .single (hdown.convertField rfl hvalue)
  have hkids := KeptAll.cons hcall (.cons (hdown.blockSlot rfl hget hparameters) hbody')
  refine (kept_build rfl hkids.tally hv).cast ?_
  rw [Tree.reached_ofNode hm.declared]
  exact (Nat.zero_add _).trans (congrArg (k + ·) (Nat.zero_add _).symm)

lemma attachBlock (h : Setting c conv s .ordinary n)
    (hslot : Stands s .ordinary n .block .block)
    (htag : tag.isFolded = false) {place : Option Location} {kids : List Value} {call : Value}
    (hkids : Value.tallyAll c kids = k) (hcall : build place tag kids = .ok call)
    (hv : attachBlock conv s n call = .ok v) :
    Kept c v (c.ofTag tag + k + share c s .ordinary n .block) := by
  have hcall' := kept_build htag hkids hcall
  obtain ⟨block, hget, hv⟩ := exists_ok_of_bind hv
  obtain ⟨hheight, ht, hshare⟩ := h.get hslot hget
  split at hv
  · next hnull =>
    cases hv
    rw [share_of_isNull hget hnull]
    exact hcall'
  split at hv
  -- The parameters and the body of a literal block are taken in together with the call.
  · next hkind =>
    obtain ⟨location, fields, rfl⟩ := Tree.exists_of_isA hkind
    obtain ⟨declared, hdeclared, hv⟩ := exists_ok_of_bind hv
    obtain ⟨parameters, hparameters, hv⟩ := exists_ok_of_bind hv
    extract_lets withBody at hv
    obtain ⟨content, hcontent, hv⟩ := exists_ok_of_bind hv
    rw [← hshare]
    split at hv
    · next hnull =>
      exact h.literalBlock hheight ht.node hcall' hdeclared hparameters hcontent
        (.inl ⟨hnull, rfl⟩) hv
    · obtain ⟨value, hvalue, hv⟩ := exists_ok_of_bind hv
      exact h.literalBlock hheight ht.node hcall' hdeclared hparameters hcontent
        (.inr ⟨value, hvalue, rfl⟩) hv
  · next hkind =>
    obtain ⟨last, hlast, hv⟩ := exists_ok_of_bind hv
    have hlast' : Kept c last (share c s .ordinary n .block) := by
      rw [← hshare]
      rcases hnode : block.asNode? with _ | m
      · obtain ⟨rfl, rfl⟩ := h.leaf hnode hlast
        exact .scalar .null
      · obtain rfl := Tree.eq_ofNode hnode
        have hne : m.kind ≠ .blockNode := by
          intro heq
          exact hkind (beq_iff_eq.mpr heq)
        refine (h.yielded (Node.slot_block hne s.inParameters) hheight ht.node hlast).kept ?_
        refine ht.admits.imp_right fun hadmits => ?_
        simp only [Standing.admits, Bool.and_eq_true, Bool.not_eq_true'] at hadmits
        exact hadmits.1
    obtain ⟨l, rfl⟩ := eq_sexp_of_build hcall
    cases hv
    refine ⟨?_, .inr (Value.firm_sexp htag _ _ _)⟩
    rw [← hlast'.tally, ← hkids]
    simp [Sexp.append, Sexp.toValue, Nat.add_assoc]

/-! ### Calls -/

lemma arguments_single (h : Setting c conv s own n) {place : Option Location}
    {fields : List (Field × Tree)} {argument : Tree} {given : List Value}
    (hget : Node.get ⟨.argumentsNode, place, fields⟩ .arguments = .ok (.tuple [argument]))
    (hgiven : Convert.arguments conv s (.ofNode ⟨.argumentsNode, place, fields⟩) = .ok given) :
    given.length = 1 := by
  obtain ⟨v, hv, hgiven⟩ := exists_ok_of_bind hgiven
  rw [h.node] at hv
  obtain ⟨vs, hvs, hv⟩ := exists_ok_of_bind hv
  obtain ⟨list, hlist, hvs⟩ := exists_ok_of_bind hvs
  obtain rfl : Tree.tuple [argument] = list := Except.ok.inj (hget.symm.trans hlist)
  obtain ⟨items, hitems, hvs⟩ := exists_ok_of_bind hvs
  cases hitems
  rw [List.mapM_cons] at hvs
  obtain ⟨w, -, hvs⟩ := exists_ok_of_bind hvs
  cases hvs
  cases hv
  cases hgiven
  rfl

lemma literalMatch (h : Setting c conv s .ordinary n) (hreceiver : Plain s .ordinary n .receiver)
    (hslot : Stands s .ordinary n .arguments .arguments)
    (hmatch : n.kind = .callNode ∧ n.isLiteralMatch = true) (hget : n.get .receiver = .ok tree)
    (hv : literalMatch conv s n tree = .ok v) :
    Kept c v (share c s .ordinary n .receiver + share c s .ordinary n .arguments) := by
  obtain ⟨list, hlist, hv⟩ := exists_ok_of_bind hv
  obtain ⟨given, hgiven, hv⟩ := exists_ok_of_bind hv
  have hk := h.arguments hslot hlist hgiven
  -- The rule drops all arguments but the first, so there must not be another one that counts.
  have hone : c.isSilent = true ∨ given.length = 1 := by
    rcases h.orderly.usesParts with hsilent | huses
    · exact .inl hsilent
    obtain ⟨-, ht, -⟩ := h.get hslot hlist
    refine ht.placed.imp_right fun ⟨htakes, _⟩ => ?_
    have hpart : n.part .arguments = list := by rw [Node.part, Node.get?_of_get hlist]; rfl
    simp only [Node.usesParts, hmatch.1, hmatch.2, hpart] at huses
    rcases hnode : list.asNode? with _ | m
    · simp [Tree.get, hnode] at huses
    obtain rfl := Tree.eq_ofNode hnode
    obtain ⟨kind, location, fields⟩ := m
    obtain rfl : kind = .argumentsNode := by
      simpa [Standing.takes, Standing.admits, Tree.ofNode, Tree.ownNodes] using htakes
    simp only [Bool.and_eq_true] at huses
    have hsingle := huses.2
    split at hsingle
    · next hget => exact h.arguments_single hget hgiven
    · cases hsingle
  split at hv
  · cases hv
  next argument others =>
  obtain ⟨subject, hsubject, hv⟩ := exists_ok_of_bind hv
  have hargument : argument.tally c = share c s .ordinary n .arguments := by
    rw [← hk.tally]
    rcases hone with hsilent | hlength
    · rw [Value.tally_of_isSilent hsilent, Value.tallyAll_of_isSilent hsilent]
    · obtain rfl : others = [] := List.eq_nil_of_length_eq_zero (by simpa using hlength)
      rfl
  have hsubject' := (h.part hreceiver hget hsubject).tally
  split at hv
  · refine (kept_build rfl rfl hv).cast ?_
    simp only [Value.tallyAll_cons, Value.tallyAll_nil, hargument, hsubject']
    rw [show c.ofTag .match3 = 0 from rfl]
    omega
  · refine (kept_build rfl rfl hv).cast ?_
    simp only [Value.tallyAll_cons, Value.tallyAll_nil, hargument, hsubject']
    exact Nat.zero_add _

lemma plainCall (h : Setting c conv s .ordinary n) (hreceiver : Plain s .ordinary n .receiver)
    (harguments : Stands s .ordinary n .arguments .arguments)
    (hblock : Stands s .ordinary n .block .block) {name : Tree}
    (hget : n.get .receiver = .ok tree) (hv : plainCall conv s n name tree = .ok v) :
    Kept c v (share c s .ordinary n .receiver +
      (share c s .ordinary n .arguments + share c s .ordinary n .block)) := by
  unfold Convert.plainCall at hv
  split at hv
  · next spelling =>
    obtain ⟨flag, -, hv⟩ := exists_ok_of_bind hv
    extract_lets safe tag at hv
    obtain ⟨subject, hsubject, hv⟩ := exists_ok_of_bind hv
    obtain ⟨list, hlist, hv⟩ := exists_ok_of_bind hv
    obtain ⟨given, hgiven, hv⟩ := exists_ok_of_bind hv
    obtain ⟨call, hcall, hv⟩ := exists_ok_of_bind hv
    have htag : tag.isFolded = false ∧ c.ofTag tag = 0 := by
      simp only [tag]
      split <;> exact ⟨rfl, rfl⟩
    have hkids := KeptAll.cons (h.part hreceiver hget hsubject)
      (.cons (.symbol (.text spelling)) (h.arguments harguments hlist hgiven))
    refine (h.attachBlock hblock htag.1 hkids.tally hcall hv).cast ?_
    rw [htag.2]
    omega
  · cases hv

/-- A call. The block of a match with a literal is not looked at. -/
lemma call (h : Setting c conv s .ordinary n) (hkind : n.kind = .callNode)
    (hv : call conv s n = .ok v) :
    Kept c v (n.shares c s.inParameters .ordinary (n.kind.slots.map Slot.field)) := by
  obtain ⟨kind, location, fields⟩ := n
  obtain rfl : kind = .callNode := hkind
  have hshares : Node.shares c ⟨.callNode, location, fields⟩ s.inParameters .ordinary
      (Kind.callNode.slots.map Slot.field) =
      share c s .ordinary ⟨.callNode, location, fields⟩ .receiver +
        (share c s .ordinary ⟨.callNode, location, fields⟩ .arguments +
          share c s .ordinary ⟨.callNode, location, fields⟩ .block) := by
    rw [Node.shares_eq_sum]
    exact congrArg (_ + ·) (Nat.zero_add _)
  have hslot : Node.slot ⟨.callNode, location, fields⟩ s.inParameters .ordinary .block =
      if Node.isLiteralMatch ⟨.callNode, location, fields⟩ then none
      else some (.block, s.inParameters) := rfl
  obtain ⟨name, hname, hv⟩ := exists_ok_of_bind hv
  obtain ⟨receiver, hreceiver, hv⟩ := exists_ok_of_bind hv
  extract_lets isMatch at hv
  have hmatch : Node.isLiteralMatch ⟨.callNode, location, fields⟩ =
      (isMatch && (receiver.isA .stringNode || receiver.isA .regularExpressionNode)) := by
    rw [Node.isLiteralMatch, Node.part, Node.part, Node.get?_of_get hname,
      Node.get?_of_get hreceiver]
    rfl
  rw [← hmatch] at hv
  rw [hshares]
  split at hv
  · next hliteral =>
    rw [if_pos hliteral] at hslot
    rw [show share c s .ordinary ⟨.callNode, location, fields⟩ .block = 0 by
      rw [share, Node.share, hslot]]
    exact h.literalMatch rfl rfl ⟨rfl, hliteral⟩ hreceiver hv
  · next hplain =>
    rw [if_neg hplain] at hslot
    exact h.plainCall rfl rfl hslot hreceiver hv

lemma superCall (h : Setting c conv s .ordinary n)
    (harguments : Stands s .ordinary n .arguments .arguments)
    (hblock : Stands s .ordinary n .block .block)
    (hv : superCall conv s n = .ok v) :
    Kept c v (c.ofTag .superCall +
      (share c s .ordinary n .arguments + share c s .ordinary n .block)) := by
  obtain ⟨list, hlist, hv⟩ := exists_ok_of_bind hv
  obtain ⟨given, hgiven, hv⟩ := exists_ok_of_bind hv
  obtain ⟨call, hcall, hv⟩ := exists_ok_of_bind hv
  have hkids := h.arguments harguments hlist hgiven
  exact (h.attachBlock hblock rfl hkids.tally hcall hv).cast (Nat.add_assoc _ _ _)

lemma forwardingSuper (h : Setting c conv s .ordinary n)
    (hblock : Stands s .ordinary n .block .block)
    (hv : forwardingSuper conv s n = .ok v) :
    Kept c v (c.ofTag .zsuperCall + share c s .ordinary n .block) := by
  obtain ⟨call, hcall, hv⟩ := exists_ok_of_bind hv
  exact h.attachBlock hblock rfl rfl hcall hv

lemma yieldCall (h : Setting c conv s .ordinary n)
    (harguments : Stands s .ordinary n .arguments .arguments)
    (hv : yieldCall conv s n = .ok v) :
    Kept c v (c.ofTag .yieldCall + share c s .ordinary n .arguments) := by
  obtain ⟨list, hlist, hv⟩ := exists_ok_of_bind hv
  obtain ⟨given, hgiven, hv⟩ := exists_ok_of_bind hv
  exact kept_build rfl (h.arguments harguments hlist hgiven).tally hv

lemma lambda (h : Setting c conv s .ordinary n) (hparameters : Plain s .ordinary n .parameters)
    (hbody : Plain s .ordinary n .body) (hv : lambda conv s n = .ok v) :
    Kept c v (c.ofTag .lambdaHead +
      (share c s .ordinary n .parameters + share c s .ordinary n .body)) := by
  obtain ⟨declared, hdeclared, hv⟩ := exists_ok_of_bind hv
  obtain ⟨parameters, hp, hv⟩ := exists_ok_of_bind hv
  obtain ⟨head, hhead, hv⟩ := exists_ok_of_bind hv
  obtain ⟨body, hb, hv⟩ := exists_ok_of_bind hv
  have hkids := KeptAll.cons (kept_build_data rfl hhead)
    (.cons (h.blockSlot hparameters hdeclared hp) (h.convertOptional hbody hb))
  exact (kept_build rfl hkids.tally hv).cast (Nat.zero_add _)

lemma execution (h : Setting c conv s .ordinary n) (hbody : Plain s .ordinary n .statements)
    (hv : execution conv s n tag = .ok v) :
    Kept c v (c.ofTag tag + share c s .ordinary n .statements) := by
  obtain ⟨head, hhead, hv⟩ := exists_ok_of_bind hv
  obtain ⟨body, hb, hv⟩ := exists_ok_of_bind hv
  have hkids := KeptAll.cons (kept_build_data rfl hhead)
    (.cons (.scalar (.int 0)) (h.convertOptional hbody hb))
  refine (kept_build rfl hkids.tally hv).cast ?_
  rw [show c.ofTag .iter = 0 from rfl]
  omega

lemma blockArgument (h : Setting c conv s .ordinary n)
    (hexpression : Plain s .ordinary n .expression) (hv : blockArgument conv s n = .ok v) :
    Kept c v (c.ofTag .blockPass + share c s .ordinary n .expression) := by
  obtain ⟨kids, hkids, hv⟩ := exists_ok_of_bind hv
  exact kept_build rfl (h.convertOptional hexpression hkids).tally hv

lemma callWrite (h : Setting c conv s .ordinary n) (hreceiver : Plain s .ordinary n .receiver)
    (hvalue : Plain s .ordinary n .value) {operator : Value} (hoperator : Kept c operator 0)
    (hv : callWrite conv s n operator = .ok v) :
    Kept c v (share c s .ordinary n .receiver + share c s .ordinary n .value) := by
  obtain ⟨flag, -, hv⟩ := exists_ok_of_bind hv
  extract_lets safe at hv
  obtain ⟨receiver, hr, hv⟩ := exists_ok_of_bind hv
  obtain ⟨name, hname, hv⟩ := exists_ok_of_bind hv
  obtain ⟨value, hval, hv⟩ := exists_ok_of_bind hv
  have htag : (if safe then Tag.safeOpAsgn2 else .opAsgn2).isFolded = false ∧
      c.ofTag (if safe then .safeOpAsgn2 else .opAsgn2) = 0 := by
    split <;> exact ⟨rfl, rfl⟩
  have hkids := KeptAll.cons (h.convertField hreceiver hr)
    (.cons (kept_nameIn hname) (.cons hoperator (.single (h.convertField hvalue hval))))
  refine (kept_build htag.1 hkids.tally hv).cast ?_
  rw [htag.2]
  omega

lemma indexWrite (h : Setting c conv s .ordinary n) (hreceiver : Plain s .ordinary n .receiver)
    (harguments : Stands s .ordinary n .arguments .arguments)
    (hvalue : Plain s .ordinary n .value) {operator : Value} (hoperator : Kept c operator 0)
    (hv : indexWrite conv s n operator = .ok v) :
    Kept c v (share c s .ordinary n .receiver +
      (share c s .ordinary n .arguments + share c s .ordinary n .value)) := by
  obtain ⟨indices, hindices, hv⟩ := exists_ok_of_bind hv
  obtain ⟨given, hgiven, hv⟩ := exists_ok_of_bind hv
  extract_lets place at hv
  obtain ⟨list, hlist, hv⟩ := exists_ok_of_bind hv
  obtain ⟨receiver, hr, hv⟩ := exists_ok_of_bind hv
  obtain ⟨value, hval, hv⟩ := exists_ok_of_bind hv
  have hlist' := kept_build rfl (h.arguments harguments hindices hgiven).tally hlist
  have hkids := KeptAll.cons (h.convertField hreceiver hr)
    (.cons hlist' (.cons hoperator (.single (h.convertField hvalue hval))))
  refine (kept_build rfl hkids.tally hv).cast ?_
  rw [show c.ofTag .opAsgn1 = 0 from rfl, show c.ofTag .arglist = 0 from rfl]
  omega

lemma callTarget (h : Setting c conv s .ordinary n) (hreceiver : Plain s .ordinary n .receiver)
    (hv : callTarget conv s n = .ok v) : Kept c v (share c s .ordinary n .receiver) := by
  obtain ⟨flag, -, hv⟩ := exists_ok_of_bind hv
  extract_lets safe at hv
  obtain ⟨receiver, hr, hv⟩ := exists_ok_of_bind hv
  obtain ⟨name, hname, hv⟩ := exists_ok_of_bind hv
  have htag : (if safe then Tag.safeAttrasgn else .attrasgn).isFolded = false ∧
      c.ofTag (if safe then .safeAttrasgn else .attrasgn) = 0 := by
    split <;> exact ⟨rfl, rfl⟩
  have hkids := KeptAll.cons (h.convertField hreceiver hr) (.single (kept_nameIn hname))
  refine (kept_build htag.1 hkids.tally hv).cast ?_
  rw [htag.2]
  omega

lemma indexTarget (h : Setting c conv s .ordinary n) (hreceiver : Plain s .ordinary n .receiver)
    (harguments : Stands s .ordinary n .arguments .arguments)
    (hv : indexTarget conv s n = .ok v) :
    Kept c v (share c s .ordinary n .receiver + share c s .ordinary n .arguments) := by
  obtain ⟨receiver, hr, hv⟩ := exists_ok_of_bind hv
  obtain ⟨indices, hindices, hv⟩ := exists_ok_of_bind hv
  obtain ⟨given, hgiven, hv⟩ := exists_ok_of_bind hv
  have hkids := KeptAll.cons (h.convertField hreceiver hr)
    (.cons (.symbol (.text "[]=")) (h.arguments harguments hindices hgiven))
  refine (kept_build rfl hkids.tally hv).cast ?_
  rw [show c.ofTag .attrasgn = 0 from rfl]
  omega

end Setting

end RubySexp.Convert.Census
