import RubySexp.Proofs.Convert.Parallel.Part

/-!
# Control Flow Side by Side

A body without handlers and a list of one statement are handed on as they are. Handlers stand at
their own places, and their statements are in the scope of the clause.
-/

namespace RubySexp.Convert.Parallel

variable {φ : View} {g : Scope → Tree → Tree} {R : Scope → Scope → Prop} {Q : Tree → Prop}
  {conv conv' : Conversion} {s s' : Scope} {n n' : Node} {tree : Tree}
  (h : Parallel φ g R Q conv conv') (hs : R s s') (hn : Beside φ g Q s n n')

include h

lemma handlers_map (s : Scope) (ht : Q tree) :
    handlers (g s tree) = (handlers tree).map (g s) ∧ ∀ clause ∈ handlers tree, Q clause := by
  induction tree using handlers_induction with
  | leaf tree hnode =>
    rw [handlers_of_leaf hnode, handlers_of_leaf (h.asNode?_none s hnode), h.isNull_eq]
    split
    · simp
    · simpa using ht
  | last m fault hlast =>
    obtain ⟨m', heq, hm⟩ := h.beside ht s
    have hget : m'.get .subsequent = (m.get .subsequent).map (g s) := hm.plain rfl
    rw [hlast] at hget
    rw [handlers_of_last hlast, heq, handlers_of_last hget]
    simpa [heq] using ht
  | next m next hnext ih =>
    obtain ⟨m', heq, hm⟩ := h.beside ht s
    have hget : m'.get .subsequent = (m.get .subsequent).map (g s) := hm.plain rfl
    rw [hnext] at hget
    obtain ⟨hmap, hall⟩ := ih (h.get ht hnext)
    rw [handlers_ofNode hnext, heq, handlers_ofNode hget, hmap]
    simpa [heq, ht] using hall

include hs

lemma caught (ht : Q tree) : φ.Like (caught conv s tree) (caught conv' s' (g s tree)) := by
  unfold Convert.caught
  refine (h.conv hs ht).bind fun target target' _ htarget => ?_
  rw [h.location?_eq]
  have hexception : φ.Like (Convert.build tree.location? .gvar [.sym "$!"])
      (Convert.build tree.location? .gvar [.sym "$!"]) :=
    View.build (fun _ => h.place ht) rfl (by simp)
  cases target with
  | sexp tag kids l m =>
    obtain ⟨tag', kids', rfl, htag, hkids⟩ := htarget.eq_sexp
    refine hexception.bind fun exception exception' _ hexception => .ok ?_
    exact htarget.withKids htag (hkids.append (.cons hexception .nil))
  | list vs =>
    obtain ⟨ws, rfl, -⟩ := htarget.eq_list
    exact hexception.bind fun exception exception' _ _ => .ok (by simp)
  | _ =>
    cases target' with
    | sexp | list => simp [View.Same, Blur.Same] at htarget
    | _ => exact .error .noSuchPart

lemma handler (hbelow : ∀ {field part}, tree.get field = .ok part → part.Held Q)
    (hplace : ∀ l, tree.location? = some l → φ.place l)
    (hclause : ∀ exceptions, tree.get .exceptions = .ok exceptions → OpenClause g tree) :
    φ.Side (fun v w => φ.Same v w ∧ ∃ kids line maxLine, v = .sexp .resbody kids line maxLine)
      (handler conv s tree) (handler conv' s' (g s tree)) := by
  unfold Convert.handler
  rw [h.get_plain s tree fun _ => rfl, h.get_plain s tree fun _ => rfl,
    h.get_plain s tree fun _ => rfl, h.location?_eq]
  refine .bind_map fun exceptions hexceptions => ?_
  refine (h.convertAll hs (hbelow hexceptions)).bind fun list list' _ hlist => ?_
  refine .bind_map fun reference hreference => ?_
  extract_lets rest rest'
  have hrest : ∀ {target target'}, φ.SameAll target target' → φ.Side
      (fun v w => φ.Same v w ∧ ∃ kids line maxLine, v = .sexp .resbody kids line maxLine)
      (rest target) (rest' target') := by
    intro target target' htarget
    refine .bind_map fun body hbody => ?_
    refine (h.clauseBody hs (hbelow hbody).self (hclause _ hexceptions body · hbody ·)).bind ?_
    intro statements statements' _ hstatements
    refine (View.build hplace rfl (hlist.append htarget)).bind fun array array' _ harray => ?_
    refine (View.build hplace rfl (.cons harray hstatements)).mono fun v w hv hsame => ⟨hsame, ?_⟩
    obtain ⟨l, rfl⟩ := eq_sexp_of_build hv
    exact ⟨_, _, _, rfl⟩
  rw [h.isNull_eq]
  refine .ite (hrest .nil) ?_
  exact (h.caught hs (hbelow hreference).self).bind fun target target' _ htarget =>
    hrest (.cons htarget .nil)

include hn

lemma rescueClause (hrecast : g s (.ofNode n) = .ofNode n') (hkind : n.kind = .rescueNode)
    (hclause : ∀ exceptions, n.get .exceptions = .ok exceptions → OpenClause g (.ofNode n)) :
    Makes φ conv s n (Convert.handler conv s (.ofNode n))
      (Convert.handler conv' s' (.ofNode n')) := by
  have hheld : ∀ {field part}, (Tree.ofNode n).get field = .ok part → part.Held Q :=
    fun hget => hn.held hget
  rw [← hrecast]
  refine (h.handler hs hheld hn.place hclause).mono ?_
  rintro v w - ⟨hsame, kids, line, maxLine, rfl⟩
  exact ⟨hsame, .handler hkind kids line maxLine⟩

lemma binary {tag : Tag} {first second : Field} (hown : tag.isOwn = true)
    (hfirst : n.kind.isPlain first = true) (hsecond : n.kind.isPlain second = true) :
    Makes φ conv s n (binary conv s n tag first second)
      (binary conv' s' n' tag first second) := by
  unfold Convert.binary
  refine (h.convertField hs hn hfirst).bind fun a a' _ ha => ?_
  refine (h.convertField hs hn hsecond).bind fun b b' _ hb => ?_
  exact own hn hown (by simp [ha, hb])

lemma unary {tag : Tag} {field : Field} (hown : tag.isOwn = true)
    (hfield : n.kind.isPlain field = true) :
    Makes φ conv s n (unary conv s n tag field) (unary conv' s' n' tag field) := by
  unfold Convert.unary
  exact (h.convertField hs hn hfield).bind fun a a' _ ha => own hn hown (by simpa using ha)

lemma conditional {holds fails : Field} (hholds : n.kind.isPlain holds = true)
    (hfails : n.kind.isPlain fails = true) :
    Makes φ conv s n (conditional conv s n holds fails)
      (conditional conv' s' n' holds fails) := by
  unfold Convert.conditional
  refine (h.convertField hs hn rfl).bind fun a a' _ ha => ?_
  refine (h.convertField hs hn hholds).bind fun b b' _ hb => ?_
  refine (h.convertField hs hn hfails).bind fun c c' _ hc => ?_
  exact own hn rfl (by simp [ha, hb, hc])

lemma loop {tag : Tag} (hown : tag.isOwn = true) :
    Makes φ conv s n (loop conv s n tag) (loop conv' s' n' tag) := by
  unfold Convert.loop
  refine (h.convertField hs hn rfl).bind fun a a' _ ha => ?_
  refine (h.convertField hs hn rfl).bind fun b b' _ hb => ?_
  rw [hn.data rfl]
  exact .bind_same fun testedLast _ => own hn hown (by simp [ha, hb])

lemma forLoop : Makes φ conv s n (forLoop conv s n) (forLoop conv' s' n') := by
  unfold Convert.forLoop
  refine (h.convertField hs hn rfl).bind fun a a' _ ha => ?_
  refine (h.convertField hs hn rfl).bind fun b b' _ hb => ?_
  refine (h.convertOptional hs hn rfl).bind fun body body' _ hbody => ?_
  exact own hn rfl (by simp [ha, hb, hbody])

lemma caseOf : Makes φ conv s n (caseOf conv s n) (caseOf conv' s' n') := by
  unfold Convert.caseOf
  refine (h.convertField hs hn rfl).bind fun a a' _ ha => ?_
  refine (h.convertItems hs hn rfl).bind fun clauses clauses' _ hclauses => ?_
  refine (h.convertField hs hn rfl).bind fun b b' _ hb => ?_
  exact own hn rfl (.cons ha (hclauses.append (.cons hb .nil)))

lemma ownClauseBody (hclause : OpenClause g (.ofNode n)) :
    φ.LikeAll (n.get .statements >>= Convert.clauseBody conv s)
      (n'.get .statements >>= Convert.clauseBody conv' s') := by
  rw [hn.plain rfl]
  refine .bind_map fun body hbody => ?_
  exact h.clauseBody hs (hn.below hbody) fun m hm => hclause body m hbody hm

lemma whenClause (hclause : OpenClause g (.ofNode n)) :
    Makes φ conv s n (whenClause conv s n) (whenClause conv' s' n') := by
  unfold Convert.whenClause
  refine (h.convertItems hs hn rfl).bind fun list list' _ hlist => ?_
  refine (build hn hlist).bind fun conditions conditions' _ hconditions => ?_
  simp only [← bind_assoc]
  refine (ownClauseBody h hs hn hclause).bind fun body body' _ hbody => ?_
  exact own hn rfl (by simp [hconditions, hbody])

lemma jump {tag : Tag} (hown : tag.isOwn = true) :
    Makes φ conv s n (jump conv s n tag) (jump conv' s' n' tag) := by
  unfold Convert.jump
  rw [hn.plain rfl]
  refine .bind_map fun values hvalues => ?_
  rw [h.isNull_eq]
  split
  · exact own hn hown .nil
  refine (h.arguments hs (hn.below hvalues)).bind fun given given' _ hgiven => ?_
  rcases given with _ | ⟨v, _ | ⟨second, rest⟩⟩
  · obtain rfl := hgiven.eq_nil
    exact .error .noItem
  · obtain ⟨v', rest', rfl, hv, hrest⟩ := hgiven.eq_cons
    obtain rfl := hrest.eq_nil
    simp only [hv.isA_eq (show Tag.splat ∈ watchedTags by decide)]
    split
    · refine (build hn (by simpa using hv)).bind fun marked marked' _ hmarked => ?_
      exact own hn hown (by simpa using hmarked)
    · exact own hn hown (by simpa using hv)
  · obtain ⟨v', rest', rfl, hv, hrest⟩ := hgiven.eq_cons
    obtain ⟨second', rest', rfl, hsecond, hrest⟩ := hrest.eq_cons
    refine (build hn (by simp [hv, hsecond, hrest])).bind fun array array' _ harray => ?_
    exact own hn hown (by simpa using harray)

lemma flipFlop : Makes φ conv s n (flipFlop conv s n) (flipFlop conv' s' n') := by
  unfold Convert.flipFlop
  rw [hn.data rfl]
  exact .bind_same fun excludeEnd _ => binary h hs hn (by split <;> rfl) rfl rfl

lemma rescueModifier :
    Makes φ conv s n (rescueModifier conv s n) (rescueModifier conv' s' n') := by
  unfold Convert.rescueModifier
  refine (build hn .nil).bind fun list list' _ hlist => ?_
  refine (h.convertField hs hn rfl).bind fun body body' _ hbody => ?_
  refine (build hn (by simp [hlist, hbody])).bind fun clause clause' _ hclause => ?_
  refine (h.convertField hs hn rfl).bind fun expression expression' _ hexpression => ?_
  exact own hn rfl (by simp [hexpression, hclause])

lemma followedBy {v v' : Value} (hv : φ.Same v v') (ht : Q tree) :
    Makes φ conv s n (followedBy conv s n v tree) (followedBy conv' s' n' v' (g s tree)) := by
  unfold Convert.followedBy
  obtain ⟨hnone, hnone'⟩ | ⟨e, e', he, he', hsame⟩ := hv.asSexp?_cases
  · rw [hnone, hnone']
    exact .error .noSuchPart
  rw [he, he']
  refine (h.conv hs ht).bind fun last last' _ hlast => ?_
  have htag := View.tag_beq hsame.tag (show Tag.block ∈ watchedTags by decide)
  simp only [htag]
  split
  · exact own hn rfl (hsame.kids.append (.cons hlast .nil))
  · exact own hn rfl (by simp [hv, hlast])

lemma handled {v v' : Value} (hv : φ.Same v v') (hmade : Built conv s n v) (ht : Q tree) :
    Makes φ conv s n (handled conv s n tree v) (handled conv' s' n' (g s tree) v') := by
  unfold Convert.handled
  rw [hn.plain rfl, hn.plain rfl]
  refine .bind_map fun clause hclause => .bind_map fun otherwise hotherwise => ?_
  simp only [h.isNull_eq, h.location?_eq]
  split
  · exact .ite (.ok ⟨hv, hmade⟩) (followedBy h hs hn hv (hn.below hotherwise))
  obtain ⟨hmap, hall⟩ := h.handlers_map s (hn.below hclause)
  rw [hmap]
  have hclauses : φ.LikeAll ((handlers clause).mapM (Convert.handler conv s))
      (((handlers clause).map (g s)).mapM (Convert.handler conv' s')) := by
    refine .mapM_map fun part hpart => ?_
    have hpart := hall part hpart
    exact (h.handler hs (h.held hpart) (fun _ => h.place hpart) fun _ => h.clause hpart).mono
      fun _ _ _ => And.left
  refine hclauses.bind fun list list' _ hlist => ?_
  refine (h.convertIfPresent hs (hn.below hotherwise)).bind fun last last' _ hlast => ?_
  have hhead : φ.SameAll (if tree.isNull then [] else [v]) (if tree.isNull then [] else [v']) := by
    split
    · exact .nil
    · simpa using hv
  refine (View.build (fun l hl => ?_) rfl ((hhead.append hlist).append hlast)).mono ?_
  · split at hl
    · exact h.place (hn.below hclause) hl
    · exact h.place ht hl
  · intro result result' hresult hsame
    obtain ⟨l, rfl⟩ := eq_sexp_of_build hresult
    exact ⟨hsame, .own rfl _ _ _⟩

lemma beginBody (hkind : n.kind = .beginNode) :
    Makes φ conv s n (beginBody conv s n) (beginBody conv' s' n') := by
  unfold Convert.beginBody
  rw [hn.plain rfl, hn.plain rfl]
  refine .bind_map fun body hbody => ?_
  have hstatements : Makes φ conv s n (conv s body) (conv' s' (g s body)) :=
    (h.conv hs (hn.below hbody)).mono fun v w hv hsame =>
      ⟨hsame, .part (.field (by rw [hkind]; rfl) hbody) hv⟩
  rw [h.isNull_eq]
  refine .ite_bind (own hn rfl .nil) hstatements ?_
  rintro v v' ⟨hv, hmade⟩
  refine (handled h hs hn hv hmade (hn.below hbody)).bind fun result result' _ hresult => ?_
  refine .bind_map fun clause hclause => ?_
  rw [h.isNull_eq, h.location?_eq]
  refine .ite (.ok hresult) ((h.conv hs (hn.below hclause)).bind fun last last' _ hlast => ?_)
  refine (View.build (fun _ => h.place (hn.below hclause)) rfl
    (.cons hresult.1 (.cons hlast .nil))).mono fun w w' hw hsame => ⟨hsame, ?_⟩
  obtain ⟨l, rfl⟩ := eq_sexp_of_build hw
  exact .own rfl _ _ _

lemma orNil {field : Field} (hfield : n.kind.handedOn = some field)
    (hplain : n.kind.isPlain field = true) :
    Makes φ conv s n (orNil conv s n field) (orNil conv' s' n' field) := by
  unfold Convert.orNil
  rw [hn.plain hplain]
  refine .bind_map fun part hpart => ?_
  rw [h.isNull_eq]
  refine .ite (own hn rfl .nil) ((h.conv hs (hn.below hpart)).mono fun v w hv hsame => ?_)
  exact ⟨hsame, .part (.field hfield hpart) hv⟩

lemma block (hrecast : g s (.ofNode n) = .ofNode n') (hkind : n.kind = .statementsNode) :
    Makes φ conv s n (block conv s (.ofNode n)) (block conv' s' (.ofNode n')) := by
  unfold Convert.block
  have hstatements : φ.LikeAll (Convert.statements conv s (.ofNode n))
      (Convert.statements conv' s' (.ofNode n')) := by
    rw [← hrecast]
    refine h.statements hs (fun hget => hn.held hget) fun m hm scope => ?_
    obtain rfl := Option.some.inj hm
    rw [scopeBelow_of_isPlain (by rw [hkind]; rfl)]
  refine hstatements.bind fun body body' hconverted hbody => ?_
  rcases body with _ | ⟨v, _ | ⟨second, rest⟩⟩
  · obtain rfl := hbody.eq_nil
    exact .ok ⟨by simp, .nil⟩
  · obtain ⟨v', rest', rfl, hv, hrest⟩ := hbody.eq_cons
    obtain rfl := hrest.eq_nil
    refine .ok ⟨hv, ?_⟩
    simp only [Convert.statements, Tree.ofNode, Tree.isNull, Bool.false_eq_true,
      if_false] at hconverted
    obtain ⟨list, hlist, hconverted⟩ := exists_ok_of_bind hconverted
    obtain ⟨items, hitems, hconverted⟩ := exists_ok_of_bind hconverted
    obtain _ | ⟨hitem, _ | _⟩ := mapM_eq_ok_iff.mp hconverted
    exact .part (.statement hkind hlist hitems) hitem
  · obtain ⟨v', rest', rfl, hv, hrest⟩ := hbody.eq_cons
    obtain ⟨second', rest', rfl, hsecond, hrest⟩ := hrest.eq_cons
    exact own hn rfl (by simp [hv, hsecond, hrest])

end RubySexp.Convert.Parallel
