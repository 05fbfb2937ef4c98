import RubySexp.Proofs.Convert.Parallel.Control
import RubySexp.Proofs.Convert.Parallel.Literal

/-!
# Patterns Side by Side

The rest of a pattern is not converted: it is asked for its name, which is data.
-/

namespace RubySexp.Convert.Parallel

variable {φ : View} {g : Scope → Tree → Tree} {R : Scope → Scope → Prop} {Q : Tree → Prop}
  {conv conv' : Conversion} {s s' : Scope} {n n' : Node} {tree : Tree}
  (h : Parallel φ g R Q conv conv') (hs : R s s') (hn : Beside φ g Q s n n')

include h

lemma markedName (s : Scope) (mark : List Char) (holder : Tree) :
    φ.Like (markedName mark holder) (markedName mark (g s holder)) := by
  unfold Convert.markedName
  rw [h.get_data s holder fun _ => rfl]
  exact .bind_same fun name _ => .ok (by simp [symbolOf])

lemma patternRest (s : Scope) (tree : Tree) :
    φ.Like (patternRest tree) (patternRest (g s tree)) := by
  unfold Convert.patternRest
  rw [h.isA_eq, h.get_plain s tree fun _ => rfl]
  refine .ite (.bind_map fun expression _ => ?_) (.ok (by simp))
  rw [h.isNull_eq]
  exact .ite (.ok (by simp)) (h.markedName s _ expression)

lemma patternKeywordRest (s : Scope) (ht : Q tree) :
    φ.Like (patternKeywordRest tree) (patternKeywordRest (g s tree)) := by
  unfold Convert.patternKeywordRest
  rw [h.isA_eq, h.location?_eq]
  have hbuild : ∀ {kids kids'}, φ.SameAll kids kids' →
      φ.Like (Convert.build tree.location? .kwrest kids)
        (Convert.build tree.location? .kwrest kids') :=
    fun hkids => View.build (fun _ => h.place ht) rfl hkids
  refine .ite (hbuild (by simp)) ?_
  rcases h.get_value s tree with hvalue | hvalue
  · rw [hvalue]
    refine .bind_same fun value _ => .ite (hbuild (by simp)) ?_
    simp only [Convert.markedName, bind_assoc, pure_bind]
    exact .bind_same fun name _ => hbuild (by simp [symbolOf])
  · rw [hvalue]
    refine .bind_map fun value _ => ?_
    rw [h.isNull_eq]
    refine .ite (hbuild (by simp)) ?_
    exact (h.markedName s _ value).bind fun name name' _ hname => hbuild (.cons hname .nil)

include hs hn

lemma inClause (hclause : OpenClause g (.ofNode n)) :
    Makes φ conv s n (inClause conv s n) (inClause conv' s' n') := by
  unfold Convert.inClause
  simp only [← bind_assoc]
  refine (ownClauseBody h hs hn hclause).bind fun body body' _ hbody => ?_
  refine (h.convertField hs hn rfl).bind fun pattern pattern' _ hpattern => ?_
  exact own hn rfl (by simp [hpattern, hbody])

lemma patternMatch (hvalue : n.kind.isPlain .value = true) :
    Makes φ conv s n (patternMatch conv s n) (patternMatch conv' s' n') := by
  unfold Convert.patternMatch
  refine (h.convertField hs hn rfl).bind fun pattern pattern' _ hpattern => ?_
  refine (build hn (by simp [hpattern])).bind fun clause clause' _ hclause => ?_
  refine (h.convertField hs hn hvalue).bind fun v v' _ hv => ?_
  exact own hn rfl (by simp [hv, hclause])

lemma arrayPattern (hrequireds : n.kind.isPlain .requireds = true)
    (hrest : n.kind.isPlain .rest = true) (hposts : n.kind.isPlain .posts = true) :
    Makes φ conv s n (arrayPattern conv s n) (arrayPattern conv' s' n') := by
  unfold Convert.arrayPattern
  refine (h.convertItems hs hn hrequireds).bind fun requireds requireds' _ hrequireds => ?_
  rw [hn.plain hrest]
  refine .bind_map fun rest _ => ?_
  extract_lets last last'
  have hlast : ∀ {rest rest'}, φ.SameAll rest rest' →
      Makes φ conv s n (last rest) (last' rest') := by
    intro rest rest' hrest
    refine (h.convertItems hs hn hposts).bind fun posts posts' _ hposts => ?_
    refine (h.convertField hs hn rfl).bind fun constant constant' _ hconstant => ?_
    exact own hn rfl (.cons hconstant ((hrequireds.append hrest).append hposts))
  rw [h.isNull_eq]
  refine .ite (hlast .nil) ?_
  exact (h.patternRest s rest).bind fun v v' _ hv => hlast (by simpa using hv)

lemma findPattern (hitems : n.kind.isPlain .requireds = true) :
    Makes φ conv s n (findPattern conv s n) (findPattern conv' s' n') := by
  unfold Convert.findPattern
  refine (h.convertField hs hn rfl).bind fun constant constant' _ hconstant => ?_
  rw [hn.plain rfl, hn.plain rfl]
  refine .bind_map fun leftTree _ => ?_
  refine (h.patternRest s leftTree).bind fun left left' _ hleft => ?_
  refine (h.convertItems hs hn hitems).bind fun requireds requireds' _ hrequireds => ?_
  refine .bind_map fun rightTree _ => ?_
  refine (h.patternRest s rightTree).bind fun right right' _ hright => ?_
  have hfront : φ.SameAll [constant, left] [constant', left'] := by simp [hconstant, hleft]
  exact own hn rfl ((hfront.append hrequireds).append (.cons hright .nil))

lemma hashPattern (hrest : n.kind.isPlain .rest = true) :
    Makes φ conv s n (hashPattern conv s n) (hashPattern conv' s' n') := by
  unfold Convert.hashPattern
  refine (pairs h hs hn).bind fun elements elements' _ helements => ?_
  rw [hn.plain hrest]
  refine .bind_map fun rest hget => ?_
  extract_lets last last'
  have hlast : ∀ {rest rest'}, φ.SameAll rest rest' →
      Makes φ conv s n (last rest) (last' rest') := by
    intro rest rest' hrest
    refine (h.convertField hs hn rfl).bind fun constant constant' _ hconstant => ?_
    exact own hn rfl (.cons hconstant (helements.append hrest))
  rw [h.isNull_eq]
  refine .ite (hlast .nil) ?_
  exact (h.patternKeywordRest s (hn.below hget)).bind fun v v' _ hv => hlast (by simpa using hv)

lemma capturePattern (hvalue : n.kind.isPlain .value = true) :
    Makes φ conv s n (capturePattern conv s n) (capturePattern conv' s' n') := by
  unfold Convert.capturePattern
  rw [hn.plain rfl]
  refine .bind_map fun target _ => ?_
  rw [h.get_data s target fun _ => rfl]
  refine .bind_same fun name _ => ?_
  exact (h.convertField hs hn hvalue).bind fun v v' _ hv => own hn rfl (by simp [hv])

end RubySexp.Convert.Parallel
