import RubySexp.Proofs.Convert.Census.Control
import RubySexp.Proofs.Convert.Interpolation

/-!
# Literals Keep the Count

A literal takes in the texts of other literals, and drops the expressions around them. None of these
can hold what counts, so nothing is lost.
-/

namespace RubySexp.Convert.Census

open Value (Kept KeptAll Quiet)

variable {c : Construct} {conv : Conversion} {s : Scope} {n : Node} {tree : Tree} {v : Value}
  {k : Nat}

/-! ### Plain literals -/

lemma kept_content {field : Field} {tag : Tag}
    (hv : (do build n.location tag [(← n.get field).toValue]) = .ok v) :
    Kept c v (c.ofTag tag) := by
  obtain ⟨content, -, hv⟩ := exists_ok_of_bind hv
  refine kept_build_data ?_ hv
  rw [Value.tallyAll_cons, Value.tally_toValue, Value.tallyAll_nil]

lemma kept_rational (hv : rational n = .ok v) : Kept c v 0 := by
  obtain ⟨numerator, -, hv⟩ := exists_ok_of_bind hv
  obtain ⟨denominator, -, hv⟩ := exists_ok_of_bind hv
  split at hv
  · obtain ⟨q, -, hv⟩ := exists_ok_of_bind hv
    exact kept_build_data rfl hv
  · obtain ⟨a, -, hv⟩ := exists_ok_of_bind hv
    obtain ⟨b, -, hv⟩ := exists_ok_of_bind hv
    obtain ⟨q, -, hv⟩ := exists_ok_of_bind hv
    exact kept_build_data rfl hv

lemma kept_regexp (hv : regexp n = .ok v) : Kept c v 0 := by
  obtain ⟨content, -, hv⟩ := exists_ok_of_bind hv
  obtain ⟨options, -, hv⟩ := exists_ok_of_bind hv
  exact kept_build_data rfl hv

lemma kept_matchLastLine (hv : matchLastLine n = .ok v) : Kept c v 0 := by
  obtain ⟨literal, hliteral, hv⟩ := exists_ok_of_bind hv
  exact kept_build_data (KeptAll.single (kept_regexp hliteral)).tally hv

lemma kept_sourceFile (hv : sourceFile s n = .ok v) : Kept c v 0 := by
  obtain ⟨recorded, -, hv⟩ := exists_ok_of_bind hv
  refine kept_build_data ?_ hv
  rw [Value.tallyAll_cons, Value.tallyAll_nil]
  have hpath : ∀ path : Option Value, (∀ value, path = some value → value.tally c = 0) →
      Value.tally c (path.getD (if recorded.truthy then recorded.toValue else .text "(string)")) =
        0 := by
    intro path hpath
    cases path with
    | some value => exact hpath value rfl
    | none =>
      rw [Option.getD_none]
      split
      · exact Value.tally_toValue recorded
      · rfl
  refine hpath _ fun value hvalue => ?_
  split at hvalue
  · split at hvalue <;> cases hvalue
    rfl
  · cases hvalue

lemma kept_sourceLine (hv : sourceLine n = .ok v) : Kept c v 0 := by
  unfold sourceLine at hv
  split at hv
  · next l _ =>
    refine kept_build_data ?_ hv
    rw [Value.tallyAll_cons, Value.tallyAll_nil]
    cases l.startLine <;> rfl
  · cases hv

lemma kept_sourceEncoding (hv : sourceEncoding n = .ok v) : Kept c v 0 := by
  obtain ⟨encoding, hencoding, hv⟩ := exists_ok_of_bind hv
  have hencoding' : Kept c encoding 0 := kept_build_data rfl hencoding
  have hkids := KeptAll.cons hencoding' (.single (.symbol (.text "UTF_8")))
  exact kept_build_data hkids.tally hv

lemma eq_zero_of_integerLiteral {i : Int} (hv : Kept c v k) (h : integerLiteral? v = some i) :
    k = 0 := by
  rw [← hv.tally]
  rcases hv.firm with hsilent | hfirm
  · exact Value.tally_of_isSilent hsilent v
  refine hfirm.tally_of_isA_lit ?_
  unfold integerLiteral? at h
  split at h
  · next t ht =>
    obtain rfl := Value.eq_toValue_of_asSexp? ht
    split at h
    · next htag _ =>
      simp [Value.isA, Sexp.toValue, htag]
    · cases h
  · cases h

namespace Setting

lemma imaginary (h : Setting c conv s .ordinary n) (hkind : n.kind = .imaginaryNode)
    (hnumeric : Plain s .ordinary n .numeric) (hv : imaginary conv s n = .ok v) :
    Kept c v (share c s .ordinary n .numeric) := by
  obtain ⟨numeric, hconverted, hv⟩ := exists_ok_of_bind hv
  have hzero : share c s .ordinary n .numeric = 0 := by
    rcases h.orderly.usesParts with hsilent | huses
    · rw [← (h.convertField hnumeric hconverted).tally, Value.tally_of_isSilent hsilent]
    · have hlacks : (n.part .numeric).lacks c = true := by
        simpa [Node.usesParts, hkind] using huses
      rw [share, Node.share, hnumeric]
      exact Tree.reached_of_lacks hlacks _ _
  rw [hzero]
  split at hv
  · exact kept_build_data rfl hv
  · cases hv

lemma range (h : Setting c conv s .ordinary n) (hleft : Plain s .ordinary n .left)
    (hright : Plain s .ordinary n .right) (hv : range conv s n = .ok v) :
    Kept c v (share c s .ordinary n .left + share c s .ordinary n .right) := by
  obtain ⟨left, hl, hv⟩ := exists_ok_of_bind hv
  obtain ⟨right, hr, hv⟩ := exists_ok_of_bind hv
  obtain ⟨excludeEnd, -, hv⟩ := exists_ok_of_bind hv
  have hl' := h.convertField hleft hl
  have hr' := h.convertField hright hr
  split at hv
  · next ha hb =>
    rw [eq_zero_of_integerLiteral hl' ha, eq_zero_of_integerLiteral hr' hb]
    exact kept_build_data rfl hv
  · have htag : (if excludeEnd.truthy then Tag.dot3 else .dot2).isFolded = false ∧
        c.ofTag (if excludeEnd.truthy then .dot3 else .dot2) = 0 := by
      split <;> exact ⟨rfl, rfl⟩
    refine (kept_build htag.1 (KeptAll.cons hl' (.single hr')).tally hv).cast ?_
    rw [htag.2, Nat.zero_add]

lemma assoc (h : Setting c conv s .ordinary n) (hkey : Plain s .ordinary n .key)
    (hvalue : Plain s .ordinary n .value) (hv : assoc conv s n = .ok v) :
    Value.Yielded c true v (share c s .ordinary n .key + share c s .ordinary n .value) := by
  obtain ⟨key, hk, hv⟩ := exists_ok_of_bind hv
  obtain ⟨value, hval, hv⟩ := exists_ok_of_bind hv
  cases hv
  exact ⟨_, rfl, .cons (h.convertField hkey hk) (.single (h.convertField hvalue hval))⟩

lemma assocSplat (h : Setting c conv s .ordinary n) (hvalue : Plain s .ordinary n .value)
    (hv : assocSplat conv s n = .ok v) :
    Value.Yielded c true v (share c s .ordinary n .value) := by
  obtain ⟨kids, hkids, hv⟩ := exists_ok_of_bind hv
  obtain ⟨splat, hsplat, hv⟩ := exists_ok_of_bind hv
  cases hv
  have hk := kept_build rfl (h.convertOptional hvalue hkids).tally hsplat
  exact ⟨_, rfl, .single (hk.cast (Nat.zero_add _))⟩

end Setting

/-! ### Interpolation -/

structure Folded (c : Construct) (folded : List Value) (k : Nat) : Prop where
  tally : Value.tallyAll c folded = k
  firm : c.isSilent = true ∨ ∃ later first, folded = later ++ [first] ∧ first.tally c = 0 ∧
    ∀ part ∈ later, Quiet c part

namespace Folded

variable {folded next : List Value} {part : Value} {j : Nat}

lemma cast {k' : Nat} (h : Folded c folded k) (hk : k = k') : Folded c folded k' := hk ▸ h

lemma single {first : Value} (h : first.tally c = 0) : Folded c [first] 0 :=
  ⟨by rw [Value.tallyAll_cons, h, Value.tallyAll_nil], .inr ⟨[], first, rfl, h, by simp⟩⟩

lemma push (h : Folded c folded k) (hpart : part.tally c = j)
    (hquiet : c.isSilent = true ∨ Quiet c part) : Folded c (part :: folded) (k + j) where
  tally := by rw [Value.tallyAll_cons, h.tally, hpart, Nat.add_comm]
  firm := by
    rcases h.firm with hsilent | ⟨later, first, rfl, hfirst, hlater⟩
    · exact .inl hsilent
    · exact hquiet.imp_right fun hquiet => ⟨part :: later, first, rfl, hfirst, by simpa using
        ⟨hquiet, hlater⟩⟩

lemma replace {last new : Value} {before : List Value} (h : Folded c (last :: before) k)
    (hlast : last.tally c = 0) (hnew : new.tally c = 0) : Folded c (new :: before) k where
  tally := by
    rw [← h.tally, Value.tallyAll_cons, Value.tallyAll_cons, hlast, hnew]
  firm := by
    refine h.firm.imp_right ?_
    rintro ⟨later, first, hfolded, hfirst, hlater⟩
    cases later with
    | nil =>
      obtain ⟨-, rfl⟩ := List.cons.inj hfolded
      exact ⟨[], new, rfl, hnew, by simp⟩
    | cons latest later =>
      obtain ⟨-, rfl⟩ := List.cons.inj hfolded
      refine ⟨new :: later, first, rfl, hfirst, ?_⟩
      intro part hpart
      rcases List.mem_cons.mp hpart with rfl | hpart
      · exact fun _ => hnew
      · exact hlater part (by simp [hpart])

lemma tally_of_str {last : Value} {before : List Value} (h : Folded c (last :: before) k)
    (hstr : last.isA [.str] = true) : last.tally c = 0 := by
  rcases h.firm with hsilent | ⟨later, first, hfolded, hfirst, hlater⟩
  · exact Value.tally_of_isSilent hsilent last
  cases later with
  | nil =>
    obtain ⟨rfl, -⟩ := List.cons.inj hfolded
    exact hfirst
  | cons latest later =>
    obtain ⟨rfl, -⟩ := List.cons.inj hfolded
    exact hlater last (by simp) hstr

lemma absorb (h : Folded c folded k) (hpart : part.tally c = j)
    (hquiet : c.isSilent = true ∨ Quiet c part) (hnext : absorb folded part = .ok next) :
    Folded c next (k + j) := by
  rcases absorb_cases hnext with rfl | ⟨t, last, before, joined, rfl, htag, rfl, hjoin⟩
  · exact h.push hpart hquiet
  have hstr : ∀ t : Sexp, t.tag = .str → t.toValue.isA [.str] = true := by
    intro t htag
    simp [Value.isA, Sexp.toValue, htag]
  have hzero : j = 0 := by
    rw [← hpart]
    rcases hquiet with hsilent | hquiet
    · exact Value.tally_of_isSilent hsilent _
    · exact hquiet (hstr t htag)
  rw [hzero, Nat.add_zero]
  rcases hjoin with ⟨a, rfl, hjoined, rfl⟩ | ⟨u, replaced, rfl, htag', hjoined, hreplaced, rfl⟩
  · exact h.replace rfl (Value.tally_join hjoined)
  · refine h.replace (h.tally_of_str (hstr u htag')) ?_
    obtain ⟨-, rfl⟩ := kids_of_replaceValue hreplaced
    rw [Sexp.toValue, htag', Value.tally_sexp, Value.tallyAll_cons, Value.tally_join hjoined]
    rfl

lemma absorbAll {parts : List Value} (h : Folded c folded k) (hparts : Value.tallyAll c parts = j)
    (hquiet : c.isSilent = true ∨ ∀ part ∈ parts, Quiet c part)
    (hnext : parts.foldlM Convert.absorb folded = .ok next) : Folded c next (k + j) := by
  induction parts generalizing folded k j with
  | nil =>
    cases hnext
    exact h.cast (congrArg (k + ·) hparts)
  | cons part parts ih =>
    obtain ⟨middle, hmiddle, hnext⟩ := exists_ok_of_bind hnext
    have hfirst := h.absorb rfl (hquiet.imp_right fun hall => hall part (by simp)) hmiddle
    refine (ih hfirst rfl (hquiet.imp_right fun hall p hp => hall p (by simp [hp])) hnext).cast ?_
    rw [← hparts, Value.tallyAll_cons, Nat.add_assoc]

lemma absorbTree (h : Folded c folded k) {converted : Value} (hconv : conv s tree = .ok converted)
    (hk : Kept c converted j) (hnext : absorbTree conv s folded tree = .ok next) :
    Folded c next (k + j) := by
  obtain ⟨converted', hconv', hnext⟩ := exists_ok_of_bind hnext
  obtain rfl : converted = converted' := Except.ok.inj (hconv.symm.trans hconv')
  split at hnext
  · next head rest l m _ =>
    have hsum : head.tally c + Value.tallyAll c rest = j := by
      rw [← hk.tally]
      exact (Nat.zero_add _).symm
    have hfirm : c.isSilent = true ∨ head.tally c = 0 ∧ ∀ kid ∈ rest, Quiet c kid := hk.firm
    have hhead : head.tally c = 0 := hfirm.elim (Value.tally_of_isSilent · head) And.left
    have hrest : Value.tallyAll c rest = j := by omega
    have hquiet := hfirm.imp_right And.right
    split at hnext
    · obtain ⟨text, htext, hnext⟩ := exists_ok_of_bind hnext
      obtain ⟨start, hstart, hnext⟩ := exists_ok_of_bind hnext
      have htext' : Kept c text 0 := by
        refine kept_build_data ?_ htext
        rw [Value.tallyAll_cons, hhead, Value.tallyAll_nil]
      exact (h.absorb htext'.tally (htext'.firm.imp_right Value.Firm.quiet) hstart).absorbAll hrest
        hquiet hnext
    · exact h.absorbAll hrest hquiet hnext
  · exact h.absorb hk.tally (hk.firm.imp_right Value.Firm.quiet) hnext

lemma absorbTrees {parts : List Tree} {positional : Bool} {own : Standing} (h : Folded c folded k)
    (hparts : ∀ part v, part ∈ parts → conv s part = .ok v →
      Kept c v (Tree.reachedItems c positional own [part]))
    (hnext : parts.foldlM (Convert.absorbTree conv s) folded = .ok next) :
    Folded c next (k + Tree.reachedItems c positional own parts) := by
  induction parts generalizing folded k with
  | nil =>
    cases hnext
    exact h
  | cons part parts ih =>
    obtain ⟨middle, hmiddle, hnext⟩ := exists_ok_of_bind hnext
    obtain ⟨v, hv, -⟩ := exists_ok_of_bind hmiddle
    have hfirst := h.absorbTree hv (hparts part v (by simp) hv) hmiddle
    refine (ih hfirst (fun p w hp => hparts p w (by simp [hp])) hnext).cast ?_
    rw [Tree.reachedItems_cons part parts, Nat.add_assoc]

end Folded

namespace Setting

lemma foldParts (h : Setting c conv s .ordinary n) (hparts : Plain s .ordinary n .parts)
    (hget : n.get .parts = .ok tree) {parts : List Tree} (hitems : tree.elements = .ok parts)
    {folded : List Value} (hfolded : foldParts conv s parts = .ok folded) :
    folded = [] ∧ share c s .ordinary n .parts = 0 ∨
      Folded c folded (share c s .ordinary n .parts) := by
  obtain ⟨hheight, ht, hshare⟩ := h.get hparts hget
  rw [← hshare, Tree.reached_of_elements hitems]
  have hone : ∀ part v, part ∈ parts → conv s part = .ok v →
      Kept c v (Tree.reachedItems c s.inParameters .ordinary [part]) :=
    fun part v hmem hv => h.kept_item hheight ht hitems hmem hv
  cases parts with
  | nil =>
    cases hfolded
    exact .inl ⟨rfl, rfl⟩
  | cons first rest =>
    right
    rw [Tree.reachedItems_cons]
    have hrest : ∀ part v, part ∈ rest → conv s part = .ok v →
        Kept c v (Tree.reachedItems c s.inParameters .ordinary [part]) :=
      fun part v hmem => hone part v (by simp [hmem])
    rw [Convert.foldParts] at hfolded
    split at hfolded
    · next hkind =>
      obtain ⟨location, fields, rfl⟩ := Tree.exists_of_isA hkind
      obtain ⟨content, -, hfolded⟩ := exists_ok_of_bind hfolded
      have hdeclared := (ht.item hitems (List.mem_cons_self ..)).declared
      rw [Tree.reachedItems_node, reached_nothing hdeclared rfl rfl]
      exact (Folded.single (Value.tally_toValue content)).absorbTrees hrest hfolded
    · obtain ⟨start, hstart, hfolded⟩ := exists_ok_of_bind hfolded
      obtain ⟨v, hv, -⟩ := exists_ok_of_bind hstart
      have hempty : Folded c [.text ""] 0 := .single rfl
      have hfirst := hempty.absorbTree hv (hone first v (by simp) hv) hstart
      exact (hfirst.cast (Nat.zero_add _)).absorbTrees hrest hfolded

end Setting

lemma kept_plainLiteral {form : Interpolated} {content : String}
    (hv : plainLiteral n form content = .ok v) : Kept c v 0 := by
  cases form with
  | regexp =>
    obtain ⟨options, -, hv⟩ := exists_ok_of_bind hv
    exact kept_build_data rfl hv
  | _ => exact kept_build_data rfl hv

lemma Folded.kept {folded : List Value} (h : Folded c folded k) (form : Interpolated)
    (hv : build n.location form.tag folded.reverse = .ok v) : Kept c v k := by
  obtain ⟨l, rfl⟩ := eq_sexp_of_build hv
  constructor
  · rw [Value.tally_sexp, Value.tallyAll_reverse, h.tally]
    cases form <;> exact Nat.zero_add _
  · refine h.firm.imp_right ?_
    rintro ⟨later, first, rfl, hfirst, hlater⟩
    rw [List.reverse_append]
    cases form with
    | string => exact ⟨hfirst, fun kid hkid => hlater kid (List.mem_reverse.mp hkid)⟩
    | _ => trivial

namespace Setting

lemma interpolated (h : Setting c conv s .ordinary n) (hparts : Plain s .ordinary n .parts)
    {form : Interpolated} (hv : interpolated conv s n form = .ok v) :
    Kept c v (share c s .ordinary n .parts) := by
  obtain ⟨tree, hget, hv⟩ := exists_ok_of_bind hv
  obtain ⟨parts, hitems, hv⟩ := exists_ok_of_bind hv
  obtain ⟨folded, hfolded, hv⟩ := exists_ok_of_bind hv
  have hk := h.foldParts hparts hget hitems hfolded
  split at hv
  · rcases hk with ⟨-, hzero⟩ | hk
    · rw [hzero]
      exact kept_plainLiteral hv
    · rw [← hk.tally]
      exact kept_plainLiteral hv
  · rcases hk with ⟨hnil, -⟩ | hk
    · cases hnil
    · rw [← hk.tally]
      exact kept_plainLiteral hv
  · next hne _ =>
    rcases hk with ⟨hnil, -⟩ | hk
    · exact absurd hnil hne
    · exact hk.kept form hv

lemma interpolatedRegexp (h : Setting c conv s .ordinary n) (hparts : Plain s .ordinary n .parts)
    (hv : interpolatedRegexp conv s n = .ok v) : Kept c v (share c s .ordinary n .parts) := by
  obtain ⟨literal, hliteral, hv⟩ := exists_ok_of_bind hv
  have hk := h.interpolated hparts hliteral
  split at hv
  · next kids l m =>
    obtain ⟨options, -, hv⟩ := exists_ok_of_bind hv
    obtain ⟨once, -, hv⟩ := exists_ok_of_bind hv
    cases hv
    have htag : (if once.truthy then Tag.dregxOnce else .dregx).isFolded = false ∧
        c.ofTag (if once.truthy then .dregxOnce else .dregx) = 0 := by
      split <;> exact ⟨rfl, rfl⟩
    refine ⟨?_, .inr (Value.firm_sexp htag.1 _ _ _)⟩
    rw [← hk.tally, Value.tally_sexp, Value.tally_sexp, htag.2]
    split
    · rfl
    · rw [Value.tallyAll_append]
      rfl
  · cases hv
    exact hk

lemma interpolatedMatch (h : Setting c conv s .ordinary n) (hparts : Plain s .ordinary n .parts)
    (hv : interpolatedMatch conv s n = .ok v) : Kept c v (share c s .ordinary n .parts) := by
  obtain ⟨regexp, hregexp, hv⟩ := exists_ok_of_bind hv
  have hk := h.interpolatedRegexp hparts hregexp
  split at hv
  · exact (kept_build rfl (KeptAll.single hk).tally hv).cast (Nat.zero_add _)
  · obtain ⟨line, hline, hv⟩ := exists_ok_of_bind hv
    have hline' : Kept c line 0 := kept_build_data rfl hline
    exact (kept_build rfl (KeptAll.cons hk (.single hline')).tally hv).cast (Nat.zero_add _)

lemma embeddedStatements (h : Setting c conv s .ordinary n)
    (hstatements : Plain s .ordinary n .statements) (hv : embeddedStatements conv s n = .ok v) :
    Kept c v (share c s .ordinary n .statements) := by
  obtain ⟨body, hget, hv⟩ := exists_ok_of_bind hv
  split at hv
  · next hnull =>
    rw [share_of_isNull hget hnull]
    exact kept_build_data rfl hv
  · obtain ⟨inner, hinner, hv⟩ := exists_ok_of_bind hv
    have hk := h.part hstatements hget hinner
    split at hv
    · cases hv
      exact hk
    · exact (kept_build rfl (KeptAll.single hk).tally hv).cast (Nat.zero_add _)

lemma embeddedVariable (h : Setting c conv s .ordinary n)
    (hvariable : Plain s .ordinary n .variable) (hv : embeddedVariable conv s n = .ok v) :
    Kept c v (share c s .ordinary n .variable) := by
  obtain ⟨value, hvalue, hv⟩ := exists_ok_of_bind hv
  exact (kept_build rfl (KeptAll.single (h.convertField hvariable hvalue)).tally hv).cast
    (Nat.zero_add _)

end Setting

end RubySexp.Convert.Census
