import RubySexp.Proofs.Convert.Strings

/-!
# Interpolation Keeps the Content

A literal with parts is made of characters and of what is computed. Folding texts into each other,
taking strings inside the literal apart and collapsing a literal without computed parts change
neither the characters nor what is computed nor their order.
-/

namespace RubySexp

inductive Piece where
  | char (c : Char)
  | computed (v : Value)

namespace Piece

def ofText (content : String) : List Piece := content.toList.map .char

/-- The pieces of a converted part: a string is its characters, anything else is computed. -/
def ofValue : Value → List Piece
  | .sexp .str [.text content] _ _ => ofText content
  | v => [.computed v]

def ofKids : List Value → List Piece
  | .text head :: kids => ofText head ++ kids.flatMap ofValue
  | kids => kids.flatMap ofValue

/-- The pieces of a part with its conversion. A string with parts of its own is taken apart. -/
def ofPart (part : Tree) (converted : Value) : List Piece :=
  match part.isA .interpolatedStringNode, converted with
  | true, .sexp .dstr kids _ _ => ofKids kids
  | _, v => ofValue v

/-- The kids of a regular expression with parts, without the options behind them. -/
def withoutOptions (kids : List Value) : List Value :=
  match kids.getLast? with
  | some (.int _) => kids.dropLast
  | _ => kids

/-- The pieces of a literal: its text, or what is behind its tag. -/
def ofLiteral (form : Convert.Interpolated) (v : Value) : List Piece :=
  match form, v with
  | .string, .sexp .str [.text content] _ _ => ofText content
  | .string, .sexp .dstr kids _ _ => ofKids kids
  | .command, .sexp .xstr [.text content] _ _ => ofText content
  | .command, .sexp .dxstr kids _ _ => ofKids kids
  | .symbol, .sexp .lit [.sym content] _ _ => ofText content
  | .symbol, .sexp .dsym kids _ _ => ofKids kids
  | .regexp, .sexp .lit [.regexp (.text content) _] _ _ => ofText content
  | .regexp, .sexp .dregx kids _ _ => ofKids (withoutOptions kids)
  | .regexp, .sexp .dregxOnce kids _ _ => ofKids (withoutOptions kids)
  | _, v => [.computed v]

lemma ofText_append (a b : String) : ofText (a ++ b) = ofText a ++ ofText b := by
  simp [ofText]

end Piece

lemma Value.eq_toValue_of_asSexp? {v : Value} {s : Sexp} (h : v.asSexp? = some s) :
    v = s.toValue := by
  cases v <;> cases h
  rfl

namespace Convert

/-- Kids of a literal as they are folded: a bare text, and behind it what is settled. -/
def FoldedKids (kids : List Value) : Prop :=
  ∃ head rest, kids = .text head :: rest ∧ ∀ v ∈ rest, v.Settled

/-! ### One part -/

lemma ofKids_concat {kids : List Value} (h : FoldedKids kids) (v : Value) :
    Piece.ofKids (kids ++ [v]) = Piece.ofKids kids ++ Piece.ofValue v := by
  obtain ⟨head, rest, rfl, -⟩ := h
  simp [Piece.ofKids]

lemma foldedKids_concat {kids : List Value} {v : Value} (h : FoldedKids kids) (hv : v.Settled) :
    FoldedKids (kids ++ [v]) := by
  obtain ⟨head, rest, rfl, hrest⟩ := h
  refine ⟨head, rest ++ [v], rfl, fun w hw => ?_⟩
  rcases List.mem_append.mp hw with hw | hw
  · exact hrest w hw
  · rwa [List.mem_singleton.mp hw]

lemma foldedKids_of_concat {kids : List Value} {v : Value} (h : FoldedKids (kids ++ [v])) :
    (kids = [] ∧ ∃ head, v = .text head) ∨ FoldedKids kids ∧ v.Settled := by
  obtain ⟨head, rest, hkids, hrest⟩ := h
  rcases kids with _ | ⟨first, others⟩
  · cases hkids
    exact Or.inl ⟨rfl, head, rfl⟩
  · cases hkids
    refine Or.inr ⟨⟨head, others, rfl, fun w hw => hrest w (by simp [hw])⟩, hrest v (by simp)⟩

lemma eq_text_of_join {a : String} {v w : Value} (h : Value.join (.text a) v = .ok w) :
    ∃ b, v = .text b ∧ w = .text (a ++ b) := by
  rcases v with s | _ | _ | _ | _ | _ | _ | _ | _ | _ | _ | _
  case scalar =>
    cases s with
    | text b =>
      cases h
      exact ⟨b, rfl, rfl⟩
    | _ => cases h
  all_goals cases h

lemma kids_of_replaceValue {s t : Sexp} {v : Value} (h : s.replaceValue v = .ok t) :
    (∃ kid, s.kids = [kid]) ∧ t = { s with kids := [v] } := by
  unfold Sexp.replaceValue at h
  split at h
  · next kid hkid =>
    cases h
    exact ⟨⟨kid, hkid⟩, rfl⟩
  · obtain ⟨_, _, h⟩ := exists_ok_of_bind h
    cases h

lemma value_of_settled_str {s : Sexp} {a : String} {w : Value} (hs : s.toValue.Settled)
    (htag : s.tag = .str) (h : Value.join (.text a) s.value = .ok w) :
    ∃ b, s.kids = [.text b] ∧ w = .text (a ++ b) := by
  obtain ⟨b, hvalue, hw⟩ := eq_text_of_join h
  obtain ⟨tag, kids, line, maxLine⟩ := s
  cases htag
  rcases hs with ⟨content, rfl⟩ | ⟨first, between, tag, inner, l, m, rfl⟩
  · simp only [Sexp.value, List.getLast?_singleton, Option.getD_some] at hvalue
    exact ⟨b, by rw [hvalue], hw⟩
  · rw [Sexp.value, ← List.cons_append, List.getLast?_concat] at hvalue
    cases hvalue

lemma text_of_settled_single {s : Sexp} (hs : s.toValue.Settled) (htag : s.tag = .str)
    (hsingle : ∃ kid, s.kids = [kid]) : ∃ a, s.kids = [.text a] := by
  obtain ⟨kid, hkid⟩ := hsingle
  obtain ⟨tag, kids, line, maxLine⟩ := s
  cases htag
  rcases hs with ⟨content, rfl⟩ | ⟨first, between, tag, inner, l, m, rfl⟩
  · exact ⟨content, rfl⟩
  · simp at hkid

/-- What adding a part can do: the part is put behind the others, or it is a string that joins the
bare text or the string before it. -/
lemma absorb_cases {folded next : List Value} {part : Value} (h : absorb folded part = .ok next) :
    next = part :: folded ∨
      ∃ (s : Sexp) (last : Value) (before : List Value) (joined : Value),
        part = s.toValue ∧ s.tag = .str ∧ folded = last :: before ∧
        ((∃ a, last = .text a ∧ Value.join (.text a) s.value = .ok joined ∧
            next = joined :: before) ∨
          ∃ t replaced : Sexp, last = t.toValue ∧ t.tag = .str ∧ t.value.join s.value = .ok joined ∧
            t.replaceValue joined = .ok replaced ∧ next = replaced.toValue :: before) := by
  unfold absorb at h
  split at h
  · next s last before hs =>
    obtain rfl := Value.eq_toValue_of_asSexp? hs
    split at h
    · next htag =>
      have htag : s.tag = .str := by simpa using htag
      split at h
      · next _ a =>
        obtain ⟨joined, hjoined, h⟩ := exists_ok_of_bind h
        cases h
        exact Or.inr ⟨s, _, before, joined, rfl, htag, rfl, Or.inl ⟨a, rfl, hjoined, rfl⟩⟩
      · next t _ ht =>
        obtain rfl := Value.eq_toValue_of_asSexp? ht
        split at h
        · next htag' =>
          obtain ⟨joined, hjoined, h⟩ := exists_ok_of_bind h
          obtain ⟨replaced, hreplaced, h⟩ := exists_ok_of_bind h
          cases h
          exact Or.inr ⟨s, _, before, joined, rfl, htag, rfl,
            Or.inr ⟨t, replaced, rfl, by simpa using htag', hjoined, hreplaced, rfl⟩⟩
        · cases h
          exact Or.inl rfl
      · cases h
        exact Or.inl rfl
    · cases h
      exact Or.inl rfl
  · cases h
    exact Or.inl rfl

/-- **One step**: a part that is added brings its pieces, and no others change. -/
lemma absorb_pieces {folded next : List Value} {part : Value} (hf : FoldedKids folded.reverse)
    (hpart : part.Settled) (h : absorb folded part = .ok next) :
    FoldedKids next.reverse ∧
      Piece.ofKids next.reverse = Piece.ofKids folded.reverse ++ Piece.ofValue part := by
  rcases absorb_cases h with rfl | ⟨s, last, before, joined, rfl, htag, rfl, hjoin⟩
  · rw [List.reverse_cons]
    exact ⟨foldedKids_concat hf hpart, ofKids_concat hf part⟩
  rw [List.reverse_cons] at hf
  rcases hjoin with ⟨a, rfl, hjoined, rfl⟩ | ⟨t, replaced, rfl, htag', hjoined, hreplaced, rfl⟩
  · -- a bare text is the head: none is settled
    have hbefore : before.reverse = [] := by
      rcases foldedKids_of_concat hf with ⟨hbefore, -⟩ | ⟨-, hlast⟩
      · exact hbefore
      · cases hlast
    obtain rfl := List.reverse_eq_nil_iff.mp hbefore
    obtain ⟨b, hkids, rfl⟩ := value_of_settled_str hpart htag hjoined
    refine ⟨⟨_, [], rfl, by simp⟩, ?_⟩
    simp [Piece.ofKids, Piece.ofText_append, Piece.ofValue, Sexp.toValue, htag, hkids]
  · -- a string is not the head: it holds one text, which grows
    obtain ⟨hbefore, hlast⟩ : FoldedKids before.reverse ∧ t.toValue.Settled := by
      rcases foldedKids_of_concat hf with ⟨-, head, hhead⟩ | hboth
      · cases hhead
      · exact hboth
    obtain ⟨hsingle, rfl⟩ := kids_of_replaceValue hreplaced
    obtain ⟨a, ha⟩ := text_of_settled_single hlast htag' hsingle
    have hvalue : t.value = .text a := by simp [Sexp.value, ha]
    rw [hvalue] at hjoined
    obtain ⟨b, hkids, rfl⟩ := value_of_settled_str hpart htag hjoined
    simp only [List.reverse_cons, ofKids_concat hbefore, List.append_assoc]
    refine ⟨foldedKids_concat hbefore ?_, ?_⟩
    · simp only [Sexp.toValue, htag']
      exact Or.inl ⟨_, rfl⟩
    · simp [Piece.ofText_append, Piece.ofValue, Sexp.toValue, htag, htag', hkids, ha]

/-! ### All parts -/

lemma absorbAll_pieces {kids folded next : List Value} (hf : FoldedKids folded.reverse)
    (hkids : ∀ v ∈ kids, v.Settled) (h : kids.foldlM absorb folded = .ok next) :
    FoldedKids next.reverse ∧
      Piece.ofKids next.reverse = Piece.ofKids folded.reverse ++ kids.flatMap Piece.ofValue := by
  induction kids generalizing folded with
  | nil =>
    cases h
    simpa using hf
  | cons kid kids ih =>
    obtain ⟨middle, hmiddle, h⟩ := exists_ok_of_bind h
    obtain ⟨hfolded, hpieces⟩ := absorb_pieces hf (hkids kid (by simp)) hmiddle
    obtain ⟨hnext, hrest⟩ := ih hfolded (fun v hv => hkids v (by simp [hv])) h
    refine ⟨hnext, ?_⟩
    rw [hrest, hpieces, List.flatMap_cons, List.append_assoc]

def PartSettled (part : Tree) (v : Value) : Prop :=
  v.Settled ∧ (part.isA .interpolatedStringNode = true →
    ∀ kids line maxLine, v = .sexp .dstr kids line maxLine → FoldedKids kids)

variable {conv : Conversion} {scope : Scope}

lemma absorbTree_pieces {folded next : List Value} {part : Tree} (hf : FoldedKids folded.reverse)
    (hpart : ∀ v, conv scope part = .ok v → PartSettled part v)
    (h : absorbTree conv scope folded part = .ok next) :
    ∃ v, conv scope part = .ok v ∧ FoldedKids next.reverse ∧
      Piece.ofKids next.reverse = Piece.ofKids folded.reverse ++ Piece.ofPart part v := by
  obtain ⟨v, hv, h⟩ := exists_ok_of_bind h
  obtain ⟨hsettled, hnested⟩ := hpart v hv
  refine ⟨v, hv, ?_⟩
  split at h
  · next head rest line maxLine hkind =>
    -- the parts of a string inside the literal, behind its head unless that is empty
    obtain ⟨content, others, hkids, hothers⟩ := hnested hkind _ _ _ rfl
    cases hkids
    have hpieces : Piece.ofPart part (.sexp .dstr (.text content :: rest) line maxLine) =
        Piece.ofText content ++ rest.flatMap Piece.ofValue := by
      simp [Piece.ofPart, hkind, Piece.ofKids]
    rw [hpieces, ← List.append_assoc]
    split at h
    · obtain ⟨head, hhead, h⟩ := exists_ok_of_bind h
      obtain ⟨l, rfl⟩ := eq_sexp_of_build hhead
      obtain ⟨middle, hmiddle, h⟩ := exists_ok_of_bind h
      have hstring : (Value.sexp .str [.text content] l.startLine l.endLine).Settled :=
        Or.inl ⟨content, rfl⟩
      obtain ⟨hfolded, hpieces⟩ := absorb_pieces hf hstring hmiddle
      obtain ⟨hnext, hrest⟩ := absorbAll_pieces hfolded hothers h
      refine ⟨hnext, ?_⟩
      rw [hrest, hpieces]
      rfl
    · next hempty =>
      have hcontent : content = "" := by simpa [Value.truthy, Scalar.truthy] using hempty
      obtain ⟨hnext, hrest⟩ := absorbAll_pieces hf hothers h
      exact ⟨hnext, by simpa [hcontent, Piece.ofText] using hrest⟩
  · next v _ _ hother =>
    have hpieces : Piece.ofPart part v = Piece.ofValue v := by
      unfold Piece.ofPart
      split
      · next kids line maxLine hkind =>
        obtain ⟨head, rest, rfl, -⟩ := hnested hkind kids line maxLine rfl
        exact absurd rfl (hother (.text head) rest line maxLine hkind)
      · rfl
    rw [hpieces]
    exact absorb_pieces hf hsettled h

def partPieces (parts : List Tree) (converted : List Value) : List Piece :=
  (List.zipWith Piece.ofPart parts converted).flatten

lemma absorbTrees_pieces {parts : List Tree} {folded next : List Value}
    (hf : FoldedKids folded.reverse)
    (hparts : ∀ part ∈ parts, ∀ v, conv scope part = .ok v → PartSettled part v)
    (h : parts.foldlM (absorbTree conv scope) folded = .ok next) :
    ∃ converted, parts.mapM (conv scope) = .ok converted ∧ FoldedKids next.reverse ∧
      Piece.ofKids next.reverse = Piece.ofKids folded.reverse ++ partPieces parts converted := by
  induction parts generalizing folded with
  | nil =>
    cases h
    exact ⟨[], rfl, hf, by simp [partPieces]⟩
  | cons part parts ih =>
    obtain ⟨middle, hmiddle, h⟩ := exists_ok_of_bind h
    obtain ⟨v, hv, hfolded, hpieces⟩ := absorbTree_pieces hf (hparts part (by simp)) hmiddle
    obtain ⟨converted, hconverted, hnext, hrest⟩ :=
      ih hfolded (fun part hpart => hparts part (by simp [hpart])) h
    refine ⟨v :: converted, ?_, hnext, ?_⟩
    · rw [List.mapM_cons, hv, hconverted]
      rfl
    · rw [hrest, hpieces, List.append_assoc]
      rfl

/-- A string node converts to the text that it states. -/
def StringConverts (conv : Conversion) (scope : Scope) (part : Tree) : Prop :=
  part.isA .stringNode = true → ∃ content line maxLine,
    part.get .unescaped = .ok (.text content) ∧
    conv scope part = .ok (.sexp .str [.text content] line maxLine)

lemma foldParts_pieces {parts : List Tree} {folded : List Value}
    (hparts : ∀ part ∈ parts, ∀ v, conv scope part = .ok v → PartSettled part v)
    (hstrings : ∀ part ∈ parts, StringConverts conv scope part)
    (h : foldParts conv scope parts = .ok folded) :
    ∃ converted, parts.mapM (conv scope) = .ok converted ∧
      (folded = [] ∨ FoldedKids folded.reverse) ∧
      Piece.ofKids folded.reverse = partPieces parts converted := by
  cases parts with
  | nil =>
    cases h
    exact ⟨[], rfl, Or.inl rfl, rfl⟩
  | cons first rest =>
    have hrest : ∀ part ∈ rest, ∀ v, conv scope part = .ok v → PartSettled part v :=
      fun part hpart => hparts part (by simp [hpart])
    suffices hstart : ∃ start v, FoldedKids start.reverse ∧ conv scope first = .ok v ∧
        Piece.ofKids start.reverse = Piece.ofPart first v ∧
        rest.foldlM (absorbTree conv scope) start = .ok folded by
      obtain ⟨start, v, hf, hv, hpieces, h⟩ := hstart
      obtain ⟨converted, hconverted, hfolded, htotal⟩ := absorbTrees_pieces hf hrest h
      refine ⟨v :: converted, ?_, Or.inr hfolded, ?_⟩
      · rw [List.mapM_cons, hv, hconverted]
        rfl
      · rw [htotal, hpieces]
        rfl
    simp only [foldParts] at h
    split at h
    · next hfirst =>
      obtain ⟨content, line, maxLine, hget, hv⟩ := hstrings first (by simp) hfirst
      rw [hget] at h
      refine ⟨[.text content], _, ⟨content, [], rfl, by simp⟩, hv, ?_, h⟩
      simp [Piece.ofKids, Piece.ofPart, Piece.ofValue]
    · obtain ⟨start, hstart, h⟩ := exists_ok_of_bind h
      have hempty : FoldedKids [Value.text ""].reverse := ⟨"", [], rfl, by simp⟩
      obtain ⟨v, hv, hf, hpieces⟩ := absorbTree_pieces hempty (hparts first (by simp)) hstart
      exact ⟨start, v, hf, hv, by simpa [Piece.ofKids, Piece.ofText] using hpieces, h⟩

lemma interpolated_cases {n : Node} {form : Interpolated} {v : Value}
    (hparts : ∀ list parts, n.get .parts = .ok list → list.elements = .ok parts → ∀ part ∈ parts,
      StringConverts conv scope part ∧ ∀ v, conv scope part = .ok v → PartSettled part v)
    (h : interpolated conv scope n form = .ok v) :
    ∃ list parts converted, n.get .parts = .ok list ∧ list.elements = .ok parts ∧
      parts.mapM (conv scope) = .ok converted ∧
      ((∃ content, plainLiteral n form content = .ok v ∧
          Piece.ofText content = partPieces parts converted) ∨
        ∃ kids line maxLine, v = .sexp form.tag kids line maxLine ∧ FoldedKids kids ∧
          Piece.ofKids kids = partPieces parts converted) := by
  obtain ⟨list, hlist, h⟩ := exists_ok_of_bind h
  obtain ⟨parts, helements, h⟩ := exists_ok_of_bind h
  obtain ⟨folded, hfolded, h⟩ := exists_ok_of_bind h
  obtain ⟨converted, hconverted, hshape, hpieces⟩ := foldParts_pieces
    (fun part hpart => (hparts list parts hlist helements part hpart).2)
    (fun part hpart => (hparts list parts hlist helements part hpart).1) hfolded
  refine ⟨list, parts, converted, hlist, helements, hconverted, ?_⟩
  split at h
  · exact Or.inl ⟨"", h, hpieces⟩
  · next content => exact Or.inl ⟨content, h, by simpa [Piece.ofKids] using hpieces⟩
  · next hnil _ =>
    obtain ⟨l, rfl⟩ := eq_sexp_of_build h
    rcases hshape with rfl | hshape
    · exact absurd rfl hnil
    · exact Or.inr ⟨_, _, _, rfl, hshape, hpieces⟩

end Convert

/-! ### Trees with fields of their types -/

namespace Tree

open RubySexp.Convert

variable {tree : Tree} {scope : Scope}

lemma stringConverts (htyped : tree.Typed) :
    StringConverts (fun scope tree => tree.convert scope) scope tree := by
  intro hkind
  cases tree with
  | node kind location fields =>
    let n : Node := ⟨kind, location, fields⟩
    have hkind : n.kind = .stringNode := by simpa [isA] using hkind
    obtain ⟨role, hfits⟩ := Typed.fits_typed (n := n) htyped
    obtain ⟨-, hplace, -, -⟩ := fits_node.mp hfits
    have hcontent : (n.kind.contents role).lookup .unescaped = some .text := by rw [hkind]; rfl
    obtain ⟨part, hget, htext⟩ := exists_get_of_fits hfits hcontent
    obtain ⟨content, rfl⟩ := eq_text_of_holds htext
    obtain ⟨l, first, last, hl, -, -⟩ := Location.eq_some_of_isNumbered hplace
    refine ⟨content, l.startLine, l.endLine, hget, ?_⟩
    have hconvert := convert_node n scope
    simp only [rule, hkind, hget] at hconvert
    refine hconvert.trans ?_
    rw [hl]
    rfl
  | _ => cases hkind

lemma parts_settled {n : Node} (scope : Scope) (htyped : (ofNode n).Typed)
    (hnested : ∀ (scope : Scope) (part : Tree), part.height < (ofNode n).height → part.Typed →
      ∀ v, part.convert scope = .ok v → part.isA .interpolatedStringNode = true →
        ∀ kids line maxLine, v = .sexp .dstr kids line maxLine → FoldedKids kids) :
    ∀ list parts, n.get .parts = .ok list → list.elements = .ok parts → ∀ part ∈ parts,
      StringConverts (fun scope tree => tree.convert scope) scope part ∧
        ∀ v, part.convert scope = .ok v → PartSettled part v := by
  intro list parts hlist hparts part hpart
  have hpartTyped := (htyped.of_node_get hlist).of_elements hparts hpart
  have hheight := (height_le_of_elements hparts hpart).trans_lt (height_lt_of_node_get hlist)
  exact ⟨stringConverts hpartTyped, fun v hv =>
    ⟨convert_settles scope part hpartTyped v hv, hnested scope part hheight hpartTyped v hv⟩⟩

lemma foldedKids_of_convert (htyped : tree.Typed) (v : Value) (h : tree.convert scope = .ok v) :
    tree.isA .interpolatedStringNode = true →
      ∀ kids line maxLine, v = .sexp .dstr kids line maxLine → FoldedKids kids := by
  induction scope, tree using convert_induction generalizing v with
  | leaf scope tree htree =>
    intro hkind
    cases tree <;> cases htree <;> cases hkind
  | node scope n ih =>
    intro hkind kids line maxLine hv
    have hkind : n.kind = .interpolatedStringNode := by simpa [ofNode, isA] using hkind
    simp only [rule, hkind] at h
    obtain ⟨_, _, _, _, _, _, hcases⟩ := interpolated_cases (parts_settled scope htyped ih) h
    rcases hcases with ⟨content, hplain, -⟩ | ⟨kids', line', maxLine', heq, hfolded, -⟩
    · obtain ⟨l, rfl⟩ := eq_sexp_of_build hplain
      cases hv
    · rw [hv] at heq
      cases heq
      exact hfolded

end Tree

namespace Convert

def Interpolated.kind : Interpolated → Kind
  | .string => .interpolatedStringNode
  | .command => .interpolatedXStringNode
  | .symbol => .interpolatedSymbolNode
  | .regexp => .interpolatedRegularExpressionNode

lemma ofLiteral_plainLiteral {n : Node} {form : Interpolated} {content : String} {v : Value}
    (h : plainLiteral n form content = .ok v) :
    Piece.ofLiteral form v = Piece.ofText content ∧
      ∀ kids line maxLine, v ≠ .sexp form.tag kids line maxLine := by
  cases form with
  | string | command | symbol =>
    obtain ⟨l, rfl⟩ := eq_sexp_of_build h
    exact ⟨rfl, nofun⟩
  | regexp =>
    obtain ⟨options, -, h⟩ := exists_ok_of_bind h
    obtain ⟨l, rfl⟩ := eq_sexp_of_build h
    exact ⟨rfl, nofun⟩

lemma withoutOptions_foldedKids {kids : List Value} (h : FoldedKids kids) :
    Piece.withoutOptions kids = kids := by
  unfold Piece.withoutOptions
  split
  · next option hlast =>
    obtain ⟨before, rfl⟩ := List.getLast?_eq_some_iff.mp hlast
    rcases foldedKids_of_concat h with ⟨-, head, heq⟩ | ⟨-, hsettled⟩
    · cases heq
    · cases hsettled
  · rfl

lemma withoutOptions_concat (kids : List Value) (options : Int) :
    Piece.withoutOptions (kids ++ [.int options]) = kids := by
  simp [Piece.withoutOptions]

variable {conv : Conversion} {scope : Scope} {n : Node}

lemma ofLiteral_folded (form : Interpolated) {kids : List Value} (h : FoldedKids kids)
    (line maxLine : Json) :
    Piece.ofLiteral form (.sexp form.tag kids line maxLine) = Piece.ofKids kids := by
  cases form with
  | string | command | symbol => rfl
  | regexp => exact congrArg Piece.ofKids (withoutOptions_foldedKids h)

lemma ofLiteral_interpolatedRegexp {v : Value} (h : interpolatedRegexp conv scope n = .ok v) :
    ∃ literal, interpolated conv scope n .regexp = .ok literal ∧
      ((∀ kids line maxLine, literal = .sexp .dregx kids line maxLine → FoldedKids kids) →
        Piece.ofLiteral .regexp v = Piece.ofLiteral .regexp literal) := by
  obtain ⟨literal, hliteral, h⟩ := exists_ok_of_bind h
  refine ⟨literal, hliteral, fun hfolded => ?_⟩
  split at h
  · next kids line maxLine =>
    have hkids := withoutOptions_foldedKids (hfolded kids line maxLine rfl)
    obtain ⟨options, -, h⟩ := exists_ok_of_bind h
    obtain ⟨once, -, h⟩ := exists_ok_of_bind h
    cases h
    have hpieces : Piece.withoutOptions
        (if options = 0 then kids else kids ++ [.int options]) = kids := by
      split
      · exact hkids
      · exact withoutOptions_concat kids options
    split <;> simp only [Piece.ofLiteral, hpieces, hkids]
  · cases h
    rfl

lemma ofLiteral_interpolated (form : Interpolated) {v : Value} (htyped : (Tree.ofNode n).Typed)
    (h : interpolated (fun scope tree => tree.convert scope) scope n form = .ok v) :
    (∀ kids line maxLine, v = .sexp form.tag kids line maxLine → FoldedKids kids) ∧
    ∃ list parts converted, n.get .parts = .ok list ∧ list.elements = .ok parts ∧
      parts.mapM (fun part => part.convert scope) = .ok converted ∧
      Piece.ofLiteral form v = partPieces parts converted := by
  have hsettled := Tree.parts_settled scope htyped fun _ _ _ => Tree.foldedKids_of_convert
  obtain ⟨list, parts, converted, hlist, hparts, hconverted, hcases⟩ :=
    interpolated_cases hsettled h
  rcases hcases with ⟨content, hplain, hpieces⟩ | ⟨kids, line, maxLine, rfl, hfolded, hpieces⟩
  · refine ⟨?_, list, parts, converted, hlist, hparts, hconverted, ?_⟩
    · intro kids line maxLine heq
      exact absurd heq ((ofLiteral_plainLiteral hplain).2 kids line maxLine)
    · rw [(ofLiteral_plainLiteral hplain).1, hpieces]
  · refine ⟨?_, list, parts, converted, hlist, hparts, hconverted, ?_⟩
    · intro kids' line' maxLine' heq
      cases heq
      exact hfolded
    · rw [ofLiteral_folded form hfolded, hpieces]

/-- **Interpolation keeps the content**: whatever the parts of a literal are, if it has a
conversion, so has each part, and the literal has the pieces of its parts in their order. -/
theorem convert_keeps_pieces (form : Interpolated) {v : Value} (hkind : n.kind = form.kind)
    (htyped : (Tree.ofNode n).Typed) (h : (Tree.ofNode n).convert scope = .ok v) :
    ∃ parts converted, n.get .parts = .ok (.tuple parts) ∧
      parts.mapM (fun part => part.convert scope) = .ok converted ∧
      Piece.ofLiteral form v = partPieces parts converted := by
  obtain ⟨role, hfits⟩ := htyped.fits_typed
  have hcontent : (n.kind.contents role).lookup .parts = some (.many .expression) := by
    cases form <;> rw [hkind] <;> rfl
  obtain ⟨tree, hget, htree⟩ := Tree.exists_get_of_fits hfits hcontent
  obtain ⟨parts, rfl, -, -⟩ := Tree.eq_tuple_of_holds htree rfl
  suffices hpieces : ∃ list parts converted, n.get .parts = .ok list ∧ list.elements = .ok parts ∧
      parts.mapM (fun part => part.convert scope) = .ok converted ∧
      Piece.ofLiteral form v = partPieces parts converted by
    obtain ⟨list, parts', converted, hlist, hparts, hconverted, hpieces⟩ := hpieces
    cases hget.symm.trans hlist
    cases hparts
    exact ⟨parts, converted, hget, hconverted, hpieces⟩
  rw [Tree.convert_node] at h
  cases form with
  | string | command | symbol =>
    simp only [rule, hkind, Interpolated.kind] at h
    exact (ofLiteral_interpolated _ htyped h).2
  | regexp =>
    simp only [rule, hkind, Interpolated.kind] at h
    obtain ⟨literal, hliteral, hv⟩ := ofLiteral_interpolatedRegexp h
    obtain ⟨hfolded, hpieces⟩ := ofLiteral_interpolated _ htyped hliteral
    rwa [hv hfolded]

/-- A string directly among the parts of a regular expression is taken apart, and its texts join
those around it. -/
theorem convert_keeps_pieces_nested :
    let text (s : String) : Tree := .node .stringNode (some {}) [(.unescaped, .text s)]
    let x : Tree := .node .instanceVariableReadNode (some {}) [(.name, .text "@x")]
    let inner : Tree := .node .interpolatedStringNode (some {}) [(.parts, .tuple
      [text "b", .node .embeddedVariableNode (some {}) [(.variable, x)], text "c"])]
    let n : Node := ⟨.interpolatedRegularExpressionNode, some {},
      [(.ignoreCase, .bool true), (.extended, .bool false), (.multiLine, .bool false),
        (.ascii8bit, .bool false), (.once, .bool true),
        (.parts, .tuple [text "a", inner, text "d"])]⟩
    let one : Json := .scalar (.int 1)
    let v : Value := .sexp .dregxOnce
      [.text "ab", .sexp .evstr [.sexp .ivar [.sym "@x"] one one] one one,
        .sexp .str [.text "cd"] one one, .int 1] one one
    n.kind = Interpolated.kind .regexp ∧ (Tree.ofNode n).Typed ∧
      (Tree.ofNode n).convert {} = .ok v ∧
      ∃ parts converted, n.get .parts = .ok (.tuple parts) ∧
        parts.mapM (fun part => part.convert {}) = .ok converted ∧
        Piece.ofLiteral .regexp v = partPieces parts converted := by
  intro text x inner n one v
  have htyped : (Tree.ofNode n).Typed := ⟨.one .expression, by decide +kernel⟩
  have hconvert : (Tree.ofNode n).convert {} = .ok v := rfl
  exact ⟨rfl, htyped, hconvert, convert_keeps_pieces .regexp rfl htyped hconvert⟩

end Convert

end RubySexp
