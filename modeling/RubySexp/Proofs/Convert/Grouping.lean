import Mathlib
import RubySexp.Proofs.Convert.NormalForm
import RubySexp.Proofs.Value.Equality

/-!
# Grouping of Strings Does Not Matter

A string with parts among the parts of a literal is folded by itself first, and then added to the
literal part by part. The outcome is the same as if its parts had stood in the literal directly.

What the fold does is replayed piece by piece: a character grows the text on top of a stack, or
starts one, and what is computed goes on top. The fold ends with the stack of all its pieces, up to
lines. So its outcome depends on the pieces of the parts alone, and a group has the pieces of the
parts that it holds. All this is so as long as no string is empty, since an empty one can be left as
a part of its own, and as long as strings hold one text.
-/

namespace RubySexp

namespace Convert

/-! ### Stacks of pieces -/

inductive Slot where
  | text (content : List Char)
  | computed (v : Value)

/-- What a folded part is, lines apart. -/
def Slot.ofValue : Value → Slot
  | .text content => .text content.toList
  | .sexp .str [.text content] _ _ => .text content.toList
  | v => .computed v

/-- A piece goes on top of a stack. A character joins the text there. -/
def push : List Slot → Piece → List Slot
  | .text content :: below, .char c => .text (content ++ [c]) :: below
  | slots, .char c => .text [c] :: slots
  | slots, .computed v => .computed v :: slots

def pushAll (slots : List Slot) (pieces : List Piece) : List Slot := pieces.foldl push slots

@[simp] lemma pushAll_nil (slots : List Slot) : pushAll slots [] = slots := rfl

@[simp] lemma pushAll_cons (slots : List Slot) (piece : Piece) (pieces : List Piece) :
    pushAll slots (piece :: pieces) = pushAll (push slots piece) pieces := rfl

lemma pushAll_append (slots : List Slot) (a b : List Piece) :
    pushAll slots (a ++ b) = pushAll (pushAll slots a) b := List.foldl_append

@[simp] lemma push_computed (slots : List Slot) (v : Value) :
    push slots (.computed v) = .computed v :: slots := by
  rcases slots with _ | ⟨_ | _, _⟩ <;> rfl

lemma pushAll_text (content : List Char) (below : List Slot) (s : String) :
    pushAll (.text content :: below) (Piece.ofText s) = .text (content ++ s.toList) :: below := by
  unfold Piece.ofText
  generalize s.toList = cs
  induction cs generalizing content with
  | nil => simp
  | cons c cs ih => simpa [push] using ih (content ++ [c])

lemma pushAll_text_computed (v : Value) (below : List Slot) {s : String} (hs : s ≠ "") :
    pushAll (.computed v :: below) (Piece.ofText s) = .text s.toList :: .computed v :: below := by
  obtain ⟨c, cs, hcs⟩ := List.exists_cons_of_ne_nil (by simpa using hs : s.toList ≠ [])
  have hrest := pushAll_text [c] (.computed v :: below) (String.ofList cs)
  simp only [Piece.ofText, String.toList_ofList] at hrest
  simpa only [Piece.ofText, hcs, List.map_cons, pushAll_cons, push, List.singleton_append]
    using hrest

/-! ### The fold as a stack of pieces -/

/-- What a part leaves in a literal: a string with one text that is not empty, or something computed
that is equal to itself. -/
inductive Neat : Value → Prop
  | string {content line maxLine} : content ≠ "" → Neat (.sexp .str [.text content] line maxLine)
  | computed {v} : v.isA [.evstr] = true → v.Equal v → Neat v

/-- Folded parts, latest first, above the bare text. -/
def Stacked (folded : List Value) : Prop :=
  ∃ head above, folded = above ++ [.text head] ∧ ∀ v ∈ above, Neat v

def slots (folded : List Value) : List Slot := folded.map Slot.ofValue

inductive PartNeat (part : Tree) : Value → Prop
  | single {v} : Neat v → PartNeat part v
  | nested {head rest line maxLine} {l : Location} : part.isA .interpolatedStringNode = true →
    part.location? = some l → rest ≠ [] → (∀ kid ∈ rest, Neat kid) →
    PartNeat part (.sexp .dstr (.text head :: rest) line maxLine)

variable {folded : List Value} {v : Value}

lemma Stacked.cons (h : Stacked folded) (hv : Neat v) : Stacked (v :: folded) := by
  obtain ⟨head, above, rfl, habove⟩ := h
  exact ⟨head, v :: above, rfl, List.forall_mem_cons.mpr ⟨hv, habove⟩⟩

lemma ofValue_computed (h : v.isA [.evstr] = true) :
    Slot.ofValue v = .computed v ∧ Piece.ofValue v = [.computed v] := by
  obtain ⟨kids, line, maxLine, rfl⟩ := Value.eq_sexp_of_isA h
  exact ⟨rfl, rfl⟩

lemma absorb_neat (hf : Stacked folded) (hv : Neat v) :
    ∃ next, absorb folded v = .ok next ∧ Stacked next ∧
      slots next = pushAll (slots folded) (Piece.ofValue v) := by
  cases hv with
  | computed hcomputed hself =>
    refine ⟨_, absorb_computed hcomputed, hf.cons (.computed hcomputed hself), ?_⟩
    obtain ⟨hslot, hpiece⟩ := ofValue_computed hcomputed
    simp [slots, hslot, hpiece]
  | @string content line maxLine hcontent =>
    have hstacked := hf
    obtain ⟨head, above, rfl, habove⟩ := hf
    rcases above with _ | ⟨top, above⟩
    · refine ⟨[.text (head ++ content)], rfl, ⟨_, [], rfl, List.forall_mem_nil _⟩, ?_⟩
      change [Slot.text (head ++ content).toList] =
        pushAll [.text head.toList] (Piece.ofText content)
      rw [pushAll_text, String.toList_append]
    · obtain ⟨htop, hothers⟩ := List.forall_mem_cons.mp habove
      cases htop with
      | @string last line' maxLine' hlast =>
        refine ⟨.sexp .str [.text (last ++ content)] line' maxLine' :: (above ++ [.text head]), rfl,
          ⟨head, _ :: above, rfl, List.forall_mem_cons.mpr ⟨.string ?_, hothers⟩⟩, ?_⟩
        · simp [hlast]
        · change .text (last ++ content).toList :: slots (above ++ [.text head]) =
            pushAll (.text last.toList :: slots (above ++ [.text head])) (Piece.ofText content)
          rw [pushAll_text, String.toList_append]
      | computed hcomputed hself =>
        refine ⟨.sexp .str [.text content] line maxLine :: (top :: above ++ [.text head]), ?_,
          hstacked.cons (.string hcontent), ?_⟩
        · obtain ⟨kids, l, m, rfl⟩ := Value.eq_sexp_of_isA hcomputed
          rfl
        · change .text content.toList :: Slot.ofValue top :: slots (above ++ [.text head]) =
            pushAll (Slot.ofValue top :: slots (above ++ [.text head])) (Piece.ofText content)
          rw [(ofValue_computed hcomputed).1, pushAll_text_computed _ _ hcontent]

lemma absorbAll_neat {kids : List Value} (hf : Stacked folded) (hkids : ∀ kid ∈ kids, Neat kid) :
    ∃ next, kids.foldlM absorb folded = .ok next ∧ Stacked next ∧
      slots next = pushAll (slots folded) (kids.flatMap Piece.ofValue) := by
  induction kids generalizing folded with
  | nil => exact ⟨folded, rfl, hf, rfl⟩
  | cons kid kids ih =>
    obtain ⟨hkid, hothers⟩ := List.forall_mem_cons.mp hkids
    obtain ⟨middle, hmiddle, hstacked, hslots⟩ := absorb_neat hf hkid
    obtain ⟨next, hnext, hstacked, hrest⟩ := ih hstacked hothers
    refine ⟨next, ?_, hstacked, ?_⟩
    · rw [List.foldlM_cons, hmiddle]
      exact hnext
    · rw [hrest, hslots, List.flatMap_cons, pushAll_append]

variable {conv : Conversion} {scope : Scope} {part : Tree}

lemma ofPart_of_neat (h : Neat v) : Piece.ofPart part v = Piece.ofValue v := by
  cases h with
  | string => cases hkind : part.isA .interpolatedStringNode <;> simp [Piece.ofPart, hkind]
  | computed hcomputed =>
    obtain ⟨kids, line, maxLine, rfl⟩ := Value.eq_sexp_of_isA hcomputed
    cases hkind : part.isA .interpolatedStringNode <;> simp [Piece.ofPart, hkind]

lemma absorbTree_neat (hf : Stacked folded) (hconv : conv scope part = .ok v)
    (hpart : PartNeat part v) :
    ∃ next, absorbTree conv scope folded part = .ok next ∧ Stacked next ∧
      slots next = pushAll (slots folded) (Piece.ofPart part v) := by
  unfold absorbTree
  rw [hconv]
  cases hpart with
  | single hv =>
    rw [ofPart_of_neat hv]
    obtain ⟨next, hnext, hstacked⟩ := absorb_neat hf hv
    refine ⟨next, ?_, hstacked⟩
    cases hv with
    | string => cases part.isA .interpolatedStringNode <;> exact hnext
    | computed hcomputed =>
      obtain ⟨kids, line, maxLine, rfl⟩ := Value.eq_sexp_of_isA hcomputed
      cases part.isA .interpolatedStringNode <;> exact hnext
  | @nested head rest line maxLine l hkind hplace _ hrest =>
    rw [hkind, hplace]
    have hpieces : Piece.ofPart part (.sexp .dstr (.text head :: rest) line maxLine) =
        Piece.ofText head ++ rest.flatMap Piece.ofValue := by
      simp [Piece.ofPart, hkind, Piece.ofKids]
    rw [hpieces, pushAll_append]
    by_cases hhead : head = ""
    · subst hhead
      exact absorbAll_neat hf hrest
    · have hstring : Neat (.sexp .str [.text head] l.startLine l.endLine) := .string hhead
      obtain ⟨middle, hmiddle, hstacked, hslots⟩ := absorb_neat hf hstring
      obtain ⟨next, hnext, hstacked, hall⟩ := absorbAll_neat hstacked hrest
      refine ⟨next, ?_, hstacked, ?_⟩
      · have htruthy : (Value.text head).truthy = true := by
          simpa [Value.truthy, Scalar.truthy] using hhead
        change (if (Value.text head).truthy then _ else _) = _
        rw [if_pos htruthy]
        change (absorb folded (.sexp .str [.text head] l.startLine l.endLine) >>= _) = _
        rw [hmiddle]
        exact hnext
      · rw [hall, hslots]
        rfl

structure Takes (conv : Conversion) (scope : Scope) (part : Tree) (v : Value) : Prop where
  converts : conv scope part = .ok v
  neat : PartNeat part v
  text : StringConverts conv scope part

variable {parts : List Tree} {converted : List Value}

/-- **A whole run** leaves the pieces of all parts. -/
lemma absorbTrees_neat (hf : Stacked folded) (h : List.Forall₂ (Takes conv scope) parts converted) :
    ∃ next, parts.foldlM (absorbTree conv scope) folded = .ok next ∧ Stacked next ∧
      slots next = pushAll (slots folded) (partPieces parts converted) := by
  induction h generalizing folded with
  | nil => exact ⟨folded, rfl, hf, rfl⟩
  | cons hpart _ ih =>
    obtain ⟨middle, hmiddle, hstacked, hslots⟩ := absorbTree_neat hf hpart.converts hpart.neat
    obtain ⟨next, hnext, hstacked, hrest⟩ := ih hstacked
    refine ⟨next, ?_, hstacked, ?_⟩
    · rw [List.foldlM_cons, hmiddle]
      exact hnext
    · rw [hrest, hslots, ← pushAll_append]
      rfl

theorem foldParts_neat (h : List.Forall₂ (Takes conv scope) parts converted) (hne : parts ≠ []) :
    ∃ folded, foldParts conv scope parts = .ok folded ∧ Stacked folded ∧
      slots folded = pushAll [.text []] (partPieces parts converted) := by
  cases h with
  | nil => exact absurd rfl hne
  | @cons first v rest others hfirst hrest =>
    by_cases hkind : first.isA .stringNode = true
    · -- The first string is taken as the text that it states, without a conversion.
      obtain ⟨content, line, maxLine, hget, hv⟩ := hfirst.text hkind
      cases hv.symm.trans hfirst.converts
      have hstart : Stacked [.text content] := ⟨content, [], rfl, List.forall_mem_nil _⟩
      obtain ⟨folded, hfolded, hstacked, hslots⟩ := absorbTrees_neat hstart hrest
      refine ⟨folded, ?_, hstacked, ?_⟩
      · rw [foldParts, if_pos hkind, hget]
        exact hfolded
      · have hpieces : Piece.ofPart first (.sexp .str [.text content] line maxLine) =
            Piece.ofText content := by
          cases hnested : first.isA .interpolatedStringNode <;>
            simp [Piece.ofPart, hnested, Piece.ofValue]
        rw [hslots]
        change _ = pushAll _ (Piece.ofPart first _ ++ partPieces rest others)
        rw [hpieces, pushAll_append, pushAll_text]
        rfl
    · have hempty : Stacked [.text ""] := ⟨"", [], rfl, List.forall_mem_nil _⟩
      obtain ⟨folded, hfolded, hstacked, hslots⟩ := absorbTrees_neat hempty (.cons hfirst hrest)
      refine ⟨folded, ?_, hstacked, hslots⟩
      rw [foldParts, if_neg hkind]
      exact hfolded

/-! ### Groups -/

lemma Neat.settled (h : Neat v) : v.Settled := by
  cases h with
  | string => exact .inl ⟨_, rfl⟩
  | computed hcomputed =>
    obtain ⟨kids, line, maxLine, rfl⟩ := Value.eq_sexp_of_isA hcomputed
    exact Value.settled_sexp (by decide) _ _ _

lemma Neat.pieces_ne_nil (h : Neat v) : Piece.ofValue v ≠ [] := by
  cases h with
  | string hcontent => simpa [Piece.ofValue, Piece.ofText] using hcontent
  | computed hcomputed => simp [(ofValue_computed hcomputed).2]

lemma PartNeat.settled (h : PartNeat part v) : PartSettled part v := by
  cases h with
  | single hv =>
    refine ⟨hv.settled, fun _ kids line maxLine heq => ?_⟩
    subst heq
    obtain _ | ⟨hcomputed, -⟩ := hv
    cases hcomputed
  | nested _ _ _ hrest =>
    refine ⟨Value.settled_sexp (by decide) _ _ _, fun _ kids line maxLine heq => ?_⟩
    cases heq
    exact ⟨_, _, rfl, fun kid hkid => (hrest kid hkid).settled⟩

lemma PartNeat.pieces_ne_nil (h : PartNeat part v) : Piece.ofPart part v ≠ [] := by
  cases h with
  | single hv =>
    rw [ofPart_of_neat hv]
    exact hv.pieces_ne_nil
  | nested hkind _ hne hrest =>
    obtain ⟨kid, kids, rfl⟩ := List.exists_cons_of_ne_nil hne
    have hkid := (List.forall_mem_cons.mp hrest).1.pieces_ne_nil
    simp [Piece.ofPart, hkind, Piece.ofKids, hkid]

lemma exists_takes (h : List.Forall₂ (Takes conv scope) parts converted) :
    ∀ part ∈ parts, ∃ v, Takes conv scope part v := by
  induction h with
  | nil => exact List.forall_mem_nil _
  | cons hpart _ ih => exact List.forall_mem_cons.mpr ⟨⟨_, hpart⟩, ih⟩

lemma pieces_of_takes (h : List.Forall₂ (Takes conv scope) parts converted)
    (hfold : foldParts conv scope parts = .ok folded) :
    Piece.ofKids folded.reverse = partPieces parts converted := by
  have hconverted : parts.mapM (conv scope) = .ok converted :=
    mapM_eq_ok_iff.mpr (h.imp fun _ _ hpart => hpart.converts)
  have hsettled : ∀ part ∈ parts, ∀ v, conv scope part = .ok v → PartSettled part v := by
    intro part hpart v hv
    obtain ⟨w, hw⟩ := exists_takes h part hpart
    cases hv.symm.trans hw.converts
    exact hw.neat.settled
  have hstrings : ∀ part ∈ parts, StringConverts conv scope part := by
    intro part hpart
    obtain ⟨w, hw⟩ := exists_takes h part hpart
    exact hw.text
  obtain ⟨converted', hconverted', -, hpieces⟩ := foldParts_pieces hsettled hstrings hfold
  cases hconverted.symm.trans hconverted'
  exact hpieces

lemma partPieces_ne_nil (h : List.Forall₂ (Takes conv scope) parts converted) (hne : parts ≠ []) :
    partPieces parts converted ≠ [] := by
  cases h with
  | nil => exact absurd rfl hne
  | cons hfirst _ => exact List.append_ne_nil_of_left_ne_nil hfirst.neat.pieces_ne_nil _

variable {n : Node} {form : Interpolated} {head : String} {above : List Value}

lemma interpolated_of_bare (hget : n.get .parts = .ok (.tuple parts))
    (hfold : foldParts conv scope parts = .ok [.text head]) :
    interpolated conv scope n form = plainLiteral n form head := by
  unfold interpolated
  rw [hget]
  change (foldParts conv scope parts >>= _) = _
  rw [hfold]
  rfl

lemma interpolated_of_folded (hget : n.get .parts = .ok (.tuple parts))
    (hfold : foldParts conv scope parts = .ok (above ++ [.text head])) (hne : above ≠ []) :
    interpolated conv scope n form =
      build n.location form.tag (.text head :: above.reverse) := by
  unfold interpolated
  rw [hget]
  change (foldParts conv scope parts >>= _) = _
  rw [hfold]
  dsimp only [bind, Except.bind]
  split
  · next heq => simp at heq
  · next heq => exact absurd (List.append_eq_singleton_iff.mp heq) (by simp [hne])
  · rw [List.reverse_append]
    rfl

/-- **A group** of parts that the fold can take is one itself, and has the pieces of its parts. -/
lemma takes_group {l : Location} (hkind : part.isA .interpolatedStringNode = true)
    (hplace : part.location? = some l) (hget : part.get .parts = .ok (.tuple parts))
    (hne : parts ≠ [])
    (h : List.Forall₂ (Takes (fun scope tree => tree.convert scope) scope) parts converted) :
    ∃ v, Takes (fun scope tree => tree.convert scope) scope part v ∧
      Piece.ofPart part v = partPieces parts converted := by
  obtain ⟨folded, hfolded, ⟨head, above, rfl, habove⟩, -⟩ := foldParts_neat h hne
  have hpieces := pieces_of_takes h hfolded
  have hstring : StringConverts (fun scope tree => tree.convert scope) scope part :=
    fun hother => by cases Tree.eq_of_isA hkind hother
  obtain ⟨location, fields, rfl⟩ := Tree.exists_of_isA hkind
  cases hplace
  rcases above with _ | ⟨top, above⟩
  · -- Nothing is computed: the group is a string, which is not empty.
    have hhead : head ≠ "" := by
      rintro rfl
      exact partPieces_ne_nil h hne hpieces.symm
    have hneat : Neat (.sexp .str [.text head] l.startLine l.endLine) := .string hhead
    refine ⟨_, ⟨?_, .single hneat, hstring⟩, ?_⟩
    · rw [Tree.convert_node]
      exact interpolated_of_bare hget hfolded
    · rw [← hpieces, ofPart_of_neat hneat]
      exact (List.append_nil _).symm
  · refine ⟨.sexp .dstr (.text head :: (top :: above).reverse) l.startLine l.endLine,
      ⟨?_, .nested hkind rfl (by simp) fun kid hkid => habove kid (List.mem_reverse.mp hkid),
        hstring⟩, ?_⟩
    · rw [Tree.convert_node]
      exact interpolated_of_folded hget hfolded (List.cons_ne_nil _ _)
    · rw [← hpieces, List.reverse_append]
      rfl

end Convert

/-! ### Parts at any level -/

/-- A value that, if it is a string, holds one text that is not empty, and that is equal to
itself. -/
def Value.Regular (v : Value) : Prop :=
  (v.isA [.str] = true → ∃ content line maxLine,
    v = .sexp .str [.text content] line maxLine ∧ content ≠ "") ∧ v.Equal v

namespace Tree

open RubySexp.Convert

/-- A tree is a part, or one of the parts that it has at any level, being a string with parts. -/
inductive PartOf : Tree → Tree → Prop
  | self (part : Tree) : PartOf part part
  | inner {p t part : Tree} {inner : List Tree} : part.isA .interpolatedStringNode = true →
    part.get .parts = .ok (.tuple inner) → t ∈ inner → PartOf p t → PartOf p part

variable {part : Tree} {scope : Scope} {v : Value} {n : Node}

lemma PartOf.eq_self {p : Tree} (h : p.PartOf part)
    (hkind : part.isA .interpolatedStringNode = false) : p = part := by
  cases h with
  | self => rfl
  | inner hnested => exact absurd (hnested.symm.trans hkind) (by decide)

lemma PartOf.typed {p : Tree} (h : p.PartOf part) (htyped : part.Typed) : p.Typed := by
  induction h with
  | self => exact htyped
  | inner hkind hget ht _ ih =>
    obtain ⟨location, fields, rfl⟩ := exists_of_isA hkind
    exact ih ((htyped.of_node_get hget).of_elements rfl ht)

lemma Typed.exists_location (h : (ofNode n).Typed) : ∃ l, n.location = some l := by
  obtain ⟨role, hfits⟩ := h.fits_typed
  obtain ⟨l, -, -, hl, -⟩ := Location.eq_some_of_isNumbered (fits_node.mp hfits).2.1
  exact ⟨l, hl⟩

lemma regular_of_single (htyped : part.Typed) (hv : part.convert scope = .ok v)
    (hempty : ∀ line maxLine, v ≠ .sexp .str [.text ""] line maxLine)
    (hsingle : ∀ kids line maxLine, v = .sexp .str kids line maxLine → kids.length = 1)
    (hself : v.Equal v) : v.Regular := by
  refine ⟨fun hstr => ?_, hself⟩
  obtain ⟨kids, line, maxLine, rfl⟩ := Value.eq_sexp_of_isA hstr
  have hone := hsingle kids line maxLine rfl
  rcases convert_settles scope part htyped _ hv with
    ⟨content, rfl⟩ | ⟨first, between, tag, inner, l, m, rfl⟩
  · refine ⟨content, line, maxLine, rfl, ?_⟩
    rintro rfl
    exact hempty line maxLine rfl
  · simp at hone

lemma neat_of_regular (hv : v.Regular) (h : isStr v = true ∨ v.isA [.evstr] = true) : Neat v := by
  rcases h with hstr | hcomputed
  · obtain ⟨content, line, maxLine, rfl, hcontent⟩ := hv.1 hstr
    exact .string hcontent
  · exact .computed hcomputed hv.2

lemma LiteralPart.takes (h : part.LiteralPart) (htyped : part.Typed)
    (hregular : ∀ p : Tree, p.PartOf part → ∀ v, p.convert scope = .ok v → v.Regular)
    (hv : part.convert scope = .ok v) :
    Takes (fun scope tree => tree.convert scope) scope part v := by
  have hself := hregular part (.self part) v hv
  induction h generalizing v with
  | string hkind _ =>
    exact ⟨hv, .single (neat_of_regular hself (.inl (isStr_of_string hkind hv))),
      stringConverts htyped⟩
  | embeddedStatements hkind =>
    have hkinds := (convert_embeddedStatements hkind hv).imp And.left And.left
    exact ⟨hv, .single (neat_of_regular hself hkinds), stringConverts htyped⟩
  | embeddedVariable hkind =>
    have hcomputed := convert_embeddedVariable hkind hv
    exact ⟨hv, .single (neat_of_regular hself (.inr hcomputed)), stringConverts htyped⟩
  | @nested part inner hkind hget _ ih =>
    obtain ⟨location, fields, rfl⟩ := exists_of_isA hkind
    have hliteral := hv
    rw [convert_node] at hliteral
    obtain ⟨-, list, parts, converted, hlist, hparts, hconverted, -⟩ :=
      ofLiteral_interpolated .string htyped hliteral
    cases hget.symm.trans hlist
    cases hparts
    have hitem : ∀ t ∈ inner, ∀ w, t.convert scope = .ok w →
        Takes (fun scope tree => tree.convert scope) scope t w := by
      intro t ht w hw
      have htypedItem := (htyped.of_node_get hlist).of_elements rfl ht
      have hbelow : ∀ p : Tree, p.PartOf t → ∀ v, p.convert scope = .ok v → v.Regular :=
        fun p hp => hregular p (.inner hkind hget ht hp)
      exact ih t ht htypedItem hbelow hw (hbelow t (.self t) w hw)
    have htakes := ((List.forall₂_and_left _ _).mpr ⟨hitem, mapM_eq_ok_iff.mp hconverted⟩).imp
      fun t w h => h.1 w h.2
    have hne : inner ≠ [] := by
      -- A string without parts is empty.
      rintro rfl
      obtain ⟨_, hlist, hliteral⟩ := exists_ok_of_bind hliteral
      cases hget.symm.trans hlist
      obtain ⟨l, rfl⟩ := eq_sexp_of_build hliteral
      obtain ⟨content, line, maxLine, heq, hcontent⟩ := hself.1 rfl
      cases heq
      exact hcontent rfl
    obtain ⟨l, hl⟩ := htyped.exists_location
    obtain ⟨w, hw, -⟩ := takes_group hkind hl hget hne htakes
    cases hv.symm.trans hw.converts
    exact hw

end Tree

namespace Convert

/-! ### Literals with the same pieces -/

variable {folded folded' : List Value} {n n' : Node} {scope : Scope}

lemma equal_of_slot {v w : Value} (hv : Neat v) (hw : Neat w)
    (h : Slot.ofValue v = Slot.ofValue w) : v.Equal w := by
  cases hv with
  | string =>
    cases hw with
    | string =>
      obtain rfl := String.toList_injective (Slot.text.inj h)
      exact Value.equal_sexp.mpr ⟨rfl, .cons ⟨rfl, by simp [Value.same, Scalar.same]⟩ .nil⟩
    | computed hcomputed =>
      rw [(ofValue_computed hcomputed).1] at h
      cases h
  | computed hcomputed hself =>
    rw [(ofValue_computed hcomputed).1] at h
    cases hw with
    | string => cases h
    | computed hcomputed' =>
      rw [(ofValue_computed hcomputed').1] at h
      cases h
      exact hself

lemma equal_of_slots {above above' : List Value} (h : ∀ v ∈ above, Neat v)
    (h' : ∀ v ∈ above', Neat v) (hslots : slots above = slots above') :
    List.Forall₂ Value.Equal above above' := by
  induction above generalizing above' with
  | nil =>
    obtain rfl := List.map_eq_nil_iff.mp hslots.symm
    exact .nil
  | cons v above ih =>
    obtain ⟨w, others, rfl, hslot, hrest⟩ := List.map_eq_cons_iff.mp hslots.symm
    rw [List.forall_mem_cons] at h h'
    exact .cons (equal_of_slot h.1 h'.1 hslot.symm) (ih h.2 h'.2 hrest.symm)

lemma Stacked.equal_above (h : Stacked folded) (h' : Stacked folded')
    (hslots : slots folded = slots folded') :
    ∃ head above above', folded = above ++ [.text head] ∧ folded' = above' ++ [.text head] ∧
      List.Forall₂ Value.Equal above above' := by
  obtain ⟨head, above, rfl, habove⟩ := h
  obtain ⟨head', above', rfl, habove'⟩ := h'
  simp only [slots, List.map_append] at hslots
  obtain ⟨hbelow, hhead⟩ := List.append_inj' hslots rfl
  obtain rfl := String.toList_injective (Slot.text.inj (List.cons.inj hhead).1)
  exact ⟨head, above, above', rfl, rfl, equal_of_slots habove habove' hbelow⟩

structure SameLiteral (form : Interpolated) (n n' : Node) : Prop where
  kind : n.kind = form.kind
  kind' : n'.kind = form.kind
  typed : (Tree.ofNode n).Typed
  typed' : (Tree.ofNode n').Typed
  fields : ∀ field, field ≠ .parts → n.get field = n'.get field

namespace SameLiteral

variable {form : Interpolated} {parts parts' : List Tree}

lemma regexpOptions_eq (h : SameLiteral form n n') : regexpOptions n = regexpOptions n' := by
  have hfield : ∀ field ∈ [Field.multiLine, .ignoreCase, .extended, .ascii8bit],
      n.get field = n'.get field := fun field hmem => h.fields field (by rintro rfl; simp at hmem)
  simp only [List.forall_mem_cons] at hfield
  obtain ⟨hmultiLine, hignoreCase, hextended, hascii, -⟩ := hfield
  unfold regexpOptions
  simp only [hmultiLine, hignoreCase, hextended, hascii]

lemma exists_options (h : SameLiteral .regexp n n') :
    ∃ options once, regexpOptions n = .ok options ∧ n.get .once = .ok once := by
  obtain ⟨role, hfits⟩ := h.typed.fits_typed
  have hflag : ∀ field ∈ [Field.multiLine, .ignoreCase, .extended, .ascii8bit, .once],
      ∃ tree, n.get field = .ok tree := by
    intro field hmem
    have hcontent : (n.kind.contents role).lookup field = some .flag := by
      rw [h.kind]
      fin_cases hmem <;> rfl
    obtain ⟨tree, hget, -⟩ := Tree.exists_get_of_fits hfits hcontent
    exact ⟨tree, hget⟩
  simp only [List.forall_mem_cons] at hflag
  obtain ⟨⟨a, ha⟩, ⟨b, hb⟩, ⟨c, hc⟩, ⟨d, hd⟩, ⟨once, honce⟩, -⟩ := hflag
  have hoptions : ∃ options, regexpOptions n = .ok options := by
    dsimp only [regexpOptions]
    rw [ha, hb, hc, hd]
    exact ⟨_, rfl⟩
  obtain ⟨options, hoptions⟩ := hoptions
  exact ⟨options, once, hoptions, honce⟩

lemma plainLiteral_equal (h : SameLiteral form n n') (head : String) :
    ∃ tag kid line maxLine line' maxLine', kid.Equal kid ∧
      plainLiteral n form head = .ok (.sexp tag [kid] line maxLine) ∧
      plainLiteral n' form head = .ok (.sexp tag [kid] line' maxLine') := by
  obtain ⟨l, hl⟩ := h.typed.exists_location
  obtain ⟨l', hl'⟩ := h.typed'.exists_location
  cases form with
  | string =>
    exact ⟨.str, .text head, _, _, _, _, ⟨rfl, by simp [Value.same, Scalar.same]⟩,
      by rw [plainLiteral, hl]; rfl, by rw [plainLiteral, hl']; rfl⟩
  | command =>
    exact ⟨.xstr, .text head, _, _, _, _, ⟨rfl, by simp [Value.same, Scalar.same]⟩,
      by rw [plainLiteral, hl]; rfl, by rw [plainLiteral, hl']; rfl⟩
  | symbol =>
    exact ⟨.lit, .sym head, _, _, _, _, ⟨rfl, by simp [Value.same, Tree.same, Scalar.same]⟩,
      by rw [plainLiteral, hl]; rfl, by rw [plainLiteral, hl']; rfl⟩
  | regexp =>
    obtain ⟨options, once, hoptions, -⟩ := h.exists_options
    exact ⟨.lit, .regexp (.text head) options, _, _, _, _,
      ⟨rfl, by simp [Value.same, Tree.same, Scalar.same]⟩,
      by rw [plainLiteral, hl, hoptions]; rfl,
      by rw [plainLiteral, hl', ← h.regexpOptions_eq, hoptions]; rfl⟩

variable {conv : Conversion}

lemma interpolated_equal (h : SameLiteral form n n') (hget : n.get .parts = .ok (.tuple parts))
    (hget' : n'.get .parts = .ok (.tuple parts'))
    (hfold : foldParts conv scope parts = .ok folded)
    (hfold' : foldParts conv scope parts' = .ok folded') (hstacked : Stacked folded)
    (hstacked' : Stacked folded') (hslots : slots folded = slots folded') :
    ∃ tag kids kids' line maxLine line' maxLine', List.Forall₂ Value.Equal kids kids' ∧
      interpolated conv scope n form = .ok (.sexp tag kids line maxLine) ∧
      interpolated conv scope n' form = .ok (.sexp tag kids' line' maxLine') := by
  obtain ⟨head, above, above', rfl, rfl, habove⟩ := hstacked.equal_above hstacked' hslots
  by_cases hbare : above = []
  · subst hbare
    cases habove
    obtain ⟨tag, kid, line, maxLine, line', maxLine', hkid, hplain, hplain'⟩ :=
      h.plainLiteral_equal head
    exact ⟨tag, [kid], [kid], line, maxLine, line', maxLine', .cons hkid .nil,
      (interpolated_of_bare hget hfold).trans hplain,
      (interpolated_of_bare hget' hfold').trans hplain'⟩
  · have hbare' : above' ≠ [] := by
      rintro rfl
      exact hbare (List.forall₂_nil_right_iff.mp habove)
    obtain ⟨l, hl⟩ := h.typed.exists_location
    obtain ⟨l', hl'⟩ := h.typed'.exists_location
    refine ⟨form.tag, .text head :: above.reverse, .text head :: above'.reverse, l.startLine,
      l.endLine, l'.startLine, l'.endLine, .cons ⟨rfl, by simp [Value.same, Scalar.same]⟩
        (List.forall₂_reverse_iff.mpr habove), ?_, ?_⟩
    · rw [interpolated_of_folded hget hfold hbare, hl]
      rfl
    · rw [interpolated_of_folded hget' hfold' hbare', hl']
      rfl

end SameLiteral

variable {conv : Conversion} {kids kids' : List Value} {line maxLine : Json}

lemma interpolatedRegexp_of_folded {options : Nat} {once : Tree}
    (h : interpolated conv scope n .regexp = .ok (.sexp .dregx kids line maxLine))
    (hoptions : regexpOptions n = .ok options) (honce : n.get .once = .ok once) :
    interpolatedRegexp conv scope n =
      .ok (.sexp (if once.truthy then .dregxOnce else .dregx)
        (if options = 0 then kids else kids ++ [.int options]) line maxLine) := by
  unfold interpolatedRegexp
  rw [h, hoptions, honce]
  rfl

lemma interpolatedRegexp_of_plain {v : Value} (h : interpolated conv scope n .regexp = .ok v)
    (hv : v.isA [.dregx] = false) : interpolatedRegexp conv scope n = .ok v := by
  unfold interpolatedRegexp
  rw [h]
  dsimp only [bind, Except.bind]
  split
  · cases hv
  · rfl

namespace SameLiteral

variable {form : Interpolated} {parts parts' : List Tree}

lemma interpolatedRegexp_same (h : SameLiteral .regexp n n') {tag : Tag} {line' maxLine' : Json}
    (hkids : List.Forall₂ Value.Equal kids kids')
    (hliteral : interpolated conv scope n .regexp = .ok (.sexp tag kids line maxLine))
    (hliteral' : interpolated conv scope n' .regexp = .ok (.sexp tag kids' line' maxLine')) :
    ∃ v w, interpolatedRegexp conv scope n = .ok v ∧ interpolatedRegexp conv scope n' = .ok w ∧
      v.same w = true := by
  by_cases htag : tag = .dregx
  · subst htag
    obtain ⟨options, once, hoptions, honce⟩ := h.exists_options
    have hoptions' := h.regexpOptions_eq.symm.trans hoptions
    have honce' := (h.fields .once (by decide)).symm.trans honce
    refine ⟨_, _, interpolatedRegexp_of_folded hliteral hoptions honce,
      interpolatedRegexp_of_folded hliteral' hoptions' honce', Value.same_sexp.mpr ⟨rfl, ?_⟩⟩
    split
    · exact hkids
    · exact List.rel_append hkids (.cons (.refl rfl rfl) .nil)
  · exact ⟨_, _, interpolatedRegexp_of_plain hliteral (by simpa [Value.isA] using htag),
      interpolatedRegexp_of_plain hliteral' (by simpa [Value.isA] using htag),
      Value.same_sexp.mpr ⟨rfl, hkids⟩⟩

/-- **Literals with the same pieces are the same**, however their parts are grouped. -/
theorem convert_same (h : SameLiteral form n n') (hget : n.get .parts = .ok (.tuple parts))
    (hget' : n'.get .parts = .ok (.tuple parts')) {converted converted' : List Value}
    (htakes : List.Forall₂ (Takes (fun scope tree => tree.convert scope) scope) parts converted)
    (htakes' : List.Forall₂ (Takes (fun scope tree => tree.convert scope) scope) parts' converted')
    (hne : parts ≠ []) (hne' : parts' ≠ [])
    (hpieces : partPieces parts converted = partPieces parts' converted') :
    ∃ v w, (Tree.ofNode n).convert scope = .ok v ∧ (Tree.ofNode n').convert scope = .ok w ∧
      v.same w = true := by
  obtain ⟨folded, hfold, hstacked, hslots⟩ := foldParts_neat htakes hne
  obtain ⟨folded', hfold', hstacked', hslots'⟩ := foldParts_neat htakes' hne'
  obtain ⟨tag, kids, kids', line, maxLine, line', maxLine', hkids, hliteral, hliteral'⟩ :=
    h.interpolated_equal hget hget' hfold hfold' hstacked hstacked'
      (by rw [hslots, hslots', hpieces])
  rw [Tree.convert_node, Tree.convert_node]
  cases form with
  | string | command | symbol =>
    simp only [rule, h.kind, h.kind', Interpolated.kind]
    exact ⟨_, _, hliteral, hliteral', Value.same_sexp.mpr ⟨rfl, hkids⟩⟩
  | regexp =>
    simp only [rule, h.kind, h.kind', Interpolated.kind]
    exact h.interpolatedRegexp_same hkids hliteral hliteral'

end SameLiteral

/-! ### Regrouping -/

lemma exists_forall₂_takes {parts : List Tree} (h : ∀ part ∈ parts, ∃ v, Takes conv scope part v) :
    ∃ converted, List.Forall₂ (Takes conv scope) parts converted := by
  induction parts with
  | nil => exact ⟨[], .nil⟩
  | cons part parts ih =>
    obtain ⟨⟨v, hv⟩, hothers⟩ := List.forall_mem_cons.mp h
    obtain ⟨converted, hconverted⟩ := ih hothers
    exact ⟨v :: converted, .cons hv hconverted⟩

lemma partPieces_append {parts others : List Tree} {converted converted' : List Value}
    (h : List.Forall₂ (Takes conv scope) parts converted) :
    partPieces (parts ++ others) (converted ++ converted') =
      partPieces parts converted ++ partPieces others converted' := by
  rw [partPieces, List.zipWith_append h.length_eq, List.flatten_append]
  rfl

/-- Two literals that differ in one thing: some parts are put together to a string with parts in the
one, and stand directly in the other. All of them convert, and none of them, at any level, to an
empty string. -/
structure Regroups (form : Interpolated) (scope : Scope) (n n' : Node) (ps qs rs : List Tree) :
    Prop where
  same : SameLiteral form n n'
  grouped : ∃ group, n.get .parts = .ok (.tuple (ps ++ group :: rs)) ∧
    group.isA .interpolatedStringNode = true ∧ group.get .parts = .ok (.tuple qs)
  direct : n'.get .parts = .ok (.tuple (ps ++ (qs ++ rs)))
  filled : qs ≠ []
  literal : ∀ part ∈ ps ++ (qs ++ rs), part.LiteralPart
  converts : ∀ part ∈ ps ++ (qs ++ rs), ∃ v, part.convert scope = .ok v
  notEmpty : ∀ part ∈ ps ++ (qs ++ rs), ∀ p : Tree, p.PartOf part → ∀ line maxLine,
    p.convert scope ≠ .ok (.sexp .str [.text ""] line maxLine)

lemma regroups_of_flat {form : Interpolated} {group : Tree} {ps qs rs : List Tree}
    (h : SameLiteral form n n') (hget : n.get .parts = .ok (.tuple (ps ++ group :: rs)))
    (hdirect : n'.get .parts = .ok (.tuple (ps ++ (qs ++ rs))))
    (hgroup : group.isA .interpolatedStringNode = true)
    (hqs : group.get .parts = .ok (.tuple qs)) (hfilled : qs ≠ [])
    (hparts : ∀ part ∈ ps ++ (qs ++ rs), part.LiteralPart ∧
      part.isA .interpolatedStringNode = false ∧ ∃ v, part.convert scope = .ok v ∧
        ∀ line maxLine, v ≠ .sexp .str [.text ""] line maxLine) :
    Regroups form scope n n' ps qs rs := by
  refine ⟨h, ⟨group, hget, hgroup, hqs⟩, hdirect, hfilled, fun part hpart => (hparts part hpart).1,
    fun part hpart => ?_, fun part hpart p hp line maxLine hv => ?_⟩
  · obtain ⟨-, -, v, hv, -⟩ := hparts part hpart
    exact ⟨v, hv⟩
  · obtain ⟨-, hkind, v, hconvert, hempty⟩ := hparts part hpart
    rw [hp.eq_self hkind] at hv
    exact hempty line maxLine (Except.ok.inj (hconvert.symm.trans hv))

/-- **Grouping does not matter**: a literal in which some parts are put together to a string with
parts has the same conversion as one in which they stand directly, if every string among them holds
a single item and every conversion is equal to itself. -/
theorem convert_regrouped {form : Interpolated} {ps qs rs : List Tree}
    (h : Regroups form scope n n' ps qs rs)
    (hsingle : ∀ part ∈ ps ++ (qs ++ rs), ∀ p : Tree, p.PartOf part → ∀ kids line maxLine,
      p.convert scope = .ok (.sexp .str kids line maxLine) → kids.length = 1)
    (hself : ∀ part ∈ ps ++ (qs ++ rs), ∀ p : Tree, p.PartOf part → ∀ v,
      p.convert scope = .ok v → v.Equal v) :
    ∃ v w, (Tree.ofNode n).convert scope = .ok v ∧ (Tree.ofNode n').convert scope = .ok w ∧
      v.same w = true := by
  have htakes : ∀ part ∈ ps ++ (qs ++ rs),
      ∃ v, Takes (fun scope tree => tree.convert scope) scope part v := by
    intro part hpart
    obtain ⟨v, hv⟩ := h.converts part hpart
    have htyped := (h.same.typed'.of_node_get h.direct).of_elements rfl hpart
    refine ⟨v, (h.literal part hpart).takes htyped (fun p hp w hw => ?_) hv⟩
    refine Tree.regular_of_single (hp.typed htyped) hw ?_ ?_ (hself part hpart p hp w hw)
    · rintro line maxLine rfl
      exact h.notEmpty part hpart p hp line maxLine hw
    · rintro kids line maxLine rfl
      exact hsingle part hpart p hp kids line maxLine hw
  simp only [List.forall_mem_append] at htakes
  obtain ⟨cps, hps⟩ := exists_forall₂_takes htakes.1
  obtain ⟨cqs, hqs⟩ := exists_forall₂_takes htakes.2.1
  obtain ⟨crs, hrs⟩ := exists_forall₂_takes htakes.2.2
  obtain ⟨group, hget, hgroup, hinner⟩ := h.grouped
  have htyped : group.Typed :=
    (h.same.typed.of_node_get hget).of_elements rfl (List.mem_append_right _ List.mem_cons_self)
  obtain ⟨location, fields, rfl⟩ := Tree.exists_of_isA hgroup
  obtain ⟨l, hl⟩ := htyped.exists_location
  obtain ⟨v, hv, hpieces⟩ := takes_group hgroup hl hinner h.filled hqs
  refine h.same.convert_same hget h.direct (List.rel_append hps (.cons hv hrs))
    (List.rel_append hps (List.rel_append hqs hrs)) (by simp) (by simp [h.filled]) ?_
  rw [partPieces_append hps, partPieces_append hps, partPieces_append hqs, ← hpieces]
  rfl

/-- Texts around a variable, put together in the middle of a regular expression. -/
theorem convert_regrouped_regexp :
    let text (s : String) : Tree := .node .stringNode (some {}) [(.unescaped, .text s)]
    let x : Tree := .node .embeddedVariableNode (some {})
      [(.variable, .node .instanceVariableReadNode (some {}) [(.name, .text "@x")])]
    let group : Tree := .node .interpolatedStringNode (some {})
      [(.parts, .tuple [text "b", x, text "c"])]
    let n (parts : List Tree) : Node := ⟨.interpolatedRegularExpressionNode, some {},
      [(.ignoreCase, .bool true), (.extended, .bool false), (.multiLine, .bool false),
        (.ascii8bit, .bool false), (.once, .bool true), (.parts, .tuple parts)]⟩
    let parts : List Tree := [text "a", text "b", x, text "c", text "d"]
    Regroups .regexp {} (n [text "a", group, text "d"]) (n parts) [text "a"]
        [text "b", x, text "c"] [text "d"] ∧
      ∃ v w, (Tree.ofNode (n [text "a", group, text "d"])).convert {} = .ok v ∧
        (Tree.ofNode (n parts)).convert {} = .ok w ∧ v.same w = true := by
  intro text x group n parts
  have htext : ∀ s, s ≠ "" → (text s).LiteralPart ∧
      (text s).isA .interpolatedStringNode = false ∧
      ∃ v, (text s).convert {} = .ok v ∧ v.Regular := by
    intro s hs
    exact ⟨.string rfl rfl, rfl, .sexp .str [.text s] (.int 1) (.int 1), rfl,
      fun _ => ⟨s, _, _, rfl, hs⟩, .refl rfl rfl⟩
  have hx : x.LiteralPart ∧ x.isA .interpolatedStringNode = false ∧
      ∃ v, x.convert {} = .ok v ∧ v.Regular := by
    refine ⟨.embeddedVariable rfl, rfl, .sexp .evstr [.sexp .ivar [.sym "@x"] (.int 1) (.int 1)]
      (.int 1) (.int 1), rfl, fun hstr => ?_, .refl rfl rfl⟩
    cases hstr
  have hparts : ∀ part ∈ [text "a"] ++ ([text "b", x, text "c"] ++ [text "d"]),
      part.LiteralPart ∧ part.isA .interpolatedStringNode = false ∧
        ∃ v, part.convert {} = .ok v ∧ v.Regular := by
    simp only [List.cons_append, List.nil_append, List.forall_mem_cons]
    exact ⟨htext "a" (by decide), htext "b" (by decide), hx, htext "c" (by decide),
      htext "d" (by decide), List.forall_mem_nil _⟩
  have hregular : ∀ part ∈ [text "a"] ++ ([text "b", x, text "c"] ++ [text "d"]), ∀ p : Tree,
      p.PartOf part → ∀ v, p.convert {} = .ok v → v.Regular := by
    intro part hpart p hp v hv
    obtain ⟨-, hkind, w, hw, hregular⟩ := hparts part hpart
    rw [hp.eq_self hkind] at hv
    cases hv.symm.trans hw
    exact hregular
  have hsame : SameLiteral .regexp (n [text "a", group, text "d"]) (n parts) := by
    refine ⟨rfl, rfl, ⟨.one .expression, by decide +kernel⟩, ⟨.one .expression, by decide +kernel⟩,
      fun field hfield => ?_⟩
    simp [n, Node.get, Node.get?, List.find?_cons, hfield.symm]
  have hregroups : Regroups .regexp {} (n [text "a", group, text "d"]) (n parts) [text "a"]
      [text "b", x, text "c"] [text "d"] := by
    refine regroups_of_flat hsame rfl rfl rfl rfl (List.cons_ne_nil _ _) fun part hpart => ?_
    obtain ⟨hliteral, hkind, v, hv, hregular⟩ := hparts part hpart
    refine ⟨hliteral, hkind, v, hv, fun line maxLine heq => ?_⟩
    subst heq
    obtain ⟨content, _, _, heq, hcontent⟩ := hregular.1 rfl
    cases heq
    exact hcontent rfl
  refine ⟨hregroups, convert_regrouped hregroups (fun part hpart p hp kids line maxLine hv => ?_)
    fun part hpart p hp v hv => (hregular part hpart p hp v hv).2⟩
  obtain ⟨content, _, _, heq, -⟩ := (hregular part hpart p hp _ hv).1 rfl
  cases heq
  rfl

/-- Both conditions are needed. Parameters of a block that are a string take on the names kept to
the block; this string has no text at its end, so a group that starts with it has no conversion,
while behind a variable it is left as it is. And a float that is no number makes any literal differ
from itself. -/
theorem convert_regrouped_irregular :
    let n (parts : List Tree) : Node := ⟨.interpolatedStringNode, some {}, [(.parts, .tuple parts)]⟩
    let group (part : Tree) : Tree := .atTop .interpolatedStringNode [(.parts, .tuple [part])]
    let x : Tree := .atTop .embeddedVariableNode
      [(.variable, .atTop .instanceVariableReadNode [(.name, .text "@x")])]
    let shadowed : Tree := .atTop .embeddedStatementsNode [(.statements, .atTop .blockParametersNode
      [(.parameters, .atTop .stringNode [(.unescaped, .text "a")]),
        (.locals, .tuple [.atTop .blockLocalVariableNode [(.name, .text "b")]])])]
    let undefined : Tree := .atTop .embeddedStatementsNode
      [(.statements, .atTop .floatNode [(.value, .scalar (.float (0.0 / 0.0)))])]
    (Regroups .string {} (n [x, group shadowed]) (n [x, shadowed]) [x] [shadowed] [] ∧
      (Tree.ofNode (n [x, group shadowed])).convert {} = .error .wrongType ∧
      ∃ w, (Tree.ofNode (n [x, shadowed])).convert {} = .ok w) ∧
    (Regroups .string {} (n [group undefined]) (n [undefined]) [] [undefined] [] ∧
      ∃ v w, (Tree.ofNode (n [group undefined])).convert {} = .ok v ∧
        (Tree.ofNode (n [undefined])).convert {} = .ok w ∧ v.same w = false) := by
  intro n group x shadowed undefined
  let one : Json := .int 1
  have hx : x.convert {} = .ok (.sexp .evstr [.sexp .ivar [.sym "@x"] one one] one one) := rfl
  have hshadowed : shadowed.convert {} =
      .ok (.sexp .str [.text "a", .sexp .shadow [.sym "b"] one one] one one) := rfl
  have hundefined : undefined.convert {} =
      .ok (.sexp .evstr [.sexp .lit [.scalar (.float (0.0 / 0.0))] one one] one one) := rfl
  have hfields : ∀ parts parts', ∀ field ≠ .parts, (n parts).get field = (n parts').get field := by
    intro parts parts' field hfield
    simp [n, Node.get, Node.get?, hfield.symm]
  refine ⟨⟨?_, rfl, _, rfl⟩, ⟨?_, _, _, rfl, rfl, by decide⟩⟩
  · refine regroups_of_flat ⟨rfl, rfl, ⟨.one .expression, by decide +kernel⟩,
      ⟨.one .expression, by decide +kernel⟩, hfields _ _⟩ rfl rfl rfl rfl (List.cons_ne_nil _ _) ?_
    simp only [List.cons_append, List.nil_append, List.append_nil, List.forall_mem_cons]
    refine ⟨⟨.embeddedVariable rfl, rfl, _, hx, fun _ _ heq => ?_⟩,
      ⟨.embeddedStatements rfl, rfl, _, hshadowed, fun _ _ heq => ?_⟩, List.forall_mem_nil _⟩
    · cases heq
    · simp at heq
  · refine regroups_of_flat ⟨rfl, rfl, ⟨.one .expression, by decide +kernel⟩,
      ⟨.one .expression, by decide +kernel⟩, hfields _ _⟩ rfl rfl rfl rfl (List.cons_ne_nil _ _) ?_
    simp only [List.nil_append, List.append_nil, List.forall_mem_cons]
    refine ⟨⟨.embeddedStatements rfl, rfl, _, hundefined, fun _ _ heq => ?_⟩, List.forall_mem_nil _⟩
    cases heq

end Convert

end RubySexp
