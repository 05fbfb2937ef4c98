import RubySexp.Proofs.Sexp.Spelling
import RubySexp.Proofs.Value.Equality
import RubySexp.Proofs.Value.Induction

/-!
# Matching Refines Equality

An expected expression accepts an actual one if they are equal and each line that the expected one
states is the actual one. The comparison goes down both at once; here it is shown to come to the
same as equality, which does not look at lines, together with a condition on the lines at each
place. From this the laws of matching follow: it is transitive, what leaves out a line accepts no
less, and two expressions that accept each other have the same lines. It is reflexive as far as
equality is: an imaginary number with a part that is no number differs from itself.
-/

namespace RubySexp

/-- Each line that an expression states is that of another one. -/
def Sexp.LinesFit (s t : Sexp) : Prop :=
  (s.line ≠ .null → s.line = t.line) ∧ (s.maxLine ≠ .null → s.maxLine = t.maxLine)

namespace Value

/-! ### Places -/

/-- The expression at a place: the path tells which kid is entered at each level. -/
def at? : List Nat → Value → Option Sexp
  | [], v => v.asSexp?
  | i :: path, .sexp _ kids _ _ => kids[i]?.bind (at? path)
  | _ :: _, _ => none

inductive Erases : Value → Value → Prop
  | line {tag kids line maxLine} :
      Erases (.sexp tag kids line maxLine) (.sexp tag kids .null maxLine)
  | maxLine {tag kids line maxLine} :
      Erases (.sexp tag kids line maxLine) (.sexp tag kids line .null)
  | kid {tag before kid kid' after line maxLine} : Erases kid kid' →
      Erases (.sexp tag (before ++ kid :: after) line maxLine)
        (.sexp tag (before ++ kid' :: after) line maxLine)

variable {v w : Value} {lines : Bool} {kids kids' : List Value} {tag tag' : Tag}
  {line line' maxLine maxLine' : Json}

lemma at?_atom (h : v.asSexp? = none) (path : List Nat) : v.at? path = none := by
  cases v with
  | sexp tag kids line maxLine => cases h
  | _ => cases path <;> rfl

/-- At each place of a value there is one of another value, and the two are related. -/
def Throughout (R : Sexp → Sexp → Prop) (v w : Value) : Prop :=
  ∀ path s, v.at? path = some s → ∃ t, w.at? path = some t ∧ R s t

variable {R : Sexp → Sexp → Prop}

lemma throughout_atom (h : v.asSexp? = none) : Throughout R v w := by
  intro path s hs
  rw [at?_atom h] at hs
  cases hs

lemma throughout_sexp (hlength : kids.length = kids'.length) :
    Throughout R (.sexp tag kids line maxLine) (.sexp tag' kids' line' maxLine') ↔
      R ⟨tag, kids, line, maxLine⟩ ⟨tag', kids', line', maxLine'⟩ ∧
        List.Forall₂ (Throughout R) kids kids' := by
  constructor
  · intro h
    obtain ⟨t, ht, hroot⟩ := h [] _ rfl
    cases ht
    refine ⟨hroot, List.forall₂_iff_get.mpr ⟨hlength, fun i hi hi' path s hs => ?_⟩⟩
    have hkid : kids[i]? = some kids[i] := List.getElem?_eq_getElem hi
    have hkid' : kids'[i]? = some kids'[i] := List.getElem?_eq_getElem hi'
    obtain ⟨t, ht, hst⟩ := h (i :: path) s (by simpa [at?, hkid] using hs)
    exact ⟨t, by simpa [at?, hkid'] using ht, hst⟩
  · rintro ⟨hroot, hkids⟩ path s hs
    cases path with
    | nil =>
      cases hs
      exact ⟨_, rfl, hroot⟩
    | cons i path =>
      obtain ⟨kid, hkid, hs⟩ := Option.bind_eq_some_iff.mp hs
      obtain ⟨hi, rfl⟩ := List.getElem?_eq_some_iff.mp hkid
      have hi' : i < kids'.length := hlength ▸ hi
      obtain ⟨t, ht, hst⟩ := (List.forall₂_iff_get.mp hkids).2 i hi hi' path s hs
      exact ⟨t, by simpa [at?, List.getElem?_eq_getElem hi'] using ht, hst⟩

/-! ### Comparison as equality and lines -/

lemma acceptsKids_iff : acceptsKids lines kids kids' = true ↔
    List.Forall₂ (fun kid kid' => kid.accepts lines kid' = true) kids kids' := by
  induction kids generalizing kids' with
  | nil => cases kids' <;> simp [acceptsKids]
  | cons kid rest ih =>
    cases kids' with
    | nil => simp [acceptsKids]
    | cons kid' rest' => simp [acceptsKids, ih]

lemma accepts_of_atom (h : v.asSexp? = none) :
    v.accepts lines w = (v.sameType w && v.same w) := by
  cases v with
  | sexp tag kids line maxLine => cases h
  | _ => cases w <;> rfl

lemma accepts_sexp : (Value.sexp tag kids line maxLine).accepts lines
    (.sexp tag' kids' line' maxLine') = true ↔
      tag = tag' ∧ (lines = true → lineFits line line' = true ∧ lineFits maxLine maxLine' = true) ∧
        List.Forall₂ (fun kid kid' => kid.accepts lines kid' = true) kids kids' := by
  cases lines <;> simp [accepts, acceptsKids_iff, and_assoc]

/-- What is compared of the lines of two expressions. -/
def LinesPass (s t : Sexp) : Prop :=
  lineFits s.line t.line = true ∧ lineFits s.maxLine t.maxLine = true

/-- **Comparison with an expected value** is equality, types included, and a comparison of the lines
at each place. -/
theorem accepts_iff :
    v.accepts lines w = true ↔ v.Equal w ∧ (lines = true → Throughout LinesPass v w) := by
  induction v using sexpInduction generalizing w with
  | atom v hsexp =>
    rw [accepts_of_atom hsexp, Bool.and_eq_true]
    exact (and_iff_left fun _ => throughout_atom hsexp).symm
  | sexp tag kids line maxLine ih =>
    cases w with
    | sexp tag' kids' line' maxLine' =>
      have hkids : List.Forall₂ (fun kid kid' => kid.accepts lines kid' = true) kids kids' ↔
          List.Forall₂ Equal kids kids' ∧
            (lines = true → List.Forall₂ (Throughout LinesPass) kids kids') := by
        clear line maxLine
        induction kids generalizing kids' with
        | nil => cases kids' <;> simp
        | cons kid rest ihRest =>
          cases kids' with
          | nil => simp
          | cons kid' rest' =>
            simp only [List.forall₂_cons, ih kid List.mem_cons_self,
              ihRest fun kid hkid => ih kid (List.mem_cons_of_mem _ hkid)]
            tauto
      rw [accepts_sexp, hkids, equal_sexp]
      constructor
      · rintro ⟨htag, hlines, hequal, hbelow⟩
        exact ⟨⟨htag, hequal⟩, fun hon => (throughout_sexp hequal.length_eq).mpr
          ⟨hlines hon, hbelow hon⟩⟩
      · rintro ⟨⟨htag, hequal⟩, hlines⟩
        have hplaces := fun hon => (throughout_sexp hequal.length_eq).mp (hlines hon)
        exact ⟨htag, fun hon => (hplaces hon).1, hequal, fun hon => (hplaces hon).2⟩
    | _ => simp [accepts, Equal, sameType]

lemma accepts_without_lines : v.accepts false w = (v.sameType w && v.same w) := by
  rw [Bool.eq_iff_iff, accepts_iff, Bool.and_eq_true]
  exact and_iff_left fun h => absurd h Bool.false_ne_true

/-! ### Lines that are integers -/

mutual

/-- Whether each line inside a value is an integer or left open. -/
def hasLines : Value → Bool
  | .sexp _ kids line maxLine => isLine line && isLine maxLine && haveLines kids
  | _ => true

def haveLines : List Value → Bool
  | [] => true
  | v :: rest => hasLines v && haveLines rest

end

lemma haveLines_iff : haveLines kids = true ↔ ∀ kid ∈ kids, kid.hasLines = true := by
  induction kids with
  | nil => simp [haveLines]
  | cons kid rest ih => simp [haveLines, ih]

lemma isLine_at (h : v.hasLines = true) {path : List Nat} {s : Sexp} (hs : v.at? path = some s) :
    isLine s.line = true ∧ isLine s.maxLine = true := by
  induction path generalizing v with
  | nil =>
    cases v with
    | sexp tag kids line maxLine =>
      cases hs
      simp only [hasLines, Bool.and_eq_true] at h
      exact h.1
    | _ => cases hs
  | cons i path ih =>
    cases v with
    | sexp tag kids line maxLine =>
      simp only [hasLines, Bool.and_eq_true] at h
      obtain ⟨kid, hkid, hs⟩ := Option.bind_eq_some_iff.mp hs
      exact ih (haveLines_iff.mp h.2 kid (List.mem_of_getElem? hkid)) hs
    | _ => cases hs

lemma lineFits_iff (hline : isLine line = true) (hline' : isLine line' = true) :
    lineFits line line' = true ↔ (line ≠ .null → line = line') := by
  unfold isLine at hline hline'
  split at hline <;> split at hline' <;>
    simp_all [lineFits, Json.null, Json.same, Scalar.same, Scalar.quantity?, Quantity.ofInt,
      Quantity.same]

lemma throughout_linesPass_iff (hv : v.hasLines = true) (hw : w.hasLines = true) :
    Throughout LinesPass v w ↔ Throughout Sexp.LinesFit v w := by
  refine forall₃_congr fun path s hs => exists_congr fun t => and_congr_right fun ht => ?_
  have hlines := isLine_at hv hs
  have hlines' := isLine_at hw ht
  exact and_congr (lineFits_iff hlines.1 hlines'.1) (lineFits_iff hlines.2 hlines'.2)

/-! ### Laws of matching -/

lemma Throughout.refl (hR : ∀ s, R s s) (v : Value) : Throughout R v v :=
  fun _ s hs => ⟨s, hs, hR s⟩

lemma Throughout.trans {u : Value} (hR : ∀ {s t z}, R s t → R t z → R s z)
    (huv : Throughout R u v) (hvw : Throughout R v w) : Throughout R u w := by
  intro path s hs
  obtain ⟨t, ht, hst⟩ := huv path s hs
  obtain ⟨z, hz, htz⟩ := hvw path t ht
  exact ⟨z, hz, hR hst htz⟩

lemma throughout_and_throughout (hvw : Throughout R v w) (hwv : Throughout R w v) :
    Throughout (fun s t => R s t ∧ R t s) v w := by
  intro path s hs
  obtain ⟨t, ht, hst⟩ := hvw path s hs
  obtain ⟨z, hz, htz⟩ := hwv path t ht
  cases hs.symm.trans hz
  exact ⟨t, ht, hst, htz⟩

lemma Equal.isSome_at? (h : v.Equal w) (path : List Nat) :
    (v.at? path).isSome = (w.at? path).isSome := by
  induction path generalizing v w with
  | nil =>
    cases v with
    | sexp tag kids line maxLine =>
      obtain ⟨kids', line', maxLine', rfl, -⟩ := h.eq_sexp
      rfl
    | _ =>
      cases w with
      | sexp => cases h.1
      | _ => rfl
  | cons i path ih =>
    cases v with
    | sexp tag kids line maxLine =>
      obtain ⟨kids', line', maxLine', rfl, hkids⟩ := h.eq_sexp
      obtain ⟨hlength, hget⟩ := List.forall₂_iff_get.mp hkids
      simp only [at?]
      by_cases hi : i < kids.length
      · have hi' : i < kids'.length := hlength ▸ hi
        rw [List.getElem?_eq_getElem hi, List.getElem?_eq_getElem hi']
        exact ih (hget i hi hi')
      · rw [List.getElem?_eq_none (by omega), List.getElem?_eq_none (by omega)]
    | _ =>
      cases w with
      | sexp => cases h.1
      | _ => rfl

lemma Throughout.flip (h : v.Equal w) (hvw : Throughout R v w) :
    Throughout (fun t s => R s t) w v := by
  intro path t ht
  obtain ⟨s, hs⟩ := Option.isSome_iff_exists.mp ((h.isSome_at? path).trans (by rw [ht]; rfl))
  obtain ⟨t', ht', hst⟩ := hvw path s hs
  cases ht.symm.trans ht'
  exact ⟨s, hs, hst⟩

lemma Throughout.imp {S : Sexp → Sexp → Prop} (hRS : ∀ {s t}, R s t → S s t)
    (h : Throughout R v w) : Throughout S v w := by
  intro path s hs
  obtain ⟨t, ht, hst⟩ := h path s hs
  exact ⟨t, ht, hRS hst⟩

lemma forall₂_of_replace {R : Value → Value → Prop} {before after others : List Value}
    (hR : ∀ {other}, R v other → R w other) (h : List.Forall₂ R (before ++ v :: after) others) :
    List.Forall₂ R (before ++ w :: after) others := by
  induction before generalizing others with
  | nil =>
    cases h with
    | cons hfirst hrest => exact .cons (hR hfirst) hrest
  | cons first before ih =>
    cases h with
    | cons hfirst hrest => exact .cons hfirst (ih hrest)

lemma Erases.accepts {v' : Value} (h : Erases v v') (haccepts : v.accepts lines w = true) :
    v'.accepts lines w = true := by
  induction h generalizing w with
  | line =>
    cases w with
    | sexp =>
      obtain ⟨htag, hlines, hkids⟩ := accepts_sexp.mp haccepts
      exact accepts_sexp.mpr ⟨htag, fun hon => ⟨rfl, (hlines hon).2⟩, hkids⟩
    | _ => cases haccepts
  | maxLine =>
    cases w with
    | sexp =>
      obtain ⟨htag, hlines, hkids⟩ := accepts_sexp.mp haccepts
      exact accepts_sexp.mpr ⟨htag, fun hon => ⟨(hlines hon).1, rfl⟩, hkids⟩
    | _ => cases haccepts
  | kid _ ih =>
    cases w with
    | sexp =>
      obtain ⟨htag, hlines, hkids⟩ := accepts_sexp.mp haccepts
      exact accepts_sexp.mpr ⟨htag, hlines, forall₂_of_replace ih hkids⟩
    | _ => cases haccepts

lemma accepts_of_erases {v' : Value} (h : Relation.ReflTransGen Erases v v')
    (haccepts : v.accepts lines w = true) : v'.accepts lines w = true := by
  induction h with
  | refl => exact haccepts
  | tail _ hstep ih => exact hstep.accepts ih

end Value

namespace Sexp

variable {s t e r : Sexp} {lines : Bool}

lemma LinesFit.refl (s : Sexp) : s.LinesFit s := ⟨fun _ => rfl, fun _ => rfl⟩

lemma LinesFit.trans {z : Sexp} (hst : s.LinesFit t) (htz : t.LinesFit z) : s.LinesFit z :=
  ⟨fun h => (hst.1 h).trans (htz.1 (hst.1 h ▸ h)), fun h => (hst.2 h).trans (htz.2 (hst.2 h ▸ h))⟩

lemma linesFit_both_iff :
    s.LinesFit t ∧ t.LinesFit s ↔ s.line = t.line ∧ s.maxLine = t.maxLine := by
  constructor
  · rintro ⟨hst, hts⟩
    constructor
    · by_cases h : s.line = .null
      · by_contra hne
        exact hne (hts.1 fun h' => hne (h.trans h'.symm)).symm
      · exact hst.1 h
    · by_cases h : s.maxLine = .null
      · by_contra hne
        exact hne (hts.2 fun h' => hne (h.trans h'.symm)).symm
      · exact hst.2 h
  · rintro ⟨hline, hmaxLine⟩
    exact ⟨⟨fun _ => hline, fun _ => hmaxLine⟩, fun _ => hline.symm, fun _ => hmaxLine.symm⟩

/-- Whether an expression is made of Ruby values, with an integer for each line that is not left
open. -/
def isComparable (s : Sexp) : Bool := s.toValue.isRuby && s.toValue.hasLines

lemma equal_iff_same : e.toValue.Equal r.toValue ↔ e.toValue.same r.toValue = true :=
  and_iff_right rfl

lemma accepts_iff_same (he : e.isComparable = true) (hr : r.isComparable = true) :
    e.toValue.accepts lines r.toValue = true ↔ e.toValue.same r.toValue = true ∧
      (lines = true → Value.Throughout LinesFit e.toValue r.toValue) := by
  simp only [isComparable, Bool.and_eq_true] at he hr
  rw [Value.accepts_iff, equal_iff_same, Value.throughout_linesPass_iff he.2 hr.2]

lemma accepts_self_iff (he : e.isComparable = true) :
    e.toValue.accepts lines e.toValue = true ↔ e.toValue.isDefinite = true := by
  have hruby : e.toValue.isRuby = true := by
    simp only [isComparable, Bool.and_eq_true] at he
    exact he.1
  rw [accepts_iff_same he he, ← equal_iff_same, Value.equal_self_iff hruby]
  exact and_iff_left fun _ => .refl LinesFit.refl _

lemma accepts_trans {d : Sexp} (hd : d.isComparable = true) (he : e.isComparable = true)
    (hr : r.isComparable = true) (hde : d.toValue.accepts lines e.toValue = true)
    (her : e.toValue.accepts lines r.toValue = true) :
    d.toValue.accepts lines r.toValue = true := by
  obtain ⟨hsame, hlines⟩ := (accepts_iff_same hd he).mp hde
  obtain ⟨hsame', hlines'⟩ := (accepts_iff_same he hr).mp her
  refine (accepts_iff_same hd hr).mpr ⟨?_, fun hon => (hlines hon).trans .trans (hlines' hon)⟩
  simp only [isComparable, Bool.and_eq_true] at hd he hr
  exact (Value.Equal.trans hd.1 he.1 hr.1 (equal_iff_same.mpr hsame)
    (equal_iff_same.mpr hsame')).2

lemma accepts_both_iff (he : e.isComparable = true) (hr : r.isComparable = true) :
    e.toValue.accepts true r.toValue = true ∧ r.toValue.accepts true e.toValue = true ↔
      e.toValue.same r.toValue = true ∧
        Value.Throughout (fun s t => s.line = t.line ∧ s.maxLine = t.maxLine)
          e.toValue r.toValue := by
  rw [accepts_iff_same he hr, accepts_iff_same hr he]
  constructor
  · rintro ⟨⟨hsame, hlines⟩, -, hlines'⟩
    exact ⟨hsame, (Value.throughout_and_throughout (hlines rfl) (hlines' rfl)).imp
      linesFit_both_iff.mp⟩
  · rintro ⟨hsame, hlines⟩
    have hequal : e.toValue.Equal r.toValue := equal_iff_same.mpr hsame
    have hback : r.toValue.same e.toValue = true := by
      simp only [isComparable, Bool.and_eq_true] at he hr
      exact (hequal.symm he.1 hr.1).2
    exact ⟨⟨hsame, fun _ => hlines.imp fun h => (linesFit_both_iff.mpr h).1⟩,
      hback, fun _ => (hlines.flip hequal).imp fun h => (linesFit_both_iff.mpr h).2⟩

/-- **Matching is equality refined by lines.** Without lines, an expected expression accepts those
equal to it. With lines, it accepts those of them that have, at each place, the lines it states
there. So matching is transitive, it survives the erasure of lines in what is expected, and in both
directions it means equality with the same lines everywhere. It is reflexive on the expressions in
which each number is one. -/
theorem accepts_refines_equality (he : e.isComparable = true) (hr : r.isComparable = true) :
    (e.toValue.accepts false r.toValue = true ↔ e.toValue.same r.toValue = true) ∧
    (e.toValue.accepts true r.toValue = true ↔ e.toValue.same r.toValue = true ∧
      Value.Throughout LinesFit e.toValue r.toValue) ∧
    (∀ lines, e.toValue.accepts lines e.toValue = true ↔ e.toValue.isDefinite = true) ∧
    (∀ d : Sexp, d.isComparable = true → ∀ lines, d.toValue.accepts lines e.toValue = true →
      e.toValue.accepts lines r.toValue = true → d.toValue.accepts lines r.toValue = true) ∧
    (∀ v, Relation.ReflTransGen Value.Erases e.toValue v →
      e.toValue.accepts true r.toValue = true → v.accepts true r.toValue = true) ∧
    (e.toValue.accepts true r.toValue = true ∧ r.toValue.accepts true e.toValue = true ↔
      e.toValue.same r.toValue = true ∧
        Value.Throughout (fun s t => s.line = t.line ∧ s.maxLine = t.maxLine)
          e.toValue r.toValue) := by
  refine ⟨?_, ?_, fun _ => accepts_self_iff he, fun d hd _ => accepts_trans hd he hr,
    fun v => Value.accepts_of_erases, accepts_both_iff he hr⟩
  · rw [accepts_iff_same he hr]
    exact and_iff_left fun h => absurd h Bool.false_ne_true
  · rw [accepts_iff_same he hr]
    exact and_congr_right fun _ => ⟨fun h => h rfl, fun h _ => h⟩

/-- What leaves a last line open accepts what states it, but not the other way round. -/
theorem accepts_partly_stated :
    let lit (line : Json) : Value := .sexp .lit [.int 1] line line
    let expected : Sexp := ⟨.array, [lit (.int 2), .nil], .int 1, .null⟩
    let actual : Sexp := ⟨.array, [lit (.int 2), .nil], .int 1, .int 3⟩
    let erased : Sexp := ⟨.array, [lit (.int 2), .nil], .null, .null⟩
    expected.isComparable = true ∧ actual.isComparable = true ∧
      erased.toValue.accepts true actual.toValue = true ∧
      ¬ (expected.toValue.accepts true actual.toValue = true ∧
        actual.toValue.accepts true expected.toValue = true) := by
  intro lit expected actual erased
  have h := accepts_refines_equality (e := expected) (r := actual) rfl rfl
  refine ⟨rfl, rfl, h.2.2.2.2.1 _ (.single .line) rfl, fun hboth => ?_⟩
  obtain ⟨t, ht, -, hlast⟩ := (h.2.2.2.2.2.mp hboth).2 [] expected rfl
  cases ht
  cases hlast

/-- An imaginary number whose imaginary part is no number does not match itself. -/
theorem not_accepts_undefined :
    let undefined : Value := .scalar (.float (.ofBits 0x7ff8000000000000))
    let e : Sexp := ⟨.lit, [.imaginary (.int 0) undefined], .null, .null⟩
    e.isComparable = true ∧ ∀ lines, e.toValue.accepts lines e.toValue = false := by
  intro undefined e
  refine ⟨rfl, fun lines => ?_⟩
  cases lines <;> decide

end Sexp

end RubySexp
