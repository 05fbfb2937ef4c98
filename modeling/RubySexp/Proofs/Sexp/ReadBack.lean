import RubySexp.Proofs.Sexp.Progress
import RubySexp.Proofs.Sexp.Spelling
import RubySexp.Proofs.Value.Induction

/-!
# Printed Values Read Back

Printing a value and reading the text gives the value again. Only some values can be read back:
floats, data without a Ruby form and a few symbols and regular expressions cannot. The text of an
expression holds its lines, where they are asked for, and never its last line, so what comes back
is the value without what was not written.
-/

namespace RubySexp

namespace Value

mutual

/-- What the text of a value states of it: of the lines only the first, and only where they are
written. -/
def stated (lines : Bool) : Value → Value
  | .sexp tag kids line _ =>
    .sexp tag (statedKids lines kids) (if lines then line else .null) .null
  | v => v

def statedKids (lines : Bool) : List Value → List Value
  | [] => []
  | kid :: rest => stated lines kid :: statedKids lines rest

end

end Value

namespace Tag

lemma mem_all (tag : Tag) : tag ∈ all := by
  cases tag <;> decide

def isName (cs : List Char) : Bool := !cs.isEmpty && cs.all Atom.isSymbolChar

lemma spelled (tag : Tag) : ofName? tag.name = some tag ∧ tag.name.toList ≠ [] ∧
    ∀ c ∈ tag.name.toList, Atom.isSymbolChar c = true := by
  have hall : all.all (fun tag => ofName? tag.name == some tag) = true := by decide +kernel
  have hname := List.all_eq_true.mp hall tag (mem_all tag)
  have hchars : isName tag.name.toList = true := by
    cases tag <;> exact test_ofList isName rfl
  rw [isName, Bool.and_eq_true, Bool.not_eq_true', List.isEmpty_eq_false_iff] at hchars
  exact ⟨eq_of_beq hname, hchars.1, List.all_eq_true.mp hchars.2⟩

lemma name_eq_iff {tag tag' : Tag} : tag.name = tag'.name ↔ tag = tag' := by
  refine ⟨fun h => ?_, congrArg _⟩
  have hname := tag.spelled.1
  rw [h, tag'.spelled.1] at hname
  exact (Option.some.inj hname).symm

end Tag

namespace ReadState

open Reads

variable {outer : List (List Term)} {items : List Term} {last : Term} {rest : List Char}

/-! ### Expressions -/

lemma reads_atom {a : Atom} {cs : List Char} (h : Atom.scan? cs = some (a, rest)) :
    Reads (.value outer) cs (.behind outer (.atom a)) rest := by
  rcases cs with _ | ⟨c, t⟩
  · cases h
  · have hgap : isGap c = false := by
      by_contra hc
      rw [Atom.scan?_gap (by simpa using hc)] at h
      cases h
    have htoken : valueToken? (!outer.isEmpty) (c :: t) = some (.atom a, rest) := by
      unfold valueToken?
      split
      · next heq =>
        rw [heq, Atom.scan?_none (by decide) (by decide) (by decide)] at h
        cases h
      · next heq =>
        rw [heq, Atom.scan?_none (by decide) (by decide) (by decide)] at h
        cases h
      · rw [h]
        rfl
    exact step hgap (by simp [step?, scan?, htoken, advance?])

lemma reads_open (cs : List Char) :
    Reads (.value outer) ('s' :: '(' :: cs) (.value ([] :: outer)) cs := step (by decide) rfl

lemma reads_comma (cs : List Char) :
    Reads (.behind (items :: outer) last) (',' :: cs) (.value ((last :: items) :: outer)) cs :=
  step (by decide) rfl

lemma reads_close (cs : List Char) :
    Reads (.behind (items :: outer) last) (')' :: cs)
      (.behind outer (.sexp (last :: items).reverse [])) cs := step (by decide) rfl

lemma reads_mark (n : Int) :
    Reads (.behind outer (.sexp items []))
      ('.' :: 'l' :: 'i' :: 'n' :: 'e' :: '(' :: (intText n ++ ')' :: rest))
      (.behind outer (.sexp items [(.line, n)])) rest := by
  have hdot : Reads (.behind outer (.sexp items []))
      ('.' :: 'l' :: 'i' :: 'n' :: 'e' :: '(' :: (intText n ++ ')' :: rest))
      (.mark outer items [] .dot)
      ('l' :: 'i' :: 'n' :: 'e' :: '(' :: (intText n ++ ')' :: rest)) :=
    step (by decide) (by cases outer <;> rfl)
  have hkey : Reads (.mark outer items [] .dot)
      ('l' :: 'i' :: 'n' :: 'e' :: '(' :: (intText n ++ ')' :: rest))
      (.mark outer items [] (.key .line)) ('(' :: (intText n ++ ')' :: rest)) :=
    step (by decide) rfl
  have hopen : Reads (.mark outer items [] (.key .line)) ('(' :: (intText n ++ ')' :: rest))
      (.mark outer items [] (.opened .line)) (intText n ++ ')' :: rest) := step (by decide) rfl
  have hclose : Reads (.mark outer items [] (.numbered .line n)) (')' :: rest)
      (.behind outer (.sexp items [(.line, n)])) rest := step (by decide) rfl
  have hnumber : Reads (.mark outer items [] (.opened .line)) (intText n ++ ')' :: rest)
      (.mark outer items [] (.numbered .line n)) (')' :: rest) := by
    have hstop : Stops isDigit (')' :: rest) := stops_cons (by decide)
    have hscan := Atom.integer?_intText n hstop
    obtain ⟨c, cs, hcs, hc⟩ := Atom.intText_eq_cons n
    rw [hcs, List.cons_append] at hscan ⊢
    have hgap : isGap c = false := by
      by_contra hgap
      rw [Atom.integer?_gap (by simpa using hgap)] at hscan
      cases hscan
    exact step hgap (by simp [step?, scan?, markToken?, hscan, advance?])
  exact (((hdot.trans hkey).trans hopen).trans hnumber).trans hclose

end ReadState

namespace Value

open ReadState

lemma readableKids_iff {kids : List Value} :
    readableKids kids = true ↔ ∀ kid ∈ kids, kid.readable = true := by
  induction kids with
  | nil => simp [readableKids]
  | cons kid rest ih => simp [readableKids, ih]

lemma stated_of_atom {v : Value} (h : v.asSexp? = none) (lines : Bool) : v.stated lines = v := by
  cases v <;> first | rfl | cases h

/-- Reading the text of a value, whatever stands around it, gives what the text states. -/
def ReadsBack (lines : Bool) (v : Value) : Prop :=
  ∀ outer rest, Ends rest → ∃ term : Term, term.value = .ok (v.stated lines) ∧
    Reads (.value outer) (v.render lines .ruby ++ rest) (.behind outer term) rest

lemma readsBack_atom {lines : Bool} {v : Value} (h : v.readable = true) (hsexp : v.asSexp? = none) :
    ReadsBack lines v := by
  intro outer rest hrest
  obtain ⟨a, hscan, hvalue⟩ := Atom.scan?_render lines h hsexp hrest
  refine ⟨.atom a, ?_, reads_atom hscan⟩
  rw [stated_of_atom hsexp, Term.value, hvalue]

lemma commaSeparated_cons (first : List Char) (others : List (List Char)) :
    Json.commaSeparated (first :: others) =
      first ++ others.flatMap fun part => ',' :: ' ' :: part := by
  induction others generalizing first with
  | nil => simp [Json.commaSeparated]
  | cons next others ih =>
    have := ih next
    simp_all [Json.commaSeparated, List.intercalate, List.intersperse]

lemma readsBack_kids {lines : Bool} {kids : List Value} (h : ∀ kid ∈ kids, ReadsBack lines kid)
    (outer : List (List Term)) (items : List Term) (last : Term) (rest : List Char) :
    ∃ terms, Term.values terms = .ok (statedKids lines kids) ∧
      Reads (.behind (items :: outer) last)
        (((renderItems lines .ruby kids).flatMap fun part => ',' :: ' ' :: part) ++ ')' :: rest)
        (.behind outer (.sexp ((last :: items).reverse ++ terms) [])) rest := by
  induction kids generalizing items last with
  | nil =>
    refine ⟨[], rfl, ?_⟩
    simpa [renderItems] using reads_close rest
  | cons kid kids ih =>
    let after := ((renderItems lines .ruby kids).flatMap fun part => ',' :: ' ' :: part) ++
      ')' :: rest
    have hends : Ends after := by
      cases kids with
      | nil => exact Or.inr ⟨rest, Or.inr rfl⟩
      | cons => exact Or.inr ⟨_, Or.inl rfl⟩
    obtain ⟨term, hvalue, hterm⟩ := h kid (by simp) ((last :: items) :: outer) after hends
    obtain ⟨terms, hvalues, hterms⟩ :=
      ih (fun kid hkid => h kid (by simp [hkid])) (last :: items) term
    refine ⟨term :: terms, ?_, ?_⟩
    · simp only [Term.values, hvalue, hvalues, statedKids]
      rfl
    · have hgap : isGap ' ' = true := by decide
      have hall := ((reads_comma _).trans (hterm.gap hgap)).trans hterms
      simpa [renderItems, after] using hall

def lineMark (lines : Bool) (line : Json) : List Char :=
  match lines, line with
  | false, _ | true, .scalar .null => []
  | true, line => ".line(".toList ++ line.render .spelled ++ [')']

lemma render_sexp (lines : Bool) (tag : Tag) (kids : List Value) (line maxLine : Json) :
    (Value.sexp tag kids line maxLine).render lines .ruby =
      's' :: '(' :: (':' :: tag.name.toList ++
        ((renderItems lines .ruby kids).flatMap fun part => ',' :: ' ' :: part) ++
        ')' :: lineMark lines line) := by
  rw [← commaSeparated_cons]
  rfl

lemma reads_lineMark {line : Json} (h : isLine line = true) (lines : Bool)
    (outer : List (List Term)) (items : List Term) (rest : List Char) :
    ∃ marks, Term.lineOf .line marks = (if lines then line else .null) ∧
      Term.lineOf .maxLine marks = .null ∧
      Reads (.behind outer (.sexp items [])) (lineMark lines line ++ rest)
        (.behind outer (.sexp items marks)) rest := by
  cases lines with
  | false => exact ⟨[], rfl, rfl, Reads.refl _ _⟩
  | true =>
    unfold isLine at h
    split at h
    · exact ⟨[], rfl, rfl, Reads.refl _ _⟩
    · next n =>
      refine ⟨[(.line, n)], rfl, rfl, ?_⟩
      have htext : lineMark true (.scalar (.int n)) ++ rest =
          '.' :: 'l' :: 'i' :: 'n' :: 'e' :: '(' :: (intText n ++ ')' :: rest) := by
        simp [lineMark, Json.render, Scalar.render]
      rw [htext]
      exact reads_mark n
    · cases h

lemma readsBack_sexp {lines : Bool} (tag : Tag) {kids : List Value} {line : Json} (maxLine : Json)
    (hline : isLine line = true) (hkids : ∀ kid ∈ kids, ReadsBack lines kid) :
    ReadsBack lines (.sexp tag kids line maxLine) := by
  intro outer rest hrest
  obtain ⟨hname, hne, hchars⟩ := tag.spelled
  let body := (renderItems lines .ruby kids).flatMap fun part => ',' :: ' ' :: part
  have hends : Ends (body ++ ')' :: (lineMark lines line ++ rest)) := by
    cases kids with
    | nil => exact Or.inr ⟨_, Or.inr rfl⟩
    | cons => exact Or.inr ⟨_, Or.inl rfl⟩
  have htag := Atom.scan?_symbol hne hchars hends
  obtain ⟨terms, hvalues, hterms⟩ := readsBack_kids hkids outer [] (.atom (.symbol tag.name.toList))
    (lineMark lines line ++ rest)
  obtain ⟨marks, hstated, hnull, hmarks⟩ := reads_lineMark hline lines outer
    (.atom (.symbol tag.name.toList) :: terms) rest
  refine ⟨.sexp (.atom (.symbol tag.name.toList) :: terms) marks, ?_, ?_⟩
  · have hsymbol : Atom.value (.symbol tag.name.toList) = .ok (.sym tag.name) := by
      simp [Atom.value]
    simp only [Term.value, Term.values, hsymbol, hvalues]
    show Term.assemble (.sym tag.name :: statedKids lines kids) marks = _
    simp only [Term.assemble, hname, hstated, hnull, stated]
  · have hall := (((reads_open _).trans (reads_atom htag)).trans hterms).trans hmarks
    simpa [render_sexp, body] using hall

lemma readsBack (lines : Bool) {v : Value} (h : v.readable = true) : ReadsBack lines v := by
  induction v using sexpInduction with
  | atom v hsexp => exact readsBack_atom h hsexp
  | sexp tag kids line maxLine ih =>
    simp only [readable, Bool.and_eq_true, readableKids_iff] at h
    exact readsBack_sexp tag maxLine h.1 fun kid hkid => ih kid hkid (h.2 kid hkid)

lemma read_render (lines : Bool) {v : Value} (h : v.readable = true) :
    Value.read (String.ofList (v.render lines .ruby)) = .ok (v.stated lines) := by
  obtain ⟨term, hvalue, hreads⟩ := readsBack lines h [] [] (Or.inl rfl)
  rw [List.append_nil] at hreads
  simp [Value.read, hreads.read_eq, hvalue]

/-! ### What is kept -/

lemma printableItems_iff {style : Style} {kids : List Value} :
    printableItems style kids = true ↔ ∀ kid ∈ kids, kid.printable style = true := by
  induction kids with
  | nil => simp [printableItems]
  | cons kid rest ih => simp [printableItems, ih]

lemma printable_of_readable {v : Value} (h : v.readable = true) : v.printable .ruby = true := by
  induction v using sexpInduction with
  | atom v hsexp =>
    unfold readable at h
    split at h <;> first | rfl | cases h | simp [asSexp?] at hsexp
  | sexp tag kids line maxLine ih =>
    simp only [readable, Bool.and_eq_true, readableKids_iff] at h
    exact printableItems_iff.mpr fun kid hkid => ih kid hkid (h.2 kid hkid)

lemma inspect_eq_ok {v : Value} (h : v.printable .ruby = true) :
    v.inspect = .ok (String.ofList (v.render false .ruby)) := by
  rw [inspect, if_pos h]

lemma sameType_stated {v : Value} (h : v.readable = true) (lines : Bool) :
    v.sameType (v.stated lines) = true := by
  unfold readable at h
  split at h <;> first | rfl | cases h

lemma same_exact (s : Scalar) (h : ∀ x, s ≠ .float x) : s.same s = true := by
  cases s with
  | float x => exact absurd rfl (h x)
  | _ => simp [Scalar.same, Scalar.quantity?, Quantity.same, Quantity.ofInt]

lemma same_self_of_atom {v : Value} (h : v.readable = true) (hsexp : v.asSexp? = none) :
    v.same v = true := by
  unfold readable at h
  split at h
  case h_11 => cases hsexp
  case h_12 => cases h
  all_goals simp [same, sameType, Tree.same, same_exact, quantity?, Quantity.same]

lemma sameKids_stated {kids : List Value} {lines : Bool}
    (h : ∀ kid ∈ kids,
      kid.sameType (kid.stated lines) = true ∧ kid.same (kid.stated lines) = true) :
    sameKids kids (statedKids lines kids) = true := by
  induction kids with
  | nil => rfl
  | cons kid rest ih =>
    have hkid := h kid (by simp)
    simp only [statedKids, sameKids, Bool.and_eq_true]
    exact ⟨hkid, ih fun kid hkid => h kid (by simp [hkid])⟩

lemma same_stated {v : Value} (h : v.readable = true) (lines : Bool) :
    v.same (v.stated lines) = true := by
  induction v using sexpInduction with
  | atom v hsexp =>
    rw [stated_of_atom hsexp]
    exact same_self_of_atom h hsexp
  | sexp tag kids line maxLine ih =>
    simp only [readable, Bool.and_eq_true, readableKids_iff] at h
    simp only [stated, same, beq_self_eq_true, Bool.true_and]
    exact sameKids_stated fun kid hkid =>
      ⟨sameType_stated (h.2 kid hkid) lines, ih kid hkid (h.2 kid hkid)⟩

mutual

/-- Whether the expressions in the second value have the lines of their counterparts in the first,
and no last lines. -/
def KeepsLines : Value → Value → Prop
  | .sexp _ kids line _, .sexp _ kids' line' maxLine' =>
    line' = line ∧ maxLine' = .null ∧ KeepsLinesKids kids kids'
  | .sexp .., _ => False
  | _, _ => True
termination_by structural v => v

def KeepsLinesKids : List Value → List Value → Prop
  | [], [] => True
  | kid :: rest, kid' :: rest' => KeepsLines kid kid' ∧ KeepsLinesKids rest rest'
  | _, _ => False
termination_by structural kids => kids

end

lemma keepsLines_stated (v : Value) : KeepsLines v (v.stated true) := by
  induction v using sexpInduction with
  | atom v hsexp => cases v <;> trivial
  | sexp tag kids line maxLine ih =>
    refine ⟨rfl, rfl, ?_⟩
    induction kids with
    | nil => trivial
    | cons kid rest ihRest =>
      exact ⟨ih kid (by simp), ihRest fun kid hkid => ih kid (by simp [hkid])⟩

/-- **Round trip**: the text of a readable value reads back as a value of its type that is equal to
it, and with line marks also every line comes back. -/
theorem read_inspect {v : Value} (h : v.readable = true) :
    (∃ text w, v.inspect = .ok text ∧ Value.read text = .ok w ∧
      v.sameType w = true ∧ v.same w = true) ∧
    (∃ text w, v.inspectWithLines = .ok text ∧ Value.read text = .ok w ∧
      v.sameType w = true ∧ v.same w = true ∧ KeepsLines v w) := by
  have hprint := printable_of_readable h
  constructor
  · refine ⟨String.ofList (v.render false .ruby), v.stated false, ?_, read_render false h,
      sameType_stated h false, same_stated h false⟩
    rw [inspect, if_pos hprint]
  · refine ⟨String.ofList (v.render true .ruby), v.stated true, ?_, read_render true h,
      sameType_stated h true, same_stated h true, keepsLines_stated v⟩
    rw [inspectWithLines, if_pos hprint]

/-- An expression with lines, signs, quotes, slashes and a quoted symbol is readable. -/
theorem read_inspect_call :
    let v : Value := .sexp .call
      [.nil, .sym "a b", .text "\"\n\\", .range (.int (-1)) (.int 3) (.bool true),
        .rational (mkRat (-1) 2), .imaginary (.int (-1)) (.rational (mkRat (-1) 2)),
        .regexp (.text "a/b\\.") 5, .sexp .lit [.int (-3), .sym "[]="] (.scalar (.int 7)) .null]
      (.scalar (.int 3)) (.scalar (.int 9))
    v.readable = true ∧
    (∃ text w, v.inspect = .ok text ∧ Value.read text = .ok w ∧
      v.sameType w = true ∧ v.same w = true) ∧
    (∃ text w, v.inspectWithLines = .ok text ∧ Value.read text = .ok w ∧
      v.sameType w = true ∧ v.same w = true ∧ KeepsLines v w) := by
  intro v
  have h : v.readable = true := by decide +kernel
  exact ⟨h, read_inspect h⟩

end Value

end RubySexp
