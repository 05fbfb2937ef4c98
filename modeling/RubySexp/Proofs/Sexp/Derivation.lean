import RubySexp.Proofs.Sexp.Lexeme

/-!
# The Grammar of Printed Expressions

The grammar is stated on tokens, apart from the reader: which tokens spell a value, the items of an
expression and the marks behind it. A text is cut into the spellings of tokens with gaps before,
between and behind them.

Main statement: a text is accepted exactly when some cut of it derives a value. Then there is one
such cut and one such value, and what is read is what the value of the derivation says, or the
problem of the first of its parts that has one.
-/

namespace RubySexp

/-! ### Tokens of a value -/

inductive Phrase where
  | value (term : Term)
  | items (terms : List Term)
  | marks (marks : List (LineKey × Int))

/-- The rules of the grammar. The items of an expression are separated by commas, and a comma may
stand behind the last. -/
inductive Derives : Phrase → List Token → Prop
  | atom (a : Atom) : Derives (.value (.atom a)) [.atom a]
  | sexp {items marks us vs} : Derives (.items items) us → Derives (.marks marks) vs →
    Derives (.value (.sexp items marks)) (.openSexp :: (us ++ .close :: vs))
  | noItems : Derives (.items []) []
  | lastItem {term us} : Derives (.value term) us → Derives (.items [term]) us
  | item {term items us vs} : Derives (.value term) us → Derives (.items items) vs →
    Derives (.items (term :: items)) (us ++ .comma :: vs)
  | noMarks : Derives (.marks []) []
  | mark {k n marks us} : Derives (.marks marks) us →
    Derives (.marks ((k, n) :: marks)) (.dot :: .key k :: .openMark :: .number n :: .close :: us)

namespace ReadState

inductive Feeds : ReadState → List Token → ReadState → Prop
  | nil (s) : Feeds s [] s
  | cons {s token next tokens last} : Advances s token next → Feeds next tokens last →
    Feeds s (token :: tokens) last

namespace Feeds

variable {s s' s'' : ReadState} {us vs : List Token}

lemma trans (h : Feeds s us s') (h' : Feeds s' vs s'') : Feeds s (us ++ vs) s'' := by
  induction h with
  | nil => exact h'
  | cons hnext _ ih => exact .cons hnext (ih h')

end Feeds

/-! ### Every derivation is followed -/

/-- What the reader does with the tokens of a phrase, whatever is open around it. -/
def Follows : Phrase → List Token → Prop
  | .value term, us => ∀ outer, Feeds (.value outer) us (.behind outer term)
  | .items terms, us => ∀ before outer, Feeds (.value (before :: outer)) (us ++ [.close])
      (.behind outer (.sexp (before.reverse ++ terms) []))
  | .marks marks, us => ∀ outer items before, Feeds (.behind outer (.sexp items before)) us
      (.behind outer (.sexp items (before ++ marks)))

lemma follows_of_derives {phrase : Phrase} {us : List Token} (h : Derives phrase us) :
    Follows phrase us := by
  induction h with
  | atom a => exact fun outer => .cons (.atom outer a) (.nil _)
  | @sexp items marks us vs _ _ ihItems ihMarks =>
    intro outer
    have hitems := Feeds.cons (.openSexp outer) (ihItems [] outer)
    have hmarks := ihMarks outer items []
    simpa using hitems.trans hmarks
  | noItems =>
    intro before outer
    rw [List.append_nil]
    exact .cons (.closeEmpty before outer) (.nil _)
  | @lastItem term us _ ih =>
    intro before outer
    have hclose := Feeds.cons (.close before outer term) (.nil _)
    simpa using (ih (before :: outer)).trans hclose
  | @item term items us vs _ _ ihTerm ihItems =>
    intro before outer
    have hrest := Feeds.cons (.comma before outer term) (ihItems (term :: before) outer)
    simpa using (ihTerm (before :: outer)).trans hrest
  | noMarks =>
    intro outer items before
    rw [List.append_nil]
    exact .nil _
  | @mark k n marks us _ ih =>
    intro outer items before
    have hrest := ih outer items (before ++ [(k, n)])
    rw [List.append_assoc, List.singleton_append] at hrest
    exact .cons (.dot outer items before) <| .cons (.key outer items before k) <|
      .cons (.openMark outer items before k) <| .cons (.number outer items before k n) <|
      .cons (.closeMark outer items before k n) hrest

/-! ### What has been read is derived -/

inductive Preceding : List Term → List Token → Prop
  | nil : Preceding [] []
  | cons {term items us vs} : Preceding items us → Derives (.value term) vs →
    Preceding (term :: items) (us ++ (vs ++ [.comma]))

inductive Opened : List (List Term) → List Token → Prop
  | nil : Opened [] []
  | cons {items outer us vs} : Opened outer us → Preceding items vs →
    Opened (items :: outer) (us ++ .openSexp :: vs)

def markTokens : MarkPart → List Token
  | .dot => [.dot]
  | .key k => [.dot, .key k]
  | .opened k => [.dot, .key k, .openMark]
  | .numbered k n => [.dot, .key k, .openMark, .number n]

inductive Reached : ReadState → List Token → Prop
  | value {outer us} : Opened outer us → Reached (.value outer) us
  | behind {outer last us vs} : Opened outer us → Derives (.value last) vs →
    Reached (.behind outer last) (us ++ vs)
  | mark {outer items marks us vs} (part : MarkPart) : Opened outer us →
    Derives (.value (.sexp items marks)) vs →
    Reached (.mark outer items marks part) (us ++ (vs ++ markTokens part))

lemma Preceding.items {items terms : List Term} {us vs : List Token} (h : Preceding items us)
    (hterms : Derives (.items terms) vs) :
    Derives (.items (items.reverse ++ terms)) (us ++ vs) := by
  induction h generalizing terms vs with
  | nil => simpa using hterms
  | cons _ hterm ih => simpa using ih (.item hterm hterms)

lemma derives_marks_snoc {marks : List (LineKey × Int)} {us : List Token} (k : LineKey) (n : Int)
    (h : Derives (.marks marks) us) :
    Derives (.marks (marks ++ [(k, n)]))
      (us ++ [.dot, .key k, .openMark, .number n, .close]) := by
  generalize hphrase : Phrase.marks marks = phrase at h
  induction h generalizing marks with
  | noMarks =>
    cases hphrase
    exact .mark .noMarks
  | mark _ ih =>
    cases hphrase
    exact .mark (ih rfl)
  | _ => cases hphrase

lemma derives_mark {items : List Term} {marks : List (LineKey × Int)} {us : List Token}
    (k : LineKey) (n : Int) (h : Derives (.value (.sexp items marks)) us) :
    Derives (.value (.sexp items (marks ++ [(k, n)])))
      (us ++ [.dot, .key k, .openMark, .number n, .close]) := by
  cases h with
  | sexp hitems hmarks => simpa using Derives.sexp hitems (derives_marks_snoc k n hmarks)

lemma reached_advances {s next : ReadState} {token : Token} {us : List Token} (h : Reached s us)
    (hnext : Advances s token next) : Reached next (us ++ [token]) := by
  cases hnext with
  | openSexp outer =>
    cases h with
    | value houter => exact .value (.cons houter .nil)
  | atom outer a =>
    cases h with
    | value houter => exact .behind houter (.atom a)
  | closeEmpty items outer =>
    cases h with
    | value houter =>
      cases houter with
      | cons houter hitems =>
        simpa using Reached.behind houter (.sexp (by simpa using hitems.items .noItems) .noMarks)
  | comma items outer last =>
    cases h with
    | behind houter hlast =>
      cases houter with
      | cons houter hitems => simpa using Reached.value (houter.cons (hitems.cons hlast))
  | close items outer last =>
    cases h with
    | behind houter hlast =>
      cases houter with
      | cons houter hitems =>
        have hall := hitems.items (.lastItem hlast)
        simpa using Reached.behind houter (.sexp hall .noMarks)
  | dot outer items marks =>
    cases h with
    | behind houter hlast => simpa [markTokens] using Reached.mark .dot houter hlast
  | key outer items marks k =>
    cases h with
    | mark _ houter hlast => simpa [markTokens] using Reached.mark (.key k) houter hlast
  | openMark outer items marks k =>
    cases h with
    | mark _ houter hlast => simpa [markTokens] using Reached.mark (.opened k) houter hlast
  | number outer items marks k n =>
    cases h with
    | mark _ houter hlast => simpa [markTokens] using Reached.mark (.numbered k n) houter hlast
  | closeMark outer items marks k n =>
    cases h with
    | mark _ houter hlast =>
      simpa [markTokens] using Reached.behind houter (derives_mark k n hlast)

lemma reached_feeds {s last : ReadState} {us vs : List Token} (h : Reached s us)
    (hfeeds : Feeds s vs last) : Reached last (us ++ vs) := by
  induction hfeeds generalizing us with
  | nil => simpa using h
  | cons hnext _ ih => simpa using ih (reached_advances h hnext)

/-- **The reader accepts the tokens of a value and no others.** -/
lemma feeds_iff_derives {us : List Token} {term : Term} :
    Feeds (.value []) us (.behind [] term) ↔ Derives (.value term) us := by
  constructor
  · intro h
    have hreached := reached_feeds (.value .nil) h
    rw [List.nil_append] at hreached
    cases hreached with
    | behind houter hlast =>
      cases houter
      exact hlast
  · exact fun h => follows_of_derives h []

end ReadState

/-! ### Cutting a text -/

structure Lexeme where
  token : Token
  text : List Char
  spelled : token.Spelled text

inductive Cut : List Lexeme → List Char → Prop
  | done {gap} : (∀ c ∈ gap, isGap c = true) → Cut [] gap
  | lexeme {gap l ls rest} : (∀ c ∈ gap, isGap c = true) → Cut ls rest →
    Cut (l :: ls) (gap ++ (l.text ++ rest))

namespace ReadState

variable {s s' last : ReadState} {cs rest : List Char} {l : Lexeme} {ls ls' : List Lexeme}

lemma dropWhile_gap {gap rest : List Char} (hgap : ∀ c ∈ gap, isGap c = true) (l : Lexeme) :
    (gap ++ (l.text ++ rest)).dropWhile isGap = l.text ++ rest := by
  obtain ⟨c, t, htext, hc⟩ := l.spelled.eq_cons
  rw [htext]
  exact dropWhile_run hgap (stops_cons hc)

lemma breaks_of_cut {token : Token} (hnext : Advances s token s') (hopen : token.isOpen = true)
    (hcut : Cut ls rest) (hfeeds : Feeds s' (ls.map (·.token)) last) : Breaks rest := by
  cases hcut with
  | done hgap =>
    intro c cs hcs
    simp [isBreak, hgap c (by simp [hcs])]
  | @lexeme gap l ls rest hgap _ =>
    rcases gap with _ | ⟨d, gap⟩
    · cases hfeeds with
      | cons hnext' _ =>
        rcases l with ⟨token', text, hspelled⟩
        obtain rfl | rfl := hnext.breaks hopen hnext'
        · cases hspelled
          exact breaks_cons (by decide) _
        · cases hspelled
          exact breaks_cons (by decide) _
    · exact breaks_cons (by simp [isBreak, hgap d (by simp)]) _

lemma scan?_of_cut (hcut : Cut (l :: ls) cs) (hfeeds : Feeds s ((l :: ls).map (·.token)) last) :
    ∃ next rest, cs.dropWhile isGap = l.text ++ rest ∧ Advances s l.token next ∧
      s.scan? (l.text ++ rest) = some (l.token, rest) ∧ Cut ls rest ∧
      Feeds next (ls.map (·.token)) last := by
  cases hcut with
  | lexeme hgap hrest =>
    cases hfeeds with
    | cons hnext hfeeds =>
      have hscan := scan?_spelled hnext l.spelled fun hopen =>
        breaks_of_cut hnext hopen hrest hfeeds
      exact ⟨_, _, dropWhile_gap hgap l, hnext, hscan, hrest, hfeeds⟩

lemma reads_dropWhile_gap (s : ReadState) (cs : List Char) :
    Reads s cs s (cs.dropWhile isGap) := by
  induction cs with
  | nil => exact .refl s []
  | cons c cs ih =>
    by_cases hc : isGap c = true
    · rw [List.dropWhile_cons_of_pos hc]
      exact .gap hc ih
    · rw [List.dropWhile_cons_of_neg hc]
      exact .refl s _

lemma reads_of_cut (hcut : Cut ls cs) (hfeeds : Feeds s (ls.map (·.token)) last) :
    Reads s cs last [] := by
  induction ls generalizing s cs with
  | nil =>
    cases hcut with
    | done hgap =>
      cases hfeeds
      have hdrop : cs.dropWhile isGap = [] := by simpa using hgap
      exact hdrop ▸ reads_dropWhile_gap _ cs
  | cons l ls ih =>
    obtain ⟨next, rest, hdrop, hnext, hscan, hrest, hfeeds⟩ := scan?_of_cut hcut hfeeds
    have hstep : s.step? (l.text ++ rest) = some (next, rest) := by
      simp [step?, hscan, advance?_eq_some_iff.mpr hnext]
    obtain ⟨c, t, htext, hc⟩ := l.spelled.eq_cons
    refine (hdrop ▸ reads_dropWhile_gap s cs).trans (.trans ?_ (ih hrest hfeeds))
    rw [htext] at hstep ⊢
    exact .step hc hstep

lemma cut_of_end {latest : List Char} {term : Term} (hdrop : cs.dropWhile isGap = [])
    (h : s.finished?.elim (.error latest) .ok = (.ok term : Except (List Char) Term)) :
    ∃ ls, Cut ls cs ∧ Feeds s (ls.map (·.token)) (.behind [] term) := by
  have hgap : ∀ c ∈ cs, isGap c = true := by simpa using hdrop
  refine ⟨[], .done hgap, ?_⟩
  unfold finished? at h
  split at h <;> cases h
  exact .nil _

lemma cut_of_run {fuel : Nat} {latest : List Char} {term : Term}
    (h : run fuel s latest cs = .ok term) :
    ∃ ls, Cut ls cs ∧ Feeds s (ls.map (·.token)) (.behind [] term) := by
  induction fuel generalizing s latest cs with
  | zero =>
    rcases hdrop : cs.dropWhile isGap with _ | ⟨c, t⟩
    · rw [run_of_end hdrop] at h
      exact cut_of_end hdrop h
    · rw [run.eq_def, hdrop] at h
      cases h
  | succ fuel ih =>
    rcases hdrop : cs.dropWhile isGap with _ | ⟨c, t⟩
    · rw [run_of_end hdrop] at h
      exact cut_of_end hdrop h
    rw [run_of_token hdrop] at h
    rcases hstep : s.step? (c :: t) with _ | ⟨next, after⟩
    · rw [hstep] at h
      cases h
    rw [hstep] at h
    simp only [step?, Option.bind_eq_bind, Option.bind_eq_some_iff] at hstep
    obtain ⟨⟨token, mid⟩, hscan, next', hnext, heq⟩ := hstep
    cases heq
    obtain ⟨text, htext, hspelled⟩ := scan?_sound hscan
    obtain ⟨ls, hcut, hfeeds⟩ := ih h
    have hcs : cs = cs.takeWhile isGap ++ (text ++ mid) := by
      rw [← htext, ← hdrop, List.takeWhile_append_dropWhile]
    refine ⟨⟨token, text, hspelled⟩ :: ls, ?_, .cons (advance?_eq_some_iff.mp hnext) hfeeds⟩
    rw [hcs]
    exact Cut.lexeme (l := ⟨token, text, hspelled⟩) (fun c hc => List.mem_takeWhile_imp hc) hcut

lemma not_cut_of_gaps (h : Cut [] cs) : ¬ Cut (l :: ls) cs := by
  intro h'
  cases h with
  | done hgap =>
    cases h' with
    | lexeme _ _ =>
      obtain ⟨c, t, htext, hc⟩ := l.spelled.eq_cons
      have hc' := hgap c (by simp [htext])
      rw [hc] at hc'
      cases hc'

/-- **A text has one cut that the reader accepts.** -/
lemma cut_unique {last' : ReadState} (h : Cut ls cs) (hfeeds : Feeds s (ls.map (·.token)) last)
    (h' : Cut ls' cs) (hfeeds' : Feeds s (ls'.map (·.token)) last') : ls = ls' := by
  induction ls generalizing s cs ls' with
  | nil =>
    rcases ls' with _ | ⟨l', ls'⟩
    · rfl
    · exact absurd h' (not_cut_of_gaps h)
  | cons l ls ih =>
    rcases ls' with _ | ⟨l', ls'⟩
    · exact absurd h (not_cut_of_gaps h')
    obtain ⟨next, rest, hdrop, hnext, hscan, hrest, hfeeds⟩ := scan?_of_cut h hfeeds
    obtain ⟨next', rest', hdrop', hnext', hscan', hrest', hfeeds'⟩ := scan?_of_cut h' hfeeds'
    -- Both cuts start with the token that the reader takes, and leave what it leaves.
    rw [← hdrop] at hscan
    rw [← hdrop', hscan] at hscan'
    obtain ⟨htoken, rfl⟩ := Prod.mk.inj (Option.some.inj hscan')
    have htext : l.text = l'.text := List.append_cancel_right (hdrop.symm.trans hdrop')
    have hl : l = l' := by
      rcases l with ⟨token, text, _⟩
      rcases l' with ⟨token', text', _⟩
      obtain rfl := htoken
      obtain rfl := htext
      rfl
    subst hl
    rw [← advance?_eq_some_iff] at hnext hnext'
    obtain rfl := Option.some.inj (hnext.symm.trans hnext')
    rw [ih hrest hfeeds hrest' hfeeds']

end ReadState

/-! ### Accepted texts -/

/-- A text with one of its derivations. -/
def Parses (text : List Char) (lexemes : List Lexeme) (term : Term) : Prop :=
  Cut lexemes text ∧ Derives (.value term) (lexemes.map (·.token))

lemma Parses.read_eq {text : List Char} {lexemes : List Lexeme} {term : Term}
    (h : Parses text lexemes term) : Term.read text = .ok term :=
  (ReadState.reads_of_cut h.1 (ReadState.feeds_iff_derives.mpr h.2)).read_eq

lemma exists_parses_of_read {text : List Char} {term : Term} (h : Term.read text = .ok term) :
    ∃ lexemes, Parses text lexemes term := by
  obtain ⟨lexemes, hcut, hfeeds⟩ := ReadState.cut_of_run h
  exact ⟨lexemes, hcut, ReadState.feeds_iff_derives.mp hfeeds⟩

lemma Parses.unique {text : List Char} {lexemes lexemes' : List Lexeme} {term term' : Term}
    (h : Parses text lexemes term) (h' : Parses text lexemes' term') :
    lexemes' = lexemes ∧ term' = term := by
  have hterm := h.read_eq.symm.trans h'.read_eq
  refine ⟨?_, (Except.ok.inj hterm).symm⟩
  exact ReadState.cut_unique h'.1 (ReadState.feeds_iff_derives.mpr h'.2) h.1
    (ReadState.feeds_iff_derives.mpr h.2)

namespace Term

/-! ### What a term says -/

mutual

inductive Denotes : Term → Value → Prop
  | atom {a v} : a.value = .ok v → Denotes (.atom a) v
  | sexp {items name tag kids marks} : DenotesAll items (.sym name :: kids) →
    Tag.ofName? name = some tag →
    Denotes (.sexp items marks) (.sexp tag kids (lineOf .line marks) (lineOf .maxLine marks))

inductive DenotesAll : List Term → List Value → Prop
  | nil : DenotesAll [] []
  | cons {item items v vs} : Denotes item v → DenotesAll items vs →
    DenotesAll (item :: items) (v :: vs)

end

mutual

/-- The parts of a term, each behind its own parts and these from left to right. -/
def parts : Term → List Term
  | .atom a => [.atom a]
  | .sexp items marks => partsOf items ++ [.sexp items marks]

def partsOf : List Term → List Term
  | [] => []
  | item :: items => parts item ++ partsOf items

end

/-- What is wrong with a term apart from its parts. An expression starts with the symbol of a
tag. -/
def problem? : Term → Option Problem
  | .atom a =>
    match a.value with
    | .error problem => some problem
    | .ok _ => none
  | .sexp (.atom a :: _) _ =>
    match a.value with
    | .ok (.symbol (.text name)) =>
      if (Tag.ofName? name).isSome then none else some (.unknownTag name)
    | .ok _ => some .noTag
    | .error _ => none
  | .sexp _ _ => some .noTag

/-- The problem of the first part that has one. -/
def firstProblem? (term : Term) : Option Problem := term.parts.findSome? problem?

lemma values_cons {item : Term} {items : List Term} :
    values (item :: items) = item.value.bind fun v => (values items).map (v :: ·) := by
  rw [values]
  cases item.value with
  | error problem => rfl
  | ok v => cases values items <;> rfl

lemma value_sexp {items : List Term} {marks : List (LineKey × Int)} :
    (Term.sexp items marks).value = (values items).bind fun vs => assemble vs marks := by
  rw [value]
  cases values items <;> rfl

lemma assemble_eq_ok_iff {vs : List Value} {marks : List (LineKey × Int)} {v : Value} :
    assemble vs marks = .ok v ↔ ∃ name tag kids, vs = .sym name :: kids ∧
      Tag.ofName? name = some tag ∧
      v = .sexp tag kids (lineOf .line marks) (lineOf .maxLine marks) := by
  constructor
  · intro h
    unfold assemble at h
    split at h
    · split at h
      · next name kids _ tag htag =>
        cases h
        exact ⟨name, tag, kids, rfl, htag, rfl⟩
      · cases h
    · cases h
  · rintro ⟨name, tag, kids, rfl, htag, rfl⟩
    simp [assemble, htag]

mutual

lemma value_eq_ok_iff : ∀ {term : Term} {v : Value}, term.value = .ok v ↔ Denotes term v
  | .atom a, v => by
    rw [value]
    constructor
    · exact .atom
    · intro h
      cases h with
      | atom h => exact h
  | .sexp items marks, v => by
    rw [value_sexp]
    constructor
    · intro h
      rcases hvs : values items with problem | vs
      · rw [hvs] at h
        cases h
      · rw [hvs] at h
        obtain ⟨name, tag, kids, rfl, htag, rfl⟩ := assemble_eq_ok_iff.mp h
        exact .sexp (values_eq_ok_iff.mp hvs) htag
    · intro h
      cases h with
      | sexp hitems htag =>
        rw [values_eq_ok_iff.mpr hitems]
        exact assemble_eq_ok_iff.mpr ⟨_, _, _, rfl, htag, rfl⟩

lemma values_eq_ok_iff : ∀ {items : List Term} {vs : List Value},
    values items = .ok vs ↔ DenotesAll items vs
  | [], vs => by
    rw [values]
    constructor
    · intro h
      cases h
      exact .nil
    · intro h
      cases h
      rfl
  | item :: items, vs => by
    rw [values_cons]
    constructor
    · intro h
      rcases hv : item.value with problem | v
      · rw [hv] at h
        cases h
      rcases hvs : values items with problem | vs'
      · rw [hv, hvs] at h
        cases h
      rw [hv, hvs] at h
      cases h
      exact .cons (value_eq_ok_iff.mp hv) (values_eq_ok_iff.mp hvs)
    · intro h
      cases h with
      | cons hv hvs =>
        rw [value_eq_ok_iff.mpr hv, values_eq_ok_iff.mpr hvs]
        rfl

end

def problemOf {α : Type} : Except Problem α → Option Problem
  | .error problem => some problem
  | .ok _ => none

lemma problem?_sexp {items : List Term} {vs : List Value} (marks : List (LineKey × Int))
    (h : values items = .ok vs) :
    problem? (.sexp items marks) = problemOf (assemble vs marks) := by
  rw [values_eq_ok_iff] at h
  cases h with
  | nil => rfl
  | cons hitem _ =>
    cases hitem with
    | sexp => rfl
    | @atom a v ha =>
      simp only [problem?, ha]
      split
      · next name heq =>
        cases heq
        rcases htag : Tag.ofName? name with _ | tag <;> simp [assemble, htag, problemOf]
      · next w hno heq =>
        cases heq
        unfold assemble
        split
        · next heq =>
          cases heq
          exact absurd rfl (hno _)
        · rfl
      · next heq => cases heq

mutual

/-- **The first problem, from the inside out and from left to right, is the one that shows.** -/
lemma firstProblem?_eq : ∀ term : Term, term.firstProblem? = problemOf term.value
  | .atom a => by
    rw [firstProblem?, parts, value]
    rcases ha : a.value with problem | v <;> simp [problem?, problemOf, ha]
  | .sexp items marks => by
    rw [firstProblem?, parts, List.findSome?_append, findSome?_partsOf items, value_sexp]
    rcases hvs : values items with problem | vs
    · rfl
    · simp only [problemOf, Option.none_or, List.findSome?_cons, problem?_sexp marks hvs]
      rcases hv : assemble vs marks with problem | v <;> simp [Except.bind, hv]

lemma findSome?_partsOf : ∀ items : List Term,
    (partsOf items).findSome? problem? = problemOf (values items)
  | [] => rfl
  | item :: items => by
    rw [partsOf, List.findSome?_append, findSome?_partsOf items, values_cons]
    have hitem := firstProblem?_eq item
    rw [firstProblem?] at hitem
    rw [hitem]
    rcases item.value with problem | v
    · rfl
    · rcases values items with problem | vs
      · rfl
      · rfl

end

end Term

/-! ### The outcome of reading -/

lemma Parses.value_read_eq {text : String} {lexemes : List Lexeme} {term : Term}
    (h : Parses text.toList lexemes term) :
    Value.read text = term.value.mapError .noValue := by
  rcases hvalue : term.value with problem | v <;>
    simp [Value.read, h.read_eq, hvalue, Except.mapError]

lemma Value.exists_term_of_read {text : String} {v : Value} (h : Value.read text = .ok v) :
    ∃ term, Term.read text.toList = .ok term ∧ term.value = .ok v := by
  rcases hterm : Term.read text.toList with rest | term
  · simp [Value.read, hterm] at h
  · refine ⟨term, rfl, ?_⟩
    rcases hvalue : term.value with problem | w <;> simp_all [Value.read]

lemma exists_parses_iff {text : String} :
    (∀ error, Value.read text = .error error → error.offset? = none) ↔
      ∃ lexemes term, Parses text.toList lexemes term := by
  constructor
  · intro h
    rcases hread : Term.read text.toList with rest | term
    · have hno := h (.misplaced (.ofRest text.toList rest)) (by simp [Value.read, hread])
      cases hno
    · obtain ⟨lexemes, hparses⟩ := exists_parses_of_read hread
      exact ⟨lexemes, term, hparses⟩
  · rintro ⟨lexemes, term, hparses⟩ error herror
    rw [hparses.value_read_eq] at herror
    rcases hvalue : term.value with problem | v
    · rw [hvalue] at herror
      cases herror
      rfl
    · rw [hvalue] at herror
      cases herror

/-- **The reader accepts exactly the texts that the grammar derives, each in one way.** It reports
a place exactly for texts without a derivation. Otherwise there is one cut into tokens and one term,
what is read is the value of the term or else the first problem of its parts, and every text with
the same tokens is read the same. -/
theorem read_accepts_grammar (text : String) :
    ((∀ error, Value.read text = .error error → error.offset? = none) ↔
      ∃ lexemes term, Parses text.toList lexemes term) ∧
    ∀ lexemes term, Parses text.toList lexemes term →
      (∀ lexemes' term', Parses text.toList lexemes' term' → lexemes' = lexemes ∧ term' = term) ∧
      (∀ v, Value.read text = .ok v ↔ term.Denotes v) ∧
      (∀ problem, Value.read text = .error (.noValue problem) ↔
        term.firstProblem? = some problem) ∧
      ∀ (text' : String) (lexemes' : List Lexeme), Cut lexemes' text'.toList →
        lexemes'.map (·.token) = lexemes.map (·.token) → Value.read text' = Value.read text := by
  refine ⟨exists_parses_iff, fun lexemes term h => ⟨fun _ _ h' => h.unique h', ?_, ?_, ?_⟩⟩
  · intro v
    rw [h.value_read_eq, ← Term.value_eq_ok_iff]
    rcases term.value with problem | w <;> simp [Except.mapError]
  · intro problem
    rw [h.value_read_eq, Term.firstProblem?_eq]
    rcases term.value with problem' | w <;> simp [Except.mapError, Term.problemOf]
  · intro text' lexemes' hcut htokens
    have h' : Parses text'.toList lexemes' term := ⟨hcut, htokens ▸ h.2⟩
    rw [h.value_read_eq, h'.value_read_eq]

/-- Gaps between tokens, a comma behind the last item and a mark. -/
theorem read_accepts_spaced_mark :
    (∃ lexemes term, Parses "s( :lit,-1 ,)\n.line(3 )".toList lexemes term) ∧
    Value.read "s( :lit,-1 ,)\n.line(3 )" = .ok (.sexp .lit [.int (-1)] (.int 3) .null) := by
  have hminus : Digits ['1'] := ⟨by simp, List.forall_mem_singleton.mpr rfl⟩
  have hline : Digits ['3'] := ⟨by simp, List.forall_mem_singleton.mpr rfl⟩
  have hname : ∀ c ∈ ['l', 'i', 't'], Atom.isSymbolChar c = true := List.all_eq_true.mp rfl
  have hparses : Parses "s( :lit,-1 ,)\n.line(3 )".toList
      [⟨.openSexp, _, .openSexp⟩, ⟨.atom (.symbol ['l', 'i', 't']), _, .atom (.symbol (by simp)
        hname)⟩, ⟨.comma, _, .comma⟩, ⟨.atom (.number ⟨true, ['1'], []⟩), _,
        .atom (.integer true hminus)⟩, ⟨.comma, _, .comma⟩, ⟨.close, _, .close⟩, ⟨.dot, _, .dot⟩,
        ⟨.key .line, _, .line⟩, ⟨.openMark, _, .openMark⟩, ⟨.number 3, _, .number false hline⟩,
        ⟨.close, _, .close⟩]
      (.sexp [.atom (.symbol ['l', 'i', 't']), .atom (.number ⟨true, ['1'], []⟩)]
        [(.line, 3)]) := by
    constructor
    · have hno : ∀ c ∈ [], isGap c = true := List.forall_mem_nil _
      have hblank : ∀ c ∈ [' '], isGap c = true := by simp [isGap]
      have hend : ∀ c ∈ ['\n'], isGap c = true := by simp [isGap]
      exact .lexeme hno <| .lexeme hblank <| .lexeme hno <| .lexeme hno <| .lexeme hblank <|
        .lexeme hno <| .lexeme hend <| .lexeme hno <| .lexeme hno <| .lexeme hno <|
        .lexeme hblank <| .done hno
    · exact .sexp (.item (.atom _) (.item (.atom _) .noItems)) (.mark .noMarks)
  refine ⟨⟨_, _, hparses⟩, ?_⟩
  have houtcome := ((read_accepts_grammar _).2 _ _ hparses).2.1
  exact (houtcome _).mpr (.sexp (.cons (.atom rfl) (.cons (.atom rfl) .nil)) (by decide))

end RubySexp
