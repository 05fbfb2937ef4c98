import RubySexp.Proofs.Sexp.Lexeme
import RubySexp.Proofs.Sexp.ReadBack
import RubySexp.Proofs.Value.Equality

/-!
# The Text of an Expression Decides It

Two expressions are equal exactly if they are written alike. One half is that equality, in which
types count and lines do not, sees nothing that the text does not show. The other half is that a
text can be taken apart in one way only. The reader does not help here, as there are symbols that it
cuts short, so texts are compared from the left: each says where it ends, given that a comma, a
closing bracket or nothing stands behind it.
-/

namespace RubySexp

/-! ### Texts that say where they end -/

lemma RubyQuoted.text_append_inj {cs cs' rest rest' : List Char}
    (heq : text cs ++ rest = text cs' ++ rest') : cs = cs' ∧ rest = rest' := by
  have hscan := congrArg Atom.scan? heq
  rw [Atom.scan?_string, Atom.scan?_string, Option.some.injEq, Prod.mk.injEq,
    Atom.string.injEq] at hscan
  have hunescape := congrArg unescape hscan.1
  rw [unescape_escape, unescape_escape] at hunescape
  exact ⟨Except.ok.inj hunescape, hscan.2⟩

lemma Ends.head {c : Char} {rest : List Char} (h : Ends (c :: rest)) : c = ',' ∨ c = ')' := by
  rcases h with h | ⟨cs, h | h⟩
  · cases h
  · exact .inl (List.cons.inj h).1
  · exact .inr (List.cons.inj h).1

namespace Symbol

lemma not_plain_of_delimiter {cs ds : List Char} {c : Char} (h : isPlain (cs ++ c :: ds) = true)
    (hc : c = ',' ∨ c = ')') : isPlain cs = false := by
  have hdelimiter : isDelimiter c = true := by
    rcases hc with rfl | rfl <;> decide
  obtain ⟨hname, -⟩ := eq_global_of_plain h (by simp) hdelimiter
  rcases cs with _ | ⟨d, _ | ⟨e, cs⟩⟩
  · exact not_plain_nil
  · obtain ⟨rfl, -⟩ := List.cons.inj hname
    decide
  · simp at hname

/-- A plain name ends at what can stand behind a value. The only one with a comma in it, `$,`, has
no shorter name for its beginning. -/
lemma plain_append_inj {cs cs' rest rest' : List Char} (h : isPlain cs = true)
    (h' : isPlain cs' = true) (hrest : Ends rest) (hrest' : Ends rest')
    (heq : cs ++ rest = cs' ++ rest') : cs = cs' ∧ rest = rest' := by
  rcases List.append_eq_append_iff.mp heq with ⟨more, hcs', hmore⟩ | ⟨more, hcs, hmore⟩
  · rcases more with _ | ⟨c, more⟩
    · simp_all
    · rw [hmore] at hrest
      rw [hcs'] at h'
      rw [not_plain_of_delimiter h' hrest.head] at h
      cases h
  · rcases more with _ | ⟨c, more⟩
    · simp_all
    · rw [hmore] at hrest'
      rw [hcs] at h
      rw [not_plain_of_delimiter h hrest'.head] at h'
      cases h'

lemma plain_append_ne_quoted {cs cs' rest rest' : List Char} (h : isPlain cs = true) :
    cs ++ rest ≠ RubyQuoted.text cs' ++ rest' := by
  intro heq
  rcases cs with _ | ⟨c, cs⟩
  · rw [not_plain_nil] at h
    cases h
  · obtain ⟨rfl, -⟩ := List.cons.inj heq
    obtain ⟨hname, -⟩ := eq_global_of_plain h (List.mem_cons_self ..) (by decide)
    cases hname

end Symbol

namespace Value

lemma symbolText_append_inj {name name' : String} {rest rest' : List Char} (hrest : Ends rest)
    (hrest' : Ends rest')
    (heq : symbolText (.text name) ++ rest = symbolText (.text name') ++ rest') :
    name = name' ∧ rest = rest' := by
  simp only [symbolText, List.cons_append, List.cons.injEq, true_and] at heq
  have hnames : name.toList = name'.toList ∧ rest = rest' := by
    by_cases h : Symbol.isPlain name.toList = true <;>
      by_cases h' : Symbol.isPlain name'.toList = true <;>
      simp only [h, h', if_true, if_false, Bool.false_eq_true] at heq
    · exact Symbol.plain_append_inj h h' hrest hrest' heq
    · exact absurd heq (Symbol.plain_append_ne_quoted h)
    · exact absurd heq.symm (Symbol.plain_append_ne_quoted h')
    · exact RubyQuoted.text_append_inj heq
  exact ⟨String.toList_injective hnames.1, hnames.2⟩

/-! ### Numbers -/

def isExactNumber : Value → Bool
  | .int _ | .rational _ => true
  | _ => false

variable {v w re re' im im' : Value} {rest rest' : List Char}

lemma eq_of_isExactNumber (h : v.isExactNumber = true) :
    (∃ n, v = .int n) ∨ ∃ q, v = .rational q := by
  unfold isExactNumber at h
  split at h
  · exact .inl ⟨_, rfl⟩
  · exact .inr ⟨_, rfl⟩
  · cases h

lemma rationalText_append_inj {q q' : Rat}
    (heq : rationalText .ruby q ++ rest = rationalText .ruby q' ++ rest') :
    q = q' ∧ rest = rest' := by
  have hscan := congrArg Atom.scan? heq
  rw [Atom.scan?_rationalText, Atom.scan?_rationalText, Option.some.injEq, Prod.mk.injEq,
    Atom.ratio.injEq] at hscan
  obtain ⟨⟨hnum, hden⟩, hrests⟩ := hscan
  exact ⟨Rat.ext hnum hden, hrests⟩

lemma imaginaryText_spelled (h : v.isExactNumber = true) :
    ∃ negative digits spelling, imaginaryText v = signText negative :: (digits ++ ['i']) ∧
      (∀ rest, Atom.imaginary? negative (digits ++ 'i' :: rest) = some (spelling, 'i' :: rest)) ∧
      Atom.imaginaryValue spelling = .ok v := by
  obtain ⟨n, rfl⟩ | ⟨q, rfl⟩ := eq_of_isExactNumber h
  · refine ⟨decide (n < 0), natText n.natAbs, _, ?_, fun rest => Atom.imaginary?_int _ _, ?_⟩
    · simp [Atom.imaginaryText_int, signText]
    · exact Atom.value_int n
  · refine ⟨decide (q.num < 0), '(' :: (natText q.num.natAbs ++ '/' :: (natText q.den ++
      [')', '*'])), _, ?_, fun rest => ?_, Atom.imaginaryValue_ratio q⟩
    · simp [Atom.imaginaryText_rational, signText]
    · simpa using Atom.imaginary?_ratio (decide (q.num < 0)) q.num.natAbs q.den

lemma imaginaryText_append_inj (h : v.isExactNumber = true) (h' : w.isExactNumber = true)
    (heq : imaginaryText v ++ rest = imaginaryText w ++ rest') : v = w ∧ rest = rest' := by
  obtain ⟨negative, digits, spelling, htext, hscan, hvalue⟩ := imaginaryText_spelled h
  obtain ⟨negative', digits', spelling', htext', hscan', hvalue'⟩ := imaginaryText_spelled h'
  rw [htext, htext'] at heq
  simp only [List.cons_append, List.append_assoc, List.nil_append, List.cons.injEq] at heq
  obtain ⟨hsign, hdigits⟩ := heq
  obtain rfl := signText_injective hsign
  have hsame := hscan rest
  rw [hdigits, hscan' rest', Option.some.injEq, Prod.mk.injEq, List.cons.injEq] at hsame
  obtain ⟨rfl, -, hrests⟩ := hsame
  rw [hvalue'] at hvalue
  exact ⟨(Except.ok.inj hvalue).symm, hrests.symm⟩

/-! ### Values that their text decides -/

mutual

/-- Whether a value is made of expressions and of Ruby values whose text shows all that counts. Of
floats, regular expressions and lists this does not hold. -/
def legible : Value → Bool
  | .nil | .bool _ | .int _ | .text _ | .rational _ | .sym _ => true
  | .range (.int _) (.int _) (.bool _) => true
  | .imaginary re im => re.isExactNumber && im.isExactNumber
  | .sexp _ kids _ _ => areLegible kids
  | _ => false

def areLegible : List Value → Bool
  | [] => true
  | kid :: rest => legible kid && areLegible rest

end

lemma areLegible_iff {kids : List Value} :
    areLegible kids = true ↔ ∀ kid ∈ kids, kid.legible = true := by
  induction kids with
  | nil => simp [areLegible]
  | cons kid rest ih => simp [areLegible, ih]

lemma legible_atom_cases (h : v.legible = true) (hatom : v.asSexp? = none) :
    (∃ name, v = .sym name) ∨
      (∃ q im, v = .imaginary (.rational q) im ∧ im.isExactNumber = true) ∨
      v.readable = true ∧ ∀ name, v ≠ .sym name := by
  unfold legible at h
  split at h
  case h_6 name => exact .inl ⟨name, rfl⟩
  case h_8 re im =>
    rw [Bool.and_eq_true] at h
    obtain ⟨m, rfl⟩ | ⟨q, rfl⟩ := eq_of_isExactNumber h.1
    · obtain ⟨n, rfl⟩ | ⟨q, rfl⟩ := eq_of_isExactNumber h.2
      · exact .inr (.inr ⟨rfl, by simp⟩)
      · exact .inr (.inr ⟨rfl, by simp⟩)
    · exact .inr (.inl ⟨q, im, rfl, h.2⟩)
  case h_9 => cases hatom
  case h_10 => cases h
  all_goals exact .inr (.inr ⟨rfl, by simp⟩)

lemma eq_sym_of_scan? {a : Atom} {cs : List Char} (h : Atom.scan? (':' :: cs) = some (a, rest))
    (hvalue : a.value = .ok v) : ∃ name, v = .sym name := by
  change Atom.symbol? cs = _ at h
  unfold Atom.symbol? at h
  split at h
  · obtain ⟨⟨body, mid⟩, -, heq⟩ := Option.map_eq_some_iff.mp h
    cases heq
    rw [Atom.value] at hvalue
    rcases hbody : Atom.bodyText body with problem | name
    · rw [hbody] at hvalue
      cases hvalue
    · rw [hbody] at hvalue
      cases hvalue
      exact ⟨name, rfl⟩
  · dsimp only at h
    split at h
    · cases h
    · cases h
      cases hvalue
      exact ⟨_, rfl⟩

lemma scan?_two_brackets (cs : List Char) : Atom.scan? ('(' :: '(' :: cs) = none := by
  have hdigit : isDigit '(' = false := by decide
  change Atom.bracketed? ('(' :: cs) = none
  simp [Atom.bracketed?, Atom.minus_of_head, Atom.digits?, hdigit]

lemma render_readable_ne (h : v.readable = true) (hatom : v.asSexp? = none)
    (hsymbol : ∀ name, v ≠ .sym name) (hrest : Ends rest) (cs : List Char) :
    v.render false .ruby ++ rest ≠ ':' :: cs ∧ v.render false .ruby ++ rest ≠ '(' :: '(' :: cs ∧
      v.render false .ruby ++ rest ≠ 's' :: cs := by
  obtain ⟨a, hscan, hvalue⟩ := Atom.scan?_render false h hatom hrest
  refine ⟨fun heq => ?_, fun heq => ?_, fun heq => ?_⟩
  · rw [heq] at hscan
    obtain ⟨name, rfl⟩ := eq_sym_of_scan? hscan hvalue
    exact hsymbol name rfl
  · rw [heq, scan?_two_brackets] at hscan
    cases hscan
  · rw [heq, Atom.scan?_none (by decide) (by decide) (by decide)] at hscan
    cases hscan

lemma render_imaginary_append (q : Rat) (im : Value) :
    (Value.imaginary (.rational q) im).render false .ruby ++ rest =
      '(' :: (rationalText .ruby q ++ (imaginaryText im ++ ')' :: rest)) := by
  simp [render]

lemma render_atom_append_inj (h : v.legible = true) (hv : v.asSexp? = none)
    (h' : w.legible = true) (hw : w.asSexp? = none) (hrest : Ends rest) (hrest' : Ends rest')
    (heq : v.render false .ruby ++ rest = w.render false .ruby ++ rest') :
    v = w ∧ rest = rest' := by
  rcases legible_atom_cases h hv with ⟨name, rfl⟩ | ⟨q, im, rfl, him⟩ | ⟨hread, hsymbol⟩ <;>
    rcases legible_atom_cases h' hw with
      ⟨name', rfl⟩ | ⟨q', im', rfl, him'⟩ | ⟨hread', hsymbol'⟩
  · obtain ⟨rfl, hrests⟩ := symbolText_append_inj hrest hrest' heq
    exact ⟨rfl, hrests⟩
  · rw [render_imaginary_append] at heq
    cases heq
  · exact absurd heq.symm (render_readable_ne hread' hw hsymbol' hrest' _).1
  · rw [render_imaginary_append] at heq
    cases heq
  · rw [render_imaginary_append, render_imaginary_append] at heq
    obtain ⟨rfl, hparts⟩ := rationalText_append_inj (List.cons.inj heq).2
    obtain ⟨rfl, hrests⟩ := imaginaryText_append_inj him him' hparts
    exact ⟨rfl, (List.cons.inj hrests).2⟩
  · exact absurd heq.symm (render_readable_ne hread' hw hsymbol' hrest' _).2.1
  · exact absurd heq (render_readable_ne hread hv hsymbol hrest _).1
  · exact absurd heq (render_readable_ne hread hv hsymbol hrest _).2.1
  · obtain ⟨a, hscan, hvalue⟩ := Atom.scan?_render false hread hv hrest
    obtain ⟨a', hscan', hvalue'⟩ := Atom.scan?_render false hread' hw hrest'
    rw [heq, hscan', Option.some.injEq, Prod.mk.injEq] at hscan
    obtain ⟨rfl, hrests⟩ := hscan
    rw [hvalue'] at hvalue
    exact ⟨(Except.ok.inj hvalue).symm, hrests.symm⟩

/-! ### Expressions -/

/-- What stands behind the tag of an expression, or behind a kid. -/
def kidsText (kids : List Value) (rest : List Char) : List Char :=
  ((renderItems false .ruby kids).flatMap fun part => ',' :: ' ' :: part) ++ ')' :: rest

@[simp]
lemma kidsText_nil (rest : List Char) : kidsText [] rest = ')' :: rest := rfl

@[simp]
lemma kidsText_cons (kid : Value) (kids : List Value) (rest : List Char) :
    kidsText (kid :: kids) rest = ',' :: ' ' :: (kid.render false .ruby ++ kidsText kids rest) := by
  simp [kidsText, renderItems]

lemma ends_kidsText (kids : List Value) (rest : List Char) : Ends (kidsText kids rest) := by
  cases kids with
  | nil => exact .inr ⟨rest, .inr rfl⟩
  | cons => exact .inr ⟨_, .inl (kidsText_cons ..)⟩

lemma render_sexp_append (tag : Tag) (kids : List Value) (line maxLine : Json)
    (rest : List Char) :
    (Value.sexp tag kids line maxLine).render false .ruby ++ rest =
      's' :: '(' :: (':' :: tag.name.toList ++ kidsText kids rest) := by
  simp [render_sexp, kidsText, lineMark]

lemma tag_append_inj {tag tag' : Tag} (hrest : Ends rest) (hrest' : Ends rest')
    (heq : ':' :: tag.name.toList ++ rest = ':' :: tag'.name.toList ++ rest') :
    tag = tag' ∧ rest = rest' := by
  obtain ⟨-, hne, hchars⟩ := tag.spelled
  obtain ⟨-, hne', hchars'⟩ := tag'.spelled
  have hscan := congrArg Atom.scan? heq
  rw [List.cons_append, List.cons_append, Atom.scan?_symbol hne hchars hrest,
    Atom.scan?_symbol hne' hchars' hrest', Option.some.injEq, Prod.mk.injEq,
    Atom.symbol.injEq] at hscan
  exact ⟨Tag.name_eq_iff.1 (String.toList_injective hscan.1), hscan.2⟩

lemma render_atom_ne (h : v.legible = true) (hatom : v.asSexp? = none) (hrest : Ends rest)
    (cs : List Char) : v.render false .ruby ++ rest ≠ 's' :: cs := by
  rcases legible_atom_cases h hatom with ⟨name, rfl⟩ | ⟨q, im, rfl, -⟩ | ⟨hread, hsymbol⟩
  · rintro ⟨⟩
  · rw [render_imaginary_append]
    rintro ⟨⟩
  · exact (render_readable_ne hread hatom hsymbol hrest cs).2.2

lemma isRuby_of_legible (h : v.legible = true) : v.isRuby = true ∧ v.isDefinite = true := by
  induction v using sexpInduction with
  | atom v hatom =>
    unfold legible at h
    split at h
    case h_8 re im =>
      rw [Bool.and_eq_true] at h
      obtain ⟨m, rfl⟩ | ⟨q, rfl⟩ := eq_of_isExactNumber h.1 <;>
        obtain ⟨n, rfl⟩ | ⟨q, rfl⟩ := eq_of_isExactNumber h.2 <;> exact ⟨rfl, rfl⟩
    case h_9 => cases hatom
    case h_10 => cases h
    all_goals exact ⟨rfl, rfl⟩
  | sexp tag kids line maxLine ih =>
    rw [legible, areLegible_iff] at h
    rw [isRuby, areRuby_iff, isDefinite, areDefinite_iff]
    exact ⟨fun kid hkid => (ih kid hkid (h kid hkid)).1,
      fun kid hkid => (ih kid hkid (h kid hkid)).2⟩

/-- Whether the text of a value decides it, whatever stands behind it. -/
def Known (v : Value) : Prop :=
  ∀ w rest rest', w.legible = true → Ends rest → Ends rest' →
    v.render false .ruby ++ rest = w.render false .ruby ++ rest' → v.Equal w ∧ rest = rest'

lemma known_atom (h : v.legible = true) (hatom : v.asSexp? = none) : Known v := by
  intro w rest rest' hw hrest hrest' heq
  cases w with
  | sexp tag kids line maxLine =>
    rw [render_sexp_append] at heq
    exact absurd heq (render_atom_ne h hatom hrest _)
  | _ =>
    obtain ⟨rfl, hrests⟩ := render_atom_append_inj h hatom hw rfl hrest hrest' heq
    exact ⟨.refl (isRuby_of_legible h).1 (isRuby_of_legible h).2, hrests⟩

lemma known_kids {kids kids' : List Value} (h : ∀ kid ∈ kids, Known kid)
    (hkids' : ∀ kid ∈ kids', kid.legible = true)
    (heq : kidsText kids rest = kidsText kids' rest') :
    List.Forall₂ Equal kids kids' ∧ rest = rest' := by
  induction kids generalizing kids' with
  | nil =>
    cases kids' with
    | nil => exact ⟨.nil, (List.cons.inj heq).2⟩
    | cons kid' kids' =>
      rw [kidsText_nil, kidsText_cons] at heq
      cases heq
  | cons kid kids ih =>
    cases kids' with
    | nil =>
      rw [kidsText_nil, kidsText_cons] at heq
      cases heq
    | cons kid' kids' =>
      simp only [kidsText_cons, List.cons.injEq, true_and] at heq
      obtain ⟨hkid, hrests⟩ := h kid (by simp) kid' _ _ (hkids' kid' (by simp))
        (ends_kidsText ..) (ends_kidsText ..) heq
      obtain ⟨hkids, hrests⟩ := ih (fun kid hkid => h kid (by simp [hkid]))
        (fun kid hkid => hkids' kid (by simp [hkid])) hrests
      exact ⟨.cons hkid hkids, hrests⟩

/-- **A legible value is known by its text**, up to equality. -/
lemma known_of_legible (h : v.legible = true) : Known v := by
  induction v using sexpInduction with
  | atom v hatom => exact known_atom h hatom
  | sexp tag kids line maxLine ih =>
    rw [legible, areLegible_iff] at h
    intro w rest rest' hw hrest hrest' heq
    rw [render_sexp_append] at heq
    cases w with
    | sexp tag' kids' line' maxLine' =>
      rw [legible, areLegible_iff] at hw
      rw [render_sexp_append, List.cons.injEq, List.cons.injEq] at heq
      obtain ⟨rfl, htexts⟩ := tag_append_inj (ends_kidsText ..) (ends_kidsText ..) heq.2.2
      obtain ⟨hkids, hrests⟩ := known_kids (fun kid hkid => ih kid hkid (h kid hkid)) hw htexts
      exact ⟨equal_sexp.2 ⟨rfl, hkids⟩, hrests⟩
    | _ => exact absurd heq.symm (render_atom_ne hw rfl hrest' _)

/-! ### Equal values are written alike -/

lemma eq_of_legible_range {first last excludeEnd : Value}
    (h : (Value.range first last excludeEnd).legible = true) :
    ∃ m n b, first = .int m ∧ last = .int n ∧ excludeEnd = .bool b := by
  unfold legible at h
  split at h <;> simp_all

lemma eq_of_equal_scalar {s t : Scalar} (h : (Value.scalar s).legible = true)
    (h' : (Value.scalar t).legible = true) (heq : (Value.scalar s).Equal (.scalar t)) : s = t := by
  obtain ⟨htype, hsame⟩ := heq
  rcases s with _ | (_ | _) | _ | _ | _ <;> rcases t with _ | (_ | _) | _ | _ | _ <;>
    simp_all [legible, sameType, Scalar.typeName, same, Scalar.same, Scalar.quantity?,
      Quantity.ofInt, Quantity.same]

lemma eq_of_equal_exactNumber (h : v.isExactNumber = true) (h' : w.isExactNumber = true)
    (heq : v.Equal w) : v = w := by
  obtain ⟨m, rfl⟩ | ⟨p, rfl⟩ := eq_of_isExactNumber h <;>
    obtain ⟨n, rfl⟩ | ⟨q, rfl⟩ := eq_of_isExactNumber h'
  · exact congrArg Value.scalar (eq_of_equal_scalar rfl rfl heq)
  · cases heq.1
  · cases heq.1
  · have hquantity : p = q := by simpa [same, quantity?, Quantity.same] using heq.2
    rw [hquantity]

lemma eq_of_equal_atom (h : v.legible = true) (hv : v.asSexp? = none) (h' : w.legible = true)
    (heq : v.Equal w) : v = w := by
  cases v with
  | scalar s =>
    cases w with
    | scalar t => rw [eq_of_equal_scalar h h' heq]
    | _ => cases heq.1
  | rational p =>
    cases w with
    | rational q => exact eq_of_equal_exactNumber rfl rfl heq
    | _ => cases heq.1
  | symbol name =>
    cases w with
    | symbol name' =>
      unfold legible at h h'
      split at h <;> split at h' <;> simp_all [Equal, same, Tree.same, Scalar.same]
    | _ => cases heq.1
  | range first last excludeEnd =>
    cases w with
    | range first' last' excludeEnd' =>
      obtain ⟨m, n, b, rfl, rfl, rfl⟩ := eq_of_legible_range h
      obtain ⟨m', n', b', rfl, rfl, rfl⟩ := eq_of_legible_range h'
      cases b <;> cases b' <;>
        simp_all [Equal, same, Scalar.same, Scalar.quantity?, Quantity.ofInt, Quantity.same]
    | _ => cases heq.1
  | imaginary re im =>
    cases w with
    | imaginary re' im' =>
      simp only [legible, Bool.and_eq_true] at h h'
      have hparts : re.Equal re' ∧ im.Equal im' := by simpa [Equal, same] using heq.2
      rw [eq_of_equal_exactNumber h.1 h'.1 hparts.1, eq_of_equal_exactNumber h.2 h'.2 hparts.2]
    | _ => cases heq.1
  | sexp => cases hv
  | _ => cases h

lemma render_eq_of_equal (h : v.legible = true) (h' : w.legible = true) (heq : v.Equal w) :
    v.render false .ruby = w.render false .ruby := by
  induction v using sexpInduction generalizing w with
  | atom v hatom =>
    cases w with
    | sexp =>
      obtain ⟨kids', line', maxLine', rfl, -⟩ :=
        (heq.symm (isRuby_of_legible h).1 (isRuby_of_legible h').1).eq_sexp
      cases hatom
    | _ => rw [eq_of_equal_atom h hatom h' heq]
  | sexp tag kids line maxLine ih =>
    obtain ⟨kids', line', maxLine', rfl, hkids⟩ := heq.eq_sexp
    rw [legible, areLegible_iff] at h h'
    have hitems : renderItems false .ruby kids = renderItems false .ruby kids' := by
      clear heq
      induction hkids with
      | nil => rfl
      | @cons kid kid' kids kids' hkid hkids ihKids =>
        rw [renderItems, renderItems, ih kid (by simp) (h kid (by simp)) (h' kid' (by simp)) hkid,
          ihKids (fun kid hkid => ih kid (by simp [hkid])) (fun kid hkid => h kid (by simp [hkid]))
            (fun kid hkid => h' kid (by simp [hkid]))]
    rw [render_sexp, render_sexp, hitems, lineMark, lineMark]

lemma printable_of_legible (h : v.legible = true) : v.printable .ruby = true := by
  induction v using sexpInduction with
  | atom v hatom =>
    rcases legible_atom_cases h hatom with ⟨name, rfl⟩ | ⟨q, im, rfl, him⟩ | ⟨hread, -⟩
    · rfl
    · obtain ⟨n, rfl⟩ | ⟨q', rfl⟩ := eq_of_isExactNumber him <;> rfl
    · exact printable_of_readable hread
  | sexp tag kids line maxLine ih =>
    rw [legible, areLegible_iff] at h
    exact printableItems_iff.2 fun kid hkid => ih kid hkid (h kid hkid)

lemma same_toValue {a b : Sexp} : a.toValue.same b.toValue = true ↔ a.toValue.Equal b.toValue :=
  (and_iff_right rfl).symm

/-- **Printed text decides equality**: expressions made of nil, booleans, integers, texts, symbols
of any name, ranges of integers, rational and imaginary numbers and further expressions are printed
without an error, and they are equal exactly if their texts are the same. -/
theorem same_iff_inspect_eq (a b : Sexp) (ha : a.toValue.legible = true)
    (hb : b.toValue.legible = true) :
    ∃ s t, a.toValue.inspect = .ok s ∧ b.toValue.inspect = .ok t ∧
      (a.toValue.same b.toValue = true ↔ s = t) := by
  refine ⟨_, _, inspect_eq_ok (printable_of_legible ha), inspect_eq_ok (printable_of_legible hb),
    ?_⟩
  rw [same_toValue, String.ofList_inj]
  constructor
  · exact render_eq_of_equal ha hb
  · intro heq
    exact (known_of_legible ha b.toValue [] [] hb (.inl rfl) (.inl rfl) (by rw [heq])).1

/-- Symbols that hold a comma, a quote or a bracket, a rational real part and different lines. -/
theorem same_iff_inspect_eq_call :
    let a : Sexp := ⟨.call, [.nil, .sym "$,", .sym "a, :b", .text "s(:nil)", .bool true, .int 1,
      .range (.int (-1)) (.int 3) (.bool true), .imaginary (.rational (mkRat 1 2)) (.int (-1)),
      .sexp .lit [.rational (mkRat (-1) 2)] (.scalar (.int 7)) .null], .scalar (.int 3), .null⟩
    let b : Sexp := ⟨.call, [.nil, .sym "$", .sym "", .sym "a", .sym "b"], .null, .null⟩
    a.toValue.legible = true ∧ b.toValue.legible = true ∧
    ∃ s t, a.toValue.inspect = .ok s ∧ b.toValue.inspect = .ok t ∧
      (a.toValue.same b.toValue = true ↔ s = t) := by
  intro a b
  have ha : a.toValue.legible = true := rfl
  have hb : b.toValue.legible = true := rfl
  exact ⟨ha, hb, same_iff_inspect_eq a b ha hb⟩

end Value

end RubySexp
