import RubySexp.Proofs.Value.PlainSymbol
import RubySexp.Proofs.Value.RegexpText

/-!
# How Values Are Spelled

The text of a value that is no expression is one atom. Nothing that can stand behind a value, a
comma or a closing bracket, could go on with the atom, so the scanner takes exactly this text; and
the value of the atom is the value that was written.
-/

namespace RubySexp

/-- What can stand behind the text of a value. -/
def Ends (rest : List Char) : Prop :=
  rest = [] ∨ ∃ cs, rest = ',' :: cs ∨ rest = ')' :: cs

lemma Ends.stops {rest : List Char} (h : Ends rest) {p : Char → Bool} (hcomma : p ',' = false)
    (hclose : p ')' = false) : Stops p rest := by
  rcases h with rfl | ⟨cs, rfl | rfl⟩
  · exact stops_nil p
  · exact stops_cons hcomma
  · exact stops_cons hclose

namespace Atom

variable {rest : List Char}

/-! ### Numbers -/

def wordStarts : List Char := [':', '"', '/', '(', 'n', 't', 'f']

lemma scan?_eq_number? {c : Char} (h : c ∉ wordStarts) (cs : List Char) :
    scan? (c :: cs) = number? (c :: cs) := by
  rw [scan?.eq_def]
  split
  all_goals first
    | rfl
    | (next heq => exact absurd ((List.cons.inj heq).1 ▸ by decide) h)

lemma number?_none {c : Char} (hdigit : isDigit c = false) (hminus : c ≠ '-') (cs : List Char) :
    number? (c :: cs) = none := by
  simp [number?, minus_of_head hminus, digits?, hdigit]

lemma scan?_of_head {c : Char} (h : c.isDigit = true ∨ c = '-') (cs : List Char) :
    scan? (c :: cs) = number? (c :: cs) := by
  refine scan?_eq_number? (fun hmem => ?_) cs
  have hall : wordStarts.all (fun d => !(d.isDigit || d == '-')) = true := by decide
  have hc := List.all_eq_true.mp hall c hmem
  rcases h with h | rfl
  · simp [h] at hc
  · cases hc

lemma intText_eq_cons (n : Int) : ∃ c cs, intText n = c :: cs ∧ (c.isDigit = true ∨ c = '-') := by
  rcases n with n | n
  · obtain ⟨c, cs, h, hc⟩ := natText_eq_cons n
    exact ⟨c, cs, h, .inl hc⟩
  · exact ⟨'-', _, rfl, .inr rfl⟩

lemma scan?_intText (n : Int) (cs : List Char) :
    scan? (intText n ++ cs) = number? (intText n ++ cs) := by
  obtain ⟨c, ds, h, hc⟩ := intText_eq_cons n
  rw [h, List.cons_append, scan?_of_head hc]

lemma rangeEnd?_ends (h : Ends rest) : rangeEnd? rest = none := by
  rcases h with rfl | ⟨cs, rfl | rfl⟩ <;> rfl

lemma fraction?_ends (h : Ends rest) : fraction? rest = none := by
  rcases h with rfl | ⟨cs, rfl | rfl⟩ <;> rfl

lemma scan?_int (n : Int) (h : Ends rest) :
    scan? (intText n ++ rest) =
      some (.number ⟨decide (n < 0), natText n.natAbs, []⟩, rest) := by
  have hdigit := h.stops (p := isDigit) (by decide) (by decide)
  rw [scan?_intText, number?, minus_intText]
  simp [digits?_natText _ hdigit, rangeEnd?_ends h, fraction?_ends h]

lemma not_point_mem_natText (n : Nat) : '.' ∉ natText n := by
  intro h
  have := isDigit_of_mem_natText h
  simp at this

lemma value_int (n : Int) :
    Numeral.value ⟨decide (n < 0), natText n.natAbs, []⟩ = .ok (.int n) := by
  simp [Numeral.value, not_point_mem_natText, signed_natText]

lemma rangeEnd?_dots (excludeEnd : Bool) (last : Int) (h : Ends rest) :
    rangeEnd? ((if excludeEnd then ['.', '.', '.'] else ['.', '.']) ++ (intText last ++ rest)) =
      some (excludeEnd, last, rest) := by
  have hdigit := h.stops (p := isDigit) (by decide) (by decide)
  have hint := integer?_intText last hdigit
  cases excludeEnd
  · obtain ⟨c, cs, hcs, hc⟩ := intText_eq_cons last
    have hne : c ≠ '.' := by
      rintro rfl
      simp at hc
    simp only [hcs, List.cons_append] at hint ⊢
    unfold rangeEnd?
    split
    · next heq => simp_all
    · next heq =>
      simp only [Bool.false_eq_true, if_false, List.cons_append, List.nil_append,
        List.cons.injEq, true_and] at heq
      rw [← heq, hint]
      rfl
    · next hno => exact absurd rfl (hno _)
  · simp [rangeEnd?, hint]

lemma scan?_range (first last : Int) (excludeEnd : Bool) (h : Ends rest) :
    scan? (intText first ++ ((if excludeEnd then ['.', '.', '.'] else ['.', '.']) ++
      (intText last ++ rest))) = some (.range first last excludeEnd, rest) := by
  have hstop : Stops isDigit ((if excludeEnd then ['.', '.', '.'] else ['.', '.']) ++
      (intText last ++ rest)) := by
    cases excludeEnd <;> exact stops_cons (by decide)
  rw [scan?_intText, number?, minus_intText]
  simp [digits?_natText _ hstop, rangeEnd?_dots excludeEnd last h, signed_natText]

/-! ### Ratios and complex numbers -/

lemma scan?_ratio (numerator : Int) (denominator : Nat) :
    scan? ('(' :: (intText numerator ++ '/' :: (natText denominator ++ ')' :: rest))) =
      some (.ratio numerator denominator, rest) := by
  have hslash : Stops isDigit ('/' :: (natText denominator ++ ')' :: rest)) :=
    stops_cons (by decide)
  have hclose : Stops isDigit (')' :: rest) := stops_cons (by decide)
  change bracketed? _ = _
  rw [bracketed?, minus_intText]
  simp [digits?_natText _ hslash, digits?_natText _ hclose, exactly?, signed_natText]

lemma bracketed?_complex (re : Int) (negative : Bool) {cs : List Char} {im : ImaginarySpelling}
    (him : imaginary? negative cs = some (im, 'i' :: ')' :: rest)) :
    bracketed? (intText re ++ (if negative then '-' else '+') :: cs) =
      some (.complex ⟨decide (re < 0), natText re.natAbs, []⟩ im, rest) := by
  rw [bracketed?, minus_intText]
  cases negative
  · have hplus : Stops isDigit ('+' :: cs) := stops_cons (by decide)
    have hdigits := digits?_natText re.natAbs hplus
    simp only [Bool.false_eq_true, if_false, hdigits, Option.bind_eq_bind, Option.bind_some]
    simp [optional, fraction?, exponent?, sign?, exactly?, him]
  · have hminus : Stops isDigit ('-' :: cs) := stops_cons (by decide)
    have hdigits := digits?_natText re.natAbs hminus
    simp only [if_true, hdigits, Option.bind_eq_bind, Option.bind_some]
    simp [optional, fraction?, exponent?, sign?, exactly?, him]

lemma imaginary?_int (negative : Bool) (n : Nat) :
    imaginary? negative (natText n ++ 'i' :: rest) =
      some (.numeral ⟨negative, natText n, []⟩, 'i' :: rest) := by
  obtain ⟨c, cs, hcs, hc⟩ := natText_eq_cons n
  have hrun : ∀ d ∈ natText n, (isDigit d || d == '.') = true := fun d hd => by
    simp [isDigit_of_isDigit (isDigit_of_mem_natText hd)]
  have hstop : Stops (fun d => isDigit d || d == '.') ('i' :: rest) := stops_cons (by decide)
  have hopen : c ≠ '(' := by
    rintro rfl
    simp at hc
  rw [imaginary?.eq_def]
  split
  · next heq =>
    rw [hcs] at heq
    exact absurd (List.cons.inj heq).1 hopen
  · simp [takeWhile_run hrun hstop, dropWhile_run hrun hstop, natText_ne_nil, optional, exponent?]

lemma imaginary?_ratio (negative : Bool) (numerator denominator : Nat) :
    imaginary? negative ('(' :: (natText numerator ++ '/' :: (natText denominator ++
      ')' :: '*' :: rest))) = some (.ratio negative numerator denominator, rest) := by
  have hslash : Stops isDigit ('/' :: (natText denominator ++ ')' :: '*' :: rest)) :=
    stops_cons (by decide)
  have hclose : Stops isDigit (')' :: '*' :: rest) := stops_cons (by decide)
  simp [imaginary?, digits?_natText _ hslash, digits?_natText _ hclose, exactly?]

/-! ### Quoted texts and symbols -/

lemma scan?_string (cs : List Char) :
    scan? (RubyQuoted.text cs ++ rest) = some (.string (RubyQuoted.escape cs), rest) := by
  have h := delimited?_body (by decide) (RubyQuoted.delimitedBody_escape cs) rest
  rw [RubyQuoted.text, List.cons_append, List.append_assoc]
  exact congrArg (Option.map _) h

lemma scan?_quotedSymbol (cs : List Char) :
    scan? (':' :: (RubyQuoted.text cs ++ rest)) =
      some (.quotedSymbol (RubyQuoted.escape cs), rest) := by
  have h := delimited?_body (by decide) (RubyQuoted.delimitedBody_escape cs) rest
  rw [RubyQuoted.text, List.cons_append, List.append_assoc]
  exact congrArg (Option.map _) h

lemma bodyText_escape (s : String) : bodyText (RubyQuoted.escape s.toList) = .ok s := by
  simp [bodyText, RubyQuoted.unescape_escape]

lemma scan?_symbol {name : List Char} (hne : name ≠ [])
    (hname : ∀ c ∈ name, isSymbolChar c = true) (h : Ends rest) :
    scan? (':' :: (name ++ rest)) = some (.symbol name, rest) := by
  have hstop := h.stops (p := isSymbolChar) (by decide) (by decide)
  change symbol? (name ++ rest) = _
  rw [symbol?.eq_def]
  split
  · next heq =>
    rcases name with _ | ⟨c, cs⟩
    · exact absurd rfl hne
    · have hc := hname c (by simp)
      rw [(List.cons.inj heq).1] at hc
      simp [isSymbolChar] at hc
  · simp [takeWhile_run hname hstop, dropWhile_run hname hstop, hne]

end Atom

lemma Atom.scan?_regexp {source rest : List Char} {options : Nat}
    (hpairs : backslashesPaired source = true) (hslashes : slashesFree source = true)
    (h : Ends rest) :
    Atom.scan? (Value.regexpText source options ++ rest) =
      some (.regexp (Value.escapeSlashes ' ' source) (Value.optionLetters options), rest) := by
  have hbody := Value.delimitedBody_escapeSlashes hpairs (slashesFree_blank hslashes)
  have hflags : ∀ c ∈ Value.optionLetters options, Atom.isFlag c = true :=
    fun c hc => Value.isFlag_of_mem_optionLetters hc
  have hstop := h.stops (p := Atom.isFlag) (by decide) (by decide)
  have hscan := Atom.delimited?_body (by decide) hbody (Value.optionLetters options ++ rest)
  rw [Value.regexpText, ← Value.optionLetters]
  simp only [List.cons_append, List.append_assoc]
  refine (congrArg (Option.map _) hscan).trans ?_
  dsimp only [Option.map_some]
  rw [takeWhile_run hflags hstop, dropWhile_run hflags hstop]

/-! ### Values that can be read back -/

namespace Value

def isLine : Json → Bool
  | .scalar .null | .scalar (.int _) => true
  | _ => false

/-- Whether a name keeps clear of what ends a plain symbol, unless it is quoted. -/
def readableName (name : List Char) : Bool :=
  !Symbol.isPlain name || name.all fun c => !(isBlank c || c == ',' || c == '"')

/-- Whether a regular expression has only options that are written as letters, and a source that
is neither cut short nor changed by the backslashes in it. -/
def readableRegexp (source : List Char) (options : Nat) : Bool :=
  options &&& 39 == options && backslashesPaired source && slashesFree source

mutual

/-- The values whose text can be read back. -/
def readable : Value → Bool
  | .nil | .bool _ | .int _ | .text _ | .rational _ => true
  | .sym name => readableName name.toList
  | .range (.int _) (.int _) (.bool _) => true
  | .regexp (.text source) options => readableRegexp source.toList options
  | .imaginary (.int _) (.int _) | .imaginary (.int _) (.rational _) => true
  | .sexp _ kids line _ => isLine line && readableKids kids
  | _ => false

def readableKids : List Value → Bool
  | [] => true
  | kid :: rest => readable kid && readableKids rest

end

end Value

namespace Atom

/-! ### Atoms -/

lemma scan?_none {c : Char} (h : c ∉ wordStarts) (hdigit : isDigit c = false) (hminus : c ≠ '-')
    (cs : List Char) : scan? (c :: cs) = none := by
  rw [scan?_eq_number? h, number?_none hdigit hminus]

lemma scan?_gap {c : Char} (h : isGap c = true) (cs : List Char) : scan? (c :: cs) = none := by
  simp only [isGap, Bool.or_eq_true, beq_iff_eq] at h
  rcases h with (((rfl | rfl) | rfl) | rfl) | rfl <;>
    exact scan?_none (by decide) (by decide) (by decide) cs

lemma integer?_gap {c : Char} (h : isGap c = true) (cs : List Char) :
    integer? (c :: cs) = none := by
  have hnone : ∀ d : Char, isDigit d = false → d ≠ '-' → integer? (d :: cs) = none := by
    intro d hdigit hminus
    simp [integer?, minus_of_head hminus, digits?, hdigit]
  simp only [isGap, Bool.or_eq_true, beq_iff_eq] at h
  rcases h with (((rfl | rfl) | rfl) | rfl) | rfl <;> exact hnone _ (by decide) (by decide)

variable {rest : List Char}

lemma scan?_symbolText {name : String} (h : Value.readableName name.toList = true)
    (hrest : Ends rest) :
    ∃ a, scan? (Value.symbolText (.text name) ++ rest) = some (a, rest) ∧
      a.value = .ok (.sym name) := by
  by_cases hplain : Symbol.isPlain name.toList = true
  · have hne : name.toList ≠ [] := by
      intro hnil
      rw [hnil, Symbol.not_plain_nil] at hplain
      cases hplain
    have hclear : ∀ c ∈ name.toList, (isBlank c || c == ',' || c == '"') = false := by
      simpa [Value.readableName, hplain] using h
    have hchars : ∀ c ∈ name.toList, isSymbolChar c = true := by
      intro c hc
      have hbracket := Symbol.not_bracket_of_plain hplain c hc
      have := hclear c hc
      simp_all [isSymbolChar, Symbol.isBracket]
    refine ⟨.symbol name.toList, ?_, by simp [value]⟩
    simp only [Value.symbolText, hplain, if_true]
    exact scan?_symbol hne hchars hrest
  · refine ⟨.quotedSymbol (RubyQuoted.escape name.toList), ?_, ?_⟩
    · simp only [Value.symbolText, hplain, Bool.false_eq_true, if_false]
      exact scan?_quotedSymbol name.toList
    · simp only [value, bodyText_escape]
      rfl

lemma rationalText_ruby (q : Rat) :
    Value.rationalText .ruby q = '(' :: (intText q.num ++ '/' :: natText q.den) ++ [')'] := rfl

lemma scan?_rationalText (q : Rat) :
    scan? (Value.rationalText .ruby q ++ rest) = some (.ratio q.num q.den, rest) := by
  simp only [rationalText_ruby, List.cons_append, List.append_assoc, List.nil_append]
  exact scan?_ratio q.num q.den

lemma quotient_num_den (q : Rat) : quotient q.num q.den = .ok q := by
  simp [quotient, q.den_nz, Rat.mkRat_self]

/-! ### Imaginary numbers -/

lemma getLast?_natText (n : Nat) :
    ∃ c, (natText n).getLast? = some c ∧ Symbol.isDecimal c = true := by
  have hlast := List.getLast?_eq_getLast_of_ne_nil (natText_ne_nil n)
  refine ⟨_, hlast, ?_⟩
  have hdigit := toNat_of_isDigit (isDigit_of_mem_natText (List.getLast_mem (natText_ne_nil n)))
  simp only [Symbol.isDecimal, Bool.and_eq_true, decide_eq_true_eq]
  exact hdigit

lemma imaginaryText_int (n : Int) :
    Value.imaginaryText (.int n) =
      (if n < 0 then '-' else '+') :: (natText n.natAbs ++ ['i']) := by
  obtain ⟨c, hlast, hc⟩ := getLast?_natText n.natAbs
  simp [Value.imaginaryText, Value.imaginaryPart?, hlast, hc]

def unsigned (q : Rat) : Rat :=
  ⟨q.num.natAbs, q.den, q.den_nz, q.reduced⟩

lemma mkRat_natAbs (q : Rat) : mkRat q.num.natAbs q.den = unsigned q := Rat.mkRat_self (unsigned q)

lemma imaginaryText_rational (q : Rat) :
    Value.imaginaryText (.rational q) = (if q.num < 0 then '-' else '+') ::
      ('(' :: (natText q.num.natAbs ++ '/' :: (natText q.den ++ [')', '*', 'i']))) := by
  have hnum : intText (unsigned q).num = natText q.num.natAbs := rfl
  have hden : (unsigned q).den = q.den := rfl
  simp only [Value.imaginaryText, Value.imaginaryPart?, mkRat_natAbs, rationalText_ruby, hnum, hden,
    List.getLast?_append, List.getLast?_singleton, Option.some_or]
  simp [Symbol.isDecimal]

lemma signed_unsigned (q : Rat) : (if q.num < 0 then -unsigned q else unsigned q) = q := by
  split
  · next h =>
    refine Rat.ext ?_ rfl
    rw [Rat.num_neg_eq_neg_num]
    show -((q.num.natAbs : Nat) : Int) = q.num
    omega
  · next h =>
    refine Rat.ext ?_ rfl
    show ((q.num.natAbs : Nat) : Int) = q.num
    omega

lemma imaginaryValue_ratio (q : Rat) :
    imaginaryValue (.ratio (decide (q.num < 0)) q.num.natAbs q.den) = .ok (.rational q) := by
  have hquotient : quotient (q.num.natAbs : Int) q.den = .ok (unsigned q) :=
    quotient_num_den (unsigned q)
  simp only [imaginaryValue, hquotient, decide_eq_true_eq]
  show Except.ok (Value.rational (if q.num < 0 then -unsigned q else unsigned q)) = _
  rw [signed_unsigned]

lemma scan?_imaginary (re : Int) {part : Value} {im : ImaginarySpelling} {negative : Bool}
    {digits : List Char}
    (htext : Value.imaginaryText part = (if negative then '-' else '+') :: (digits ++ ['i']))
    (him : ∀ rest, imaginary? negative (digits ++ 'i' :: rest) = some (im, 'i' :: rest)) :
    scan? ('(' :: (intText re ++ Value.imaginaryText part ++ [')']) ++ rest) =
      some (.complex ⟨decide (re < 0), natText re.natAbs, []⟩ im, rest) := by
  have h := bracketed?_complex re negative (him (')' :: rest))
  simp only [htext, List.cons_append, List.append_assoc, List.nil_append, scan?]
  exact h

lemma scan?_imaginary_int (re n : Int) :
    scan? (Value.render false .ruby (.imaginary (.int re) (.int n)) ++ rest) =
      some (.complex ⟨decide (re < 0), natText re.natAbs, []⟩
        (.numeral ⟨decide (n < 0), natText n.natAbs, []⟩), rest) := by
  refine scan?_imaginary re ?_ fun rest => imaginary?_int (decide (n < 0)) n.natAbs
  simp only [imaginaryText_int, decide_eq_true_eq]

lemma scan?_imaginary_rational (re : Int) (q : Rat) :
    scan? (Value.render false .ruby (.imaginary (.int re) (.rational q)) ++ rest) =
      some (.complex ⟨decide (re < 0), natText re.natAbs, []⟩
        (.ratio (decide (q.num < 0)) q.num.natAbs q.den), rest) := by
  have htext : Value.imaginaryText (.rational q) = (if decide (q.num < 0) then '-' else '+') ::
      (('(' :: (natText q.num.natAbs ++ '/' :: (natText q.den ++ [')', '*']))) ++ ['i']) := by
    simp [imaginaryText_rational]
  refine scan?_imaginary re htext fun rest => ?_
  simpa using imaginary?_ratio (decide (q.num < 0)) q.num.natAbs q.den

/-- **Atoms**: the text of a value that is no expression is one atom with that value. -/
lemma scan?_render (lines : Bool) {v : Value} (h : v.readable = true) (hsexp : v.asSexp? = none)
    (hrest : Ends rest) :
    ∃ a, scan? (v.render lines .ruby ++ rest) = some (a, rest) ∧ a.value = .ok v := by
  unfold Value.readable at h
  split at h
  · exact ⟨.nothing, rfl, rfl⟩
  · next b => cases b <;> exact ⟨.truth _, rfl, rfl⟩
  · next n => exact ⟨_, scan?_int n hrest, value_int n⟩
  · next s =>
    refine ⟨_, scan?_string s.toList, ?_⟩
    simp only [value, bodyText_escape]
    rfl
  · next q =>
    refine ⟨_, scan?_rationalText q, ?_⟩
    simp only [value, quotient_num_den]
    rfl
  · next name => exact scan?_symbolText h hrest
  · next first last excludeEnd =>
    refine ⟨.range first last excludeEnd, ?_, rfl⟩
    have htext : (Value.range (.int first) (.int last) (.bool excludeEnd)).render lines .ruby =
        intText first ++ (if excludeEnd then ['.', '.', '.'] else ['.', '.']) ++ intText last := rfl
    rw [htext, List.append_assoc, List.append_assoc]
    exact scan?_range first last excludeEnd hrest
  · next source options =>
    simp only [Value.readableRegexp, Bool.and_eq_true, beq_iff_eq] at h
    refine ⟨_, scan?_regexp h.1.2 h.2 hrest, ?_⟩
    simp [value, Value.regexpOptions_optionLetters h.1.1,
      Value.regexpSource_escapeSlashes (slashesFree_blank h.2)]
  · next re n =>
    refine ⟨_, scan?_imaginary_int re n, ?_⟩
    simp only [value, imaginaryValue, value_int]
    rfl
  · next re q =>
    refine ⟨_, scan?_imaginary_rational re q, ?_⟩
    simp only [value, imaginaryValue_ratio, value_int]
    rfl
  · simp [Value.asSexp?] at hsexp
  · cases h

end Atom

end RubySexp
