import Mathlib.Data.List.TakeWhile
import RubySexp.Proofs.Sexp.Progress
import RubySexp.Proofs.Sexp.Spelling

/-!
# The Spelling of Tokens

Each token has its spellings, and these are described apart from the scanners. A scanner takes only
spellings of its tokens. Where several beginnings of a text are spellings it takes the longest, and
this never does harm: nothing that can stand behind a value goes on with the spelling of one.
-/

namespace RubySexp

/-! ### Parts of numbers -/

def Digits (ds : List Char) : Prop := ds ≠ [] ∧ ∀ c ∈ ds, isDigit c = true

def minusText (negative : Bool) : List Char := if negative then ['-'] else []

def signText (negative : Bool) : Char := if negative then '-' else '+'

lemma signText_injective {negative negative' : Bool} (h : signText negative = signText negative') :
    negative = negative' := by
  revert negative negative'
  decide

inductive FractionText : List Char → Prop
  | absent : FractionText []
  | digits {ds} : Digits ds → FractionText ('.' :: ds)

inductive ExponentText : List Char → Prop
  | absent : ExponentText []
  | unsigned {ds} : Digits ds → ExponentText ('e' :: ds)
  | signed {ds} (negative : Bool) : Digits ds → ExponentText ('e' :: signText negative :: ds)

def rangePoints (excludeEnd : Bool) : List Char :=
  if excludeEnd then ['.', '.', '.'] else ['.', '.']

namespace Atom

inductive ImaginarySpelled : ImaginarySpelling → List Char → Prop
  | numeral {mantissa power} (negative : Bool) :
    mantissa ≠ [] → (∀ c ∈ mantissa, (isDigit c || c == '.') = true) → ExponentText power →
    ImaginarySpelled (.numeral ⟨negative, mantissa, power⟩)
      (signText negative :: (mantissa ++ power))
  | ratio {ds es} (negative : Bool) : Digits ds → Digits es →
    ImaginarySpelled (.ratio negative (digitsValue ds) (digitsValue es))
      (signText negative :: '(' :: (ds ++ '/' :: (es ++ [')', '*'])))

inductive Spelled : Atom → List Char → Prop
  | nothing : Spelled .nothing ['n', 'i', 'l']
  | yes : Spelled (.truth true) ['t', 'r', 'u', 'e']
  | no : Spelled (.truth false) ['f', 'a', 'l', 's', 'e']
  | symbol {name} : name ≠ [] → (∀ c ∈ name, isSymbolChar c = true) →
    Spelled (.symbol name) (':' :: name)
  | quotedSymbol {body} : DelimitedBody '"' body →
    Spelled (.quotedSymbol body) (':' :: '"' :: (body ++ ['"']))
  | string {body} : DelimitedBody '"' body → Spelled (.string body) ('"' :: (body ++ ['"']))
  | regexp {body flags} : DelimitedBody '/' body → (∀ c ∈ flags, isFlag c = true) →
    Spelled (.regexp body flags) ('/' :: (body ++ '/' :: flags))
  | range {ds es} (negative negative' excludeEnd : Bool) : Digits ds → Digits es →
    Spelled (.range (signed negative ds) (signed negative' es) excludeEnd)
      (minusText negative ++ (ds ++ (rangePoints excludeEnd ++ (minusText negative' ++ es))))
  | integer {ds} (negative : Bool) : Digits ds →
    Spelled (.number ⟨negative, ds, []⟩) (minusText negative ++ ds)
  | float {ds es power} (negative : Bool) : Digits ds → Digits es → ExponentText power →
    Spelled (.number ⟨negative, ds ++ '.' :: es, power⟩)
      (minusText negative ++ (ds ++ ('.' :: es ++ power)))
  | ratio {ds es} (negative : Bool) : Digits ds → Digits es →
    Spelled (.ratio (signed negative ds) (digitsValue es))
      ('(' :: (minusText negative ++ (ds ++ '/' :: (es ++ [')']))))
  | complex {ds decimals power im part} (negative : Bool) : Digits ds → FractionText decimals →
    ExponentText power → ImaginarySpelled im part →
    Spelled (.complex ⟨negative, ds ++ decimals, power⟩ im)
      ('(' :: (minusText negative ++ (ds ++ (decimals ++ (power ++ (part ++ ['i', ')']))))))

end Atom

inductive Token.Spelled : Token → List Char → Prop
  | openSexp : Spelled .openSexp ['s', '(']
  | close : Spelled .close [')']
  | comma : Spelled .comma [',']
  | dot : Spelled .dot ['.']
  | line : Spelled (.key .line) ['l', 'i', 'n', 'e']
  | maxLine : Spelled (.key .maxLine) ['m', 'a', 'x', '_', 'l', 'i', 'n', 'e']
  | openMark : Spelled .openMark ['(']
  | number {ds} (negative : Bool) : Digits ds →
    Spelled (.number (Atom.signed negative ds)) (minusText negative ++ ds)
  | atom {a text} : Atom.Spelled a text → Spelled (.atom a) text

/-! ### Scanning parts of numbers -/

lemma Digits.eq_cons {ds : List Char} (h : Digits ds) :
    ∃ c cs, ds = c :: cs ∧ isDigit c = true := by
  obtain ⟨hne, hall⟩ := h
  rcases ds with _ | ⟨c, cs⟩
  · exact absurd rfl hne
  · exact ⟨c, cs, rfl, hall c (by simp)⟩

lemma ne_of_isDigit {c d : Char} (h : isDigit c = true) (hd : isDigit d = false) : c ≠ d := by
  rintro rfl
  rw [h] at hd
  cases hd

lemma stops_dropWhile (p : Char → Bool) (cs : List Char) : Stops p (cs.dropWhile p) := by
  induction cs with
  | nil => exact stops_nil p
  | cons c cs ih =>
    by_cases hc : p c = true
    · rwa [List.dropWhile_cons_of_pos hc]
    · rw [List.dropWhile_cons_of_neg hc]
      exact stops_cons (by simpa using hc)

namespace Atom

variable {cs ds rest : List Char}

lemma digits?_eq_some_iff :
    digits? cs = some (ds, rest) ↔ cs = ds ++ rest ∧ Digits ds ∧ Stops isDigit rest := by
  constructor
  · intro h
    simp only [digits?] at h
    split at h
    · cases h
    · next hne =>
      cases h
      refine ⟨(List.takeWhile_append_dropWhile).symm, ⟨by simpa using hne, ?_⟩, stops_dropWhile _ _⟩
      exact fun c hc => List.mem_takeWhile_imp hc
  · rintro ⟨rfl, ⟨hne, hall⟩, hstop⟩
    simp [digits?, takeWhile_run hall hstop, dropWhile_run hall hstop, hne]

lemma minus_spelled (cs : List Char) : cs = minusText (minus cs).1 ++ (minus cs).2 := by
  unfold minus
  split <;> rfl

lemma minus_minusText (negative : Bool) {c : Char} (hc : c ≠ '-') (cs : List Char) :
    minus (minusText negative ++ c :: cs) = (negative, c :: cs) := by
  cases negative with
  | true => rfl
  | false => exact minus_of_head hc cs

lemma minus_digits (negative : Bool) (h : Digits ds) (rest : List Char) :
    minus (minusText negative ++ (ds ++ rest)) = (negative, ds ++ rest) := by
  obtain ⟨c, cs, rfl, hc⟩ := h.eq_cons
  exact minus_minusText negative (ne_of_isDigit hc (by decide)) _

lemma exactly?_eq_some_iff {c : Char} : exactly? c cs = some rest ↔ cs = c :: rest := by
  unfold exactly?
  split
  · split
    · next h => simp_all
    · next h => simp_all
  · simp

lemma sign?_eq_some_iff {negative : Bool} :
    sign? cs = some (negative, rest) ↔ cs = signText negative :: rest := by
  constructor
  · intro h
    unfold sign? at h
    split at h <;> cases h <;> rfl
  · rintro rfl
    cases negative <;> rfl

lemma integer?_eq_some_iff {n : Int} :
    integer? cs = some (n, rest) ↔ ∃ negative ds, cs = minusText negative ++ (ds ++ rest) ∧
      Digits ds ∧ Stops isDigit rest ∧ n = signed negative ds := by
  constructor
  · intro h
    simp only [integer?, Option.bind_eq_bind, Option.bind_eq_some_iff] at h
    obtain ⟨⟨ds, mid⟩, hd, h⟩ := h
    cases h
    obtain ⟨hcs, hds, hstop⟩ := digits?_eq_some_iff.1 hd
    exact ⟨_, ds, hcs ▸ minus_spelled cs, hds, hstop, rfl⟩
  · rintro ⟨negative, ds, rfl, hds, hstop, rfl⟩
    simp [integer?, minus_digits negative hds, digits?_eq_some_iff.2 ⟨rfl, hds, hstop⟩]

lemma fraction?_eq_some_iff {decimals : List Char} :
    fraction? cs = some (decimals, rest) ↔ ∃ ds, decimals = '.' :: ds ∧
      cs = '.' :: (ds ++ rest) ∧ Digits ds ∧ Stops isDigit rest := by
  constructor
  · intro h
    unfold fraction? at h
    split at h
    · obtain ⟨⟨ds, mid⟩, hd, heq⟩ := Option.map_eq_some_iff.mp h
      cases heq
      obtain ⟨rfl, hds, hstop⟩ := digits?_eq_some_iff.1 hd
      exact ⟨ds, rfl, rfl, hds, hstop⟩
    · cases h
  · rintro ⟨ds, rfl, rfl, hds, hstop⟩
    simp [fraction?, digits?_eq_some_iff.2 ⟨rfl, hds, hstop⟩]

lemma exponent?_sound {power : List Char} (h : exponent? cs = some (power, rest)) :
    cs = power ++ rest ∧ ExponentText power ∧ power ≠ [] := by
  unfold exponent? at h
  split at h
  · obtain ⟨⟨ds, mid⟩, hd, heq⟩ := Option.map_eq_some_iff.mp h
    cases heq
    obtain ⟨rfl, hds, -⟩ := digits?_eq_some_iff.1 hd
    exact ⟨rfl, .signed false hds, List.cons_ne_nil _ _⟩
  · obtain ⟨⟨ds, mid⟩, hd, heq⟩ := Option.map_eq_some_iff.mp h
    cases heq
    obtain ⟨rfl, hds, -⟩ := digits?_eq_some_iff.1 hd
    exact ⟨rfl, .signed true hds, List.cons_ne_nil _ _⟩
  · obtain ⟨⟨ds, mid⟩, hd, heq⟩ := Option.map_eq_some_iff.mp h
    cases heq
    obtain ⟨rfl, hds, -⟩ := digits?_eq_some_iff.1 hd
    exact ⟨rfl, .unsigned hds, List.cons_ne_nil _ _⟩
  · cases h

lemma exponent?_unsigned (hds : Digits ds) (hstop : Stops isDigit rest) :
    exponent? ('e' :: (ds ++ rest)) = some ('e' :: ds, rest) := by
  have hscan := digits?_eq_some_iff.2 ⟨rfl, hds, hstop⟩
  obtain ⟨c, t, rfl, hc⟩ := hds.eq_cons
  rw [exponent?.eq_def]
  split
  · next heq =>
    rw [List.cons_append, List.cons.injEq, List.cons.injEq] at heq
    exact absurd heq.2.1 (ne_of_isDigit hc (by decide))
  · next heq =>
    rw [List.cons_append, List.cons.injEq, List.cons.injEq] at heq
    exact absurd heq.2.1 (ne_of_isDigit hc (by decide))
  · next heq =>
    cases heq
    rw [hscan]
    rfl
  · next hno => exact absurd rfl (hno _)

lemma exponent?_signed (negative : Bool) (hds : Digits ds) (hstop : Stops isDigit rest) :
    exponent? ('e' :: signText negative :: (ds ++ rest)) =
      some ('e' :: signText negative :: ds, rest) := by
  have hscan := digits?_eq_some_iff.2 ⟨rfl, hds, hstop⟩
  cases negative <;> exact congrArg (Option.map _) hscan

lemma exponent?_none (h : Stops (· == 'e') rest) : exponent? rest = none := by
  rw [Option.eq_none_iff_forall_ne_some]
  rintro ⟨power, after⟩ hscan
  obtain ⟨rfl, hpower, hne⟩ := exponent?_sound hscan
  cases hpower with
  | absent => exact hne rfl
  | unsigned _ => exact absurd (h _ _ rfl) (by simp)
  | signed _ _ => exact absurd (h _ _ rfl) (by simp)

lemma fraction?_none (h : Stops (· == '.') rest) : fraction? rest = none := by
  rw [Option.eq_none_iff_forall_ne_some]
  rintro ⟨decimals, after⟩ hscan
  obtain ⟨ds, -, rfl, -, -⟩ := fraction?_eq_some_iff.1 hscan
  exact absurd (h _ _ rfl) (by simp)

lemma optional_of_some {part : List Char → Option (List Char × List Char)} {taken : List Char}
    (h : part cs = some (taken, rest)) : optional part cs = (taken, rest) :=
  congrArg (Option.getD · ([], cs)) h

lemma optional_of_none {part : List Char → Option (List Char × List Char)} (h : part cs = none) :
    optional part cs = ([], cs) :=
  congrArg (Option.getD · ([], cs)) h

lemma optional_sound {part : List Char → Option (List Char × List Char)}
    {Text : List Char → Prop} (habsent : Text [])
    (h : ∀ taken rest, part cs = some (taken, rest) → cs = taken ++ rest ∧ Text taken) :
    cs = (optional part cs).1 ++ (optional part cs).2 ∧ Text (optional part cs).1 := by
  rcases hpart : part cs with _ | ⟨taken, rest⟩
  · rw [optional_of_none hpart]
    exact ⟨rfl, habsent⟩
  · rw [optional_of_some hpart]
    exact h taken rest hpart

lemma optional_exponent?_sound (cs : List Char) :
    cs = (optional exponent? cs).1 ++ (optional exponent? cs).2 ∧
      ExponentText (optional exponent? cs).1 := by
  refine optional_sound .absent fun power rest h => ?_
  obtain ⟨hcs, hpower, -⟩ := exponent?_sound h
  exact ⟨hcs, hpower⟩

lemma optional_fraction?_sound (cs : List Char) :
    cs = (optional fraction? cs).1 ++ (optional fraction? cs).2 ∧
      FractionText (optional fraction? cs).1 := by
  refine optional_sound .absent fun decimals rest h => ?_
  obtain ⟨ds, rfl, hcs, hds, -⟩ := fraction?_eq_some_iff.1 h
  exact ⟨hcs, .digits hds⟩

lemma optional_exponent? {power : List Char} (h : ExponentText power) (hdigit : Stops isDigit rest)
    (he : Stops (· == 'e') rest) : optional exponent? (power ++ rest) = (power, rest) := by
  cases h with
  | absent => exact optional_of_none (exponent?_none he)
  | unsigned hds => exact optional_of_some (exponent?_unsigned hds hdigit)
  | signed negative hds => exact optional_of_some (exponent?_signed negative hds hdigit)

lemma optional_fraction? {decimals : List Char} (h : FractionText decimals)
    (hdigit : Stops isDigit rest) (hpoint : Stops (· == '.') rest) :
    optional fraction? (decimals ++ rest) = (decimals, rest) := by
  cases h with
  | absent => exact optional_of_none (fraction?_none hpoint)
  | digits hds => exact optional_of_some (fraction?_eq_some_iff.2 ⟨_, rfl, rfl, hds, hdigit⟩)

/-! ### Numbers, ratios and complex numbers -/

lemma rangeEnd?_sound {excludeEnd : Bool} {last : Int}
    (h : rangeEnd? cs = some (excludeEnd, last, rest)) :
    ∃ negative ds, cs = rangePoints excludeEnd ++ (minusText negative ++ (ds ++ rest)) ∧
      Digits ds ∧ last = signed negative ds := by
  unfold rangeEnd? at h
  split at h
  · obtain ⟨⟨n, mid⟩, hn, heq⟩ := Option.map_eq_some_iff.mp h
    cases heq
    obtain ⟨negative, ds, rfl, hds, -, rfl⟩ := integer?_eq_some_iff.1 hn
    exact ⟨negative, ds, rfl, hds, rfl⟩
  · obtain ⟨⟨n, mid⟩, hn, heq⟩ := Option.map_eq_some_iff.mp h
    cases heq
    obtain ⟨negative, ds, rfl, hds, -, rfl⟩ := integer?_eq_some_iff.1 hn
    exact ⟨negative, ds, rfl, hds, rfl⟩
  · cases h

lemma integer_head (negative : Bool) (h : Digits ds) (rest : List Char) :
    ∃ c t, minusText negative ++ (ds ++ rest) = c :: t ∧ (c = '-' ∨ isDigit c = true) := by
  obtain ⟨c, t, rfl, hc⟩ := h.eq_cons
  cases negative with
  | true => exact ⟨'-', _, rfl, .inl rfl⟩
  | false => exact ⟨c, _, rfl, .inr hc⟩

lemma rangeEnd?_spelled (negative excludeEnd : Bool) (hds : Digits ds)
    (hstop : Stops isDigit rest) :
    rangeEnd? (rangePoints excludeEnd ++ (minusText negative ++ (ds ++ rest))) =
      some (excludeEnd, signed negative ds, rest) := by
  have hscan := integer?_eq_some_iff.2 ⟨negative, ds, rfl, hds, hstop, rfl⟩
  cases excludeEnd with
  | true => exact congrArg (Option.map _) hscan
  | false =>
    obtain ⟨c, t, hct, hc⟩ := integer_head negative hds rest
    have hpoint : c ≠ '.' := by
      rcases hc with rfl | hc
      · decide
      · exact ne_of_isDigit hc (by decide)
    rw [hct] at hscan ⊢
    simp [rangePoints, rangeEnd?, hscan, hpoint]

lemma rangeEnd?_none_of_stops (h : Stops (· == '.') rest) : rangeEnd? rest = none := by
  rw [Option.eq_none_iff_forall_ne_some]
  rintro ⟨excludeEnd, last, after⟩ hscan
  obtain ⟨negative, ds, rfl, -, -⟩ := rangeEnd?_sound hscan
  cases excludeEnd <;> exact absurd (h _ _ rfl) (by simp)

lemma rangeEnd?_none_of_digit {c : Char} (hc : isDigit c = true) (rest : List Char) :
    rangeEnd? ('.' :: c :: rest) = none := by
  rw [Option.eq_none_iff_forall_ne_some]
  rintro ⟨excludeEnd, last, after⟩ hscan
  obtain ⟨negative, ds, hcs, -, -⟩ := rangeEnd?_sound hscan
  have hpoint : c ≠ '.' := ne_of_isDigit hc (by decide)
  cases excludeEnd <;> exact hpoint (List.cons.inj (List.cons.inj hcs).2).1

lemma number?_sound {a : Atom} (h : number? cs = some (a, rest)) :
    ∃ text, cs = text ++ rest ∧ Spelled a text := by
  simp only [number?, Option.bind_eq_bind, Option.bind_eq_some_iff] at h
  obtain ⟨⟨ds, mid⟩, hd, h⟩ := h
  obtain ⟨hmid, hds, -⟩ := digits?_eq_some_iff.1 hd
  have hcs : cs = minusText (minus cs).1 ++ (ds ++ mid) := hmid ▸ minus_spelled cs
  dsimp only at h
  split at h
  · next hrange =>
    cases h
    obtain ⟨negative, es, rfl, hes, rfl⟩ := rangeEnd?_sound hrange
    exact ⟨_, by simpa using hcs, .range _ negative _ hds hes⟩
  · next decimals after _ hfraction =>
    cases h
    obtain ⟨es, rfl, rfl, hes, -⟩ := fraction?_eq_some_iff.1 hfraction
    obtain ⟨hafter, hpower⟩ := optional_exponent?_sound after
    refine ⟨_, ?_, .float _ hds hes hpower⟩
    nth_rewrite 1 [hafter] at hcs
    simpa using hcs
  · cases h
    exact ⟨_, by simpa using hcs, .integer _ hds⟩

lemma number?_integer (negative : Bool) (hds : Digits ds) (hdigit : Stops isDigit rest)
    (hpoint : Stops (· == '.') rest) :
    number? (minusText negative ++ (ds ++ rest)) = some (.number ⟨negative, ds, []⟩, rest) := by
  simp [number?, minus_digits negative hds, digits?_eq_some_iff.2 ⟨rfl, hds, hdigit⟩,
    rangeEnd?_none_of_stops hpoint, fraction?_none hpoint]

lemma number?_float {es power : List Char} (negative : Bool) (hds : Digits ds) (hes : Digits es)
    (hpower : ExponentText power) (hdigit : Stops isDigit rest) (he : Stops (· == 'e') rest) :
    number? (minusText negative ++ (ds ++ ('.' :: es ++ (power ++ rest)))) =
      some (.number ⟨negative, ds ++ '.' :: es, power⟩, rest) := by
  have hstop : Stops isDigit (power ++ rest) := by
    cases hpower with
    | absent => exact hdigit
    | unsigned _ => exact stops_cons (by decide)
    | signed _ _ => exact stops_cons (by decide)
  have hfraction : fraction? ('.' :: es ++ (power ++ rest)) = some ('.' :: es, power ++ rest) :=
    fraction?_eq_some_iff.2 ⟨es, rfl, rfl, hes, hstop⟩
  have hrange : rangeEnd? ('.' :: es ++ (power ++ rest)) = none := by
    obtain ⟨c, t, rfl, hc⟩ := hes.eq_cons
    exact rangeEnd?_none_of_digit hc _
  have hwhole : digits? (ds ++ ('.' :: es ++ (power ++ rest))) =
      some (ds, '.' :: es ++ (power ++ rest)) :=
    digits?_eq_some_iff.2 ⟨rfl, hds, stops_cons (by decide)⟩
  simp only [number?, minus_digits negative hds, hwhole, Option.bind_eq_bind, Option.bind_some,
    hrange, hfraction, optional_exponent? hpower hdigit he]
  rfl

lemma number?_range {es : List Char} (negative negative' excludeEnd : Bool) (hds : Digits ds)
    (hes : Digits es) (hdigit : Stops isDigit rest) :
    number? (minusText negative ++ (ds ++
        (rangePoints excludeEnd ++ (minusText negative' ++ (es ++ rest))))) =
      some (.range (signed negative ds) (signed negative' es) excludeEnd, rest) := by
  have hwhole : digits? (ds ++ (rangePoints excludeEnd ++ (minusText negative' ++ (es ++ rest)))) =
      some (ds, rangePoints excludeEnd ++ (minusText negative' ++ (es ++ rest))) := by
    refine digits?_eq_some_iff.2 ⟨rfl, hds, ?_⟩
    cases excludeEnd <;> exact stops_cons (by decide)
  simp [number?, minus_digits negative hds, hwhole,
    rangeEnd?_spelled negative' excludeEnd hes hdigit]

lemma imaginary?_sound {negative : Bool} {im : ImaginarySpelling}
    (h : imaginary? negative cs = some (im, rest)) :
    ∃ text, cs = text ++ rest ∧ ImaginarySpelled im (signText negative :: text) := by
  unfold imaginary? at h
  split at h
  · simp only [Option.bind_eq_bind, Option.bind_eq_some_iff] at h
    obtain ⟨⟨ds, r₁⟩, h₁, r₂, h₂, ⟨es, r₃⟩, h₃, r₄, h₄, r₅, h₅, h⟩ := h
    cases h
    obtain ⟨rfl, hds, -⟩ := digits?_eq_some_iff.1 h₁
    obtain rfl := exactly?_eq_some_iff.1 h₂
    obtain ⟨rfl, hes, -⟩ := digits?_eq_some_iff.1 h₃
    obtain rfl := exactly?_eq_some_iff.1 h₄
    obtain rfl := exactly?_eq_some_iff.1 h₅
    exact ⟨'(' :: (ds ++ '/' :: (es ++ [')', '*'])), by simp, .ratio negative hds hes⟩
  · simp only [Option.bind_eq_bind, Option.bind_eq_some_iff, Option.guard_eq_some'] at h
    obtain ⟨-, hne, h⟩ := h
    cases h
    obtain ⟨hafter, hpower⟩ :=
      optional_exponent?_sound (cs.dropWhile fun c => isDigit c || c == '.')
    refine ⟨_, ?_, .numeral negative (by simpa using hne) (fun c hc => ?_) hpower⟩
    · rw [List.append_assoc, ← hafter, List.takeWhile_append_dropWhile]
    · exact List.mem_takeWhile_imp (p := fun c => isDigit c || c == '.') hc

lemma imaginary?_spelled {negative : Bool} {im : ImaginarySpelling} {text : List Char}
    (h : ImaginarySpelled im (signText negative :: text)) (rest : List Char) :
    imaginary? negative (text ++ 'i' :: rest) = some (im, 'i' :: rest) := by
  generalize hpart : signText negative :: text = part at h
  cases h with
  | @numeral mantissa power negative' hne hall hpower =>
    obtain ⟨hsign, rfl⟩ := List.cons.inj hpart
    obtain rfl := signText_injective hsign
    have hstop : Stops (fun c => isDigit c || c == '.') (power ++ 'i' :: rest) := by
      cases hpower with
      | absent => exact stops_cons (by decide)
      | unsigned _ => exact stops_cons (by decide)
      | signed _ _ => exact stops_cons (by decide)
    have hexp : optional exponent? (power ++ 'i' :: rest) = (power, 'i' :: rest) :=
      optional_exponent? hpower (stops_cons (by decide)) (stops_cons (by decide))
    rw [List.append_assoc]
    unfold imaginary?
    split
    · next heq =>
      rcases mantissa with _ | ⟨c, t⟩
      · exact absurd rfl hne
      · obtain ⟨rfl, -⟩ := List.cons.inj heq
        exact absurd (hall '(' (by simp)) (by decide)
    · simp [takeWhile_run hall hstop, dropWhile_run hall hstop, hne, hexp]
  | @ratio ds es negative' hds hes =>
    obtain ⟨hsign, rfl⟩ := List.cons.inj hpart
    obtain rfl := signText_injective hsign
    have hnum : digits? (ds ++ '/' :: (es ++ ')' :: '*' :: 'i' :: rest)) =
        some (ds, '/' :: (es ++ ')' :: '*' :: 'i' :: rest)) :=
      digits?_eq_some_iff.2 ⟨rfl, hds, stops_cons (by decide)⟩
    have hden : digits? (es ++ ')' :: '*' :: 'i' :: rest) = some (es, ')' :: '*' :: 'i' :: rest) :=
      digits?_eq_some_iff.2 ⟨rfl, hes, stops_cons (by decide)⟩
    simp [imaginary?, exactly?, hnum, hden]

lemma bracketed?_sound {a : Atom} (h : bracketed? cs = some (a, rest)) :
    ∃ text, cs = text ++ rest ∧ Spelled a ('(' :: text) := by
  simp only [bracketed?, Option.bind_eq_bind, Option.bind_eq_some_iff] at h
  obtain ⟨⟨ds, mid⟩, hd, h⟩ := h
  obtain ⟨hmid, hds, -⟩ := digits?_eq_some_iff.1 hd
  have hcs : cs = minusText (minus cs).1 ++ (ds ++ mid) := hmid ▸ minus_spelled cs
  dsimp only at h
  split at h
  · simp only [Option.bind_eq_some_iff] at h
    obtain ⟨⟨es, r₁⟩, h₁, r₂, h₂, h⟩ := h
    cases h
    obtain ⟨rfl, hes, -⟩ := digits?_eq_some_iff.1 h₁
    obtain rfl := exactly?_eq_some_iff.1 h₂
    exact ⟨_, by simpa using hcs, .ratio _ hds hes⟩
  · simp only [Option.bind_eq_some_iff] at h
    obtain ⟨⟨subtracted, r₁⟩, h₁, ⟨im, r₂⟩, h₂, r₃, h₃, r₄, h₄, h⟩ := h
    cases h
    obtain ⟨hdecimals, hfraction⟩ := optional_fraction?_sound mid
    obtain ⟨hpower, hexponent⟩ := optional_exponent?_sound (optional fraction? mid).2
    obtain ⟨part, hpart, him⟩ := imaginary?_sound h₂
    have hafter : (optional exponent? (optional fraction? mid).2).2 =
        signText subtracted :: (part ++ 'i' :: ')' :: rest) := by
      obtain rfl := exactly?_eq_some_iff.1 h₄
      obtain rfl := exactly?_eq_some_iff.1 h₃
      obtain rfl := hpart
      exact sign?_eq_some_iff.1 h₁
    refine ⟨_, ?_, .complex _ hds hfraction hexponent him⟩
    rw [hafter] at hpower
    rw [hpower] at hdecimals
    nth_rewrite 1 [hdecimals] at hcs
    simpa using hcs

lemma bracketed?_spelled_ratio {es : List Char} (negative : Bool) (hds : Digits ds)
    (hes : Digits es) (rest : List Char) :
    bracketed? (minusText negative ++ (ds ++ '/' :: (es ++ ')' :: rest))) =
      some (.ratio (signed negative ds) (digitsValue es), rest) := by
  have hnum : digits? (ds ++ '/' :: (es ++ ')' :: rest)) = some (ds, '/' :: (es ++ ')' :: rest)) :=
    digits?_eq_some_iff.2 ⟨rfl, hds, stops_cons (by decide)⟩
  have hden : digits? (es ++ ')' :: rest) = some (es, ')' :: rest) :=
    digits?_eq_some_iff.2 ⟨rfl, hes, stops_cons (by decide)⟩
  simp [bracketed?, minus_digits negative hds, exactly?, hnum, hden]

lemma ImaginarySpelled.eq_cons {im : ImaginarySpelling} {part : List Char}
    (h : ImaginarySpelled im part) : ∃ negative text, part = signText negative :: text := by
  cases h with
  | numeral negative => exact ⟨negative, _, rfl⟩
  | ratio negative => exact ⟨negative, _, rfl⟩

lemma stops_signText {p : Char → Bool} (h : p '-' = false) (h' : p '+' = false) (negative : Bool)
    (rest : List Char) : Stops p (signText negative :: rest) := by
  cases negative
  · exact stops_cons h'
  · exact stops_cons h

lemma stops_exponent {p : Char → Bool} {power : List Char} (hpower : ExponentText power)
    (he : p 'e' = false) (hrest : Stops p rest) : Stops p (power ++ rest) := by
  cases hpower with
  | absent => exact hrest
  | unsigned _ => exact stops_cons he
  | signed _ _ => exact stops_cons he

lemma stops_fraction {p : Char → Bool} {decimals : List Char} (h : FractionText decimals)
    (hpoint : p '.' = false) (hrest : Stops p rest) : Stops p (decimals ++ rest) := by
  cases h with
  | absent => exact hrest
  | digits _ => exact stops_cons hpoint

lemma bracketed?_spelled_complex {decimals power part : List Char} {im : ImaginarySpelling}
    (negative : Bool) (hds : Digits ds) (hdecimals : FractionText decimals)
    (hpower : ExponentText power) (him : ImaginarySpelled im part) (rest : List Char) :
    bracketed? (minusText negative ++ (ds ++ (decimals ++ (power ++
        (part ++ 'i' :: ')' :: rest))))) =
      some (.complex ⟨negative, ds ++ decimals, power⟩ im, rest) := by
  obtain ⟨subtracted, text, rfl⟩ := him.eq_cons
  generalize htail : signText subtracted :: text ++ 'i' :: ')' :: rest = tail
  -- Behind the whole part no class of characters that is looked for goes on into the next part.
  have hstop {p : Char → Bool} (h : p '-' = false) (h' : p '+' = false) : Stops p tail :=
    htail ▸ stops_signText h h' subtracted _
  have hexponent : optional exponent? (power ++ tail) = (power, tail) :=
    optional_exponent? hpower (hstop (by decide) (by decide)) (hstop (by decide) (by decide))
  have hfraction : optional fraction? (decimals ++ (power ++ tail)) = (decimals, power ++ tail) :=
    optional_fraction? hdecimals
      (stops_exponent hpower (by decide) (hstop (by decide) (by decide)))
      (stops_exponent hpower (by decide) (hstop (by decide) (by decide)))
  have hwhole : digits? (ds ++ (decimals ++ (power ++ tail))) =
      some (ds, decimals ++ (power ++ tail)) :=
    digits?_eq_some_iff.2 ⟨rfl, hds, stops_fraction hdecimals (by decide)
      (stops_exponent hpower (by decide) (hstop (by decide) (by decide)))⟩
  have hslash : Stops (· == '/') (decimals ++ (power ++ tail)) :=
    stops_fraction hdecimals (by decide)
      (stops_exponent hpower (by decide) (hstop (by decide) (by decide)))
  have hsign : sign? tail = some (subtracted, text ++ 'i' :: ')' :: rest) :=
    sign?_eq_some_iff.2 htail.symm
  simp only [bracketed?, minus_digits negative hds, hwhole, Option.bind_eq_bind, Option.bind_some]
  split
  · next heq => exact absurd (hslash _ _ heq) (by simp)
  · simp [hfraction, hexponent, hsign, imaginary?_spelled him, exactly?]

/-! ### Delimited texts and words -/

lemma delimited?_sound {close : Char} {body : List Char}
    (h : delimited? close cs = some (body, rest)) :
    cs = body ++ close :: rest ∧ DelimitedBody close body := by
  fun_induction delimited? close cs generalizing body rest with
  | case1 => cases h
  | case2 c cs ih =>
    obtain ⟨⟨b, mid⟩, hd, heq⟩ := Option.map_eq_some_iff.mp h
    cases heq
    obtain ⟨rfl, hb⟩ := ih hd
    exact ⟨rfl, .escaped hb⟩
  | case3 c cs _ hclose =>
    cases h
    obtain rfl : c = close := by simpa using hclose
    exact ⟨rfl, .nil⟩
  | case4 => cases h
  | case5 c cs _ hclose hslash ih =>
    obtain ⟨⟨b, mid⟩, hd, heq⟩ := Option.map_eq_some_iff.mp h
    cases heq
    obtain ⟨rfl, hb⟩ := ih hd
    exact ⟨rfl, .plain (by simpa using hclose) (by simpa using hslash) hb⟩

lemma symbol?_sound {a : Atom} (h : symbol? cs = some (a, rest)) :
    ∃ text, cs = text ++ rest ∧ Spelled a (':' :: text) := by
  unfold symbol? at h
  split at h
  · obtain ⟨⟨body, mid⟩, hd, heq⟩ := Option.map_eq_some_iff.mp h
    cases heq
    obtain ⟨rfl, hbody⟩ := delimited?_sound hd
    exact ⟨'"' :: (body ++ ['"']), by simp, .quotedSymbol hbody⟩
  · dsimp only at h
    split at h
    · cases h
    · next hne =>
      cases h
      exact ⟨_, List.takeWhile_append_dropWhile.symm,
        .symbol (by simpa using hne) fun c hc => List.mem_takeWhile_imp hc⟩

lemma symbol?_plain {name : List Char} (hne : name ≠ [])
    (hall : ∀ c ∈ name, isSymbolChar c = true) (hrest : Stops isSymbolChar rest) :
    symbol? (name ++ rest) = some (.symbol name, rest) := by
  unfold symbol?
  split
  · next heq =>
    rcases name with _ | ⟨c, t⟩
    · exact absurd rfl hne
    · obtain ⟨rfl, -⟩ := List.cons.inj heq
      exact absurd (hall '"' (by simp)) (by decide)
  · simp [takeWhile_run hall hrest, dropWhile_run hall hrest, hne]

lemma scan?_sound {a : Atom} (h : scan? cs = some (a, rest)) :
    ∃ text, cs = text ++ rest ∧ Spelled a text := by
  unfold scan? at h
  split at h
  · obtain ⟨text, rfl, ha⟩ := symbol?_sound h
    exact ⟨':' :: text, rfl, ha⟩
  · obtain ⟨⟨body, mid⟩, hd, heq⟩ := Option.map_eq_some_iff.mp h
    cases heq
    obtain ⟨rfl, hbody⟩ := delimited?_sound hd
    exact ⟨'"' :: (body ++ ['"']), by simp, .string hbody⟩
  · obtain ⟨⟨body, mid⟩, hd, heq⟩ := Option.map_eq_some_iff.mp h
    cases heq
    obtain ⟨rfl, hbody⟩ := delimited?_sound hd
    refine ⟨'/' :: (body ++ '/' :: mid.takeWhile isFlag), ?_,
      .regexp hbody fun c hc => List.mem_takeWhile_imp hc⟩
    simp [List.takeWhile_append_dropWhile]
  · obtain ⟨text, rfl, ha⟩ := bracketed?_sound h
    exact ⟨'(' :: text, rfl, ha⟩
  · cases h
    exact ⟨_, rfl, .nothing⟩
  · cases h
    exact ⟨_, rfl, .yes⟩
  · cases h
    exact ⟨_, rfl, .no⟩
  · exact number?_sound h

end Atom

/-! ### What stands behind a value -/

/-- Whether a value has to end before a character. -/
def isBreak (c : Char) : Bool := isGap c || c == ',' || c == ')'

/-- A text that can stand behind a value. -/
def Breaks (rest : List Char) : Prop := ∀ c cs, rest = c :: cs → isBreak c = true

lemma breaks_cons {c : Char} (h : isBreak c = true) (cs : List Char) : Breaks (c :: cs) := by
  intro d ds hd
  cases hd
  exact h

lemma Breaks.stops {p : Char → Bool} {rest : List Char} (h : Breaks rest)
    (hp : [' ', '\t', '\x0c', '\r', '\n', ',', ')'].all (fun c => !p c) = true) :
    Stops p rest := by
  intro c cs hc
  have hbreak := h c cs hc
  have hall := List.all_eq_true.mp hp
  simp only [isBreak, isGap, Bool.or_eq_true, beq_iff_eq] at hbreak
  have hmem : c ∈ [' ', '\t', '\x0c', '\r', '\n', ',', ')'] := by
    simp only [List.mem_cons, List.not_mem_nil, or_false]
    tauto
  simpa using hall c hmem

namespace Atom

lemma scan?_number (negative : Bool) {ds : List Char} (hds : Digits ds) (rest : List Char) :
    scan? (minusText negative ++ (ds ++ rest)) = number? (minusText negative ++ (ds ++ rest)) := by
  obtain ⟨c, t, hct, hc⟩ := integer_head negative hds rest
  have hall : wordStarts.all (fun d => !(isDigit d || d == '-')) = true := by decide
  rw [hct]
  refine scan?_eq_number? (fun hmem => ?_) t
  have hnone := List.all_eq_true.mp hall c hmem
  rcases hc with rfl | hc
  · cases hnone
  · simp [hc] at hnone

lemma scan?_spelled {a : Atom} {text rest : List Char} (h : Spelled a text) (hrest : Breaks rest) :
    scan? (text ++ rest) = some (a, rest) := by
  have hdigit : Stops isDigit rest := hrest.stops (by decide)
  have hpoint : Stops (· == '.') rest := hrest.stops (by decide)
  cases h with
  | nothing => rfl
  | yes => rfl
  | no => rfl
  | symbol hne hall => exact symbol?_plain hne hall (hrest.stops (by decide))
  | @quotedSymbol body hbody =>
    have hscan := delimited?_body (by decide) hbody rest
    simp [scan?, symbol?, hscan]
  | @string body hbody =>
    have hscan := delimited?_body (by decide) hbody rest
    simp [scan?, hscan]
  | @regexp body flags hbody hflags =>
    have hscan := delimited?_body (by decide) hbody (flags ++ rest)
    have hstop : Stops isFlag rest := hrest.stops (by decide)
    simp [scan?, hscan, takeWhile_run hflags hstop, dropWhile_run hflags hstop]
  | range negative negative' excludeEnd hds hes =>
    simp only [List.append_assoc]
    rw [scan?_number negative hds, number?_range negative negative' excludeEnd hds hes hdigit]
  | integer negative hds =>
    rw [List.append_assoc, scan?_number negative hds, number?_integer negative hds hdigit hpoint]
  | float negative hds hes hpower =>
    simp only [List.append_assoc]
    rw [scan?_number negative hds]
    exact number?_float negative hds hes hpower hdigit (hrest.stops (by decide))
  | ratio negative hds hes =>
    have hscan := bracketed?_spelled_ratio negative hds hes rest
    simp only [List.cons_append, List.append_assoc, List.nil_append]
    exact hscan
  | complex negative hds hdecimals hpower him =>
    have hscan := bracketed?_spelled_complex negative hds hdecimals hpower him rest
    simp only [List.cons_append, List.append_assoc, List.nil_append]
    exact hscan

lemma Spelled.eq_cons {a : Atom} {text : List Char} (h : Spelled a text) :
    ∃ c t, text = c :: t ∧ (c ∈ wordStarts ∨ c = '-' ∨ isDigit c = true) := by
  cases h with
  | nothing => exact ⟨_, _, rfl, .inl (by decide)⟩
  | yes => exact ⟨_, _, rfl, .inl (by decide)⟩
  | no => exact ⟨_, _, rfl, .inl (by decide)⟩
  | symbol => exact ⟨_, _, rfl, .inl (by decide)⟩
  | quotedSymbol => exact ⟨_, _, rfl, .inl (by decide)⟩
  | string => exact ⟨_, _, rfl, .inl (by decide)⟩
  | regexp => exact ⟨_, _, rfl, .inl (by decide)⟩
  | range negative negative' excludeEnd hds hes =>
    obtain ⟨c, t, hct, hc⟩ := integer_head negative hds _
    exact ⟨c, t, hct, .inr hc⟩
  | integer negative hds =>
    obtain ⟨c, t, hct, hc⟩ := integer_head negative hds []
    exact ⟨c, t, by simpa using hct, .inr hc⟩
  | float negative hds hes hpower =>
    obtain ⟨c, t, hct, hc⟩ := integer_head negative hds _
    exact ⟨c, t, hct, .inr hc⟩
  | ratio => exact ⟨_, _, rfl, .inl (by decide)⟩
  | complex => exact ⟨_, _, rfl, .inl (by decide)⟩

lemma Spelled.head_ne {a : Atom} {text : List Char} (h : Spelled a text) {d : Char}
    (hword : d ∉ wordStarts) (hminus : d ≠ '-') (hdigit : isDigit d = false) (t : List Char) :
    text ≠ d :: t := by
  rintro rfl
  obtain ⟨c, u, hcu, hc⟩ := h.eq_cons
  obtain ⟨rfl, -⟩ := List.cons.inj hcu
  rcases hc with hc | hc | hc
  · exact hword hc
  · exact hminus hc
  · rw [hdigit] at hc
    cases hc

end Atom

/-! ### Tokens -/

lemma isGap_false_of_isDigit {c : Char} (h : isDigit c = true) : isGap c = false := by
  by_contra hgap
  rw [Bool.not_eq_false, isGap] at hgap
  simp only [Bool.or_eq_true, beq_iff_eq] at hgap
  rcases hgap with (((rfl | rfl) | rfl) | rfl) | rfl <;> exact absurd h (by decide)

lemma Token.Spelled.eq_cons {token : Token} {text : List Char} (h : token.Spelled text) :
    ∃ c t, text = c :: t ∧ isGap c = false := by
  cases h with
  | openSexp => exact ⟨_, _, rfl, by decide⟩
  | close => exact ⟨_, _, rfl, by decide⟩
  | comma => exact ⟨_, _, rfl, by decide⟩
  | dot => exact ⟨_, _, rfl, by decide⟩
  | line => exact ⟨_, _, rfl, by decide⟩
  | maxLine => exact ⟨_, _, rfl, by decide⟩
  | openMark => exact ⟨_, _, rfl, by decide⟩
  | number negative hds =>
    obtain ⟨c, t, hct, hc⟩ := Atom.integer_head negative hds []
    refine ⟨c, t, by simpa using hct, ?_⟩
    rcases hc with rfl | hc
    · decide
    · exact isGap_false_of_isDigit hc
  | atom ha =>
    obtain ⟨c, t, rfl, hc⟩ := ha.eq_cons
    refine ⟨c, t, rfl, ?_⟩
    rcases hc with hc | rfl | hc
    · have hall : Atom.wordStarts.all (fun d => !isGap d) = true := by decide
      simpa using List.all_eq_true.mp hall c hc
    · decide
    · exact isGap_false_of_isDigit hc

/-- Whether a token can go on, so that what stands behind it matters. -/
def Token.isOpen : Token → Bool
  | .atom _ | .number _ => true
  | _ => false

namespace ReadState

inductive Advances : ReadState → Token → ReadState → Prop
  | openSexp (outer) : Advances (.value outer) .openSexp (.value ([] :: outer))
  | atom (outer a) : Advances (.value outer) (.atom a) (.behind outer (.atom a))
  | closeEmpty (items outer) :
    Advances (.value (items :: outer)) .close (.behind outer (.sexp items.reverse []))
  | comma (items outer last) :
    Advances (.behind (items :: outer) last) .comma (.value ((last :: items) :: outer))
  | close (items outer last) :
    Advances (.behind (items :: outer) last) .close
      (.behind outer (.sexp (last :: items).reverse []))
  | dot (outer items marks) :
    Advances (.behind outer (.sexp items marks)) .dot (.mark outer items marks .dot)
  | key (outer items marks k) :
    Advances (.mark outer items marks .dot) (.key k) (.mark outer items marks (.key k))
  | openMark (outer items marks k) :
    Advances (.mark outer items marks (.key k)) .openMark (.mark outer items marks (.opened k))
  | number (outer items marks k n) :
    Advances (.mark outer items marks (.opened k)) (.number n)
      (.mark outer items marks (.numbered k n))
  | closeMark (outer items marks k n) :
    Advances (.mark outer items marks (.numbered k n)) .close
      (.behind outer (.sexp items (marks ++ [(k, n)])))

lemma advance?_eq_some_iff {state next : ReadState} {token : Token} :
    state.advance? token = some next ↔ Advances state token next := by
  constructor
  · intro h
    unfold advance? at h
    split at h <;> cases h <;> constructor
  · intro h
    cases h with
    | dot outer => cases outer <;> rfl
    | _ => rfl

variable {state next : ReadState} {token : Token} {cs text rest : List Char}

lemma bracket?_sound {c : Char} {t : Token} (h : bracket? c t cs = some (token, rest)) :
    cs = c :: rest ∧ token = t := by
  unfold bracket? at h
  split at h
  · split at h
    · next d rest' hd =>
      cases h
      exact ⟨by rw [beq_iff_eq.mp hd], rfl⟩
    · cases h
  · cases h

/-- **What is taken as a token is a spelling of it.** -/
lemma scan?_sound (h : state.scan? cs = some (token, rest)) :
    ∃ text, cs = text ++ rest ∧ token.Spelled text := by
  rcases state with outer | ⟨outer, last⟩ | ⟨outer, items, marks, part⟩
  · simp only [scan?] at h
    unfold valueToken? at h
    split at h
    · cases h
      exact ⟨_, rfl, .openSexp⟩
    · split at h
      · cases h
        exact ⟨_, rfl, .close⟩
      · cases h
    · obtain ⟨⟨a, mid⟩, hscan, heq⟩ := Option.map_eq_some_iff.mp h
      cases heq
      obtain ⟨text, rfl, ha⟩ := Atom.scan?_sound hscan
      exact ⟨text, rfl, .atom ha⟩
  · simp only [scan?] at h
    unfold tokenBehind? at h
    split at h
    · split at h
      · cases h
        exact ⟨_, rfl, .comma⟩
      · cases h
    · split at h
      · cases h
        exact ⟨_, rfl, .close⟩
      · cases h
    · split at h
      · cases h
        exact ⟨_, rfl, .dot⟩
      · cases h
    · cases h
  · simp only [scan?] at h
    rcases part with _ | k | k | ⟨k, n⟩ <;> simp only [markToken?] at h
    · split at h
      · cases h
        exact ⟨_, rfl, .line⟩
      · cases h
        exact ⟨_, rfl, .maxLine⟩
      · cases h
    · obtain ⟨rfl, rfl⟩ := bracket?_sound h
      exact ⟨_, rfl, .openMark⟩
    · obtain ⟨⟨n, mid⟩, hscan, heq⟩ := Option.map_eq_some_iff.mp h
      cases heq
      obtain ⟨negative, ds, rfl, hds, -, rfl⟩ := Atom.integer?_eq_some_iff.1 hscan
      exact ⟨_, (List.append_assoc _ _ _).symm, .number negative hds⟩
    · obtain ⟨rfl, rfl⟩ := bracket?_sound h
      exact ⟨_, rfl, .close⟩

lemma valueToken?_atom {inside : Bool} {a : Atom} (h : Atom.Spelled a text) (hrest : Breaks rest) :
    valueToken? inside (text ++ rest) = some (.atom a, rest) := by
  have hscan := Atom.scan?_spelled h hrest
  have hsexp (t : List Char) : text ++ rest ≠ 's' :: t := by
    obtain ⟨c, u, rfl, -⟩ := h.eq_cons
    intro heq
    obtain ⟨rfl, -⟩ := List.cons.inj heq
    exact h.head_ne (by decide) (by decide) (by decide) u rfl
  have hclose (t : List Char) : text ++ rest ≠ ')' :: t := by
    obtain ⟨c, u, rfl, -⟩ := h.eq_cons
    intro heq
    obtain ⟨rfl, -⟩ := List.cons.inj heq
    exact h.head_ne (by decide) (by decide) (by decide) u rfl
  unfold valueToken?
  split
  · next heq => exact absurd heq (hsexp _)
  · next heq => exact absurd heq (hclose _)
  · rw [hscan]
    rfl

/-- **A spelling of a token is taken as this token** in a state that the token can follow. -/
lemma scan?_spelled (hnext : Advances state token next) (h : token.Spelled text)
    (hrest : token.isOpen = true → Breaks rest) :
    state.scan? (text ++ rest) = some (token, rest) := by
  cases hnext with
  | openSexp outer =>
    cases h
    rfl
  | atom outer a =>
    cases h with
    | atom ha => exact valueToken?_atom ha (hrest rfl)
  | closeEmpty items outer =>
    cases h
    rfl
  | comma items outer last =>
    cases h
    rfl
  | close items outer last =>
    cases h
    rfl
  | dot outer items marks =>
    cases h
    rfl
  | key outer items marks k => cases h <;> rfl
  | openMark outer items marks k =>
    cases h
    rfl
  | number outer items marks k n =>
    cases h with
    | number negative hds =>
      have hscan := Atom.integer?_eq_some_iff.2
        ⟨negative, _, rfl, hds, (hrest rfl).stops (by decide), rfl⟩
      rw [List.append_assoc]
      simp [scan?, markToken?, hscan]
  | closeMark outer items marks k n =>
    cases h
    rfl

lemma Advances.breaks {last : ReadState} {token' : Token} (h : Advances state token next)
    (hopen : token.isOpen = true) (h' : Advances next token' last) :
    token' = .comma ∨ token' = .close := by
  cases h with
  | atom outer a =>
    cases h' with
    | comma => exact .inl rfl
    | close => exact .inr rfl
  | number outer items marks k n =>
    cases h' with
    | closeMark => exact .inr rfl
  | _ => cases hopen

end ReadState

end RubySexp
