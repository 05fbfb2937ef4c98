import RubySexp.Proofs.Sexp.Derivation
import RubySexp.Proofs.Sexp.ReadBack

/-!
# Reprinting Regular Expressions

The reader pairs each backslash with the character behind it, and takes away the backslash of an
escaped slash; the printer puts one in front of each slash, unless there is a backslash already. In
a source that was read, a slash directly behind a backslash is a slash of its own: the backslash
belongs to the pair in front. The printer leaves such a slash without a backslash, and so it ends
the literal when the text is read again, with the rest left over.

Main statement: the text of a regular expression that was read can be read again exactly if its
source has no slash directly behind a backslash, and then the same comes out.
-/

namespace RubySexp

/-! ### Sources that were read -/

lemma DelimitedBody.stops {close : Char} (hclose : close ≠ '\\') {cs : List Char}
    (h : DelimitedBody close cs) : Stops (· == close) cs := by
  cases h with
  | nil => exact stops_nil _
  | plain hc _ _ => exact stops_cons (by simpa using hc)
  | escaped _ => exact stops_cons (by simpa using hclose.symm)

namespace Value

lemma regexpSource_plain {c : Char} (h : c ≠ '\\') (cs : List Char) :
    Atom.regexpSource (c :: cs) = c :: Atom.regexpSource cs :=
  regexpSource_cons fun hc => absurd hc h

lemma regexpSource_escaped {c : Char} (hc : c ≠ '/') {cs : List Char} (h : DelimitedBody '/' cs) :
    Atom.regexpSource ('\\' :: c :: cs) = '\\' :: c :: Atom.regexpSource cs := by
  rw [regexpSource_cons fun _ => stops_cons (by simpa using hc),
    regexpSource_cons fun _ => h.stops (by decide)]

lemma backslashesPaired_plain {c : Char} (h : c ≠ '\\') (cs : List Char) :
    backslashesPaired (c :: cs) = backslashesPaired cs := by
  rw [backslashesPaired]
  · simp [h]
  · rintro d ds rfl
    exact absurd rfl h

lemma backslashesPaired_regexpSource {body : List Char} (h : DelimitedBody '/' body) :
    backslashesPaired (Atom.regexpSource body) = true := by
  induction h with
  | nil => rfl
  | plain _ hback _ ih => rw [regexpSource_plain hback, backslashesPaired_plain hback, ih]
  | @escaped c cs hcs ih =>
    by_cases hc : c = '/'
    · subst hc
      rw [Atom.regexpSource, backslashesPaired_plain (by decide), ih]
    · rw [regexpSource_escaped hc hcs, backslashesPaired, ih]

lemma regexpOptions_and (flags : List Char) :
    Atom.regexpOptions flags &&& 39 = Atom.regexpOptions flags := by
  simp only [Atom.regexpOptions, regexpLetters, List.filter]
  cases flags.contains 'm' <;> cases flags.contains 'i' <;> cases flags.contains 'x' <;>
    cases flags.contains 'n' <;> rfl

/-! ### Sources that are cut short -/

lemma slashesFree_cons_cons {a b : Char} (h : a ≠ '\\' ∨ b ≠ '/') (cs : List Char) :
    slashesFree (a :: b :: cs) = slashesFree (b :: cs) := by
  rcases h with h | h <;> simp [slashesFree, h]

/-- A source that was read and has a slash directly behind a backslash is written with a slash that
ends it. -/
lemma exists_cut_of_slash {behind : Char} {body : List Char} (h : DelimitedBody '/' body)
    (hslash : slashesFree (behind :: Atom.regexpSource body) = false) :
    ∃ inner rest, DelimitedBody '/' inner ∧
      escapeSlashes behind (Atom.regexpSource body) = inner ++ '/' :: rest := by
  -- Along the body, `behind` is a backslash only where a pair of two backslashes ends.
  induction h generalizing behind with
  | nil => cases hslash
  | @plain c cs hc hback _ ih =>
    rw [regexpSource_plain hback] at hslash ⊢
    rw [slashesFree_cons_cons (.inr hc)] at hslash
    obtain ⟨inner, rest, hinner, htext⟩ := ih hslash
    refine ⟨c :: inner, rest, .plain hc hback hinner, ?_⟩
    rw [escapeSlashes_other hc, htext, List.cons_append]
  | @escaped c cs hcs ih =>
    by_cases hc : c = '/'
    · subst hc
      rw [Atom.regexpSource] at hslash ⊢
      by_cases hbehind : behind = '\\'
      · exact ⟨[], escapeSlashes '/' (Atom.regexpSource cs), .nil, by simp [escapeSlashes, hbehind]⟩
      rw [slashesFree_cons_cons (.inl hbehind)] at hslash
      obtain ⟨inner, rest, hinner, htext⟩ := ih hslash
      refine ⟨'\\' :: '/' :: inner, rest, .escaped hinner, ?_⟩
      rw [escapeSlashes_slash hbehind, htext, List.cons_append, List.cons_append]
    · rw [regexpSource_escaped hc hcs] at hslash ⊢
      rw [slashesFree_cons_cons (.inr (by decide)), slashesFree_cons_cons (.inr hc)] at hslash
      obtain ⟨inner, rest, hinner, htext⟩ := ih hslash
      refine ⟨'\\' :: c :: inner, rest, .escaped hinner, ?_⟩
      rw [escapeSlashes_other (by decide), escapeSlashes_other hc, htext, List.cons_append,
        List.cons_append]

end Value

/-! ### Literals that were read -/

lemma Numeral.value_ne_regexp (n : Numeral) (source : Tree) (options : Nat) :
    n.value ≠ .ok (.regexp source options) := by
  intro h
  unfold Numeral.value at h
  split at h
  · cases h
  · split at h <;> cases h

lemma Atom.value_eq_regexp {a : Atom} {source : Tree} {options : Nat}
    (h : a.value = .ok (.regexp source options)) :
    ∃ body flags, a = .regexp body flags ∧ options = regexpOptions flags ∧
      source = .text (String.ofList (regexpSource body)) := by
  cases a with
  | regexp body flags =>
    cases h
    exact ⟨body, flags, rfl, rfl, rfl⟩
  | number n => exact absurd h (n.value_ne_regexp source options)
  | quotedSymbol body | string body =>
    rw [value] at h
    rcases hbody : bodyText body with problem | text <;> rw [hbody] at h <;> cases h
  | ratio numerator denominator =>
    rw [value] at h
    rcases hquotient : quotient numerator denominator with problem | q <;>
      rw [hquotient] at h <;> cases h
  | complex re im =>
    rw [value] at h
    rcases him : imaginaryValue im with problem | v
    · rw [him] at h
      cases h
    · rcases hre : re.value with problem | w <;> rw [him, hre] at h <;> cases h
  | _ => cases h

lemma Value.exists_body_of_read {text : String} {source : Tree} {options : Nat}
    (h : Value.read text = .ok (.regexp source options)) :
    ∃ body flags, DelimitedBody '/' body ∧ options = Atom.regexpOptions flags ∧
      source = .text (String.ofList (Atom.regexpSource body)) := by
  obtain ⟨term, hterm, hvalue⟩ := exists_term_of_read h
  cases Term.value_eq_ok_iff.mp hvalue with
  | @atom a _ ha =>
    obtain ⟨body, flags, rfl, hoptions, hsource⟩ := Atom.value_eq_regexp ha
    obtain ⟨lexemes, -, hderives⟩ := exists_parses_of_read hterm
    generalize htokens : lexemes.map (·.token) = tokens at hderives
    cases hderives
    obtain ⟨⟨token, spelling, hspelled⟩, -, htoken⟩ :=
      List.exists_of_mem_map (htokens ▸ List.mem_singleton_self _)
    obtain rfl : token = .atom (.regexp body flags) := htoken
    cases hspelled with
    | atom hspelled =>
      cases hspelled with
      | regexp hbody _ => exact ⟨body, flags, hbody, hoptions, hsource⟩

namespace ReadState

lemma readFrom_behind_atom (a : Atom) {cs : List Char} (h : ∃ c ∈ cs, isGap c = false)
    (latest : List Char) :
    ∃ rest, readFrom (.behind [] (.atom a)) latest cs = .error rest := by
  induction cs with
  | nil => simp at h
  | cons c cs ih =>
    by_cases hc : isGap c = true
    · rw [readFrom_gap hc]
      exact ih (by simpa [hc] using h)
    · have htoken : tokenBehind? false (.atom a) (c :: cs) = none := by
        unfold tokenBehind?
        split <;> rfl
      have hstep : step? (.behind [] (.atom a)) (c :: cs) = none := by
        simp [step?, scan?, htoken]
      exact ⟨_, readFrom_stuck (by simpa using hc) hstep latest⟩

end ReadState

lemma mem_dropWhile {p : Char → Bool} {c : Char} {cs : List Char} (hc : c ∈ cs)
    (hp : p c = false) : c ∈ cs.dropWhile p := by
  rw [← List.takeWhile_append_dropWhile (p := p) (l := cs)] at hc
  rcases List.mem_append.mp hc with hc | hc
  · rw [List.mem_takeWhile_imp hc] at hp
    cases hp
  · exact hc

namespace Value

open ReadState

lemma read_of_cut {inner rest : List Char} (hinner : DelimitedBody '/' inner)
    (hrest : ∃ c ∈ rest, Atom.isFlag c = false ∧ isGap c = false) :
    ∃ place, Value.read (String.ofList ('/' :: (inner ++ '/' :: rest))) =
      .error (.misplaced place) := by
  have hscan : Atom.scan? ('/' :: (inner ++ '/' :: rest)) =
      some (.regexp inner (rest.takeWhile Atom.isFlag), rest.dropWhile Atom.isFlag) := by
    simp [Atom.scan?, Atom.delimited?_body (by decide) hinner]
  obtain ⟨c, hc, hflag, hgap⟩ := hrest
  have hreads : Reads (.value []) _ (.behind [] _) _ := reads_atom hscan
  obtain ⟨latest, hlatest⟩ := hreads ('/' :: (inner ++ '/' :: rest))
  obtain ⟨wrong, hwrong⟩ := readFrom_behind_atom (.regexp inner (rest.takeWhile Atom.isFlag))
    ⟨c, mem_dropWhile hc hflag, hgap⟩ latest
  have hread : Term.read ('/' :: (inner ++ '/' :: rest)) = .error wrong := hlatest.trans hwrong
  refine ⟨.ofRest ('/' :: (inner ++ '/' :: rest)) wrong, ?_⟩
  simp [Value.read, hread]

/-- **A regular expression that was read can be printed and read again** exactly if no slash stands
directly behind a backslash in its source. Then it is read as what it was, and otherwise the printed
text is wrong at some place. -/
theorem read_inspect_regexp {text : String} {source : Tree} {options : Nat}
    (h : Value.read text = .ok (.regexp source options)) :
    ∃ s printed, source = .text s ∧ (Value.regexp source options).inspect = .ok printed ∧
      (slashesFree s.toList = true → Value.read printed = .ok (.regexp source options)) ∧
      (slashesFree s.toList = false → ∃ place, Value.read printed = .error (.misplaced place)) := by
  obtain ⟨body, flags, hbody, rfl, rfl⟩ := exists_body_of_read h
  refine ⟨_, _, rfl, inspect_eq_ok rfl, fun hslashes => ?_, fun hslashes => ?_⟩
  · rw [String.toList_ofList] at hslashes
    refine read_render false ?_
    simp only [readable, readableRegexp, String.toList_ofList, regexpOptions_and,
      backslashesPaired_regexpSource hbody, hslashes]
    simp
  · rw [String.toList_ofList] at hslashes
    have hblank : slashesFree (' ' :: Atom.regexpSource body) = false := by
      by_contra hfree
      rw [slashesFree_tail (by simpa using hfree)] at hslashes
      cases hslashes
    obtain ⟨inner, rest, hinner, hcut⟩ := exists_cut_of_slash hbody hblank
    have htext : (Value.regexp (.text (String.ofList (Atom.regexpSource body)))
        (Atom.regexpOptions flags)).render false .ruby =
        '/' :: (inner ++ '/' :: (rest ++ '/' :: optionLetters (Atom.regexpOptions flags))) := by
      simp [render, regexpText, hcut, optionLetters]
    rw [htext]
    exact read_of_cut hinner ⟨'/', by simp, by decide, by decide⟩

/-- Two backslashes and a slash: the slash is written without a backslash of its own. -/
theorem read_inspect_regexp_cut :
    Value.read "/\\\\\\//" = .ok (.regexp (.text "\\\\/") 0) ∧
    (Value.regexp (.text "\\\\/") 0).inspect = .ok "/\\\\//" ∧
    ∃ place, Value.read "/\\\\//" = .error (.misplaced place) := by
  have hread : Value.read "/\\\\\\//" = .ok (.regexp (.text "\\\\/") 0) := by cbv
  have hprinted : (Value.regexp (.text "\\\\/") 0).inspect = .ok "/\\\\//" := by cbv
  obtain ⟨s, printed, hs, hinspect, -, hcut⟩ := read_inspect_regexp hread
  cases hs
  cases hprinted.symm.trans hinspect
  exact ⟨hread, hprinted, hcut (by decide)⟩

end Value

end RubySexp
