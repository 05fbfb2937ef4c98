import Mathlib.Tactic
import RubySexp.Value.Symbol

/-!
# Plain Symbols and Delimiters

A name that is written without quotes is never empty and holds no round bracket. A comma or a double
quote stands in only two plain names, the globals `$,` and `$"`. White space can stand in many:
every character outside ASCII counts as a letter.
-/

namespace RubySexp.Symbol

def isBracket (c : Char) : Bool := c == '(' || c == ')'

/-- Whether a character that is no white space ends a symbol without quotes. -/
def isDelimiter (c : Char) : Bool := isBracket c || c == ',' || c == '"'

lemma not_delimiter_of_continues {c : Char} (h : continuesIdentifier c = true) :
    isDelimiter c = false := by
  by_contra hc
  simp only [isDelimiter, isBracket, Bool.not_eq_false, Bool.or_eq_true, beq_iff_eq] at hc
  rcases hc with ((rfl | rfl) | rfl) | rfl <;> revert h <;> decide

lemma not_delimiter_of_decimal {c : Char} (h : isDecimal c = true) : isDelimiter c = false :=
  not_delimiter_of_continues (by simp [continuesIdentifier, h])

lemma not_delimiter_of_identifier {cs : List Char} (h : isIdentifier cs = true) :
    ∀ c ∈ cs, isDelimiter c = false := by
  rcases cs with _ | ⟨c, cs⟩
  · simp
  · simp only [isIdentifier, Bool.and_eq_true, List.all_eq_true] at h
    intro d hd
    rcases List.mem_cons.mp hd with rfl | hd
    · exact not_delimiter_of_continues (by simp [continuesIdentifier, h.1])
    · exact not_delimiter_of_continues (h.2 d hd)

lemma not_delimiter_of_methodName {cs : List Char} (h : isMethodName cs = true) :
    ∀ c ∈ cs, isDelimiter c = false := by
  simp only [isMethodName, Bool.or_eq_true] at h
  rcases h with h | h
  · exact not_delimiter_of_identifier h
  · rcases List.eq_nil_or_concat cs with rfl | ⟨ds, d, rfl⟩
    · simp
    · simp only [List.concat_eq_append, List.getLast?_append, List.getLast?_singleton,
        Option.some_or, List.dropLast_concat, Bool.and_eq_true, Bool.or_eq_true,
        beq_iff_eq] at h
      intro c hc
      rw [List.concat_eq_append] at hc
      rcases List.mem_append.mp hc with hc | hc
      · exact not_delimiter_of_identifier h.2 c hc
      · rw [List.mem_singleton.mp hc]
        rcases h.1 with (rfl | rfl) | rfl <;> decide

variable {cs : List Char} {c : Char}

lemma eq_singleton_of_globalName (h : isGlobalName cs = true) (hc : c ∈ cs)
    (hdelimiter : isDelimiter c = true) : cs = [c] ∧ c ∈ specialGlobals := by
  have hfree : ¬ ∀ d ∈ cs, isDelimiter d = false := by
    intro hall
    rw [hall c hc] at hdelimiter
    cases hdelimiter
  unfold isGlobalName at h
  split at h
  · cases h
  · next d =>
    obtain rfl := List.mem_singleton.mp hc
    simp only [Bool.or_eq_true, List.contains_iff_mem] at h
    rcases h with (h | h) | h
    · exact absurd (not_delimiter_of_identifier h) hfree
    · rw [not_delimiter_of_decimal h] at hdelimiter
      cases hdelimiter
    · exact ⟨rfl, h⟩
  · next d =>
    refine absurd (List.forall_mem_cons.mpr ⟨by decide, List.forall_mem_singleton.mpr ?_⟩) hfree
    refine not_delimiter_of_continues ?_
    simp only [Bool.or_eq_true] at h
    rcases h with (h | h) | h <;> simp [continuesIdentifier, startsIdentifier, h]
  · simp only [Bool.or_eq_true, List.all_eq_true] at h
    rcases h with h | h
    · exact absurd (not_delimiter_of_identifier h) hfree
    · exact absurd (fun d hd => not_delimiter_of_decimal (h d hd)) hfree

lemma eq_global_of_plain (h : isPlain cs = true) (hc : c ∈ cs) (hdelimiter : isDelimiter c = true) :
    cs = ['$', c] ∧ c ∈ specialGlobals := by
  have hfree : ¬ ∀ d ∈ cs, isDelimiter d = false := by
    intro hall
    rw [hall c hc] at hdelimiter
    cases hdelimiter
  simp only [isPlain, Bool.or_eq_true] at h
  rcases h with (h | h) | h
  · exact absurd (not_delimiter_of_methodName h) hfree
  · have hall : operators.all (·.all (!isDelimiter ·)) = true := by decide
    have hop := List.all_eq_true.mp hall cs (by simpa using h)
    refine absurd (fun d hd => ?_) hfree
    simpa using List.all_eq_true.mp hop d hd
  · split at h
    · refine absurd ?_ hfree
      simp only [List.mem_cons, forall_eq_or_imp]
      exact ⟨by decide, by decide, not_delimiter_of_identifier h⟩
    · refine absurd ?_ hfree
      simp only [List.mem_cons, forall_eq_or_imp]
      exact ⟨by decide, not_delimiter_of_identifier h⟩
    · rcases List.mem_cons.mp hc with rfl | hc
      · cases hdelimiter
      · obtain ⟨rfl, hspecial⟩ := eq_singleton_of_globalName h hc hdelimiter
        exact ⟨rfl, hspecial⟩
    · cases h

lemma not_bracket_of_plain (h : isPlain cs = true) : ∀ c ∈ cs, isBracket c = false := by
  intro c hc
  by_contra hbracket
  rw [Bool.not_eq_false] at hbracket
  obtain ⟨-, hspecial⟩ := eq_global_of_plain h hc (by simp [isDelimiter, hbracket])
  have hall : specialGlobals.all (!isBracket ·) = true := by decide
  have hnot := List.all_eq_true.mp hall c hspecial
  rw [hbracket] at hnot
  cases hnot

lemma not_plain_nil : isPlain [] = false := by decide

end RubySexp.Symbol
