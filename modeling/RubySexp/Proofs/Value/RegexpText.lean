import RubySexp.Proofs.Text.Decimal
import RubySexp.Proofs.Text.Escape
import RubySexp.Sexp.Term

/-!
# Regular Expressions as Text

Printing puts a backslash in front of each slash that has none, and reading takes it away. The
two undo each other where no slash of the source stands directly behind a backslash: such a slash
is printed as it is, and its backslash is lost.
-/

namespace RubySexp

/-- Whether each backslash takes a character with it. -/
def backslashesPaired : List Char → Bool
  | [] => true
  | '\\' :: _ :: cs => backslashesPaired cs
  | c :: cs => c != '\\' && backslashesPaired cs

/-- Whether no slash stands directly behind a backslash. -/
def slashesFree : List Char → Bool
  | a :: b :: cs => !(a == '\\' && b == '/') && slashesFree (b :: cs)
  | _ => true

lemma slashesFree_tail {c : Char} {cs : List Char} (h : slashesFree (c :: cs) = true) :
    slashesFree cs = true := by
  rcases cs with _ | ⟨d, cs⟩
  · rfl
  · simp only [slashesFree, Bool.and_eq_true] at h
    exact h.2

lemma slashesFree_blank {cs : List Char} (h : slashesFree cs = true) :
    slashesFree (' ' :: cs) = true := by
  rcases cs with _ | ⟨c, cs⟩
  · rfl
  · simp [slashesFree, h]

lemma not_slash_of_slashesFree {cs : List Char} (h : slashesFree ('\\' :: cs) = true) :
    Stops (· == '/') cs := by
  rintro c ds rfl
  simp_all [slashesFree]

namespace Value

lemma escapeSlashes_slash {behind : Char} (h : behind ≠ '\\') (cs : List Char) :
    escapeSlashes behind ('/' :: cs) = '\\' :: '/' :: escapeSlashes '/' cs := by
  simp [escapeSlashes, h]

lemma escapeSlashes_other {c : Char} (h : c ≠ '/') (behind : Char) (cs : List Char) :
    escapeSlashes behind (c :: cs) = c :: escapeSlashes c cs := by
  simp [escapeSlashes, h]

lemma stops_escapeSlashes {cs : List Char} (h : Stops (· == '/') cs) :
    Stops (· == '/') (escapeSlashes '\\' cs) := by
  rcases cs with _ | ⟨c, cs⟩
  · exact stops_nil _
  · have hc := h c cs rfl
    rw [escapeSlashes_other (by simpa using hc)]
    exact stops_cons hc

lemma regexpSource_cons {c : Char} {cs : List Char} (h : c = '\\' → Stops (· == '/') cs) :
    Atom.regexpSource (c :: cs) = c :: Atom.regexpSource cs := by
  rw [Atom.regexpSource.eq_def]
  split
  · next heq => cases heq
  · next heq =>
    cases heq
    simpa using h rfl _ _ rfl
  · next heq =>
    cases heq
    rfl

lemma regexpSource_escapeSlashes {behind : Char} {cs : List Char}
    (h : slashesFree (behind :: cs) = true) :
    Atom.regexpSource (escapeSlashes behind cs) = cs := by
  induction cs generalizing behind with
  | nil => rfl
  | cons c cs ih =>
    have hrest := slashesFree_tail h
    by_cases hc : c = '/'
    · subst hc
      have hbehind : behind ≠ '\\' := by
        rintro rfl
        simpa using not_slash_of_slashesFree h _ _ rfl
      rw [escapeSlashes_slash hbehind, Atom.regexpSource, ih hrest]
    · rw [escapeSlashes_other hc, regexpSource_cons, ih hrest]
      rintro rfl
      exact stops_escapeSlashes (not_slash_of_slashesFree hrest)

lemma delimitedBody_escapeSlashes {behind : Char} {cs : List Char}
    (hpairs : backslashesPaired cs = true) (h : slashesFree (behind :: cs) = true) :
    DelimitedBody '/' (escapeSlashes behind cs) := by
  fun_induction backslashesPaired cs generalizing behind with
  | case1 => exact .nil
  | case2 c cs ih =>
    have hrest := slashesFree_tail h
    have hc : c ≠ '/' := by simpa using not_slash_of_slashesFree hrest c cs rfl
    rw [escapeSlashes_other (by decide), escapeSlashes_other hc]
    exact .escaped (ih hpairs (slashesFree_tail hrest))
  | case3 c cs hsingle ih =>
    simp only [Bool.and_eq_true, bne_iff_ne] at hpairs
    have hrest := slashesFree_tail h
    by_cases hc : c = '/'
    · subst hc
      have hbehind : behind ≠ '\\' := by
        rintro rfl
        simpa using not_slash_of_slashesFree h _ _ rfl
      rw [escapeSlashes_slash hbehind]
      exact .escaped (ih hpairs.2 hrest)
    · rw [escapeSlashes_other hc]
      exact .plain hc hpairs.1 (ih hpairs.2 hrest)

def optionLetters (options : Nat) : List Char :=
  (regexpLetters.filter fun (_, bit) => options &&& bit != 0).map (·.1)

lemma isFlag_of_mem_optionLetters {options : Nat} {c : Char} (h : c ∈ optionLetters options) :
    Atom.isFlag c = true := by
  simp only [optionLetters, List.mem_map, List.mem_filter] at h
  obtain ⟨⟨d, bit⟩, ⟨hmem, -⟩, rfl⟩ := h
  have : ∀ x ∈ regexpLetters, Atom.isFlag x.1 = true := by decide
  exact this _ hmem

lemma regexpOptions_optionLetters {options : Nat} (h : options &&& 39 = options) :
    Atom.regexpOptions (optionLetters options) = options := by
  have hle : options < 40 := by
    have := Nat.and_le_right (n := options) (m := 39)
    omega
  have : ∀ n < 40, n &&& 39 = n → Atom.regexpOptions (optionLetters n) = n := by
    decide +kernel
  exact this options hle h

end Value

end RubySexp
