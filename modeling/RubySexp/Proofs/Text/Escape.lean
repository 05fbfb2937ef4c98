import Mathlib.Tactic
import RubySexp.Sexp.Atom

/-!
# Escapes

Text between delimiters, where a backslash takes the next character with it, ends where it is
meant to end, and the escapes of a quoted text are taken back by reading it.

The body of a delimited text is described apart from the scanner: single characters that are
neither the delimiter nor a backslash, and backslashes with any character behind them. So is what
can be written for a character of a quoted text, in one of four ways; what holds of each of them
holds of the whole text.
-/

namespace RubySexp

inductive DelimitedBody (close : Char) : List Char → Prop
  | nil : DelimitedBody close []
  | plain {c cs} : c ≠ close → c ≠ '\\' → DelimitedBody close cs → DelimitedBody close (c :: cs)
  | escaped {c cs} : DelimitedBody close cs → DelimitedBody close ('\\' :: c :: cs)

namespace DelimitedBody

variable {close : Char}

lemma append {as bs : List Char} (ha : DelimitedBody close as) (hb : DelimitedBody close bs) :
    DelimitedBody close (as ++ bs) := by
  induction ha with
  | nil => exact hb
  | plain hc hback _ ih => exact .plain hc hback ih
  | escaped _ ih => exact .escaped ih

lemma of_plain {cs : List Char} (h : ∀ c ∈ cs, c ≠ close ∧ c ≠ '\\') : DelimitedBody close cs := by
  induction cs with
  | nil => exact .nil
  | cons c cs ih =>
    have hc := h c (by simp)
    exact .plain hc.1 hc.2 (ih fun d hd => h d (by simp [hd]))

end DelimitedBody

lemma Atom.delimited?_body {close : Char} {body : List Char} (hclose : close ≠ '\\')
    (h : DelimitedBody close body) (rest : List Char) :
    Atom.delimited? close (body ++ close :: rest) = some (body, rest) := by
  induction h with
  | nil =>
    rw [List.nil_append, Atom.delimited?.eq_def]
    split
    · next heq => cases heq
    · next heq => exact absurd (List.cons.inj heq).1 hclose
    · next c cs _ heq =>
      cases heq
      simp
  | @plain c cs hc hback _ ih =>
    rw [List.cons_append, Atom.delimited?.eq_def]
    split
    · next heq => cases heq
    · next heq => exact absurd (List.cons.inj heq).1 hback
    · next heq =>
      cases heq
      simp [hc, hback, ih]
  | escaped _ ih => simp [Atom.delimited?, ih]

namespace RubyQuoted

/-! ### Reading without a bound -/

lemma bracedCodes?_length {cs rest : List Char} {codes : List Nat}
    (h : bracedCodes? cs = some (codes, rest)) : rest.length ≤ cs.length := by
  unfold bracedCodes? at h
  split at h
  · next cs =>
    have hdrop := (List.dropWhile_sublist (l := cs) (fun c => isHex c || c == ' ')).length_le
    split at h
    · next heq =>
      dsimp only at h
      split at h
      · cases h
      · cases h
        rw [heq] at hdrop
        simp only [List.length_cons] at hdrop ⊢
        omega
    · cases h
  · cases h

lemma fourDigits?_length {cs rest : List Char} {n : Nat} (h : fourDigits? cs = some (n, rest)) :
    rest.length ≤ cs.length := by
  simp only [fourDigits?] at h
  split at h
  · cases h
    simp
  · cases h

lemma twoDigits?_length {cs rest : List Char} {n : Nat} (h : twoDigits? cs = some (n, rest)) :
    rest.length ≤ cs.length := by
  simp only [twoDigits?] at h
  split at h
  · cases h
  · cases h
    simp

lemma afterBackslash_length (cs : List Char) : (afterBackslash cs).2.length ≤ cs.length := by
  rcases cs with _ | ⟨c, cs⟩
  · simp [afterBackslash]
  · simp only [afterBackslash, List.length_cons]
    split
    · split
      · next h => have := bracedCodes?_length h; simp only; omega
      · next h => have := fourDigits?_length h; simp only; omega
      · simp
    · split
      · split
        · next h => have := twoDigits?_length h; simp only; omega
        · simp
      · simp

/-- The bound on the reader does not matter once it covers the text. -/
lemma unescapeWithin_eq (fuel fuel' : Nat) (cs : List Char) (h : cs.length ≤ fuel)
    (h' : cs.length ≤ fuel') : unescapeWithin fuel cs = unescapeWithin fuel' cs := by
  induction fuel generalizing fuel' cs with
  | zero =>
    have hcs : cs = [] := List.length_eq_zero_iff.mp (by omega)
    subst hcs
    cases fuel' <;> rfl
  | succ fuel ih =>
    rcases cs with _ | ⟨c, cs⟩
    · cases fuel' <;> rfl
    · rcases fuel' with _ | fuel'
      · simp at h'
      simp only [List.length_cons] at h h'
      have hlen := afterBackslash_length cs
      simp only [unescapeWithin]
      rw [ih fuel' cs (by omega) (by omega),
        ih fuel' (afterBackslash cs).2 (by omega) (by omega)]

lemma unescape_backslash (cs : List Char) :
    unescape ('\\' :: cs) = (do
      return (← (afterBackslash cs).1) ++ (← unescape (afterBackslash cs).2)) := by
  have hlen := afterBackslash_length cs
  unfold unescape
  rw [List.length_cons, unescapeWithin]
  simp only [beq_self_eq_true, if_true]
  rw [unescapeWithin_eq _ _ _ (by omega) (le_refl _)]

lemma unescape_plain {c : Char} (h : c ≠ '\\') (cs : List Char) :
    unescape (c :: cs) = (do return c :: (← unescape cs)) := by
  unfold unescape
  rw [List.length_cons, unescapeWithin]
  simp [h]

/-! ### Behind a backslash -/

lemma hexText_control : ∀ n < 128, ((hexText 4 n).map Char.toUpper).length = 4 ∧
    ((hexText 4 n).map Char.toUpper).all isHex = true ∧
    hexNumber ((hexText 4 n).map Char.toUpper) = n := by
  decide +kernel

lemma ne_of_isHex {c d : Char} (h : isHex c = true) (hd : isHex d = false) : c ≠ d := by
  rintro rfl
  rw [h] at hd
  cases hd

lemma fourDigits?_control {n : Nat} (h : n < 128) (rest : List Char) :
    fourDigits? ((hexText 4 n).map Char.toUpper ++ rest) = some (n, rest) := by
  obtain ⟨hlen, hall, hnum⟩ := hexText_control n h
  simp only [fourDigits?, List.take_left' hlen, List.drop_left' hlen, hlen, hall, hnum]
  simp

lemma bracedCodes?_control {n : Nat} (h : n < 128) (rest : List Char) :
    bracedCodes? ((hexText 4 n).map Char.toUpper ++ rest) = none := by
  obtain ⟨hlen, hall, -⟩ := hexText_control n h
  rcases hcs : (hexText 4 n).map Char.toUpper with _ | ⟨c, cs⟩
  · simp [hcs] at hlen
  · have hc : c ≠ '{' := by
      rw [hcs] at hall
      exact ne_of_isHex (List.all_eq_true.mp hall c (by simp)) (by decide)
    unfold bracedCodes?
    split
    · next heq => exact absurd (List.cons.inj heq).1 hc
    · rfl

lemma charAt_control {c : Char} (h : c.toNat < 128) : charAt c.toNat = .ok c := by
  have hnot : ¬ (0xd800 ≤ c.toNat ∧ c.toNat ≤ 0xdfff) := by omega
  have hlt : c.toNat < 0x110000 := by omega
  simp [charAt, hnot, hlt, Char.ofNat_toNat]

lemma afterBackslash_letter {c letter : Char} (h : letterFor? c = some letter)
    (rest : List Char) : afterBackslash (letter :: rest) = (.ok [c], rest) := by
  unfold letterFor? at h
  split at h <;> first
    | (cases h; rfl)
    | cases h

lemma afterBackslash_control {c : Char} (h : c.toNat < 128) (rest : List Char) :
    afterBackslash ('u' :: ((hexText 4 c.toNat).map Char.toUpper ++ rest)) = (.ok [c], rest) := by
  simp only [afterBackslash, beq_self_eq_true, if_true, bracedCodes?_control h,
    fourDigits?_control h, charAt_control h]
  rfl

/-! ### What is written for a character -/

def isControl (c : Char) : Bool := c.toNat < 0x20 || c.toNat == 0x7f

lemma isControl_eq_false_iff {c : Char} :
    isControl c = false ↔ 0x20 ≤ c.toNat ∧ c.toNat ≠ 0x7f := by
  simp [isControl]

inductive CharWritten (c : Char) : List Char → Prop
  | letter {letter} : letterFor? c = some letter → CharWritten c ['\\', letter]
  | sharp : c = '#' → CharWritten c ['\\', '#']
  | code : c.toNat < 128 →
    CharWritten c ('\\' :: 'u' :: (hexText 4 c.toNat).map Char.toUpper)
  | plain : c ≠ '"' → c ≠ '\\' → isControl c = false → CharWritten c [c]

lemma charWritten (c : Char) (behind : List Char) : CharWritten c (charText c behind) := by
  unfold charText
  split
  · next hletter => exact .letter hletter
  · next hnone =>
    split
    · next hsharp => exact .sharp (by simp_all)
    · split
      · next hcontrol =>
        simp only [Bool.or_eq_true, decide_eq_true_eq, beq_iff_eq] at hcontrol
        exact .code (by omega)
      · next hcontrol =>
        refine .plain ?_ ?_ (by simpa [isControl_eq_false_iff] using hcontrol)
        · rintro rfl
          simp [letterFor?] at hnone
        · rintro rfl
          simp [letterFor?] at hnone

namespace CharWritten

variable {c : Char} {cs : List Char}

lemma unescape_append (h : CharWritten c cs) (rest : List Char) :
    unescape (cs ++ rest) = (do return c :: (← unescape rest)) := by
  cases h with
  | letter hletter =>
    rw [List.cons_append, List.singleton_append, unescape_backslash, afterBackslash_letter hletter]
    rfl
  | sharp hc =>
    subst hc
    rw [List.cons_append, List.singleton_append, unescape_backslash]
    rfl
  | code hlt =>
    rw [List.cons_append, List.cons_append, unescape_backslash, afterBackslash_control hlt]
    rfl
  | plain _ hback => rw [List.singleton_append, unescape_plain hback]

lemma delimitedBody (h : CharWritten c cs) : DelimitedBody '"' cs := by
  cases h with
  | letter _ => exact .escaped .nil
  | sharp _ => exact .escaped .nil
  | code hlt =>
    have hall := (hexText_control _ hlt).2.1
    refine .escaped (.of_plain fun d hd => ?_)
    have hhex := List.all_eq_true.mp hall d hd
    exact ⟨ne_of_isHex hhex (by decide), ne_of_isHex hhex (by decide)⟩
  | plain hquote hback => exact .plain hquote hback .nil

end CharWritten

/-! ### What is written for a text -/

/-- **The codec**: reading takes back what writing has escaped. -/
theorem unescape_escape (cs : List Char) : unescape (escape cs) = .ok cs := by
  induction cs with
  | nil => rfl
  | cons c cs ih =>
    rw [escape, (charWritten c cs).unescape_append, ih]
    rfl

lemma delimitedBody_escape (cs : List Char) : DelimitedBody '"' (escape cs) := by
  induction cs with
  | nil => exact .nil
  | cons c cs ih => exact (charWritten c cs).delimitedBody.append ih

end RubyQuoted

end RubySexp
