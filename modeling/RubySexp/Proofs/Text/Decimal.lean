import Mathlib.Tactic
import RubySexp.Sexp.Atom

/-!
# Decimal Texts

The decimal text of a number, followed by anything that is no digit, is scanned as that number:
nothing of it is left and nothing behind it is taken.
-/

namespace RubySexp

/-- A text that does not go on with a character of a class. -/
def Stops (p : Char → Bool) (rest : List Char) : Prop :=
  ∀ c cs, rest = c :: cs → p c = false

lemma stops_nil (p : Char → Bool) : Stops p [] := by
  intro c cs h
  cases h

lemma stops_cons {p : Char → Bool} {c : Char} {cs : List Char} (h : p c = false) :
    Stops p (c :: cs) := by
  intro d ds hd
  cases hd
  exact h

/-- A literal is tested by its characters, without decoding it. -/
lemma test_ofList (test : List Char → Bool) {cs : List Char} (h : test cs = true) :
    test (String.ofList cs).toList = true := by
  rwa [String.toList_ofList]

lemma takeWhile_run {p : Char → Bool} {run rest : List Char} (hrun : ∀ c ∈ run, p c = true)
    (hrest : Stops p rest) : (run ++ rest).takeWhile p = run := by
  rw [List.takeWhile_append_of_pos hrun]
  rcases rest with _ | ⟨c, cs⟩
  · simp
  · simp [hrest c cs rfl]

lemma dropWhile_run {p : Char → Bool} {run rest : List Char} (hrun : ∀ c ∈ run, p c = true)
    (hrest : Stops p rest) : (run ++ rest).dropWhile p = rest := by
  rw [List.dropWhile_append_of_pos hrun]
  rcases rest with _ | ⟨c, cs⟩
  · simp
  · simp [hrest c cs rfl]

/-! ### Digits -/

lemma toNat_of_isDigit {c : Char} (h : c.isDigit = true) : 48 ≤ c.toNat ∧ c.toNat ≤ 57 := by
  simp only [Char.isDigit, Bool.and_eq_true, decide_eq_true_eq, ge_iff_le,
    UInt32.le_iff_toNat_le] at h
  exact h

lemma digitValue?_of_isDigit {c : Char} (h : c.isDigit = true) :
    digitValue? c = some (c.toNat - 48) := by
  obtain ⟨hlow, hhigh⟩ := toNat_of_isDigit h
  have hlt : c.toNat < 58 := by omega
  simp [digitValue?, digitZeros, hlow, hlt]

lemma isDigit_of_isDigit {c : Char} (h : c.isDigit = true) : isDigit c = true := by
  simp [isDigit, digitValue?_of_isDigit h]

lemma isDigit_of_mem_natText {n : Nat} {c : Char} (h : c ∈ natText n) : c.isDigit = true :=
  Nat.isDigit_of_mem_toDigits (by omega) (by omega) h

lemma natText_ne_nil (n : Nat) : natText n ≠ [] := Nat.toDigits_ne_nil

lemma natText_eq_cons (n : Nat) : ∃ c cs, natText n = c :: cs ∧ c.isDigit = true := by
  rcases h : natText n with _ | ⟨c, cs⟩
  · exact absurd h (natText_ne_nil n)
  · exact ⟨c, cs, rfl, isDigit_of_mem_natText (n := n) (by simp [h])⟩

lemma digitsValue_eq_ofDigitChars {cs : List Char} (h : ∀ c ∈ cs, c.isDigit = true) (init : Nat) :
    cs.foldl (fun n c => 10 * n + (digitValue? c).getD 0) init = Nat.ofDigitChars 10 cs init := by
  induction cs generalizing init with
  | nil => simp
  | cons c cs ih =>
    rw [List.foldl_cons, Nat.ofDigitChars_cons, ih fun d hd => h d (by simp [hd])]
    simp [digitValue?_of_isDigit (h c (by simp))]

@[simp] lemma digitsValue_natText (n : Nat) : digitsValue (natText n) = n := by
  rw [digitsValue, digitsValue_eq_ofDigitChars (fun c hc => isDigit_of_mem_natText hc)]
  exact Nat.ofDigitChars_ten_toDigits

/-! ### Scanning -/

namespace Atom

lemma digits?_natText (n : Nat) {rest : List Char} (h : Stops isDigit rest) :
    digits? (natText n ++ rest) = some (natText n, rest) := by
  have hrun : ∀ c ∈ natText n, isDigit c = true := fun c hc =>
    isDigit_of_isDigit (isDigit_of_mem_natText hc)
  simp [digits?, takeWhile_run hrun h, dropWhile_run hrun h, natText_ne_nil n]

lemma minus_of_head {c : Char} (h : c ≠ '-') (cs : List Char) :
    minus (c :: cs) = (false, c :: cs) := by
  unfold minus
  split
  · next heq => exact absurd (List.cons.inj heq).1 h
  · rfl

lemma minus_natText (n : Nat) (rest : List Char) :
    minus (natText n ++ rest) = (false, natText n ++ rest) := by
  obtain ⟨c, cs, hcs, hc⟩ := natText_eq_cons n
  rw [hcs, List.cons_append]
  exact minus_of_head (by rintro rfl; simp at hc) _

lemma minus_intText (n : Int) (rest : List Char) :
    minus (intText n ++ rest) = (decide (n < 0), natText n.natAbs ++ rest) := by
  rcases n with n | n
  · simp [intText, minus_natText]
  · simp [intText, minus, Int.negSucc_lt_zero, Int.natAbs_negSucc]

lemma signed_natText (n : Int) : signed (decide (n < 0)) (natText n.natAbs) = n := by
  unfold signed
  rw [digitsValue_natText]
  split <;> rename_i h <;> simp only [decide_eq_true_eq] at h <;> omega

lemma integer?_intText (n : Int) {rest : List Char} (h : Stops isDigit rest) :
    integer? (intText n ++ rest) = some (n, rest) := by
  simp [integer?, minus_intText, digits?_natText _ h, signed_natText]

end Atom

end RubySexp
