import Mathlib.Computability.Language
import RubySexp.Proofs.Sexp.Lexeme

/-!
# The Terminal of Quoted Texts

The texts in quotes are a regular language: between two quotes, any sequence of characters that are
neither a quote nor a backslash, and of backslashes with any character behind them. No member of it
is the beginning of another, so a text starts with at most one of them, and the scanner takes it.

Main statement: what is written for a text is found again whatever stands behind it. It is the
longest match at its place, taking back the escapes between its quotes gives the text, and it holds
no control character.
-/

namespace RubySexp

open scoped Computability

/-! ### The language -/

def plainPiece (close : Char) : Language Char := {cs | ∃ c, c ≠ close ∧ c ≠ '\\' ∧ cs = [c]}

/-- A backslash with any character behind it. -/
def escapedPiece : Language Char := {cs | ∃ c, cs = ['\\', c]}

/-- The texts between a delimiter and the same delimiter again. -/
def delimitedTerminal (delimiter : Char) : Language Char :=
  {[delimiter]} * (plainPiece delimiter + escapedPiece)∗ * {[delimiter]}

def stringTerminal : Language Char := delimitedTerminal '"'

structure LongestMatch (l : Language Char) (cs found : List Char) : Prop where
  mem : found ∈ l
  begins : found <+: cs
  longest : ∀ other ∈ l, other <+: cs → other.length ≤ found.length

/-! ### Bodies -/

lemma DelimitedBody.of_piece {close : Char} {piece : List Char}
    (h : piece ∈ plainPiece close + escapedPiece) : DelimitedBody close piece := by
  rcases (Language.mem_add _ _ _).mp h with ⟨c, hc, hback, rfl⟩ | ⟨c, rfl⟩
  · exact .plain hc hback .nil
  · exact .escaped .nil

lemma mem_kstar_pieces_iff {close : Char} {body : List Char} :
    body ∈ (plainPiece close + escapedPiece)∗ ↔ DelimitedBody close body := by
  rw [Language.mem_kstar]
  constructor
  · rintro ⟨pieces, rfl, hpieces⟩
    induction pieces with
    | nil => exact .nil
    | cons piece pieces ih =>
      have hpiece := DelimitedBody.of_piece (hpieces piece (by simp))
      exact hpiece.append (ih fun other hother => hpieces other (by simp [hother]))
  · intro h
    induction h with
    | nil => exact ⟨[], rfl, List.forall_mem_nil _⟩
    | @plain c cs hc hback _ ih =>
      obtain ⟨pieces, rfl, hpieces⟩ := ih
      have hpiece : [c] ∈ plainPiece close + escapedPiece := .inl ⟨c, hc, hback, rfl⟩
      exact ⟨[c] :: pieces, rfl, List.forall_mem_cons.mpr ⟨hpiece, hpieces⟩⟩
    | @escaped c cs _ ih =>
      obtain ⟨pieces, rfl, hpieces⟩ := ih
      have hpiece : ['\\', c] ∈ plainPiece close + escapedPiece := .inr ⟨c, rfl⟩
      exact ⟨['\\', c] :: pieces, rfl, List.forall_mem_cons.mpr ⟨hpiece, hpieces⟩⟩

lemma mem_delimitedTerminal_iff {delimiter : Char} {text : List Char} :
    text ∈ delimitedTerminal delimiter ↔
      ∃ body, DelimitedBody delimiter body ∧ text = delimiter :: (body ++ [delimiter]) := by
  constructor
  · intro h
    obtain ⟨front, hfront, last, rfl, rfl⟩ := Language.mem_mul.mp h
    obtain ⟨first, rfl, body, hbody, rfl⟩ := Language.mem_mul.mp hfront
    exact ⟨body, mem_kstar_pieces_iff.1 hbody, rfl⟩
  · rintro ⟨body, hbody, rfl⟩
    have hdelimiter : [delimiter] ∈ ({[delimiter]} : Language Char) := rfl
    have hfront := Language.append_mem_mul hdelimiter (mem_kstar_pieces_iff.2 hbody)
    exact Language.append_mem_mul hfront hdelimiter

/-! ### The scanner takes the longest match -/

/-- **No member begins another**: a text starts with at most one of them. -/
lemma delimitedTerminal_append_inj {delimiter : Char} (hdelimiter : delimiter ≠ '\\')
    {a b behind behind' : List Char} (ha : a ∈ delimitedTerminal delimiter)
    (hb : b ∈ delimitedTerminal delimiter) (h : a ++ behind = b ++ behind') : a = b := by
  obtain ⟨body, hbody, rfl⟩ := mem_delimitedTerminal_iff.1 ha
  obtain ⟨body', hbody', rfl⟩ := mem_delimitedTerminal_iff.1 hb
  have hinner : body ++ delimiter :: behind = body' ++ delimiter :: behind' := by
    simpa using h
  -- Both bodies are what the scanner takes of one text.
  have hscan := Atom.delimited?_body hdelimiter hbody behind
  rw [hinner, Atom.delimited?_body hdelimiter hbody' behind'] at hscan
  cases hscan
  rfl

lemma longestMatch_iff_scan? {cs found : List Char} :
    LongestMatch stringTerminal cs found ↔
      ∃ body rest, Atom.scan? cs = some (.string body, rest) ∧ found = '"' :: (body ++ ['"']) := by
  constructor
  · rintro ⟨hmem, ⟨rest, rfl⟩, -⟩
    obtain ⟨body, hbody, rfl⟩ := mem_delimitedTerminal_iff.1 hmem
    have hscan := Atom.delimited?_body (by decide) hbody rest
    exact ⟨body, rest, by simp [Atom.scan?, hscan], rfl⟩
  · rintro ⟨body, rest, hscan, rfl⟩
    obtain ⟨text, rfl, hspelled⟩ := Atom.scan?_sound hscan
    cases hspelled with
    | string hbody =>
      have hmem : '"' :: (body ++ ['"']) ∈ stringTerminal :=
        mem_delimitedTerminal_iff.2 ⟨body, hbody, rfl⟩
      refine ⟨hmem, List.prefix_append _ _, ?_⟩
      rintro other hother ⟨behind, hbehind⟩
      rw [delimitedTerminal_append_inj (by decide) hother hmem hbehind]

namespace RubyQuoted

/-! ### Control characters -/

lemma isControl_eq_false_of_isHex {c : Char} (h : isHex c = true) : isControl c = false := by
  have hrange : 48 ≤ c.toNat ∧ c.toNat ≤ 102 := by
    simp only [isHex, hexValue?, Bool.and_eq_true, decide_eq_true_eq, Char.le_def,
      UInt32.le_iff_toNat_le] at h
    split_ifs at h with hdigit hlower hupper
    · exact ⟨hdigit.1, hdigit.2.trans (by decide)⟩
    · exact ⟨hlower.1.trans' (by decide), hlower.2⟩
    · exact ⟨hupper.1.trans' (by decide), hupper.2.trans (by decide)⟩
    · cases h
  rw [isControl_eq_false_iff]
  omega

lemma isControl_eq_false_of_letter {c letter : Char} (h : letterFor? c = some letter) :
    isControl letter = false := by
  unfold letterFor? at h
  split at h <;> cases h <;> rfl

lemma CharWritten.isControl_eq_false {c d : Char} {cs : List Char} (h : CharWritten c cs)
    (hd : d ∈ cs) : isControl d = false := by
  cases h with
  | letter hletter =>
    rcases List.mem_pair.mp hd with rfl | rfl
    · rfl
    · exact isControl_eq_false_of_letter hletter
  | sharp _ => rcases List.mem_pair.mp hd with rfl | rfl <;> rfl
  | code hlt =>
    rcases List.mem_cons.mp hd with rfl | hd
    · rfl
    rcases List.mem_cons.mp hd with rfl | hd
    · rfl
    exact isControl_eq_false_of_isHex (List.all_eq_true.mp (hexText_control _ hlt).2.1 d hd)
  | plain _ _ hcontrol =>
    rw [List.mem_singleton.mp hd]
    exact hcontrol

lemma isControl_eq_false_of_mem_escape {cs : List Char} {d : Char} (h : d ∈ escape cs) :
    isControl d = false := by
  induction cs with
  | nil => cases h
  | cons c cs ih =>
    rcases List.mem_append.mp h with h | h
    · exact (charWritten c cs).isControl_eq_false h
    · exact ih h

lemma isControl_eq_false_of_mem_text {cs : List Char} {d : Char} (h : d ∈ text cs) :
    isControl d = false := by
  rcases List.mem_cons.mp h with rfl | h
  · rfl
  rcases List.mem_append.mp h with h | h
  · exact isControl_eq_false_of_mem_escape h
  · rw [List.mem_singleton.mp h]
    rfl

/-! ### Quoted texts -/

lemma tail_dropLast_text (cs : List Char) : (text cs).tail.dropLast = escape cs := by
  simp [text]

/-- **Quoted texts delimit themselves**: whatever stands behind a quoted text, it is the longest
match of the terminal there and is taken by the scanner; its inside reads as the text that was
quoted, and it has no control character. -/
theorem text_self_delimiting (cs rest : List Char) :
    (∀ found, LongestMatch stringTerminal (text cs ++ rest) found ↔ found = text cs) ∧
    Atom.scan? (text cs ++ rest) = some (.string (text cs).tail.dropLast, rest) ∧
    unescape (text cs).tail.dropLast = .ok cs ∧
    ∀ c ∈ text cs, isControl c = false := by
  have hscan : Atom.scan? (text cs ++ rest) = some (.string (escape cs), rest) :=
    Atom.scan?_string cs
  rw [tail_dropLast_text]
  refine ⟨fun found => ?_, hscan, unescape_escape cs, fun c => isControl_eq_false_of_mem_text⟩
  rw [longestMatch_iff_scan?, hscan]
  constructor
  · rintro ⟨body, behind, heq, rfl⟩
    cases heq
    rfl
  · rintro rfl
    exact ⟨escape cs, rest, rfl, rfl⟩

/-- Backslashes in front of a quote and of a letter, a number sign that would open an interpolation,
a code with a further digit behind it, and a quote behind the whole. -/
theorem text_self_delimiting_mixed :
    let cs := ['\\', '"', '#', '{', '\x01', 'A', '\\', 'u']
    let quoted := ['"', '\\', '\\', '\\', '"', '\\', '#', '{', '\\', 'u', '0', '0', '0', '1', 'A',
      '\\', '\\', 'u', '"']
    text cs = quoted ∧ LongestMatch stringTerminal (quoted ++ ['"', 'n']) quoted ∧
    Atom.scan? (quoted ++ ['"', 'n']) = some (.string quoted.tail.dropLast, ['"', 'n']) ∧
    unescape quoted.tail.dropLast = .ok cs ∧ '\\' ∈ quoted ∧ isControl '\\' = false := by
  intro cs quoted
  have htext : text cs = quoted := by decide
  obtain ⟨hmatch, hscan, hunescape, hcontrol⟩ := text_self_delimiting cs ['"', 'n']
  rw [htext] at hmatch hscan hunescape hcontrol
  exact ⟨htext, (hmatch quoted).mpr rfl, hscan, hunescape, by simp [quoted],
    hcontrol '\\' (by simp [quoted])⟩

end RubyQuoted

end RubySexp
