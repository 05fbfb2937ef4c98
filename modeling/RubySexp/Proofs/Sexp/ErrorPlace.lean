import Mathlib
import RubySexp.Proofs.Sexp.Derivation

/-!
# Where a Text Goes Wrong

A text that is no printed expression is refused with a place. What stands before the place has been
cut into tokens, and the state they lead to cannot go on. Every state can be completed, though: what
is open can be closed, a value that is due can be written, and a mark that was begun can be ended.
So up to its place a refused text is the beginning of one that is accepted.
-/

namespace RubySexp

/-! ### Lines and columns -/

/-- What stands behind the last line feed of a text. -/
def LastLine (text line : List Char) : Prop :=
  '\n' ∉ line ∧ (text = line ∨ ∃ above, text = above ++ '\n' :: line)

namespace Place

lemma ofRest_append (before rest : List Char) : ofRest (before ++ rest) rest = behind before := by
  simp [ofRest]

lemma lastLine_behind (before : List Char) :
    ∃ line, LastLine before line ∧ (behind before).column = 1 + line.length := by
  have hsplit := List.takeWhile_append_dropWhile (p := (· != '\n')) (l := before.reverse)
  have hstop := stops_dropWhile (· != '\n') before.reverse
  refine ⟨(before.reverse.takeWhile (· != '\n')).reverse, ⟨?_, ?_⟩, ?_⟩
  · intro hmem
    simpa using List.mem_takeWhile_imp (List.mem_reverse.mp hmem)
  · rcases hrest : before.reverse.dropWhile (· != '\n') with _ | ⟨c, above⟩
    · rw [hrest, List.append_nil] at hsplit
      exact .inl (by rw [hsplit, List.reverse_reverse])
    · obtain rfl : c = '\n' := by simpa using hstop c above hrest
      refine .inr ⟨above.reverse, ?_⟩
      have hbefore := congrArg List.reverse hsplit
      rw [hrest] at hbefore
      simpa using hbefore.symm
  · simp [behind, Nat.add_comm]

end Place

/-! ### Cuts side by side -/

lemma Cut.gap {gap cs : List Char} {ls : List Lexeme} (hgap : ∀ c ∈ gap, isGap c = true)
    (h : Cut ls cs) : Cut ls (gap ++ cs) := by
  cases h with
  | done hgap' =>
    refine .done fun c hc => ?_
    rcases List.mem_append.mp hc with hc | hc
    · exact hgap c hc
    · exact hgap' c hc
  | @lexeme gap' l ls rest hgap' hrest =>
    rw [← List.append_assoc]
    refine .lexeme (fun c hc => ?_) hrest
    rcases List.mem_append.mp hc with hc | hc
    · exact hgap c hc
    · exact hgap' c hc

lemma Cut.append {cs cs' : List Char} {ls ls' : List Lexeme} (h : Cut ls cs) (h' : Cut ls' cs') :
    Cut (ls ++ ls') (cs ++ cs') := by
  induction h with
  | done hgap => exact h'.gap hgap
  | lexeme hgap _ ih => simpa using Cut.lexeme hgap ih

namespace ReadState

variable {s next : ReadState} {token : Token} {cs rest latest text : List Char}

/-! ### Every state can be completed -/

/-- Whether some text leads from a state to the end of a value. -/
def Completes (s : ReadState) : Prop :=
  ∃ ending ls term, Cut ls ending ∧ Feeds s (ls.map (·.token)) (.behind [] term)

lemma Completes.of_advances (h : Advances s token next) (hspelled : token.Spelled text)
    (hnext : Completes next) : Completes s := by
  obtain ⟨ending, ls, term, hcut, hfeeds⟩ := hnext
  have hgap : ∀ c ∈ ([] : List Char), isGap c = true := by simp
  exact ⟨_, ⟨token, text, hspelled⟩ :: ls, term, .lexeme hgap hcut, .cons h hfeeds⟩

lemma completes_behind (outer : List (List Term)) (last : Term) :
    Completes (.behind outer last) := by
  induction outer generalizing last with
  | nil => exact ⟨[], [], last, .done (by simp), .nil _⟩
  | cons items outer ih => exact .of_advances (.close items outer last) .close (ih _)

lemma completes_mark (outer : List (List Term)) (items : List Term) (marks : List (LineKey × Int))
    (part : MarkPart) : Completes (.mark outer items marks part) := by
  have hdigits : Digits ['1'] := ⟨by simp, List.forall_mem_singleton.mpr rfl⟩
  have hnumbered (k : LineKey) (n : Int) : Completes (.mark outer items marks (.numbered k n)) :=
    .of_advances (.closeMark outer items marks k n) .close (completes_behind _ _)
  have hopened (k : LineKey) : Completes (.mark outer items marks (.opened k)) :=
    .of_advances (.number outer items marks k _) (.number false hdigits) (hnumbered k _)
  have hkey (k : LineKey) : Completes (.mark outer items marks (.key k)) :=
    .of_advances (.openMark outer items marks k) .openMark (hopened k)
  cases part with
  | dot => exact .of_advances (.key outer items marks .line) .line (hkey .line)
  | key k => exact hkey k
  | opened k => exact hopened k
  | numbered k n => exact hnumbered k n

lemma completes (s : ReadState) : Completes s := by
  cases s with
  | value outer =>
    exact .of_advances (.atom outer .nothing) (.atom .nothing) (completes_behind outer _)
  | behind outer last => exact completes_behind outer last
  | mark outer items marks part => exact completes_mark outer items marks part

/-! ### Where the reader stops -/

/-- What is wrong where a state cannot go on: none of the tokens that are due stands there, or the
last token of a text that ends too early does. A text without tokens is wrong at its start. -/
inductive WrongAt : ReadState → List Char → Prop
  | noToken {s c t} : isGap c = false → step? s (c :: t) = none → WrongAt s (c :: t)
  | lastToken {s next gap} {l : Lexeme} : Advances s l.token next → next.finished? = none →
    (∀ c ∈ gap, isGap c = true) → WrongAt s (l.text ++ gap)
  | blank {gap} : (∀ c ∈ gap, isGap c = true) → WrongAt (.value []) gap

/-- What stands before the place where a state stops has been cut into tokens. -/
def StopsAt (s : ReadState) (cs rest : List Char) : Prop :=
  ∃ before ls last, cs = before ++ rest ∧ Cut ls before ∧ Feeds s (ls.map (·.token)) last ∧
    WrongAt last rest

lemma unfinished_of_end (hdrop : cs.dropWhile isGap = [])
    (h : s.finished?.elim (.error latest) .ok = (.error rest : Except (List Char) Term)) :
    (∀ c ∈ cs, isGap c = true) ∧ s.finished? = none ∧ rest = latest := by
  refine ⟨by simpa using hdrop, ?_⟩
  rcases hfinished : s.finished? with _ | term
  · rw [hfinished] at h
    cases h
    exact ⟨rfl, rfl⟩
  · rw [hfinished] at h
    cases h

lemma stopsAt_of_run {fuel : Nat} (hfuel : cs.length ≤ fuel)
    (h : run fuel s latest cs = .error rest) :
    ((∀ c ∈ cs, isGap c = true) ∧ s.finished? = none ∧ rest = latest) ∨ StopsAt s cs rest := by
  induction fuel generalizing s latest cs with
  | zero =>
    obtain rfl : cs = [] := by simpa using hfuel
    rw [run_of_end rfl] at h
    exact .inl (unfinished_of_end rfl h)
  | succ fuel ih =>
    rcases hdrop : cs.dropWhile isGap with _ | ⟨c, t⟩
    · rw [run_of_end hdrop] at h
      exact .inl (unfinished_of_end hdrop h)
    have hgap : ∀ c ∈ cs.takeWhile isGap, isGap c = true := fun c hc => List.mem_takeWhile_imp hc
    have hcs : cs = cs.takeWhile isGap ++ (c :: t) := by
      rw [← hdrop, List.takeWhile_append_dropWhile]
    have hc : isGap c = false := stops_dropWhile isGap cs c t hdrop
    rw [run_of_token hdrop] at h
    rcases hstep : s.step? (c :: t) with _ | ⟨next, after⟩
    · rw [hstep] at h
      cases h
      exact .inr ⟨_, [], s, hcs, .done hgap, .nil s, .noToken hc hstep⟩
    rw [hstep] at h
    have hlength : after.length ≤ fuel := by
      have hafter := (step?_leaves hstep).length_lt
      have hall := congrArg List.length hcs
      rw [List.length_append] at hall
      omega
    simp only [step?, Option.bind_eq_bind, Option.bind_eq_some_iff] at hstep
    obtain ⟨⟨token, mid⟩, hscan, next', hnext, heq⟩ := hstep
    cases heq
    obtain ⟨text, htext, hspelled⟩ := scan?_sound hscan
    have hadvances := advance?_eq_some_iff.1 hnext
    let l : Lexeme := ⟨token, text, hspelled⟩
    rcases ih hlength h with ⟨hend, hfinished, rfl⟩ | ⟨before, ls, last, rfl, hcut, hfeeds, hwrong⟩
    · refine .inr ⟨_, [], s, hcs, .done hgap, .nil s, ?_⟩
      rw [htext]
      exact .lastToken (l := l) hadvances hfinished hend
    · refine .inr ⟨_, l :: ls, last, hcs.trans ?_, .lexeme hgap hcut, .cons hadvances hfeeds,
        hwrong⟩
      rw [htext]
      simp [l]

/-- **The reader stops where the text goes wrong.** -/
lemma stopsAt_of_read (h : Term.read cs = .error rest) : StopsAt (.value []) cs rest := by
  rcases stopsAt_of_run (le_refl _) h with ⟨hgap, -, rfl⟩ | hstops
  · exact ⟨[], [], _, rfl, .done (by simp), .nil _, .blank hgap⟩
  · exact hstops

end ReadState

namespace Value

lemma exists_ending {before : List Char} {ls : List Lexeme} {s : ReadState} (hcut : Cut ls before)
    (hfeeds : ReadState.Feeds (.value []) (ls.map (·.token)) s) :
    ∃ ending, ∀ error, Value.read (String.ofList (before ++ ending)) = .error error →
      error.offset? = none := by
  obtain ⟨ending, ls', term, hcut', hfeeds'⟩ := s.completes
  refine ⟨ending, exists_parses_iff.2 ⟨ls ++ ls', term, ?_, ?_⟩⟩
  · rw [String.toList_ofList]
    exact hcut.append hcut'
  · rw [List.map_append]
    exact ReadState.feeds_iff_derives.1 (hfeeds.trans hfeeds')

lemma stopsAt_of_offset {text : String} {error : ReadError} {offset : Nat}
    (h : Value.read text = .error error) (hoffset : error.offset? = some offset) :
    ∃ before rest ls last, text.toList = before ++ rest ∧ error = .misplaced (.behind before) ∧
      Cut ls before ∧ ReadState.Feeds (.value []) (ls.map (·.token)) last ∧ last.WrongAt rest := by
  unfold Value.read at h
  split at h
  · next rest hread =>
    obtain ⟨before, ls, last, htext, hstops⟩ := ReadState.stopsAt_of_read hread
    cases h
    rw [htext, Place.ofRest_append]
    exact ⟨before, rest, ls, last, rfl, rfl, hstops⟩
  · split at h
    · cases h
    · cases h
      cases hoffset

/-- **Error places are sound**: where a text is refused with an offset, the message names the line
and the column of that offset, what stands before it is the beginning of a text that is refused at
no place, and it has been read up to a state that cannot go on with what stands behind it. -/
theorem read_error_place (text : String) (error : ReadError) (offset : Nat)
    (h : Value.read text = .error error) (hoffset : error.offset? = some offset) :
    offset ≤ text.toList.length ∧
    (∃ line, LastLine (text.toList.take offset) line ∧
      error.message = "Invalid sexp at " ++ toString (1 + (text.toList.take offset).count '\n') ++
        ":" ++ toString (1 + line.length)) ∧
    (∃ ending, ∀ error', Value.read (String.ofList (text.toList.take offset ++ ending)) =
      .error error' → error'.offset? = none) ∧
    ∃ lexemes last, Cut lexemes (text.toList.take offset) ∧
      ReadState.Feeds (.value []) (lexemes.map (·.token)) last ∧
      last.WrongAt (text.toList.drop offset) := by
  obtain ⟨before, rest, lexemes, last, htext, rfl, hcut, hfeeds, hwrong⟩ :=
    stopsAt_of_offset h hoffset
  obtain rfl : before.length = offset := by
    simpa [ReadError.offset?, Place.behind] using hoffset
  obtain ⟨line, hline, hcolumn⟩ := Place.lastLine_behind before
  have hbefore : text.toList.take before.length = before := by rw [htext, List.take_left]
  have hrest : text.toList.drop before.length = rest := by rw [htext, List.drop_left]
  have hmessage : (ReadError.misplaced (.behind before)).message = "Invalid sexp at " ++
      toString (1 + before.count '\n') ++ ":" ++ toString (1 + line.length) := by
    rw [← hcolumn, Nat.add_comm]
    rfl
  rw [hbefore, hrest]
  exact ⟨by simp [htext], ⟨line, hline, hmessage⟩, exists_ending hcut hfeeds, lexemes, last, hcut,
    hfeeds, hwrong⟩

/-- A text with line feeds in a quoted text and between its tokens, and with a comma missing. -/
theorem read_error_place_comma :
    let text := "s(:a,\n \"b\nc\" nil)"
    let error := ReadError.misplaced ⟨13, 3, 4⟩
    Value.read text = .error error ∧ error.offset? = some 13 ∧
    13 ≤ text.toList.length ∧
    (∃ line, LastLine (text.toList.take 13) line ∧
      error.message = "Invalid sexp at " ++ toString (1 + (text.toList.take 13).count '\n') ++
        ":" ++ toString (1 + line.length)) ∧
    (∃ ending, ∀ error', Value.read (String.ofList (text.toList.take 13 ++ ending)) =
      .error error' → error'.offset? = none) ∧
    ∃ lexemes last, Cut lexemes (text.toList.take 13) ∧
      ReadState.Feeds (.value []) (lexemes.map (·.token)) last ∧
      last.WrongAt (text.toList.drop 13) := by
  intro text error
  have h : Value.read text = .error error := by cbv
  exact ⟨h, rfl, read_error_place text error 13 h rfl⟩

end Value

end RubySexp
