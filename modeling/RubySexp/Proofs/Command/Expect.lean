import Mathlib
import RubySexp.Command.Run
import RubySexp.Proofs.Sexp.Matching
import RubySexp.Proofs.Sexp.ReadBack

/-!
# The Command Accepts Its Own Output

What the command prints for a tree can be given back to it as what it is to expect. It is then
satisfied with the same tree, and not satisfied with a tree that converts to something else. Lines
are printed and compared only where they are asked for, and last lines are never printed.
-/

namespace RubySexp

namespace Value

/-! ### Comparison with what was printed -/

variable {v w : Value} {lines : Bool}

lemma sameType_stated_left : (v.stated lines).sameType w = v.sameType w := by
  cases v <;> cases w <;> rfl

lemma same_stated_left : (v.stated lines).same w = v.same w := by
  induction v using sexpInduction generalizing w with
  | atom v hsexp => rw [stated_of_atom hsexp]
  | sexp tag kids line maxLine ih =>
    cases w with
    | sexp tag' kids' line' maxLine' =>
      have hkids : ∀ others, sameKids (statedKids lines kids) others = sameKids kids others := by
        intro others
        induction kids generalizing others with
        | nil => rfl
        | cons kid rest ihRest =>
          cases others with
          | nil => rfl
          | cons other others =>
            simp only [statedKids, sameKids, sameType_stated_left, ih kid (by simp),
              ihRest fun kid hkid => ih kid (by simp [hkid])]
      simp only [stated, same, hkids]
    | _ => rfl

lemma lineFits_stated {line : Json} (h : isLine line = true) :
    lineFits (if lines then line else .null) line = true := by
  cases lines with
  | false => rfl
  | true =>
    unfold isLine at h
    split at h
    · rfl
    · next n => exact same_exact (.int n) (by simp)
    · cases h

lemma accepts_stated (h : v.readable = true) : (v.stated lines).accepts lines v = true := by
  induction v using sexpInduction with
  | atom v hsexp =>
    have htype := sameType_stated h lines
    rw [stated_of_atom hsexp] at htype ⊢
    rw [accepts_of_atom hsexp, htype, same_self_of_atom h hsexp]
    rfl
  | sexp tag kids line maxLine ih =>
    simp only [readable, Bool.and_eq_true, readableKids_iff] at h
    have hkids : acceptsKids lines (statedKids lines kids) kids = true := by
      obtain ⟨-, hreadable⟩ := h
      induction kids with
      | nil => rfl
      | cons kid rest ihRest =>
        rw [List.forall_mem_cons] at hreadable
        simp only [statedKids, acceptsKids, Bool.and_eq_true]
        exact ⟨ih kid (by simp) hreadable.1,
          ihRest (fun kid hkid => ih kid (by simp [hkid])) hreadable.2⟩
    have hline : lineFits (if lines then line else .null) line = true := lineFits_stated h.1
    have hlast : lineFits .null maxLine = true := rfl
    simp only [stated, accepts, hkids, hline, hlast, beq_self_eq_true, Bool.and_self, Bool.or_true]

end Value

namespace Command

/-! ### Arguments -/

/-- The arguments that ask for the conversion of a dump, given as text, and for a comparison if
something is expected. -/
def arguments (source : String) (lines : Bool) (expected : Option String) : List String :=
  source :: "--text" :: ((if lines then ["--lines"] else []) ++
    match expected with
    | some spelling => ["--expect", spelling]
    | none => [])

def optionsOf (source : String) (lines : Bool) (expected : Option String) : Options :=
  { source := source, text := true, lines := lines, expect := expected }

lemma classify_plain {text : String} (h : text.toList.head? ≠ some '-') :
    Argument.classify text = .plain := by
  unfold Argument.classify
  split
  · next heq => exact absurd (by rw [heq]; rfl) h
  · rfl

lemma ne_dashes_of_head {text : String} (h : text.toList.head? ≠ some '-') : text ≠ "--" := by
  rintro rfl
  exact h (by decide)

lemma consume_switch {p : Progress} {argument : String} {name : OptionName} {rest : List String}
    (hname : Argument.classify argument = .option name none) (hdashes : argument ≠ "--")
    (hvalue : name.takesValue = false) (hhelp : name ≠ .help) :
    Progress.consume none p (argument :: rest) = Progress.consume none (p.switch name) rest := by
  conv_lhs => unfold Progress.consume
  simp [hname, hdashes, hvalue, hhelp]

lemma consume_value {p : Progress} {argument value : String} {name : OptionName}
    {rest : List String} (hname : Argument.classify argument = .option name none)
    (hdashes : argument ≠ "--") (htakes : name.takesValue = true)
    (hvalue : value.toList.head? ≠ some '-') :
    Progress.consume none p (argument :: value :: rest) =
      Progress.consume none (p.assign name value) rest := by
  conv_lhs => unfold Progress.consume
  simp only [hname, hdashes, htakes, beq_iff_eq, if_false, if_true]
  rw [Progress.consume, classify_plain hvalue]
  simp [ne_dashes_of_head hvalue]

lemma consume_source {p : Progress} {source next : String} {rest : List String}
    (hsource : source.toList.head? ≠ some '-') (hnext : next ≠ "--") (hnone : p.source = none) :
    Progress.consume none p (source :: next :: rest) =
      Progress.consume none { p with source := some source } (next :: rest) := by
  conv_lhs => unfold Progress.consume
  simp only [beq_iff_eq, ne_dashes_of_head hsource, if_false, classify_plain hsource, hnone]
  split
  · next heq => cases heq
  · next heq => exact absurd (List.cons.inj heq).1 hnext
  · rfl

lemma ambiguity?_arguments {source : String} (lines : Bool) {expected : Option String}
    (hsource : source.toList.head? ≠ some '-')
    (hexpected : ∀ spelling ∈ expected, spelling.toList.head? ≠ some '-') :
    ambiguity? (arguments source lines expected) = none := by
  refine List.findSome?_eq_none_iff.mpr fun argument hargument => ?_
  have hmem : argument ∈ arguments source lines expected :=
    (List.takeWhile_sublist _).subset hargument
  have hclass : Argument.classify argument = .plain ∨
      ∃ name, Argument.classify argument = .option name none := by
    simp only [arguments, List.mem_cons, List.mem_append] at hmem
    rcases hmem with rfl | rfl | hmem | hmem
    · exact .inl (classify_plain hsource)
    · exact .inr ⟨.text, by decide⟩
    · cases lines with
      | false => cases hmem
      | true =>
        obtain rfl := List.mem_singleton.mp hmem
        exact .inr ⟨.lines, by decide⟩
    · cases expected with
      | none => cases hmem
      | some spelling =>
        simp only [List.mem_cons, List.not_mem_nil, or_false] at hmem
        rcases hmem with rfl | rfl
        · exact .inr ⟨.expect, by decide⟩
        · exact .inl (classify_plain (hexpected _ rfl))
  rcases hclass with h | ⟨name, h⟩ <;> rw [h]

lemma read_arguments {source : String} (lines : Bool) {expected : Option String}
    (hsource : source.toList.head? ≠ some '-')
    (hexpected : ∀ spelling ∈ expected, spelling.toList.head? ≠ some '-') :
    Request.read (arguments source lines expected) =
      .ok (.run (optionsOf source lines expected)) := by
  have htext : Argument.classify "--text" = .option .text none := by decide
  have hlines : Argument.classify "--lines" = .option .lines none := by decide
  have hexpect : Argument.classify "--expect" = .option .expect none := by decide
  have hconsume : Progress.consume none {} (arguments source lines expected) =
      .ok { source := some source, options := optionsOf "" lines expected } := by
    unfold arguments
    rw [consume_source hsource (by decide) rfl, consume_switch htext (by decide) rfl (by decide)]
    cases expected with
    | none =>
      cases lines with
      | false => rfl
      | true => exact consume_switch hlines (by decide) rfl (by decide)
    | some spelling =>
      have hspelling := hexpected spelling rfl
      cases lines with
      | false => exact consume_value hexpect (by decide) rfl hspelling
      | true =>
        exact (consume_switch hlines (by decide) rfl (by decide)).trans
          (consume_value hexpect (by decide) rfl hspelling)
  rw [Request.read, ambiguity?_arguments lines hsource hexpected]
  simp only [hconsume]
  rfl

/-! ### Runs -/

/-- A dump that is given as an object and converts to nothing, a symbol or an expression that can
be read back. -/
structure Converts (source : String) (result : Value) : Prop where
  object : source.toList.head? = some '{'
  loads : ∃ tree, (Tree.loadText source).result = .ok tree ∧ tree.convert {} = .ok result
  topLevel : result = .nil ∨ (∃ name, result = .symbol name) ∨ ∃ e : Sexp, result = e.toValue
  readable : result.readable = true

def printed (result : Value) (lines : Bool) : String := String.ofList (result.render lines .ruby)

variable {source : String} {result : Value} {lines : Bool}

lemma Converts.head_printed (h : Converts source result) (lines : Bool) :
    (printed result lines).toList.head? ≠ some '-' := by
  rw [printed, String.toList_ofList]
  obtain rfl | ⟨name, rfl⟩ | ⟨e, rfl⟩ := h.topLevel
  · cases lines <;> decide
  · have hcolon : (Value.symbolText name).head? = some ':' := by
      unfold Value.symbolText
      split <;> rfl
    change (Value.symbolText name).head? ≠ some '-'
    simp [hcolon]
  · rw [Sexp.toValue, Value.render_sexp]
    simp

lemma Converts.exists_run (h : Converts source result) (directory : String)
    (read : String → Except FileProblem String) (lines : Bool) (expected : Option String)
    (hexpected : ∀ spelling ∈ expected, spelling.toList.head? ≠ some '-') :
    ∃ tree : Tree, tree.convert {} = .ok result ∧
      (run directory read (arguments source lines expected)).result =
        (optionsOf source lines expected).printConversion tree := by
  obtain ⟨tree, hload, hconvert⟩ := h.loads
  have hsource : source.toList.head? ≠ some '-' := by simp [h.object]
  refine ⟨tree, hconvert, ?_⟩
  rw [run, read_arguments lines hsource hexpected]
  change ((optionsOf source lines expected).execute source).result = _
  rw [Options.execute]
  simp only [hload]
  rfl

lemma resultText_eq (h : result.readable = true) (expected : Option String) :
    (optionsOf source lines expected).resultText result = .ok (printed result lines) := by
  have hprint := Value.printable_of_readable h
  unfold Options.resultText
  cases lines with
  | false => exact if_pos hprint
  | true => exact if_pos hprint

lemma Converts.run_alone (h : Converts source result) (directory : String)
    (read : String → Except FileProblem String) (lines : Bool) :
    (run directory read (arguments source lines none)).result =
      .ok { exitCode := 0, out := printed result lines ++ "\n" } := by
  obtain ⟨tree, hconvert, hrun⟩ := h.exists_run directory read lines none (by simp)
  rw [hrun, Options.printConversion, show (optionsOf source lines none).scope = {} from rfl,
    hconvert]
  change (optionsOf source lines none).report none result = _
  rw [Options.report, resultText_eq h.readable]
  rfl

/-- **Comparing**: the exit code tells whether the result is the expected one. -/
lemma Converts.run_expecting (h : Converts source result) (directory : String)
    (read : String → Except FileProblem String) (lines : Bool) {spelling : String} {value : Value}
    (hspelling : spelling.toList.head? ≠ some '-') (hread : Value.read spelling = .ok value) :
    ∃ ending, (run directory read (arguments source lines (some spelling))).result = .ok ending ∧
      if (optionsOf source lines (some spelling)).isExpected value result then
        ending = { exitCode := 0, out := printed result lines ++ "\n" }
      else ending.exitCode = 1 := by
  obtain ⟨tree, hconvert, hrun⟩ :=
    h.exists_run directory read lines (some spelling) (by simpa using hspelling)
  have hreport : (run directory read (arguments source lines (some spelling))).result =
      (optionsOf source lines (some spelling)).report (some (spelling, value)) result := by
    have hexpect : (optionsOf source lines (some spelling)).expect = some spelling := rfl
    rw [hrun, Options.printConversion,
      show (optionsOf source lines (some spelling)).scope = {} from rfl, hconvert]
    simp only [hexpect, hread]
  rw [hreport, Options.report, resultText_eq h.readable]
  cases hexpected : (optionsOf source lines (some spelling)).isExpected value result with
  | true => exact ⟨_, if_pos hexpected, rfl⟩
  | false => exact ⟨_, if_neg (by simp [hexpected]), rfl⟩

/-! ### Own output -/

lemma isExpected_stated (h : result.readable = true) (expected : Option String) :
    (optionsOf source lines expected).isExpected (result.stated lines) result = true := by
  cases result with
  | sexp tag kids line maxLine => exact Value.accepts_stated h
  | _ => exact Value.same_self_of_atom h rfl

lemma same_of_isExpected {o : Options} (hlines : o.lines = false) {value : Value}
    (h : o.isExpected value result = true) : value.same result = true := by
  unfold Options.isExpected at h
  split at h
  · rw [hlines, Value.accepts_without_lines, Bool.and_eq_true] at h
    exact h.2
  · exact h

/-- **Own output**: with the text that it printed as what is to be expected, the command is
satisfied with the same dump; with the text that it printed, in whatever way, for a dump that
converts to something else, it is not. -/
theorem run_expecting_own_output (h : Converts source result) (directory : String)
    (read : String → Except FileProblem String) :
    (∀ lines, ∃ text,
      (run directory read (arguments source lines none)).result =
        .ok { exitCode := 0, out := text ++ "\n" } ∧
      (run directory read (arguments source lines (some text))).result =
        .ok { exitCode := 0, out := text ++ "\n" }) ∧
    ∀ source' result', Converts source' result' → result'.same result = false →
      ∀ lines text, (run directory read (arguments source' lines none)).result =
          .ok { exitCode := 0, out := text ++ "\n" } →
        ∃ ending, (run directory read (arguments source false (some text))).result = .ok ending ∧
          ending.exitCode = 1 := by
  constructor
  · intro lines
    obtain ⟨ending, hrun, hending⟩ := h.run_expecting directory read lines (h.head_printed lines)
      (Value.read_render lines h.readable)
    rw [if_pos (isExpected_stated h.readable _)] at hending
    exact ⟨printed result lines, h.run_alone directory read lines, hending ▸ hrun⟩
  · intro source' result' h' hsame lines text hprinted
    have htext : text = printed result' lines := by
      rw [h'.run_alone directory read lines] at hprinted
      have hout := congrArg Ending.out (Except.ok.inj hprinted)
      exact (String.append_left_inj "\n").mp hout.symm
    subst htext
    obtain ⟨ending, hrun, hending⟩ := h.run_expecting directory read false (h'.head_printed lines)
      (Value.read_render lines h'.readable)
    have hother : ¬ (optionsOf source false (some (printed result' lines))).isExpected
        (result'.stated lines) result = true := by
      intro hexpected
      have hequal := same_of_isExpected rfl hexpected
      rw [Value.same_stated_left, hsame] at hequal
      cases hequal
    rw [if_neg hother] at hending
    exact ⟨ending, hrun, hending⟩

/-- The text for a call on two lines of a method with a quoted name is accepted for its dump, and
the text for `self` is not. -/
theorem run_expecting_own_call :
    let source := "\x7b\"type\":\"CallNode\",\"location\":[2,0,3,1],\"name\":\"a b\"\x7d"
    let source' := "\x7b\"type\":\"SelfNode\"\x7d"
    let self : Value := .sexp .selfRef [] (.int 1) (.int 1)
    let result : Value := .sexp .call [.nil, .sym "a b"] (.int 2) (.int 3)
    let run (arguments : List String) := (run "/" (fun _ => .error .missing) arguments).result
    Converts source result ∧ Converts source' self ∧ self.same result = false ∧
      (∃ text, run [source, "--text", "--lines"] = .ok { exitCode := 0, out := text ++ "\n" } ∧
        run [source, "--text", "--lines", "--expect", text] =
          .ok { exitCode := 0, out := text ++ "\n" }) ∧
      ∃ ending, run [source, "--text", "--expect", "s(:self).line(1)"] = .ok ending ∧
        ending.exitCode = 1 := by
  intro source source' self result run
  let node : Tree := .node .selfNode (some {}) []
  let call : Tree := .node .callNode (some ⟨.int 2, .int 0, .int 3, .int 1⟩)
    [(.receiver, .null), (.name, .text "a b"), (.arguments, .null), (.block, .null),
      (.safeNavigation, .bool false), (.variableCall, .bool false)]
  let text (s : String) : Json := .scalar (.text s)
  have hcall : (Tree.loadText source).result = .ok call := by
    have hread : Json.read source = .ok (.object [("type", text "CallNode"),
        ("location", .array [.int 2, .int 0, .int 3, .int 1]), ("name", text "a b")]) := by cbv
    rw [Tree.loadText, hread]
    rfl
  have hnode : (Tree.loadText source').result = .ok node := by
    have hread : Json.read source' = .ok (.object [("type", text "SelfNode")]) := by cbv
    rw [Tree.loadText, hread]
    rfl
  have h : Converts source result :=
    ⟨by decide, ⟨call, hcall, rfl⟩, .inr (.inr ⟨⟨.call, _, _, _⟩, rfl⟩), by decide⟩
  have h' : Converts source' self :=
    ⟨by decide, ⟨node, hnode, rfl⟩, .inr (.inr ⟨⟨.selfRef, _, _, _⟩, rfl⟩), by decide⟩
  have hprinted : (RubySexp.Command.run "/" (fun _ => .error .missing)
      (arguments source' true none)).result =
        .ok { exitCode := 0, out := "s(:self).line(1)" ++ "\n" } := h'.run_alone _ _ true
  obtain ⟨haccepted, hrejected⟩ := run_expecting_own_output h "/" fun _ => .error .missing
  exact ⟨h, h', by decide, haccepted true,
    hrejected source' self h' (by decide) true "s(:self).line(1)" hprinted⟩

end Command

end RubySexp
