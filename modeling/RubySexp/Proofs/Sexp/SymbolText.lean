import RubySexp.Proofs.Sexp.Derivation
import RubySexp.Proofs.Sexp.ReadBack

/-!
# Which Symbols Are Read Back

The printer decides by Ruby's rules for names whether a symbol needs quotes, the reader ends a
symbol without quotes at the first white space, bracket, comma or quote. The two do not agree on
every name: `:$,` and `:$"` are printed without quotes and broken off by the reader, and so is a
name with white space from outside ASCII in it. All other names are read back.

A name that is broken off cannot be made good by what follows: the reader never takes back an item
that it has read, so the expression it ends with has the shorter name in it.
-/

namespace RubySexp

/-! ### Items that have been read -/

lemma Derives.value_of_atom {term : Term} {us vs ws : List Token} {a : Atom}
    (h : Derives (.value term) us) (htokens : us ++ ws = .atom a :: vs) :
    term = .atom a ∧ ws = vs := by
  cases h with
  | atom b =>
    cases htokens
    exact ⟨rfl, rfl⟩
  | sexp => cases htokens

lemma Derives.items_of_atom {items : List Term} {us vs ws : List Token} {a : Atom}
    (h : Derives (.items items) us) (htokens : us ++ .close :: ws = .atom a :: vs) :
    ∃ others, items = .atom a :: others ∧ ∀ vs', vs = .comma :: vs' →
      ∃ us', Derives (.items others) us' ∧ us' ++ .close :: ws = vs' := by
  cases h with
  | noItems => cases htokens
  | lastItem hterm =>
    obtain ⟨rfl, rfl⟩ := hterm.value_of_atom htokens
    refine ⟨[], rfl, fun vs' hvs => ?_⟩
    cases hvs
  | @item term others us us' hterm hothers =>
    rw [List.append_assoc, List.cons_append] at htokens
    obtain ⟨rfl, rfl⟩ := hterm.value_of_atom htokens
    refine ⟨others, rfl, fun vs' hvs => ⟨us', hothers, ?_⟩⟩
    cases hvs
    rfl

lemma Derives.sexp_of_atoms {term : Term} {a b : Atom} {vs : List Token}
    (h : Derives (.value term) (.openSexp :: .atom a :: .comma :: .atom b :: vs)) :
    ∃ items marks, term = .sexp (.atom a :: .atom b :: items) marks := by
  generalize htokens : Token.openSexp :: .atom a :: .comma :: .atom b :: vs = tokens at h
  cases h with
  | atom => cases htokens
  | sexp hitems _ =>
    obtain ⟨others, rfl, hothers⟩ := hitems.items_of_atom (List.cons.inj htokens).2.symm
    obtain ⟨us, hus, htokens⟩ := hothers _ rfl
    obtain ⟨items, rfl, -⟩ := hus.items_of_atom htokens
    exact ⟨items, _, rfl⟩

namespace ReadState

open Reads

lemma reads_tag (tag : Tag) (cs : List Char) :
    Reads (.value []) ('s' :: '(' :: ':' :: (tag.name.toList ++ ',' :: ' ' :: cs))
      (.value [[.atom (.symbol tag.name.toList)]]) cs := by
  obtain ⟨-, hne, hchars⟩ := tag.spelled
  have hends : Ends (',' :: ' ' :: cs) := .inr ⟨_, .inl rfl⟩
  have htag := Atom.scan?_symbol hne hchars hends
  have hblank : isGap ' ' = true := by decide
  exact (((reads_open _).trans (reads_atom htag)).trans (reads_comma _)).trans
    (.gap hblank (.refl _ _))

lemma term_of_readFrom {tag : List Char} {a : Atom} {latest rest : List Char} {term : Term}
    (h : readFrom (.behind [[.atom (.symbol tag)]] (.atom a)) latest rest = .ok term) :
    ∃ items marks, term = .sexp (.atom (.symbol tag) :: .atom a :: items) marks := by
  obtain ⟨lexemes, -, hfeeds⟩ := cut_of_run h
  have hall : Feeds (.value [])
      (.openSexp :: .atom (.symbol tag) :: .comma :: .atom a :: lexemes.map (·.token))
      (.behind [] term) :=
    .cons (.openSexp _) <| .cons (.atom _ _) <| .cons (.comma _ _ _) <| .cons (.atom _ _) hfeeds
  exact (feeds_iff_derives.mp hall).sexp_of_atoms

lemma step?_colon (outer : List (List Term)) (cs : List Char) :
    step? (.value outer) (':' :: cs) =
      (Atom.scan? (':' :: cs)).map fun (a, rest) => (.behind outer (.atom a), rest) := by
  have htoken : valueToken? (!outer.isEmpty) (':' :: cs) =
      (Atom.scan? (':' :: cs)).map fun (a, rest) => (.atom a, rest) := rfl
  rcases hscan : Atom.scan? (':' :: cs) with _ | ⟨a, rest⟩ <;>
    simp [step?, scan?, htoken, hscan, advance?]

end ReadState

lemma Term.exists_kid_of_value {tag : Tag} {a : Atom} {items : List Term}
    {marks : List (LineKey × Int)} {w : Value}
    (h : (Term.sexp (.atom (.symbol tag.name.toList) :: .atom a :: items) marks).value = .ok w) :
    ∃ kid kids line maxLine, a.value = .ok kid ∧ w = .sexp tag (kid :: kids) line maxLine := by
  have hname : Atom.value (.symbol tag.name.toList) = .ok (.sym tag.name) := by simp [Atom.value]
  cases Term.value_eq_ok_iff.mp h with
  | sexp hitems htag =>
    cases hitems with
    | cons hfirst hothers =>
      cases hfirst with
      | atom hfirst =>
        cases hname.symm.trans hfirst
        cases tag.spelled.1.symm.trans htag
        cases hothers with
        | cons hkid _ =>
          cases hkid with
          | atom hkid => exact ⟨_, _, _, _, hkid, rfl⟩

open ReadState in
lemma Value.exists_kid_of_read {text : String} {tag : Tag} {cs : List Char} {w : Value}
    (htext : text.toList = 's' :: '(' :: ':' :: (tag.name.toList ++ ',' :: ' ' :: ':' :: cs))
    (hread : Value.read text = .ok w) :
    ∃ a rest kid kids line maxLine, Atom.scan? (':' :: cs) = some (a, rest) ∧
      a.value = .ok kid ∧ w = .sexp tag (kid :: kids) line maxLine := by
  obtain ⟨term, hterm, hvalue⟩ := Value.exists_term_of_read hread
  have hreads := reads_tag tag (':' :: cs)
  rw [← htext] at hreads
  obtain ⟨latest, hlatest⟩ := hreads text.toList
  have hfrom : readFrom (.value [[.atom (.symbol tag.name.toList)]]) latest (':' :: cs) =
      .ok term := hlatest.symm.trans hterm
  have hstep := step?_colon [[.atom (.symbol tag.name.toList)]] cs
  rcases hscan : Atom.scan? (':' :: cs) with _ | ⟨a, rest⟩
  · rw [hscan] at hstep
    rw [readFrom_stuck (by decide) hstep] at hfrom
    cases hfrom
  rw [hscan] at hstep
  rw [readFrom_step (by decide) hstep] at hfrom
  obtain ⟨items, marks, rfl⟩ := term_of_readFrom hfrom
  obtain ⟨kid, kids, line, maxLine, hkid, rfl⟩ := Term.exists_kid_of_value hvalue
  exact ⟨a, rest, kid, kids, line, maxLine, rfl, hkid, rfl⟩

/-! ### Names that break off -/

/-- A name that is written without quotes although a character in it ends such a symbol. -/
def Symbol.BreaksOff (name : String) : Prop :=
  name = "$," ∨ name = "$\"" ∨
    (Symbol.isPlain name.toList = true ∧ ∃ c ∈ name.toList, isBlank c = true)

lemma Value.readableName_eq_false {cs : List Char} : readableName cs = false ↔
    Symbol.isPlain cs = true ∧ ∃ c ∈ cs, (isBlank c || c == ',' || c == '"') = true := by
  rw [readableName, Bool.or_eq_false_iff, Bool.not_eq_false', List.all_eq_false]
  simp only [Bool.not_eq_true', Bool.not_eq_false]

lemma Symbol.breaksOff_iff {name : String} :
    BreaksOff name ↔ Value.readableName name.toList = false := by
  rw [Value.readableName_eq_false]
  constructor
  · rintro (rfl | rfl | ⟨hplain, c, hc, hblank⟩)
    · exact ⟨by decide, ',', by decide, by decide⟩
    · exact ⟨by decide, '"', by decide, by decide⟩
    · exact ⟨hplain, c, hc, by simp [hblank]⟩
  · rintro ⟨hplain, c, hc, hend⟩
    have hglobal : isDelimiter c = true → name = String.ofList ['$', c] := by
      intro hdelimiter
      rw [← (eq_global_of_plain hplain hc hdelimiter).1, String.ofList_toList]
    simp only [Bool.or_eq_true, beq_iff_eq] at hend
    rcases hend with (hblank | rfl) | rfl
    · exact .inr (.inr ⟨hplain, c, hc, hblank⟩)
    · exact .inl (hglobal (by decide))
    · exact .inr (.inl (hglobal (by decide)))

lemma Atom.scan?_of_breaksOff {name : String} (h : Symbol.BreaksOff name) {a : Atom}
    {cs rest : List Char}
    (hscan : scan? (Value.symbolText (.text name) ++ cs) = some (a, rest)) :
    ∃ start, a = .symbol start ∧ start ≠ name.toList := by
  rw [Symbol.breaksOff_iff, Value.readableName_eq_false] at h
  obtain ⟨hplain, c, hc, hend⟩ := h
  have hsymbol : symbol? (name.toList ++ cs) = some (a, rest) := by
    simpa [Value.symbolText, hplain, scan?] using hscan
  unfold symbol? at hsymbol
  split at hsymbol
  · next _ body heq =>
    -- No plain name starts with a quote, so the name is not taken for a quoted one.
    have hmem : '"' ∈ name.toList := by
      rcases hname : name.toList with _ | ⟨d, ds⟩
      · rw [hname, Symbol.not_plain_nil] at hplain
        cases hplain
      · rw [hname, List.cons_append] at heq
        rw [(List.cons.inj heq).1]
        exact List.mem_cons_self
    have hglobal := (Symbol.eq_global_of_plain hplain hmem (by decide)).1
    rw [hglobal] at heq
    cases heq
  · simp only at hsymbol
    split at hsymbol
    · cases hsymbol
    cases hsymbol
    refine ⟨_, rfl, fun hwhole => ?_⟩
    rw [← hwhole] at hc
    have hchar := List.mem_takeWhile_imp hc
    simp only [Bool.or_eq_true, beq_iff_eq] at hend
    rcases hend with (hblank | rfl) | rfl
    · simp [isSymbolChar, hblank] at hchar
    · cases hchar
    · cases hchar

namespace Value

lemma render_first_kid (tag : Tag) (kid : Value) (kids : List Value) :
    ∃ cs, (sexp tag (kid :: kids) .null .null).render false .ruby =
      's' :: '(' :: ':' :: (tag.name.toList ++ ',' :: ' ' :: (kid.render false .ruby ++ cs)) := by
  refine ⟨((renderItems false .ruby kids).flatMap fun part => ',' :: ' ' :: part) ++ [')'], ?_⟩
  simp [render_sexp, renderItems, lineMark]

/-- **A symbol is read back unless its name breaks off.** Then what is read, if anything, has
another symbol in its place. -/
theorem read_inspect_symbol (tag : Tag) (name : String) {kids : List Value}
    (hkids : ∀ kid ∈ kids, kid.readable = true) :
    ∃ text, (sexp tag (sym name :: kids) .null .null).inspect = .ok text ∧
      (¬ Symbol.BreaksOff name → ∃ w, Value.read text = .ok w ∧
        (sexp tag (sym name :: kids) .null .null).same w = true) ∧
      (Symbol.BreaksOff name → ∀ w, Value.read text = .ok w →
        ∃ other others line maxLine, w = .sexp tag (sym other :: others) line maxLine ∧
          other ≠ name) := by
  have hprint : (sexp tag (sym name :: kids) .null .null).printable .ruby = true := by
    refine printableItems_iff.mpr (List.forall_mem_cons.mpr ⟨rfl, fun kid hkid => ?_⟩)
    exact printable_of_readable (hkids kid hkid)
  refine ⟨_, inspect_eq_ok hprint, fun hname => ?_, fun hname w hw => ?_⟩
  · have hreadable : (sexp tag (sym name :: kids) .null .null).readable = true := by
      rw [Symbol.breaksOff_iff, Bool.not_eq_false] at hname
      simp only [readable, readableKids, hname, readableKids_iff.mpr hkids]
      rfl
    exact ⟨_, read_render false hreadable, same_stated hreadable false⟩
  · obtain ⟨cs, hcs⟩ := render_first_kid tag (sym name) kids
    obtain ⟨a, rest, kid, others, line, maxLine, hscan, hkid, rfl⟩ :=
      exists_kid_of_read ((String.toList_ofList).trans hcs) hw
    obtain ⟨start, rfl, hstart⟩ := Atom.scan?_of_breaksOff hname hscan
    cases hkid
    refine ⟨String.ofList start, others, line, maxLine, rfl, ?_⟩
    rintro rfl
    exact hstart String.toList_ofList.symm

/-- The global `$,` breaks off in front of another kid. -/
theorem read_inspect_comma_global :
    (∀ kid ∈ [Value.int 1], kid.readable = true) ∧ Symbol.BreaksOff "$," ∧
    ∃ text, (sexp .lit [sym "$,", .int 1] .null .null).inspect = .ok text ∧
      ∀ w, Value.read text = .ok w →
        ∃ other others line maxLine, w = .sexp .lit (sym other :: others) line maxLine ∧
          other ≠ "$," := by
  have hkids : ∀ kid ∈ [Value.int 1], kid.readable = true := List.forall_mem_singleton.mpr rfl
  have hname : Symbol.BreaksOff "$," := .inl rfl
  obtain ⟨text, htext, -, hbroken⟩ := read_inspect_symbol .lit "$," hkids
  exact ⟨hkids, hname, text, htext, hbroken hname⟩

-- At the end of an expression the comma passes for one behind the last kid.
example : Value.read "s(:lit, :$,)" = .ok (.sexp .lit [sym "$"] .null .null) := by cbv

end Value

end RubySexp
