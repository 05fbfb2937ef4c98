import Mathlib.Tactic
import RubySexp.Sexp.Reader

/-!
# The Reader Makes Progress

Every scanner takes at least one character from the front of the text and hands back what stands
behind it. So the bound on the number of tokens that the reader is given, the length of the text,
never ends it early, and the reader can be described without it: `readFrom` takes one token after
the other, and `Reads` says that it comes from one state and text to another.
-/

namespace RubySexp

/-- `rest` is what is left of a text after one or more characters have been taken. -/
def Leaves (cs rest : List Char) : Prop := ∃ c t, cs = c :: t ∧ rest <:+ t

namespace Leaves

lemma cons (c : Char) (t : List Char) : Leaves (c :: t) t := ⟨c, t, rfl, List.suffix_refl t⟩

lemma of_suffix {c : Char} {t rest : List Char} (h : rest <:+ t) : Leaves (c :: t) rest :=
  ⟨c, t, rfl, h⟩

lemma suffix {cs rest : List Char} (h : Leaves cs rest) : rest <:+ cs := by
  obtain ⟨c, t, rfl, h⟩ := h
  exact h.trans (List.suffix_cons c t)

lemma length_lt {cs rest : List Char} (h : Leaves cs rest) : rest.length < cs.length := by
  obtain ⟨c, t, rfl, h⟩ := h
  have := h.length_le
  simp only [List.length_cons]
  omega

lemma trans_suffix {cs mid rest : List Char} (h : Leaves cs mid) (h' : rest <:+ mid) :
    Leaves cs rest := by
  obtain ⟨c, t, rfl, h⟩ := h
  exact ⟨c, t, rfl, h'.trans h⟩

lemma suffix_trans {cs mid rest : List Char} (h : mid <:+ cs) (h' : Leaves mid rest) :
    Leaves cs rest := by
  obtain ⟨c, t, rfl, h'⟩ := h'
  obtain ⟨front, rfl⟩ := h
  rcases front with _ | ⟨d, front⟩
  · exact ⟨c, t, rfl, h'⟩
  · exact ⟨d, front ++ c :: t, rfl,
      (h'.trans (List.suffix_cons c t)).trans (List.suffix_append front (c :: t))⟩

lemma trans {cs mid rest : List Char} (h : Leaves cs mid) (h' : Leaves mid rest) :
    Leaves cs rest := h.trans_suffix h'.suffix

end Leaves

namespace Atom

/-! ### Numbers -/

lemma leaves_of_takeWhile {p : Char → Bool} {cs : List Char} (h : cs.takeWhile p ≠ []) :
    Leaves cs (cs.dropWhile p) := by
  rcases cs with _ | ⟨c, t⟩
  · simp at h
  · by_cases hc : p c = true
    · rw [List.dropWhile_cons_of_pos hc]
      exact .of_suffix (List.dropWhile_suffix p)
    · simp [hc] at h

variable {cs rest : List Char}

lemma digits?_leaves {ds : List Char} (h : digits? cs = some (ds, rest)) : Leaves cs rest := by
  simp only [digits?] at h
  split at h
  · cases h
  · next hne =>
    cases h
    exact leaves_of_takeWhile (by simpa using hne)

lemma minus_suffix (cs : List Char) : (minus cs).2 <:+ cs := by
  unfold minus
  split
  · exact List.suffix_cons _ _
  · exact List.suffix_refl _

lemma sign?_leaves {b : Bool} (h : sign? cs = some (b, rest)) : Leaves cs rest := by
  unfold sign? at h
  split at h
  · cases h
    exact .cons _ _
  · cases h
    exact .cons _ _
  · cases h

lemma exactly?_leaves {c : Char} (h : exactly? c cs = some rest) : Leaves cs rest := by
  unfold exactly? at h
  split at h
  · split at h
    · cases h
      exact .cons _ _
    · cases h
  · cases h

lemma integer?_leaves {n : Int} (h : integer? cs = some (n, rest)) : Leaves cs rest := by
  simp only [integer?, Option.bind_eq_bind, Option.bind_eq_some_iff] at h
  obtain ⟨⟨ds, mid⟩, hd, h⟩ := h
  cases h
  exact .suffix_trans (minus_suffix cs) (digits?_leaves hd)

lemma fraction?_leaves {ds : List Char} (h : fraction? cs = some (ds, rest)) : Leaves cs rest := by
  unfold fraction? at h
  split at h
  · obtain ⟨⟨run, mid⟩, hd, heq⟩ := Option.map_eq_some_iff.mp h
    cases heq
    exact (Leaves.cons _ _).trans (digits?_leaves hd)
  · cases h

lemma exponent?_leaves {ds : List Char} (h : exponent? cs = some (ds, rest)) : Leaves cs rest := by
  unfold exponent? at h
  split at h
  · obtain ⟨⟨run, mid⟩, hd, heq⟩ := Option.map_eq_some_iff.mp h
    cases heq
    exact ((Leaves.cons _ _).trans (.cons _ _)).trans (digits?_leaves hd)
  · obtain ⟨⟨run, mid⟩, hd, heq⟩ := Option.map_eq_some_iff.mp h
    cases heq
    exact ((Leaves.cons _ _).trans (.cons _ _)).trans (digits?_leaves hd)
  · obtain ⟨⟨run, mid⟩, hd, heq⟩ := Option.map_eq_some_iff.mp h
    cases heq
    exact (Leaves.cons _ _).trans (digits?_leaves hd)
  · cases h

lemma optional_suffix {part : List Char → Option (List Char × List Char)}
    (hpart : ∀ {cs ds rest}, part cs = some (ds, rest) → Leaves cs rest) (cs : List Char) :
    (optional part cs).2 <:+ cs := by
  unfold optional
  rcases h : part cs with _ | ⟨ds, rest⟩
  · exact List.suffix_refl _
  · exact (hpart h).suffix

lemma rangeEnd?_leaves {b : Bool} {n : Int} (h : rangeEnd? cs = some (b, n, rest)) :
    Leaves cs rest := by
  unfold rangeEnd? at h
  split at h
  · obtain ⟨⟨m, mid⟩, hd, heq⟩ := Option.map_eq_some_iff.mp h
    cases heq
    exact (((Leaves.cons _ _).trans (.cons _ _)).trans (.cons _ _)).trans (integer?_leaves hd)
  · obtain ⟨⟨m, mid⟩, hd, heq⟩ := Option.map_eq_some_iff.mp h
    cases heq
    exact ((Leaves.cons _ _).trans (.cons _ _)).trans (integer?_leaves hd)
  · cases h

lemma number?_leaves {a : Atom} (h : number? cs = some (a, rest)) : Leaves cs rest := by
  simp only [number?, Option.bind_eq_bind, Option.bind_eq_some_iff] at h
  obtain ⟨⟨ds, mid⟩, hd, h⟩ := h
  have hmid : Leaves cs mid := .suffix_trans (minus_suffix cs) (digits?_leaves hd)
  dsimp only at h
  split at h
  · next hrange =>
    cases h
    exact hmid.trans (rangeEnd?_leaves hrange)
  · next hfraction =>
    cases h
    exact (hmid.trans (fraction?_leaves hfraction)).trans_suffix
      (optional_suffix exponent?_leaves _)
  · cases h
    exact hmid

lemma imaginary?_leaves {negative : Bool} {im : ImaginarySpelling}
    (h : imaginary? negative cs = some (im, rest)) : Leaves cs rest := by
  unfold imaginary? at h
  split at h
  · next cs =>
    simp only [Option.bind_eq_bind, Option.bind_eq_some_iff] at h
    obtain ⟨⟨num, r₁⟩, h₁, r₂, h₂, ⟨den, r₃⟩, h₃, r₄, h₄, r₅, h₅, h⟩ := h
    cases h
    exact (((((Leaves.cons _ _).trans (digits?_leaves h₁)).trans (exactly?_leaves h₂)).trans
      (digits?_leaves h₃)).trans (exactly?_leaves h₄)).trans (exactly?_leaves h₅)
  · simp only [Option.bind_eq_bind, Option.bind_eq_some_iff, Option.guard_eq_some'] at h
    obtain ⟨-, hne, h⟩ := h
    cases h
    exact (leaves_of_takeWhile (by simpa using hne)).trans_suffix
      (optional_suffix exponent?_leaves _)

lemma bracketed?_leaves {a : Atom} (h : bracketed? cs = some (a, rest)) : Leaves cs rest := by
  simp only [bracketed?, Option.bind_eq_bind, Option.bind_eq_some_iff] at h
  obtain ⟨⟨ds, mid⟩, hd, h⟩ := h
  have hmid : Leaves cs mid := .suffix_trans (minus_suffix cs) (digits?_leaves hd)
  dsimp only at h
  split at h
  · simp only [Option.bind_eq_some_iff] at h
    obtain ⟨⟨den, r₁⟩, h₁, r₂, h₂, h⟩ := h
    cases h
    exact ((hmid.trans (.cons _ _)).trans (digits?_leaves h₁)).trans (exactly?_leaves h₂)
  · simp only [Option.bind_eq_some_iff] at h
    obtain ⟨⟨subtracted, r₁⟩, h₁, ⟨im, r₂⟩, h₂, r₃, h₃, r₄, h₄, h⟩ := h
    cases h
    have hsign : Leaves cs r₁ := by
      refine hmid.trans (.suffix_trans ?_ (sign?_leaves h₁))
      exact (optional_suffix exponent?_leaves _).trans (optional_suffix fraction?_leaves _)
    exact ((hsign.trans (imaginary?_leaves h₂)).trans (exactly?_leaves h₃)).trans
      (exactly?_leaves h₄)

/-! ### Delimited texts and words -/

lemma delimited?_leaves {close : Char} {body : List Char}
    (h : delimited? close cs = some (body, rest)) : Leaves cs rest := by
  fun_induction delimited? close cs generalizing body rest with
  | case1 => cases h
  | case2 c cs ih =>
    obtain ⟨⟨b, mid⟩, hd, heq⟩ := Option.map_eq_some_iff.mp h
    cases heq
    exact ((Leaves.cons _ _).trans (.cons _ _)).trans (ih hd)
  | case3 c cs _ hclose =>
    cases h
    exact .cons _ _
  | case4 => cases h
  | case5 c cs _ _ _ ih =>
    obtain ⟨⟨b, mid⟩, hd, heq⟩ := Option.map_eq_some_iff.mp h
    cases heq
    exact (Leaves.cons _ _).trans (ih hd)

lemma symbol?_leaves {a : Atom} (h : symbol? cs = some (a, rest)) : Leaves cs rest := by
  unfold symbol? at h
  split at h
  · obtain ⟨⟨b, mid⟩, hd, heq⟩ := Option.map_eq_some_iff.mp h
    cases heq
    exact (Leaves.cons _ _).trans (delimited?_leaves hd)
  · dsimp only at h
    split at h
    · cases h
    · next hne =>
      cases h
      exact leaves_of_takeWhile (by simpa using hne)

lemma scan?_leaves {a : Atom} (h : scan? cs = some (a, rest)) : Leaves cs rest := by
  unfold scan? at h
  split at h
  · exact (Leaves.cons _ _).trans (symbol?_leaves h)
  · obtain ⟨⟨b, mid⟩, hd, heq⟩ := Option.map_eq_some_iff.mp h
    cases heq
    exact (Leaves.cons _ _).trans (delimited?_leaves hd)
  · obtain ⟨⟨b, mid⟩, hd, heq⟩ := Option.map_eq_some_iff.mp h
    cases heq
    exact ((Leaves.cons _ _).trans (delimited?_leaves hd)).trans_suffix
      (List.dropWhile_suffix isFlag)
  · exact (Leaves.cons _ _).trans (bracketed?_leaves h)
  · cases h
    exact ⟨_, _, rfl, [_, _], rfl⟩
  · cases h
    exact ⟨_, _, rfl, [_, _, _], rfl⟩
  · cases h
    exact ⟨_, _, rfl, [_, _, _, _], rfl⟩
  · exact number?_leaves h

end Atom

namespace ReadState

variable {cs rest : List Char} {token : Token}

/-! ### Tokens -/

lemma bracket?_leaves {c : Char} {t : Token} (h : bracket? c t cs = some (token, rest)) :
    Leaves cs rest := by
  unfold bracket? at h
  split at h
  · split at h
    · cases h
      exact .cons _ _
    · cases h
  · cases h

lemma valueToken?_leaves {inside : Bool} (h : valueToken? inside cs = some (token, rest)) :
    Leaves cs rest := by
  unfold valueToken? at h
  split at h
  · cases h
    exact (Leaves.cons _ _).trans (.cons _ _)
  · split at h
    · cases h
      exact .cons _ _
    · cases h
  · obtain ⟨⟨a, mid⟩, hscan, heq⟩ := Option.map_eq_some_iff.mp h
    cases heq
    exact Atom.scan?_leaves hscan

lemma tokenBehind?_leaves {inside : Bool} {last : Term}
    (h : tokenBehind? inside last cs = some (token, rest)) : Leaves cs rest := by
  unfold tokenBehind? at h
  split at h
  · split at h
    · cases h
      exact .cons _ _
    · cases h
  · split at h
    · cases h
      exact .cons _ _
    · cases h
  · split at h
    · cases h
      exact .cons _ _
    · cases h
  · cases h

lemma markToken?_leaves {part : MarkPart} (h : markToken? part cs = some (token, rest)) :
    Leaves cs rest := by
  unfold markToken? at h
  split at h
  · split at h
    · cases h
      exact ⟨_, _, rfl, [_, _, _], rfl⟩
    · cases h
      exact ⟨_, _, rfl, [_, _, _, _, _, _, _], rfl⟩
    · cases h
  · exact bracket?_leaves h
  · obtain ⟨⟨n, mid⟩, hscan, heq⟩ := Option.map_eq_some_iff.mp h
    cases heq
    exact Atom.integer?_leaves hscan
  · exact bracket?_leaves h

lemma scan?_leaves {state : ReadState} (h : state.scan? cs = some (token, rest)) :
    Leaves cs rest := by
  unfold scan? at h
  split at h
  · exact valueToken?_leaves h
  · exact tokenBehind?_leaves h
  · exact markToken?_leaves h

lemma step?_leaves {state next : ReadState} (h : state.step? cs = some (next, rest)) :
    Leaves cs rest := by
  simp only [step?, Option.bind_eq_bind, Option.bind_eq_some_iff] at h
  obtain ⟨⟨token, mid⟩, hscan, state', -, heq⟩ := h
  cases heq
  exact scan?_leaves hscan

/-! ### Reading without a bound -/

lemma run_of_end {cs : List Char} (h : cs.dropWhile isGap = []) (fuel : Nat) (state : ReadState)
    (latest : List Char) :
    run fuel state latest cs = state.finished?.elim (.error latest) .ok := by
  rw [run.eq_def, h]
  cases fuel <;> cases state.finished? <;> rfl

lemma run_of_token {cs t : List Char} {c : Char} (h : cs.dropWhile isGap = c :: t) (fuel : Nat)
    (state : ReadState) (latest : List Char) :
    run (fuel + 1) state latest cs = (state.step? (c :: t)).elim (.error (c :: t))
      fun (next, after) => run fuel next (c :: t) after := by
  rw [run.eq_def, h]
  cases hstep : state.step? (c :: t) <;> simp [hstep]

/-- The bound on the number of tokens does not matter once it covers the text. -/
lemma run_eq (fuel fuel' : Nat) (state : ReadState) (latest cs : List Char)
    (h : cs.length ≤ fuel) (h' : cs.length ≤ fuel') :
    run fuel state latest cs = run fuel' state latest cs := by
  induction fuel generalizing fuel' state latest cs with
  | zero =>
    have hcs : cs = [] := List.length_eq_zero_iff.mp (by omega)
    subst hcs
    rw [run_of_end rfl, run_of_end rfl]
  | succ fuel ih =>
    have hgap := (List.dropWhile_suffix isGap (l := cs)).length_le
    rcases hrest : cs.dropWhile isGap with _ | ⟨c, t⟩
    · rw [run_of_end hrest, run_of_end hrest]
    · rw [hrest, List.length_cons] at hgap
      rcases fuel' with _ | fuel'
      · omega
      rw [run_of_token hrest, run_of_token hrest]
      rcases hstep : state.step? (c :: t) with _ | ⟨next, after⟩
      · rfl
      · have hlt := (step?_leaves hstep).length_lt
        rw [List.length_cons] at hlt
        exact ih fuel' next (c :: t) after (by omega) (by omega)

def readFrom (state : ReadState) (latest cs : List Char) : Except (List Char) Term :=
  run cs.length state latest cs

lemma readFrom_nil (state : ReadState) (latest : List Char) :
    readFrom state latest [] = state.finished?.elim (.error latest) .ok :=
  run_of_end rfl _ _ _

lemma readFrom_gap {c : Char} (h : isGap c = true) (state : ReadState) (latest cs : List Char) :
    readFrom state latest (c :: cs) = readFrom state latest cs := by
  have hdrop : (c :: cs).dropWhile isGap = cs.dropWhile isGap := List.dropWhile_cons_of_pos h
  unfold readFrom
  rw [run_eq cs.length (cs.length + 1) state latest cs (le_refl _) (by omega), List.length_cons]
  rcases hrest : cs.dropWhile isGap with _ | ⟨d, t⟩
  · rw [run_of_end (hdrop.trans hrest), run_of_end hrest]
  · rw [run_of_token (hdrop.trans hrest), run_of_token hrest]

lemma readFrom_step {state next : ReadState} {c : Char} {t after : List Char}
    (hgap : isGap c = false) (hstep : state.step? (c :: t) = some (next, after))
    (latest : List Char) :
    readFrom state latest (c :: t) = readFrom next (c :: t) after := by
  have hlt := (step?_leaves hstep).length_lt
  simp only [List.length_cons] at hlt
  have hdrop : (c :: t).dropWhile isGap = c :: t := List.dropWhile_cons_of_neg (by simp [hgap])
  unfold readFrom
  rw [List.length_cons, run_of_token hdrop, hstep]
  exact run_eq _ _ _ _ _ (by omega) (le_refl _)

lemma readFrom_stuck {state : ReadState} {c : Char} {t : List Char} (hgap : isGap c = false)
    (hstep : state.step? (c :: t) = none) (latest : List Char) :
    readFrom state latest (c :: t) = .error (c :: t) := by
  have hdrop : (c :: t).dropWhile isGap = c :: t := List.dropWhile_cons_of_neg (by simp [hgap])
  rw [readFrom, List.length_cons, run_of_token hdrop, hstep]
  rfl

/-- The reader comes from one state and text to another. -/
def Reads (state : ReadState) (cs : List Char) (state' : ReadState) (cs' : List Char) : Prop :=
  ∀ latest, ∃ latest', readFrom state latest cs = readFrom state' latest' cs'

namespace Reads

variable {s s' s'' : ReadState} {cs cs' cs'' : List Char}

lemma refl (s : ReadState) (cs : List Char) : Reads s cs s cs := fun latest => ⟨latest, rfl⟩

lemma trans (h : Reads s cs s' cs') (h' : Reads s' cs' s'' cs'') : Reads s cs s'' cs'' := by
  intro latest
  obtain ⟨mid, h⟩ := h latest
  obtain ⟨last, h'⟩ := h' mid
  exact ⟨last, h.trans h'⟩

lemma gap {c : Char} (hc : isGap c = true) (h : Reads s cs s' cs') : Reads s (c :: cs) s' cs' := by
  intro latest
  obtain ⟨last, h⟩ := h latest
  exact ⟨last, (readFrom_gap hc s latest cs).trans h⟩

lemma step {c : Char} {t : List Char} (hgap : isGap c = false)
    (hstep : s.step? (c :: t) = some (s', cs')) : Reads s (c :: t) s' cs' :=
  fun latest => ⟨c :: t, readFrom_step hgap hstep latest⟩

lemma read_eq {term : Term} (h : Reads (.value []) cs (.behind [] term) []) :
    Term.read cs = .ok term := by
  obtain ⟨last, h⟩ := h cs
  rw [readFrom_nil] at h
  exact h

end Reads

end ReadState

end RubySexp
