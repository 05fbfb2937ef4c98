import RubySexp.Proofs.Convert.Below

/-!
# Outcomes That Look Alike

Two values look alike if they become equal when some difference between them is blurred: between
tags, between texts, between the names of symbols. Two outcomes look alike if both are values that
do, or both are the same fault. One fault shows an expression in its message; there the expressions
look alike.
-/

namespace RubySexp

/-- The tags that a rule asks for in a converted part. -/
def watchedTags : List Tag := [.str, .dstr, .dregx, .lit, .splat, .block]

structure Blur where
  tag : Tag → Tag
  text : String → String
  name : String → String
  watched : ∀ {a b}, tag a = tag b → a ∈ watchedTags → b = a
  name_of_tag : ∀ {a b : Tag}, tag a = tag b → name a.name = name b.name
  name_of_text : ∀ {a b}, text a = text b → name a = name b
  text_append : ∀ {a a' b b'}, text a = text a' → text b = text b' →
    text (a ++ b) = text (a' ++ b')
  empty_of_text : ∀ {a b}, text a = text b → a = "" → b = ""

def Scalar.blur (φ : Blur) : Scalar → Scalar
  | .text s => .text (φ.text s)
  | s => s

def Tree.mapText (f : String → String) : Tree → Tree
  | .text s => .text (f s)
  | tree => tree

namespace Value

variable (φ : Blur)

mutual

/-- A value in which some differences can no longer be seen. -/
@[simp] def blur : Value → Value
  | .scalar s => .scalar (s.blur φ)
  | .rational q => .rational q
  | .symbol name => .symbol (name.mapText φ.name)
  | .range first last excludeEnd => .range (blur first) (blur last) (blur excludeEnd)
  | .regexp source options => .regexp (source.mapText φ.text) options
  | .imaginary re im => .imaginary (blur re) (blur im)
  | .sexp tag kids line maxLine => .sexp (φ.tag tag) (blurAll kids) line maxLine
  | .list items => .list (blurAll items)
  | .tuple items => .tuple (blurAll items)
  | .mapping entries => .mapping entries
  | .span l => .span l
  | .node n => .node n

@[simp] def blurAll : List Value → List Value
  | [] => []
  | v :: vs => blur v :: blurAll vs

end

end Value

namespace Blur

variable {φ : Blur}

def Same (φ : Blur) (v w : Value) : Prop := v.blur φ = w.blur φ

lemma Same.symm {v w : Value} (h : φ.Same v w) : φ.Same w v := Eq.symm h

mutual

lemma printable_blur (style : Style) : ∀ v : Value, (v.blur φ).printable style = v.printable style
  | .scalar _ | .rational _ | .mapping _ | .span _ | .node _ => by
    simp [Value.blur, Value.printable]
  | .symbol name => by
    rw [Value.blur]
    rcases name with s | items | l | ⟨kind, location, fields⟩
    · cases s <;> simp [Tree.mapText, Value.printable]
    all_goals simp [Tree.mapText]
  | .regexp source options => by
    rw [Value.blur]
    rcases source with s | items | l | ⟨kind, location, fields⟩
    · cases s <;> simp [Tree.mapText, Value.printable]
    all_goals simp [Tree.mapText]
  | .range first last excludeEnd => by
    rw [Value.blur, Value.printable, Value.printable, printable_blur .spelled first,
      printable_blur .spelled last]
  | .imaginary re im => by
    rw [Value.blur, Value.printable, Value.printable, printable_blur .ruby re]
    congr 1
    cases im with
    | scalar s => cases s <;> rfl
    | _ => simp [Value.blur, Value.imaginaryPart?]
  | .sexp tag kids line maxLine => by
    rw [Value.blur, Value.printable, Value.printable, printableItems_blur .ruby kids]
  | .list items => by
    rw [Value.blur, Value.printable, Value.printable, printableItems_blur .data items]
  | .tuple items => by
    rw [Value.blur, Value.printable, Value.printable, printableItems_blur .data items]

lemma printableItems_blur (style : Style) : ∀ vs : List Value,
    Value.printableItems style (Value.blurAll φ vs) = Value.printableItems style vs
  | [] => rfl
  | v :: vs => by
    rw [Value.blurAll, Value.printableItems, Value.printableItems, printable_blur style v,
      printableItems_blur style vs]

end

lemma Same.printable_eq {v w : Value} (h : φ.Same v w) (style : Style) :
    v.printable style = w.printable style := by
  rw [← printable_blur style v, h, printable_blur style w]

/-! ### Outcomes -/

/-- Two outcomes are related: their results are, or they are the same fault. A fault that shows an
expression may show one that looks alike. -/
inductive Side (φ : Blur) {α : Type} (r : α → α → Prop) : Except Fault α → Except Fault α → Prop
  | ok {a b} : r a b → Side φ r (.ok a) (.ok b)
  | error (fault : Fault) : Side φ r (.error fault) (.error fault)
  | shown {v w text text'} : φ.Same v w → v.inspect = .ok text → w.inspect = .ok text' →
    Side φ r (.error (.notSingle text)) (.error (.notSingle text'))

/-- Two outcomes look alike. -/
abbrev Like (φ : Blur) : Except Fault Value → Except Fault Value → Prop := φ.Side φ.Same

namespace Side

variable {α β : Type} {r : α → α → Prop} {q : β → β → Prop}

lemma of_eq {x y : Except Fault α} (h : x = y) (hr : ∀ a, x = .ok a → r a a) : φ.Side r x y := by
  subst h
  cases x with
  | error fault => exact .error fault
  | ok a => exact .ok (hr a rfl)

lemma mono {q : α → α → Prop} {x y : Except Fault α} (h : φ.Side r x y)
    (hrq : ∀ a b, x = .ok a → r a b → q a b) : φ.Side q x y := by
  cases h with
  | ok hr => exact .ok (hrq _ _ rfl hr)
  | error fault => exact .error fault
  | shown hsame hv hw => exact .shown hsame hv hw

lemma bind {x y : Except Fault α} {f g : α → Except Fault β} (h : φ.Side r x y)
    (hfg : ∀ a b, x = .ok a → r a b → φ.Side q (f a) (g b)) : φ.Side q (x >>= f) (y >>= g) := by
  cases h with
  | ok hr => exact hfg _ _ rfl hr
  | error fault => exact .error fault
  | shown hsame hv hw => exact .shown hsame hv hw

lemma ite {x x' y y' : Except Fault β} {c : Prop} [Decidable c] (h : φ.Side q x y)
    (h' : φ.Side q x' y') : φ.Side q (if c then x else x') (if c then y else y') := by
  split
  · exact h
  · exact h'

lemma ite_bind {x x' y y' : Except Fault α} {f g : α → Except Fault β} {c : Prop} [Decidable c]
    (h : φ.Side r x y) (h' : φ.Side r x' y') (hfg : ∀ a b, r a b → φ.Side q (f a) (g b)) :
    φ.Side q (if c then x >>= f else x' >>= f) (if c then y >>= g else y' >>= g) :=
  ite (h.bind fun a b _ => hfg a b) (h'.bind fun a b _ => hfg a b)

lemma bind_same {x : Except Fault α} {f g : α → Except Fault β}
    (hfg : ∀ a, x = .ok a → φ.Side q (f a) (g a)) : φ.Side q (x >>= f) (x >>= g) := by
  cases x with
  | error fault => exact .error fault
  | ok a => exact hfg a rfl

lemma bind_map {γ : Type} {x : Except Fault γ} {h : γ → α} {f : γ → Except Fault β}
    {g : α → Except Fault β} (hfg : ∀ c, x = .ok c → φ.Side q (f c) (g (h c))) :
    φ.Side q (x >>= f) (x.map h >>= g) := by
  cases x with
  | error fault => exact .error fault
  | ok c => exact hfg c rfl

lemma mapM_map {γ : Type} {xs : List γ} {h : γ → α} {f : γ → Except Fault β}
    {g : α → Except Fault β} (hfg : ∀ c ∈ xs, φ.Side q (f c) (g (h c))) :
    φ.Side (List.Forall₂ q) (xs.mapM f) ((xs.map h).mapM g) := by
  induction xs with
  | nil => exact .ok .nil
  | cons c xs ih =>
    rw [List.map_cons, List.mapM_cons, List.mapM_cons]
    refine (hfg c (by simp)).bind fun b b' _ hb => ?_
    refine (ih fun c hc => hfg c (by simp [hc])).bind fun bs bs' _ hbs => ?_
    exact .ok (.cons hb hbs)

lemma foldlM {γ : Type} {s : α → γ → Prop} {f : β → α → Except Fault β}
    {g : β → γ → Except Fault β} {xs : List α} {ys : List γ} (h : List.Forall₂ s xs ys)
    (hfg : ∀ b b' a c, q b b' → s a c → φ.Side q (f b a) (g b' c)) {start start' : β}
    (hstart : q start start') : φ.Side q (xs.foldlM f start) (ys.foldlM g start') := by
  induction h generalizing start start' with
  | nil => exact .ok hstart
  | cons hac _ ih =>
    rw [List.foldlM_cons, List.foldlM_cons]
    exact (hfg _ _ _ _ hstart hac).bind fun b b' _ hb => ih hb

end Side

/-! ### Nothing blurred -/

def exact : Blur where
  tag := id
  text := id
  name := id
  watched h _ := h.symm
  name_of_tag h := congrArg Tag.name h
  name_of_text h := h
  text_append ha hb := congrArg₂ (· ++ ·) ha hb
  empty_of_text h ha := h.symm.trans ha

mutual

lemma blur_exact : ∀ v : Value, v.blur exact = v
  | .scalar s => by cases s <;> rfl
  | .rational _ | .mapping _ | .span _ | .node _ => rfl
  | .symbol name => by
    rcases name with s | _ | _ | _
    · cases s <;> rfl
    all_goals rfl
  | .regexp source options => by
    rcases source with s | _ | _ | _
    · cases s <;> rfl
    all_goals rfl
  | .range first last excludeEnd => by
    rw [Value.blur, blur_exact first, blur_exact last, blur_exact excludeEnd]
  | .imaginary re im => by rw [Value.blur, blur_exact re, blur_exact im]
  | .sexp tag kids line maxLine => by
    rw [Value.blur, blurAll_exact kids]
    rfl
  | .list items => by rw [Value.blur, blurAll_exact items]
  | .tuple items => by rw [Value.blur, blurAll_exact items]

lemma blurAll_exact : ∀ vs : List Value, Value.blurAll exact vs = vs
  | [] => rfl
  | v :: vs => by rw [Value.blurAll, blur_exact v, blurAll_exact vs]

end

lemma eq_of_same_exact {v w : Value} (h : exact.Same v w) : v = w := by
  rwa [Same, blur_exact, blur_exact] at h

lemma eq_of_like_exact {x y : Except Fault Value} (h : exact.Like x y) : x = y := by
  cases h with
  | ok h => rw [eq_of_same_exact h]
  | error fault => rfl
  | shown hsame hv hw =>
    rw [eq_of_same_exact hsame, hw] at hv
    cases hv
    rfl

end Blur

end RubySexp
