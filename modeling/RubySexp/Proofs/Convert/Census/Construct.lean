import RubySexp.Proofs.Convert.Below

/-!
# Constructs and Their Tally

Some constructs of the language can be told by the kind of a node and, after the conversion, by the
tag of an expression. The tally of a value is how many expressions of a construct stand in it, and a
few facts about converted values say where none can be hidden: strings and literals hold none, nor
does the text that an interpolated string starts with.
-/

namespace RubySexp

inductive Construct where
  | method
  | classBody
  | moduleBody
  | singletonClass
  | lambda
  | yieldCall
  | superCall
  | forwardingSuper
  | returnJump
  | breakJump
  | nextJump
  | redoJump
  | retryJump
  | whileLoop
  | untilLoop
  | forLoop
  | whenClause
  | inClause
  | choice
  | condition
  | conjunction
  | disjunction
  | flipFlop
  | definedTest
  | handler
  | multipleAssignment
  | hash
  | blockArgument
  | arrayPattern
  | findPattern
  | hashPattern
  | preExecution
  | postExecution
  | methodAlias
  | globalAlias
  /-- What the parser knows of but no expression stands for. -/
  | unsupported
  deriving DecidableEq, Repr

/-- The constructs that a node of a kind is. A match against one pattern is a choice with one
clause. -/
def Kind.constructs : Kind → List Construct
  | .defNode => [.method]
  | .classNode => [.classBody]
  | .moduleNode => [.moduleBody]
  | .singletonClassNode => [.singletonClass]
  | .lambdaNode => [.lambda]
  | .yieldNode => [.yieldCall]
  | .superNode => [.superCall]
  | .forwardingSuperNode => [.forwardingSuper]
  | .returnNode => [.returnJump]
  | .breakNode => [.breakJump]
  | .nextNode => [.nextJump]
  | .redoNode => [.redoJump]
  | .retryNode => [.retryJump]
  | .whileNode => [.whileLoop]
  | .untilNode => [.untilLoop]
  | .forNode => [.forLoop]
  | .whenNode => [.whenClause]
  | .inNode => [.inClause]
  | .caseNode | .caseMatchNode => [.choice]
  | .matchPredicateNode | .matchRequiredNode => [.choice, .inClause]
  | .ifNode | .unlessNode => [.condition]
  | .andNode => [.conjunction]
  | .orNode | .alternationPatternNode => [.disjunction]
  | .flipFlopNode => [.flipFlop]
  | .definedNode => [.definedTest]
  | .rescueNode | .rescueModifierNode => [.handler]
  | .multiWriteNode | .multiTargetNode => [.multipleAssignment]
  | .hashNode | .keywordHashNode => [.hash]
  | .blockArgumentNode => [.blockArgument]
  | .arrayPatternNode => [.arrayPattern]
  | .findPatternNode => [.findPattern]
  | .hashPatternNode => [.hashPattern]
  | .preExecutionNode => [.preExecution]
  | .postExecutionNode => [.postExecution]
  | .aliasMethodNode => [.methodAlias]
  | .aliasGlobalVariableNode => [.globalAlias]
  | .missingNode | .itLocalVariableReadNode | .itParametersNode => [.unsupported]
  | _ => []

def Tag.constructs : Tag → List Construct
  | .defn | .defs => [.method]
  | .classDef => [.classBody]
  | .moduleDef => [.moduleBody]
  | .sclass => [.singletonClass]
  | .lambdaHead => [.lambda]
  | .yieldCall => [.yieldCall]
  | .superCall => [.superCall]
  | .zsuperCall => [.forwardingSuper]
  | .returnJump => [.returnJump]
  | .breakJump => [.breakJump]
  | .nextJump => [.nextJump]
  | .redoJump => [.redoJump]
  | .retryJump => [.retryJump]
  | .whileLoop => [.whileLoop]
  | .untilLoop => [.untilLoop]
  | .forLoop => [.forLoop]
  | .whenClause => [.whenClause]
  | .inClause => [.inClause]
  | .caseOf => [.choice]
  | .ifElse => [.condition]
  | .and => [.conjunction]
  | .or => [.disjunction]
  | .flip2 | .flip3 => [.flipFlop]
  | .definedTest => [.definedTest]
  | .resbody => [.handler]
  | .masgn => [.multipleAssignment]
  | .hash => [.hash]
  | .blockPass => [.blockArgument]
  | .arrayPat => [.arrayPattern]
  | .findPat => [.findPattern]
  | .hashPat => [.hashPattern]
  | .preexe => [.preExecution]
  | .postexe => [.postExecution]
  | .aliasName => [.methodAlias]
  | .aliasGlobal => [.globalAlias]
  | _ => []

namespace Construct

def ofKind (c : Construct) (kind : Kind) : Nat := kind.constructs.count c

def ofTag (c : Construct) (tag : Tag) : Nat := tag.constructs.count c

def kinds (c : Construct) : List Kind := Kind.all.filter fun kind => kind.constructs.contains c

def tags (c : Construct) : List Tag := Tag.all.filter fun tag => tag.constructs.contains c

/-- Whether no expression stands for the construct. -/
def isSilent (c : Construct) : Bool := c == .unsupported

lemma ofTag_of_isSilent {c : Construct} (h : c.isSilent = true) (tag : Tag) : c.ofTag tag = 0 := by
  rw [isSilent, beq_iff_eq] at h
  subst h
  cases tag <;> rfl

example : kinds .method = [.defNode] ∧ tags .method = [.defn, .defs] := by decide

end Construct

namespace Value

variable (c : Construct)

mutual

/-- How many expressions of a construct stand at and below a value. Only kids of expressions are
entered. -/
def tally : Value → Nat
  | .sexp tag kids _ _ => c.ofTag tag + tallyAll kids
  | _ => 0

def tallyAll : List Value → Nat
  | [] => 0
  | v :: vs => tally v + tallyAll vs

end

variable {c}

@[simp] lemma tallyAll_nil : tallyAll c [] = 0 := rfl

@[simp] lemma tallyAll_cons (v : Value) (vs : List Value) :
    tallyAll c (v :: vs) = tally c v + tallyAll c vs := rfl

@[simp] lemma tallyAll_append (vs ws : List Value) :
    tallyAll c (vs ++ ws) = tallyAll c vs + tallyAll c ws := by
  induction vs with
  | nil => simp
  | cons v vs ih => simp [ih, Nat.add_assoc]

lemma tallyAll_reverse (vs : List Value) : tallyAll c vs.reverse = tallyAll c vs := by
  induction vs with
  | nil => rfl
  | cons v vs ih => simp [ih, Nat.add_comm]

@[simp] lemma tally_sexp (tag : Tag) (kids : List Value) (l m : Json) :
    tally c (.sexp tag kids l m) = c.ofTag tag + tallyAll c kids := rfl

mutual

lemma tally_of_isSilent (h : c.isSilent = true) : ∀ v : Value, tally c v = 0
  | .sexp tag kids _ _ => by
    rw [tally_sexp, c.ofTag_of_isSilent h, tallyAll_of_isSilent h kids]
  | .scalar _ | .rational _ | .symbol _ | .range _ _ _ | .regexp _ _ | .imaginary _ _ | .list _
  | .tuple _ | .mapping _ | .span _ | .node _ => rfl

lemma tallyAll_of_isSilent (h : c.isSilent = true) : ∀ vs : List Value, tallyAll c vs = 0
  | [] => rfl
  | v :: vs => by rw [tallyAll_cons, tally_of_isSilent h v, tallyAll_of_isSilent h vs]

end

lemma tally_toValue (tree : Tree) : tally c tree.toValue = 0 := by
  cases tree <;> simp [Tree.toValue, tally]

lemma tally_join {a b v : Value} (h : a.join b = .ok v) : tally c v = 0 := by
  unfold join at h
  split at h
  · cases h
    rfl
  · cases h
    rfl
  · obtain ⟨i, -, h⟩ := exists_ok_of_bind h
    obtain ⟨x, -, h⟩ := exists_ok_of_bind h
    cases h
    rfl
  · obtain ⟨i, -, h⟩ := exists_ok_of_bind h
    obtain ⟨x, -, h⟩ := exists_ok_of_bind h
    cases h
    rfl
  · obtain ⟨i, -, h⟩ := exists_ok_of_bind h
    obtain ⟨j, -, h⟩ := exists_ok_of_bind h
    cases h
    rfl
  · split at h
    · cases h
    · cases h
    · obtain ⟨vs, -, h⟩ := exists_ok_of_bind h
      obtain ⟨ws, -, h⟩ := exists_ok_of_bind h
      cases h
      rfl

end Value

/-! ### Where nothing is hidden -/

/-- The tags of expressions that other literals may take in. -/
def Tag.isFolded : Tag → Bool
  | .str | .lit | .dstr => true
  | _ => false

namespace Value

variable {c : Construct} {v : Value} {k : Nat}

/-- A string holds nothing that counts. -/
def Quiet (c : Construct) (v : Value) : Prop := v.isA [.str] = true → v.tally c = 0

/-- The value of an expression: no list, and nothing that counts where a rule may drop it. -/
def Firm (c : Construct) : Value → Prop
  | .sexp .str kids _ _ | .sexp .lit kids _ _ => tallyAll c kids = 0
  | .sexp .dstr (head :: rest) _ _ => head.tally c = 0 ∧ ∀ kid ∈ rest, Quiet c kid
  | .list _ => False
  | _ => True

lemma firm_sexp {tag : Tag} (h : tag.isFolded = false) (kids : List Value) (l m : Json) :
    Firm c (.sexp tag kids l m) := by
  cases tag with
  | str | lit | dstr => cases h
  | _ => trivial

lemma firm_of_tallyAll {kids : List Value} (h : tallyAll c kids = 0) (tag : Tag) (l m : Json) :
    Firm c (.sexp tag kids l m) := by
  have hkid : ∀ kid ∈ kids, kid.tally c = 0 := by
    intro kid hkid
    obtain ⟨before, after, rfl⟩ := List.append_of_mem hkid
    simp only [tallyAll_append, tallyAll_cons] at h
    omega
  cases tag with
  | str | lit => exact h
  | dstr =>
    cases kids with
    | nil => trivial
    | cons head rest =>
      exact ⟨hkid head (by simp), fun kid hmem _ => hkid kid (by simp [hmem])⟩
  | _ => trivial

lemma Firm.quiet (h : Firm c v) : Quiet c v := by
  intro hstr
  cases v with
  | sexp tag kids l m =>
    obtain rfl : tag = .str := by simpa [isA] using hstr
    have hkids : tallyAll c kids = 0 := h
    rw [tally_sexp, hkids]
    rfl
  | _ => cases hstr

lemma Firm.tally_of_isA_lit (h : Firm c v) (hlit : v.isA [.lit] = true) :
    v.tally c = 0 := by
  cases v with
  | sexp tag kids l m =>
    obtain rfl : tag = .lit := by simpa [isA] using hlit
    have hkids : tallyAll c kids = 0 := h
    rw [tally_sexp, hkids]
    rfl
  | _ => cases hlit

structure Kept (c : Construct) (v : Value) (k : Nat) : Prop where
  tally : v.tally c = k
  firm : c.isSilent = true ∨ Firm c v

structure KeptAll (c : Construct) (vs : List Value) (k : Nat) : Prop where
  tally : tallyAll c vs = k
  firm : c.isSilent = true ∨ ∀ v ∈ vs, Firm c v

lemma Kept.cast {k' : Nat} (h : Kept c v k) (hk : k = k') : Kept c v k' := hk ▸ h

lemma KeptAll.cast {vs : List Value} {k' : Nat} (h : KeptAll c vs k) (hk : k = k') :
    KeptAll c vs k' := hk ▸ h

lemma KeptAll.nil : KeptAll c [] 0 := ⟨rfl, .inr (by simp)⟩

lemma KeptAll.cons {vs : List Value} {k' : Nat} (h : Kept c v k) (h' : KeptAll c vs k') :
    KeptAll c (v :: vs) (k + k') where
  tally := by rw [tallyAll_cons, h.tally, h'.tally]
  firm := by
    rcases h.firm with hs | hs
    · exact .inl hs
    · exact h'.firm.imp_right fun hall => by simpa using ⟨hs, hall⟩

lemma KeptAll.single (h : Kept c v k) : KeptAll c [v] k := .cons h .nil

lemma KeptAll.append {vs ws : List Value} {k' : Nat} (h : KeptAll c vs k) (h' : KeptAll c ws k') :
    KeptAll c (vs ++ ws) (k + k') where
  tally := by rw [tallyAll_append, h.tally, h'.tally]
  firm := by
    rcases h.firm with hs | hs
    · exact .inl hs
    · refine h'.firm.imp_right fun hall v hv => ?_
      exact (List.mem_append.mp hv).elim (hs v) (hall v)

/-- What a node was converted to: a list, or a value of its own. -/
def Yielded (c : Construct) (isList : Bool) (v : Value) (k : Nat) : Prop :=
  if isList then ∃ vs, v = .list vs ∧ KeptAll c vs k else Kept c v k

lemma Kept.of_isSilent (h : c.isSilent = true) (v : Value) : Kept c v 0 :=
  ⟨tally_of_isSilent h v, .inl h⟩

lemma KeptAll.of_isSilent (h : c.isSilent = true) (vs : List Value) : KeptAll c vs 0 :=
  ⟨tallyAll_of_isSilent h vs, .inl h⟩

lemma Yielded.eq_zero {isList : Bool} (h : Yielded c isList v k) (hsilent : c.isSilent = true) :
    k = 0 := by
  cases isList with
  | true =>
    obtain ⟨vs, -, hvs⟩ := h
    rw [← hvs.tally, tallyAll_of_isSilent hsilent]
  | false =>
    have hv : Kept c v k := h
    rw [← hv.tally, tally_of_isSilent hsilent]

lemma Yielded.kept {isList : Bool} (h : Yielded c isList v k)
    (hone : c.isSilent = true ∨ isList = false) : Kept c v k := by
  rcases hone with hsilent | rfl
  · rw [h.eq_zero hsilent]
    exact .of_isSilent hsilent v
  · exact h

lemma Yielded.items {isList : Bool} {vs : List Value} (h : Yielded c isList v k)
    (hlist : c.isSilent = true ∨ isList = true) (hvs : v.items = .ok vs) : KeptAll c vs k := by
  rcases hlist with hsilent | rfl
  · rw [h.eq_zero hsilent]
    exact .of_isSilent hsilent vs
  · obtain ⟨ws, rfl, hws⟩ := h
    cases hvs
    exact hws

lemma Kept.symbol (name : Tree) : Kept c (.symbol name) 0 := ⟨rfl, .inr trivial⟩

lemma Kept.scalar (s : Scalar) : Kept c (.scalar s) 0 := ⟨rfl, .inr trivial⟩

end Value

namespace Convert

open Value (Kept KeptAll)

variable {c : Construct} {place : Option Location} {tag : Tag} {kids : List Value} {v : Value}
  {k : Nat}

lemma kept_build (htag : tag.isFolded = false) (hkids : Value.tallyAll c kids = k)
    (h : build place tag kids = .ok v) : Kept c v (c.ofTag tag + k) := by
  obtain ⟨l, rfl⟩ := eq_sexp_of_build h
  exact ⟨by rw [Value.tally_sexp, hkids], .inr (Value.firm_sexp htag kids _ _)⟩

lemma kept_build_data (hkids : Value.tallyAll c kids = 0) (h : build place tag kids = .ok v) :
    Kept c v (c.ofTag tag) := by
  obtain ⟨l, rfl⟩ := eq_sexp_of_build h
  exact ⟨by rw [Value.tally_sexp, hkids, Nat.add_zero],
    .inr (Value.firm_of_tallyAll hkids tag _ _)⟩

end Convert

end RubySexp
