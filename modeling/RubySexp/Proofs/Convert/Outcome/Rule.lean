import RubySexp.Proofs.Convert.Outcome.Call
import RubySexp.Proofs.Convert.Outcome.Control
import RubySexp.Proofs.Convert.Outcome.Definition
import RubySexp.Proofs.Convert.Outcome.Interpolation
import RubySexp.Proofs.Convert.Outcome.Pattern

/-!
# Outcomes of the Rules

The rule of a node yields what the place of the node says.
-/

namespace RubySexp.Convert

variable {r : Rigour} {E : Fault → Prop} {n : Node} {conv : Conversion} {scope : Scope}

namespace Setting

variable (S : Setting r E n conv)

include S

lemma leafExpression {tag : Tag} (htag : tag.ownLayouts = [.exactly []]) :
    Outcome E (fun v : Value => v.IsExpression r) (build n.location tag []) :=
  .build S.place (Value.isExpression_exactly tag htag trivial)

theorem ruleExpression (hscope : scope.inParameters = false)
    (hfits : (Tree.ofNode n).fits r .expression = true) :
    Outcome E (fun v : Value => v.IsExpression r) (rule conv scope n) := by
  have hadmits : r.takesExpression n.kind = true := by
    simpa [Rigour.admits, S.placed, Rigour.takes] using (Tree.fits_node.mp hfits).1
  have hbare := (Tree.fits_node.mp hfits).2.2.1
  have keeps : ∀ {field content}, (n.kind.contents .expression).lookup field = some content →
      n.Keeps r field content := Tree.exists_get_of_fits hfits
  have sits : ∀ {field}, n.Keeps r field (.one .expression) →
      Outcome E (fun v : Value => v.Sits r .branch) (convertField conv scope n field) :=
    fun h => (S.expression hscope h).mono fun _ hv => hv.sits
  have plainForm (form : Interpolated) (hform : form ≠ .regexp)
      (h : n.Keeps r .parts (.many .expression)) :
      Outcome E (fun v : Value => v.IsExpression r) (Convert.interpolated conv scope n form) :=
    (S.interpolated hscope form (fun hregexp => absurd hregexp hform) h).mono
      fun _ hv => hv.isExpression
  have options : n.kind.contents .expression = Kind.regexpContents ++ [(.unescaped, .text)] ∨
      n.kind.contents .expression = Kind.regexpContents ++ [(.parts, .many .expression)] →
      KeepsOptions r n := by
    rintro (h | h)
    all_goals
      refine ⟨keeps ?_, keeps ?_, keeps ?_, keeps ?_⟩ <;> rw [h] <;> rfl
  obtain ⟨kind, location, fields⟩ := n
  cases kind with
  -- structure
  | statementsNode =>
    exact (S.block hscope (keeps rfl) rfl).mono fun v hv =>
      hv.resolve_right fun h => by simp [Role.body, Content.mayBeEmpty, S.placed] at h
  | parenthesesNode | ensureNode => exact S.orNil hscope (keeps rfl)
  | beginNode => exact S.beginBody hscope (keeps rfl) (keeps rfl) (keeps rfl) (keeps rfl)
  | rescueNode =>
    have hhandler : (Tree.ofNode ⟨.rescueNode, location, fields⟩).fits r .handler = true :=
      Tree.fits_of_contents_eq hfits (by simp [Rigour.admits, Rigour.takes]) rfl
    exact (S.handler hscope (.refl _) hhandler).mono fun _ hv => hv.1
  | rescueModifierNode => exact S.rescueModifier hscope (keeps rfl) (keeps rfl)
  -- calls
  | callNode =>
    exact S.call hscope rfl (keeps rfl) (keeps rfl) (keeps rfl) (keeps rfl) (keeps rfl) hbare
  | blockArgumentNode => exact S.blockArgument hscope (keeps rfl)
  | blockParametersNode =>
    exact (S.blockParameters hscope (keeps rfl) (keeps rfl)).mono fun _ hv => hv.1
  | lambdaNode => exact S.lambda hscope (keeps rfl) (keeps rfl)
  | superNode => exact S.superCall hscope (keeps rfl) (keeps rfl)
  | forwardingSuperNode => exact S.forwardingSuper hscope (keeps rfl)
  | yieldNode => exact S.yieldCall hscope (keeps rfl)
  | callOrWriteNode | callAndWriteNode =>
    exact S.callWrite hscope (Value.sits_symbol _) (keeps rfl) (keeps rfl) (keeps rfl) (keeps rfl)
  | callOperatorWriteNode =>
    exact (nameIn_outcome (keeps rfl)).bind fun _ ho =>
      S.callWrite hscope ho (keeps rfl) (keeps rfl) (keeps rfl) (keeps rfl)
  | indexOrWriteNode | indexAndWriteNode =>
    exact S.indexWrite hscope (Value.sits_symbol _) (keeps rfl) (keeps rfl) (keeps rfl)
  | indexOperatorWriteNode =>
    exact (nameIn_outcome (keeps rfl)).bind fun _ ho =>
      S.indexWrite hscope ho (keeps rfl) (keeps rfl) (keeps rfl)
  | callTargetNode =>
    exact (S.callTarget hscope (keeps rfl) (keeps rfl) (keeps rfl)).mono fun _ hv => hv.1
  | indexTargetNode => exact (S.indexTarget hscope (keeps rfl) (keeps rfl)).mono fun _ hv => hv.1
  | matchWriteNode =>
    have hcall : Node.Keeps r ⟨.matchWriteNode, location, fields⟩ .call (.one .call) := keeps rfl
    exact S.child hcall rfl hscope
  | definedNode | pinnedExpressionNode => exact S.unary (sits (keeps rfl)) rfl
  | andNode | orNode | alternationPatternNode | aliasMethodNode =>
    exact S.binary (sits (keeps rfl)) (sits (keeps rfl)) rfl
  -- literals
  | integerNode | numberedReferenceReadNode => exact S.number rfl (.inl (keeps rfl))
  | floatNode => exact S.number rfl (.inr (keeps rfl))
  | rationalNode => exact S.rational (keeps rfl) (keeps rfl)
  | imaginaryNode => exact S.imaginary hscope (keeps rfl)
  | stringNode => exact S.string (keeps rfl)
  | xStringNode => exact S.command (keeps rfl)
  | symbolNode => exact S.symbol (keeps rfl)
  | regularExpressionNode =>
    exact (S.regexp (keeps rfl) (options (.inl rfl))).mono fun _ hv => hv.1
  | matchLastLineNode => exact S.matchLastLine (keeps rfl) (options (.inl rfl))
  | interpolatedStringNode =>
    exact plainForm .string (by decide) (keeps rfl)
  | interpolatedXStringNode =>
    exact plainForm .command (by decide) (keeps rfl)
  | interpolatedSymbolNode =>
    exact plainForm .symbol (by decide) (keeps rfl)
  | interpolatedRegularExpressionNode =>
    exact S.interpolatedRegexp hscope (options (.inr rfl)) (keeps rfl) (keeps rfl)
  | interpolatedMatchLastLineNode =>
    exact S.interpolatedMatch hscope (options (.inr rfl)) (keeps rfl) (keeps rfl)
  | embeddedStatementsNode => exact S.embeddedStatements hscope (keeps rfl)
  | embeddedVariableNode => exact S.embeddedVariable hscope (keeps rfl)
  | trueNode | falseNode | nilNode | selfNode | redoNode | retryNode | forwardingArgumentsNode
  | forwardingParameterNode => exact S.leafExpression rfl
  | arrayNode => exact S.array hscope (keeps rfl)
  | hashNode | keywordHashNode => exact S.hash hscope (keeps rfl)
  | rangeNode => exact S.range hscope (keeps rfl) (keeps rfl) (keeps rfl)
  | sourceFileNode => exact S.sourceFile (keeps rfl)
  | sourceLineNode => exact S.sourceLine
  | sourceEncodingNode => exact S.sourceEncoding
  -- variables and constants
  | localVariableReadNode => exact S.localRead (keeps rfl)
  | instanceVariableReadNode | classVariableReadNode | globalVariableReadNode
  | constantReadNode => exact S.variableRead _ (keeps rfl)
  | localVariableWriteNode | instanceVariableWriteNode | classVariableWriteNode
  | globalVariableWriteNode | constantWriteNode =>
    exact S.variableWrite hscope _ (keeps rfl) (keeps rfl)
  | localVariableOrWriteNode | instanceVariableOrWriteNode | classVariableOrWriteNode
  | globalVariableOrWriteNode | constantOrWriteNode =>
    exact S.variableLogicWrite hscope (.inl rfl) _ (keeps rfl) (keeps rfl)
  | localVariableAndWriteNode | instanceVariableAndWriteNode | classVariableAndWriteNode
  | globalVariableAndWriteNode | constantAndWriteNode =>
    exact S.variableLogicWrite hscope (.inr rfl) _ (keeps rfl) (keeps rfl)
  | localVariableOperatorWriteNode | instanceVariableOperatorWriteNode
  | classVariableOperatorWriteNode | globalVariableOperatorWriteNode | constantOperatorWriteNode =>
    exact S.variableOperatorWrite hscope _ (keeps rfl) (keeps rfl) (keeps rfl)
  | localVariableTargetNode | instanceVariableTargetNode | classVariableTargetNode
  | globalVariableTargetNode | constantTargetNode =>
    exact (S.variableTarget _ (keeps rfl)).mono fun _ hv => hv.1
  | backReferenceReadNode => exact S.backReference (keeps rfl)
  | constantPathNode => exact (S.constantPath hscope (keeps rfl) (keeps rfl)).mono fun _ hv => hv.1
  | constantPathWriteNode => exact S.constantPathWrite hscope (keeps rfl) (keeps rfl)
  | constantPathOrWriteNode =>
    exact S.constantPathLogicWrite hscope (.inl rfl) (keeps rfl) (keeps rfl)
  | constantPathAndWriteNode =>
    exact S.constantPathLogicWrite hscope (.inr rfl) (keeps rfl) (keeps rfl)
  | constantPathOperatorWriteNode =>
    exact S.constantPathOperatorWrite hscope (keeps rfl) (keeps rfl) (keeps rfl)
  | constantPathTargetNode =>
    exact (S.constantPathTarget hscope (keeps rfl) (keeps rfl)).mono fun _ hv => hv.1
  | shareableConstantNode | pinnedVariableNode => exact S.expression hscope (keeps rfl)
  -- multiple assignment
  | multiWriteNode => exact S.multiWrite hscope (keeps rfl) (keeps rfl) (keeps rfl) (keeps rfl)
  | multiTargetNode => exact S.multiTarget hscope (keeps rfl) (keeps rfl) (keeps rfl)
  | splatNode => exact S.splat hscope (keeps rfl)
  -- control flow
  | ifNode =>
    exact S.conditional hscope (keeps rfl) (S.branch hscope (keeps rfl))
      (S.otherwise hscope (keeps rfl))
  | unlessNode =>
    exact S.conditional hscope (keeps rfl) (S.otherwise hscope (keeps rfl))
      (S.branch hscope (keeps rfl))
  | whileNode | untilNode => exact S.loop hscope rfl (keeps rfl) (keeps rfl) (keeps rfl)
  | forNode => exact S.forLoop hscope (keeps rfl) (keeps rfl) (keeps rfl)
  | caseNode | caseMatchNode => exact S.caseOf hscope (keeps rfl) (keeps rfl) (keeps rfl)
  | whenNode => exact (S.whenClause hscope (keeps rfl) (keeps rfl)).mono fun _ hv => hv.1
  | returnNode | breakNode | nextNode => exact S.jump hscope rfl (keeps rfl)
  | flipFlopNode => exact S.flipFlop hscope (keeps rfl) (keeps rfl) (keeps rfl)
  | preExecutionNode => exact S.execution hscope (.inl rfl) (keeps rfl)
  | postExecutionNode => exact S.execution hscope (.inr rfl) (keeps rfl)
  -- definitions
  | defNode => exact S.method hscope (keeps rfl) (keeps rfl) (keeps rfl) (keeps rfl)
  | parametersNode =>
    exact (S.parameters (S.parameterList hscope (keeps rfl) (keeps rfl) (keeps rfl) (keeps rfl)
      (keeps rfl) (keeps rfl) (keeps rfl))).mono fun _ hv => hv.1
  | optionalParameterNode =>
    exact (S.optionalParameter hscope (keeps rfl) (keeps rfl)).mono fun _ hv => hv.1
  | requiredKeywordParameterNode => exact (S.requiredKeyword (keeps rfl)).mono fun _ hv => hv.1
  | optionalKeywordParameterNode =>
    exact (S.optionalKeyword hscope (keeps rfl) (keeps rfl)).mono fun _ hv => hv.1
  | classNode => exact S.classDefinition hscope (keeps rfl) (keeps rfl) (keeps rfl)
  | moduleNode => exact S.moduleDefinition hscope (keeps rfl) (keeps rfl)
  | singletonClassNode => exact S.singletonClass hscope (keeps rfl) (keeps rfl)
  | aliasGlobalVariableNode => exact S.aliasGlobal (keeps rfl) (keeps rfl)
  | undefNode => exact S.undefine hscope (keeps rfl)
  -- patterns
  | inNode => exact (S.inClause hscope (keeps rfl) (keeps rfl)).mono fun _ hv => hv.1
  | matchPredicateNode | matchRequiredNode => exact S.patternMatch hscope (keeps rfl) (keeps rfl)
  | arrayPatternNode =>
    exact S.arrayPattern hscope (keeps rfl) (keeps rfl) (keeps rfl) (keeps rfl)
  | findPatternNode => exact S.findPattern hscope (keeps rfl) (keeps rfl) (keeps rfl) (keeps rfl)
  | hashPatternNode => exact S.hashPattern hscope (keeps rfl) (keeps rfl) (keeps rfl)
  | capturePatternNode => exact S.capturePattern hscope (keeps rfl) (keeps rfl)
  -- kinds without a conversion
  | missingNode | itLocalVariableReadNode => exact S.unsupported rfl _
  -- what stands for nothing, where that is allowed
  | implicitNode | implicitRestNode =>
    have hloose : r.sound = false := by
      simpa [Rigour.takesExpression, Kind.isExpression] using hadmits
    exact ⟨Value.sits_nil, by simp [hloose], trivial⟩
  | programNode =>
    have hloose : r.sound = false := by
      simpa [Rigour.takesExpression, Kind.isExpression] using hadmits
    refine (S.child (keeps rfl) rfl hscope).mono ?_
    rintro v (hv | rfl)
    · exact hv
    · exact ⟨Value.sits_nil, by simp [hloose], trivial⟩
  -- what stands elsewhere
  | argumentsNode | assocNode | assocSplatNode | blockNode | blockLocalVariableNode
  | blockParameterNode | elseNode | itParametersNode | keywordRestParameterNode
  | noKeywordsParameterNode | numberedParametersNode | requiredParameterNode
  | restParameterNode =>
    simp [Rigour.takesExpression, Kind.isExpression] at hadmits

/-! ### Other places -/

lemma ruleElsewhere {role : Role} (hscope : scope.inParameters = false)
    (hfits : (Tree.ofNode n).fits r role = true) (hexpression : r.takesExpression n.kind = true)
    (hcontents : n.kind.contents .expression = n.kind.contents role) :
    Outcome E (fun v : Value => v.IsExpression r) (rule conv scope n) :=
  S.ruleExpression hscope (Tree.fits_of_contents_eq hfits
    (by simp [Rigour.admits, Rigour.takes, hexpression]) hcontents)

lemma ruleCaught (hscope : scope.inParameters = false)
    (hfits : (Tree.ofNode n).fits r .caught = true) :
    Outcome E (Yield.target.Meets r) (rule conv scope n) := by
  have htakes : r.takes .caught n.kind = true := by
    simpa [Rigour.admits, S.placed] using (Tree.fits_node.mp hfits).1
  have keeps : ∀ {field content}, (n.kind.contents .caught).lookup field = some content →
      n.Keeps r field content := Tree.exists_get_of_fits hfits
  by_cases hassigned : r.assigned = true
  · simp only [Rigour.takes, hassigned, if_true] at htakes
    obtain ⟨kind, location, fields⟩ := n
    cases kind with
    | localVariableTargetNode | instanceVariableTargetNode | classVariableTargetNode
    | globalVariableTargetNode | constantTargetNode => exact S.variableTarget _ (keeps rfl)
    | constantPathTargetNode => exact S.constantPathTarget hscope (keeps rfl) (keeps rfl)
    | callTargetNode => exact S.callTarget hscope (keeps rfl) (keeps rfl) (keeps rfl)
    | indexTargetNode => exact S.indexTarget hscope (keeps rfl) (keeps rfl)
    | _ => cases htakes
  · simp only [Rigour.takes, hassigned, Bool.false_eq_true, if_false] at htakes
    have hcontents : n.kind.contents .expression = n.kind.contents .caught :=
      Kind.contents_eq_expression rfl rfl rfl rfl (.inl rfl)
    exact (S.ruleElsewhere hscope hfits htakes hcontents).mono fun v hv =>
      ⟨hv, fun h => absurd h hassigned⟩

lemma rulePositional (hscope : scope.inParameters = true)
    (hfits : (Tree.ofNode n).fits r .positional = true) :
    Outcome E (fun v : Value => v.Sits r (.symbolOr [.masgn])) (rule conv scope n) := by
  have htakes : r.takes .positional n.kind = true := by
    simpa [Rigour.admits, S.placed] using (Tree.fits_node.mp hfits).1
  have keeps : ∀ {field content}, (n.kind.contents .positional).lookup field = some content →
      n.Keeps r field content := Tree.exists_get_of_fits hfits
  obtain ⟨kind, location, fields⟩ := n
  cases kind with
  | requiredParameterNode => exact (nameIn_outcome (keeps rfl)).mono fun _ hv => hv.left
  | multiTargetNode =>
    exact (S.positionalMultiTarget hscope (keeps rfl) (keeps rfl) (keeps rfl)).mono
      fun _ hv => hv.right
  | splatNode => exact (S.positionalSplat hscope (keeps rfl)).mono fun _ hv => hv.left
  | _ => cases htakes

lemma ruleDeclared (hscope : scope.inParameters = false)
    (hfits : (Tree.ofNode n).fits r .blockParameters = true)
    (hkind : n.kind ≠ .numberedParametersNode) :
    Outcome E (fun v : Value => v.Sits r (.tagged [.args])) (rule conv scope n) := by
  have htakes : r.takes .blockParameters n.kind = true := by
    simpa [Rigour.admits, S.placed] using (Tree.fits_node.mp hfits).1
  have keeps : ∀ {field content}, (n.kind.contents .blockParameters).lookup field = some content →
      n.Keeps r field content := Tree.exists_get_of_fits hfits
  obtain ⟨kind, location, fields⟩ := n
  cases kind with
  | blockParametersNode =>
    exact (S.blockParameters hscope (keeps rfl) (keeps rfl)).mono fun _ hv =>
      ⟨hv.2, hv.1.sits.conforms⟩
  | itParametersNode => exact S.unsupported rfl _
  | numberedParametersNode => contradiction
  | _ => cases htakes

lemma ruleOrNothing {role : Role} (hy : role.yield = some .orNothing)
    (hscope : scope.inParameters = false) (hfits : (Tree.ofNode n).fits r role = true) :
    Outcome E (Yield.orNothing.Meets r) (rule conv scope n) := by
  have htakes : r.takes role n.kind = true := by
    simpa [Rigour.admits, S.placed] using (Tree.fits_node.mp hfits).1
  have keeps : ∀ {field content}, (n.kind.contents role).lookup field = some content →
      n.Keeps r field content := Tree.exists_get_of_fits hfits
  have expression (h : r.takesExpression n.kind = true)
      (hcontents : n.kind.contents .expression = n.kind.contents role) :
      Outcome E (Yield.orNothing.Meets r) (rule conv scope n) :=
    (S.ruleElsewhere hscope hfits h hcontents).mono fun _ hv => Or.inl hv
  have child {field : Field} (h : n.Keeps r field (.optional .expression)) :
      Outcome E (Yield.orNothing.Meets r) (convertField conv scope n field) :=
    (S.optionalChild h rfl hscope).mono fun _ hv => hv.symm
  obtain ⟨kind, location, fields⟩ := n
  -- Each of these places has one kind of its own; any other node there stands for an expression.
  cases role with
  | root =>
    by_cases hkind : kind = .programNode
    · subst hkind
      have hstatements :
          Node.Keeps r ⟨.programNode, location, fields⟩ .statements (.one .topLevel) := keeps rfl
      exact S.child hstatements rfl hscope
    · exact expression (by simpa [Rigour.takes, hkind] using htakes)
        (Kind.contents_eq_expression rfl rfl rfl rfl (.inl rfl))
  | topLevel =>
    by_cases hkind : kind = .statementsNode
    · subst hkind
      exact (S.block hscope (keeps rfl) rfl).mono fun _ hv => hv.imp_right fun h => h.2
    · have h : !r.sound && r.takesExpression kind := by simpa [Rigour.takes, hkind] using htakes
      exact expression (Bool.and_eq_true_iff.mp h).2
        (Kind.contents_eq_expression rfl rfl rfl rfl (.inr hkind))
  | block =>
    by_cases hkind : kind = .blockNode
    · subst hkind
      exact child (keeps rfl)
    · have h : kind = .blockArgumentNode ∨ r.sound = false ∧ r.takesExpression kind = true := by
        simpa [Rigour.takes, hkind] using htakes
      refine expression ?_ (Kind.contents_eq_expression rfl rfl rfl rfl (.inl rfl))
      rcases h with rfl | h
      · rfl
      · exact h.2
  | otherwise =>
    by_cases hkind : kind = .elseNode
    · subst hkind
      exact child (keeps rfl)
    · exact expression (by simpa [Rigour.takes, hkind] using htakes)
        (Kind.contents_eq_expression rfl rfl rfl rfl (.inl rfl))
  | pairValue =>
    by_cases hkind : kind = .implicitNode
    · subst hkind
      exact Or.inr rfl
    · exact expression (by simpa [Rigour.takes, hkind] using htakes)
        (Kind.contents_eq_expression rfl rfl rfl rfl (.inl rfl))
  | targetRest =>
    by_cases hkind : kind = .implicitRestNode
    · subst hkind
      exact Or.inr rfl
    · exact expression (by simpa [Rigour.takes, hkind] using htakes)
        (Kind.contents_eq_expression rfl rfl rfl rfl (.inl rfl))
  | _ => cases hy

lemma ruleItems {role : Role} (hy : role.yield = some .items)
    (hscope : scope.inParameters = false) (hfits : (Tree.ofNode n).fits r role = true) :
    Outcome E (Yield.items.Meets r) (rule conv scope n) := by
  have htakes : r.takes role n.kind = true := by
    simpa [Rigour.admits, S.placed] using (Tree.fits_node.mp hfits).1
  have keeps : ∀ {field content}, (n.kind.contents role).lookup field = some content →
      n.Keeps r field content := Tree.exists_get_of_fits hfits
  have expression (h : r.sound = false ∧ r.takesExpression n.kind = true)
      (hcontents : n.kind.contents .expression = n.kind.contents role) :
      Outcome E (Yield.items.Meets r) (rule conv scope n) :=
    (S.ruleElsewhere hscope hfits h.2 hcontents).mono fun _ hv => Yield.meets_items hv h.1
  obtain ⟨kind, location, fields⟩ := n
  cases role with
  | arguments =>
    by_cases hkind : kind = .argumentsNode
    · subst hkind
      exact S.argumentList hscope (keeps rfl)
    · exact expression (by simpa [Rigour.takes, hkind] using htakes)
        (Kind.contents_eq_expression rfl rfl rfl rfl (.inl rfl))
  | element =>
    by_cases hpair : kind = .assocNode
    · subst hpair
      exact S.assoc hscope (keeps rfl) (keeps rfl)
    · by_cases hsplat : kind = .assocSplatNode
      · subst hsplat
        exact S.assocSplat hscope (keeps rfl)
      · exact expression (by simpa [Rigour.takes, hpair, hsplat] using htakes)
          (Kind.contents_eq_expression rfl rfl rfl rfl (.inl rfl))
  | _ => cases hy

lemma ruleSeat {role : Role} {seat : Seat} (hy : role.yield = some (.seat seat))
    (hs : scope.inParameters = role.isPositional)
    (hfits : (Tree.ofNode n).fits r role = true) :
    Outcome E (fun v : Value => v.Sits r seat) (rule conv scope n) := by
  have htakes : r.takes role n.kind = true := by
    simpa [Rigour.admits, S.placed] using (Tree.fits_node.mp hfits).1
  have keeps : ∀ {field content}, (n.kind.contents role).lookup field = some content →
      n.Keeps r field content := Tree.exists_get_of_fits hfits
  -- an expression with one of the tags that the seat asks for
  have tagged {tags : List Tag} {x : Except Fault Value}
      (h : Outcome E (fun v : Value => v.IsExpression r ∧ v.isA tags = true) x) :
      Outcome E (fun v : Value => v.Sits r (.tagged tags)) x :=
    h.mono fun _ hv => ⟨hv.2, hv.1.sits.conforms⟩
  cases role with
  | positional =>
    cases hy
    exact S.rulePositional hs hfits
  | parameters =>
    cases hy
    obtain ⟨kind, location, fields⟩ := n
    obtain rfl : kind = .parametersNode := by simpa [Rigour.takes] using htakes
    exact tagged (S.parameters (S.parameterList hs (keeps rfl) (keeps rfl) (keeps rfl) (keeps rfl)
      (keeps rfl) (keeps rfl) (keeps rfl)))
  | optionalParameter =>
    cases hy
    obtain ⟨kind, location, fields⟩ := n
    obtain rfl : kind = .optionalParameterNode := by simpa [Rigour.takes] using htakes
    exact tagged (S.optionalParameter hs (keeps rfl) (keeps rfl))
  | parameterRest =>
    cases hy
    obtain ⟨kind, location, fields⟩ := n
    have hkind : kind = .restParameterNode ∨ kind = .implicitRestNode := by
      simpa [Rigour.takes] using htakes
    rcases hkind with rfl | rfl
    · exact (restParameter_outcome _ (keeps rfl)).mono fun _ hv => hv.right
    · exact ⟨rfl, fun _ => rfl⟩
  | keyword =>
    cases hy
    obtain ⟨kind, location, fields⟩ := n
    have hkind : kind = .requiredKeywordParameterNode ∨ kind = .optionalKeywordParameterNode := by
      simpa [Rigour.takes] using htakes
    rcases hkind with rfl | rfl
    · exact tagged (S.requiredKeyword (keeps rfl))
    · exact tagged (S.optionalKeyword hs (keeps rfl) (keeps rfl))
  | keywordRest =>
    cases hy
    obtain ⟨kind, location, fields⟩ := n
    have hkind : kind = .keywordRestParameterNode ∨ kind = .forwardingParameterNode ∨
        kind = .noKeywordsParameterNode := by
      simpa [Rigour.takes] using htakes
    rcases hkind with rfl | rfl | rfl
    · exact (restParameter_outcome _ (keeps rfl)).mono fun _ hv => hv.left
    · exact .build S.place fun line maxLine => ⟨rfl, fun _ => rfl⟩
    · exact (Value.sits_symbol _).left
  | blockParameter =>
    cases hy
    obtain ⟨kind, location, fields⟩ := n
    obtain rfl : kind = .blockParameterNode := by simpa [Rigour.takes] using htakes
    exact restParameter_outcome _ (keeps rfl)
  | blockLocal =>
    cases hy
    obtain ⟨kind, location, fields⟩ := n
    obtain rfl : kind = .blockLocalVariableNode := by simpa [Rigour.takes] using htakes
    exact nameIn_outcome (keeps rfl)
  | clause =>
    cases hy
    obtain ⟨kind, location, fields⟩ := n
    have hkind : kind = .whenNode ∨ kind = .inNode := by simpa [Rigour.takes] using htakes
    rcases hkind with rfl | rfl
    · exact tagged (S.whenClause hs (keeps rfl) (keeps rfl))
    · exact tagged (S.inClause hs (keeps rfl) (keeps rfl))
  | constantPath =>
    cases hy
    obtain ⟨kind, location, fields⟩ := n
    obtain rfl : kind = .constantPathNode := by simpa [Rigour.takes] using htakes
    exact tagged (S.constantPath hs (keeps rfl) (keeps rfl))
  | _ => cases hy

/-- **Rules**: the rule of a node yields what its place says. -/
theorem ruleOutcome {role : Role} {yield : Yield} (hy : role.yield = some yield)
    (hs : scope.inParameters = role.isPositional)
    (hfits : (Tree.ofNode n).fits r role = true) :
    Outcome E (yield.Meets r) (rule conv scope n) := by
  cases yield with
  | expression =>
    -- an expression, or the call behind a match that assigns
    have hscope : scope.inParameters = false := by
      cases role <;> first | exact hs | cases hy
    have hadmits := (Tree.fits_node.mp hfits).1
    have hexpression : r.takesExpression n.kind = true := by
      cases role with
      | expression => simpa [Rigour.admits, S.placed, Rigour.takes] using hadmits
      | call =>
        have hkind : n.kind = .callNode := by
          simpa [Rigour.admits, S.placed, Rigour.takes] using hadmits
        rw [hkind]
        rfl
      | _ => cases hy
    refine S.ruleElsewhere hscope hfits hexpression ?_
    cases role with
    | expression => rfl
    | call => exact Kind.contents_eq_expression rfl rfl rfl rfl (.inl rfl)
    | _ => cases hy
  | orNothing =>
    refine S.ruleOrNothing hy ?_ hfits
    cases role <;> first | exact hs | cases hy
  | items =>
    refine S.ruleItems hy ?_ hfits
    cases role <;> first | exact hs | cases hy
  | target =>
    have hrole : role = .caught := by cases role <;> first | rfl | cases hy
    subst hrole
    exact S.ruleCaught hs hfits
  | seat s => exact S.ruleSeat hy hs hfits

end Setting

end RubySexp.Convert
