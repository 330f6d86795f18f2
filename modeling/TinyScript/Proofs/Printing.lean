import TinyScript.Node.Source
import TinyScript.Proofs.Grammar.Completeness
import TinyScript.Proofs.WellFormed

/-!
# Printed trees derive themselves

The words that a well-formed tree is spelled with derive it again. An expression that is put into
parentheses becomes a primary one, and any expression also stands where less tightness is asked.
-/

set_option autoImplicit false

namespace TinyScript

/-- An alternative never follows in front of more statements. -/
theorem Derivation.headD_ne_else {nodes : List Node} {words : List Token} {next : Token}
    (derivation : Derivation (.statements nodes) words next) (noElse : next ≠ .keyword .elseKw) :
    words.headD next ≠ .keyword .elseKw := by
  cases derivation with
  | noStatements => exact noElse
  | someStatements first _ =>
      obtain ⟨opening, rest, rfl, starts⟩ := first.opens
      intro same
      simp only [List.cons_append, List.headD_cons] at same
      subst same
      cases starts

/-- Where an operand of at least some precedence stands: any expression will do for none at all. -/
def Phrase.atLevel : Nat → Node → Phrase
  | 0, node => .expression node
  | level + 1, node => .operand (level + 1) node

/-- Words derive a tree in its place, in front of any token that does not go on with them: behind
an expression no parenthesis opens, and behind a statement stands no alternative that it takes. -/
def Node.ReadsAs (node : Node) (words : List Token) : Place → Prop
  | .statement => ∀ next, (node.endsOpen = true → next ≠ .keyword .elseKw) →
      Nonempty (Derivation (.statement node) words next)
  | .operand level => ∀ next, next ≠ .symbol .leftParen →
      Nonempty (Derivation (.atLevel level node) words next)

/-- A tree is spelled with plain words that derive it. -/
def Node.PrintsIn (node : Node) (place : Place) : Prop :=
  ∃ words, node.spell place = .ok words ∧ words.all Token.isPlain = true ∧
    node.ReadsAs words place

theorem Derivation.loosen {level : Nat} {node : Node} {words : List Token} {next : Token}
    (bounded : level < Parse.primaryLevel)
    (derivation : Derivation (.atLevel (level + 1) node) words next) :
    Nonempty (Derivation (.atLevel level node) words next) := by
  cases level with
  | zero => exact ⟨.comparison derivation⟩
  | succ level => exact ⟨.tighter bounded derivation⟩

/-- An operand can stand wherever less tightness is asked. -/
theorem Derivation.atLower {low high : Nat} {node : Node} {words : List Token} {next : Token}
    (below : low ≤ high) (bounded : high ≤ Parse.primaryLevel)
    (derivation : Derivation (.atLevel high node) words next) :
    Nonempty (Derivation (.atLevel low node) words next) := by
  induction below with
  | refl => exact ⟨derivation⟩
  | step _ ih =>
      obtain ⟨looser⟩ := derivation.loosen bounded
      exact ih (Nat.le_of_succ_le bounded) looser

theorem Derivation.parenthesized {node : Node} {words : List Token}
    (derivation : Derivation (.expression node) words (.symbol .rightParen)) (next : Token) :
    Nonempty (Derivation (.expression node)
      (.symbol .leftParen :: words ++ [.symbol .rightParen]) next) :=
  Derivation.atLower (Nat.zero_le _) (Nat.le_refl Parse.primaryLevel) (.paren derivation)

@[simp] theorem Phrase.atLevel_precedence (op : BinaryOp) (node : Node) :
    atLevel op.precedence node = .operand op.precedence node := by
  cases op <;> rfl

theorem Place.atom_operand {level : Nat} (bounded : level ≤ Parse.primaryLevel)
    (tokens : List Token) :
    (operand level).atom tokens = (operand level).compound Parse.primaryLevel tokens := by
  simp [atom, compound, Nat.not_lt.mpr bounded]

namespace Node

/-- A tree is printed as it should in every place where it can stand. -/
def Prints (node : Node) : Prop :=
  (node.isExpression = true → ∀ level ≤ Parse.primaryLevel, node.PrintsIn (.operand level)) ∧
    node.PrintsIn .statement

/-- An expression whose words derive it at its own level is printed as it should. -/
theorem prints_of_strength {node : Node} {strength : Nat} {words : List Token}
    (tight : strength ≤ Parse.primaryLevel)
    (asStatement : node.spell .statement = .ok (words ++ [.symbol .semicolon]))
    (asOperand : ∀ level ≤ Parse.primaryLevel,
      node.spell (.operand level) = .ok ((Place.operand level).compound strength words))
    (plain : words.all Token.isPlain = true)
    (reads : node.ReadsAs words (.operand strength)) : node.Prints := by
  constructor
  · intro _ level bounded
    refine ⟨_, asOperand level bounded, ?_, ?_⟩
    · by_cases loose : strength < level
      · simp [Place.compound, loose, plain]
      · simp [Place.compound, loose, plain]
    · intro next noCall
      by_cases loose : strength < level
      · obtain ⟨derivation⟩ := reads (.symbol .rightParen) (by simp)
        obtain ⟨inner⟩ := derivation.atLower (Nat.zero_le _) tight
        simp only [Place.compound, if_pos loose]
        exact Derivation.atLower bounded (Nat.le_refl Parse.primaryLevel) (.paren inner)
      · obtain ⟨derivation⟩ := reads next noCall
        simp only [Place.compound, if_neg loose]
        exact derivation.atLower (Nat.le_of_not_lt loose) tight
  · refine ⟨_, asStatement, by simp [plain], ?_⟩
    intro next _
    obtain ⟨derivation⟩ := reads (.symbol .semicolon) (by simp)
    obtain ⟨whole⟩ := derivation.atLower (Nat.zero_le _) tight
    exact ⟨.expressionE whole .semicolon⟩

theorem prints_of_atom {node : Node} {words : List Token}
    (spelled : ∀ place : Place, node.spell place = .ok (place.atom words))
    (plain : words.all Token.isPlain = true)
    (reads : node.ReadsAs words (.operand Parse.primaryLevel)) : node.Prints := by
  refine prints_of_strength (Nat.le_refl _) (spelled .statement) ?_ plain reads
  intro level bounded
  rw [spelled, Place.atom_operand bounded]

theorem prints_of_compound {node : Node} {strength : Nat} {words : List Token}
    (tight : strength ≤ Parse.primaryLevel)
    (spelled : ∀ place : Place, node.spell place = .ok (place.compound strength words))
    (plain : words.all Token.isPlain = true)
    (reads : node.ReadsAs words (.operand strength)) : node.Prints :=
  prints_of_strength tight (spelled .statement) (fun level _ => spelled (.operand level))
    plain reads

theorem prints_int {value : Int} (wellFormed : (Node.int value).isWellFormed = true) :
    (Node.int value).Prints := by
  have nonnegative : ¬ value < 0 := by
    have literal := Bool.and_eq_true_iff.mp wellFormed
    exact Int.not_lt.mpr (of_decide_eq_true literal.1)
  have plain : (Token.int value).isPlain = true := wellFormed
  exact prints_of_atom (fun _ => if_neg nonnegative) (by simp [plain]) fun _ _ => ⟨.int⟩

theorem prints_bool (value : Bool) : (Node.bool value).Prints :=
  prints_of_atom (fun _ => rfl) rfl fun _ _ => ⟨.bool⟩

theorem prints_name {spelling : String}
    (wellFormed : (Node.name spelling).isWellFormed = true) : (Node.name spelling).Prints := by
  have plain : (Token.name spelling).isPlain = true := wellFormed
  exact prints_of_atom (fun _ => rfl) (by simp [plain]) fun _ noCall => ⟨.name noCall⟩

/-- The words of several statements derive them in front of anything but an alternative. -/
def PrintsAll (nodes : List Node) : Prop :=
  ∃ words, spellAll nodes = .ok words ∧ words.all Token.isPlain = true ∧
    ∀ next, next ≠ .keyword .elseKw → Nonempty (Derivation (.statements nodes) words next)

/-- The words of several arguments derive them in front of a closing parenthesis. -/
def PrintsArguments (nodes : List Node) : Prop :=
  ∃ words, spellArguments nodes = .ok words ∧ words.all Token.isPlain = true ∧
    Nonempty (Derivation (.arguments nodes) words (.symbol .rightParen))

/-- The words of the arguments behind the first one derive them. -/
def PrintsMore (nodes : List Node) : Prop :=
  ∃ words, spellMore nodes = .ok words ∧ words.all Token.isPlain = true ∧
    Nonempty (Derivation (.moreArguments nodes) words (.symbol .rightParen))

theorem prints_binary {op : BinaryOp} {left right : Node} (leftPrints : left.Prints)
    (leftExpression : left.isExpression = true) (rightPrints : right.Prints)
    (rightExpression : right.isExpression = true) : (Node.binary op left right).Prints := by
  have tight := precedence_lt_primaryLevel op
  obtain ⟨leftWords, leftSpelled, leftPlain, leftReads⟩ :=
    leftPrints.1 leftExpression op.precedence (Nat.le_of_lt tight)
  obtain ⟨rightWords, rightSpelled, rightPlain, rightReads⟩ :=
    rightPrints.1 rightExpression (op.precedence + 1) tight
  have spelled (place : Place) : (Node.binary op left right).spell place =
      .ok (place.compound op.precedence (leftWords ++ .symbol op.symbol :: rightWords)) := by
    simp [spell, leftSpelled, rightSpelled, bind, Except.bind, pure, Except.pure]
  refine prints_of_compound (Nat.le_of_lt tight) spelled (by simp [leftPlain, rightPlain]) ?_
  intro next noCall
  obtain ⟨leftDerivation⟩ := leftReads (.symbol op.symbol) (by cases op <;> simp [BinaryOp.symbol])
  obtain ⟨rightDerivation⟩ := rightReads next noCall
  rw [Phrase.atLevel_precedence] at leftDerivation ⊢
  exact ⟨.binary leftDerivation rightDerivation⟩

theorem prints_call {callee : String} {arguments : List Node} (name : isName callee = true)
    (argumentsPrint : PrintsArguments arguments) : (Node.call callee arguments).Prints := by
  obtain ⟨words, wordsSpelled, plain, ⟨derivation⟩⟩ := argumentsPrint
  have spelled (place : Place) : (Node.call callee arguments).spell place =
      .ok (place.atom (.name callee :: .symbol .leftParen :: words ++ [.symbol .rightParen])) := by
    simp [spell, wordsSpelled, bind, Except.bind, pure, Except.pure]
  exact prints_of_atom spelled (by simp [name, plain]) fun _ _ => ⟨.call derivation⟩

theorem spellNames_eq_nameWords (names : List String) : spellNames names = nameWords names := by
  cases names with
  | nil => rfl
  | cons first later => exact (Parse.nameWords_cons first later).symm

theorem isPlain_spellNames {names : List String} (proper : names.all isName = true) :
    (spellNames names).all Token.isPlain = true := by
  cases names with
  | nil => rfl
  | cons first later =>
      obtain ⟨firstProper, laterProper⟩ := Bool.and_eq_true_iff.mp proper
      simpa [spellNames, firstProper] using laterProper

theorem prints_func {parameters : List String} {body : List Node}
    (names : parameters.all isName = true) (bodyPrints : PrintsAll body) :
    (Node.func parameters body).Prints := by
  obtain ⟨words, wordsSpelled, plain, derives⟩ := bodyPrints
  have spelled (place : Place) : (Node.func parameters body).spell place =
      .ok (place.compound 0
        (.keyword .fnKw :: .symbol .leftParen :: spellNames parameters ++
          .symbol .rightParen :: .symbol .leftBrace :: words ++ [.symbol .rightBrace])) := by
    simp [spell, wordsSpelled, bind, Except.bind, pure, Except.pure]
  refine prints_of_compound (Nat.zero_le _) spelled (by simp [isPlain_spellNames names, plain]) ?_
  intro next _
  obtain ⟨derivation⟩ := derives (.symbol .rightBrace) (by simp)
  rw [spellNames_eq_nameWords]
  exact ⟨.func derivation⟩

/-- A tree that is no expression is printed as a statement only. -/
theorem prints_of_statement {node : Node} {words : List Token}
    (statement : node.isExpression = false) (spelled : node.spell .statement = .ok words)
    (plain : words.all Token.isPlain = true) (reads : node.ReadsAs words .statement) :
    node.Prints := by
  refine ⟨?_, words, spelled, plain, reads⟩
  intro expression
  rw [statement] at expression
  cases expression

theorem prints_letE {target : String} {value : Node} (name : isName target = true)
    (valuePrints : value.Prints) (expression : value.isExpression = true) :
    (Node.letE target value).Prints := by
  obtain ⟨words, wordsSpelled, plain, reads⟩ := valuePrints.1 expression 0 (Nat.zero_le _)
  have spelled : (Node.letE target value).spell .statement =
      .ok (.keyword .letKw :: .name target :: .symbol .assign :: words ++
        [.symbol .semicolon]) := by
    simp [spell, wordsSpelled, bind, Except.bind, pure, Except.pure]
  obtain ⟨derivation⟩ := reads (.symbol .semicolon) (by simp)
  exact prints_of_statement rfl spelled (by simp [name, plain]) fun _ _ => ⟨.letE derivation⟩

theorem prints_returnE {value : Node} (valuePrints : value.Prints)
    (expression : value.isExpression = true) : (Node.returnE value).Prints := by
  obtain ⟨words, wordsSpelled, plain, reads⟩ := valuePrints.1 expression 0 (Nat.zero_le _)
  have spelled : (Node.returnE value).spell .statement =
      .ok (.keyword .returnKw :: words ++ [.symbol .semicolon]) := by
    simp [spell, wordsSpelled, bind, Except.bind, pure, Except.pure]
  obtain ⟨derivation⟩ := reads (.symbol .semicolon) (by simp)
  exact prints_of_statement rfl spelled (by simp [plain])
    fun _ _ => ⟨.returnE derivation .semicolon⟩

theorem prints_block {statements : List Node} (statementsPrint : PrintsAll statements) :
    (Node.block statements).Prints := by
  obtain ⟨words, wordsSpelled, plain, derives⟩ := statementsPrint
  have spelled : (Node.block statements).spell .statement =
      .ok (.symbol .leftBrace :: words ++ [.symbol .rightBrace]) := by
    simp [spell, wordsSpelled, bind, Except.bind, pure, Except.pure]
  obtain ⟨derivation⟩ := derives (.symbol .rightBrace) (by simp)
  exact prints_of_statement rfl spelled (by simp [plain]) fun _ _ => ⟨.block derivation⟩

theorem prints_ifThen {condition consequence : Node} (conditionPrints : condition.Prints)
    (expression : condition.isExpression = true) (consequencePrints : consequence.Prints) :
    (Node.ifThen condition consequence).Prints := by
  obtain ⟨conditionWords, conditionSpelled, conditionPlain, conditionReads⟩ :=
    conditionPrints.1 expression 0 (Nat.zero_le _)
  obtain ⟨consequenceWords, consequenceSpelled, consequencePlain, consequenceReads⟩ :=
    consequencePrints.2
  have spelled : (Node.ifThen condition consequence).spell .statement =
      .ok (.keyword .ifKw :: (.symbol .leftParen :: conditionWords ++ [.symbol .rightParen]) ++
        consequenceWords) := by
    simp [spell, conditionSpelled, consequenceSpelled, bind, Except.bind, pure, Except.pure]
  refine prints_of_statement rfl spelled (by simp [conditionPlain, consequencePlain]) ?_
  intro next noElse
  obtain ⟨inner⟩ := conditionReads (.symbol .rightParen) (by simp)
  obtain ⟨conditionDerivation⟩ := inner.parenthesized (consequenceWords.headD next)
  obtain ⟨consequenceDerivation⟩ := consequenceReads next fun _ => noElse rfl
  exact ⟨.ifThen conditionDerivation consequenceDerivation (noElse rfl)⟩

theorem prints_ifElse {condition consequence alternative : Node}
    (conditionPrints : condition.Prints) (expression : condition.isExpression = true)
    (consequencePrints : consequence.Prints) (closed : consequence.endsOpen = false)
    (alternativePrints : alternative.Prints) :
    (Node.ifElse condition consequence alternative).Prints := by
  obtain ⟨conditionWords, conditionSpelled, conditionPlain, conditionReads⟩ :=
    conditionPrints.1 expression 0 (Nat.zero_le _)
  obtain ⟨consequenceWords, consequenceSpelled, consequencePlain, consequenceReads⟩ :=
    consequencePrints.2
  obtain ⟨alternativeWords, alternativeSpelled, alternativePlain, alternativeReads⟩ :=
    alternativePrints.2
  have spelled : (Node.ifElse condition consequence alternative).spell .statement =
      .ok (.keyword .ifKw :: (.symbol .leftParen :: conditionWords ++ [.symbol .rightParen]) ++
        consequenceWords ++ .keyword .elseKw :: alternativeWords) := by
    simp [spell, conditionSpelled, consequenceSpelled, alternativeSpelled, bind, Except.bind,
      pure, Except.pure]
  refine prints_of_statement rfl spelled
    (by simp [conditionPlain, consequencePlain, alternativePlain]) ?_
  intro next noElse
  obtain ⟨inner⟩ := conditionReads (.symbol .rightParen) (by simp)
  obtain ⟨conditionDerivation⟩ := inner.parenthesized (consequenceWords.headD (.keyword .elseKw))
  obtain ⟨consequenceDerivation⟩ := consequenceReads (.keyword .elseKw) (by simp [closed])
  obtain ⟨alternativeDerivation⟩ := alternativeReads next noElse
  exact ⟨.ifElse conditionDerivation consequenceDerivation alternativeDerivation⟩

theorem printsAll_cons {first : Node} {later : List Node} (firstPrints : first.Prints)
    (laterPrint : PrintsAll later) : PrintsAll (first :: later) := by
  obtain ⟨firstWords, firstSpelled, firstPlain, firstReads⟩ := firstPrints.2
  obtain ⟨laterWords, laterSpelled, laterPlain, laterDerive⟩ := laterPrint
  refine ⟨firstWords ++ laterWords, ?_, by simp [firstPlain, laterPlain], ?_⟩
  · simp [spellAll, firstSpelled, laterSpelled, bind, Except.bind, pure, Except.pure]
  · intro next noElse
    obtain ⟨laterDerivation⟩ := laterDerive next noElse
    have follows : laterWords.headD next ≠ .keyword .elseKw :=
      laterDerivation.headD_ne_else noElse
    obtain ⟨firstDerivation⟩ := firstReads (laterWords.headD next) fun _ => follows
    exact ⟨.someStatements firstDerivation laterDerivation⟩

theorem headD_ne_leftParen {nodes : List Node} {words : List Token}
    (derivation : Derivation (.moreArguments nodes) words (.symbol .rightParen)) :
    words.headD (.symbol .rightParen) ≠ .symbol .leftParen := by
  rcases derivation.opens with rfl | ⟨later, rfl⟩ <;> simp

theorem printsMore_cons {first : Node} {later : List Node} (firstPrints : first.Prints)
    (expression : first.isExpression = true) (laterPrint : PrintsMore later) :
    PrintsMore (first :: later) := by
  obtain ⟨firstWords, firstSpelled, firstPlain, firstReads⟩ :=
    firstPrints.1 expression 0 (Nat.zero_le _)
  obtain ⟨laterWords, laterSpelled, laterPlain, ⟨laterDerivation⟩⟩ := laterPrint
  obtain ⟨firstDerivation⟩ := firstReads _ (headD_ne_leftParen laterDerivation)
  refine ⟨.symbol .comma :: firstWords ++ laterWords, ?_, by simp [firstPlain, laterPlain],
    ⟨.nextArgument firstDerivation laterDerivation⟩⟩
  simp [spellMore, firstSpelled, laterSpelled, bind, Except.bind, pure, Except.pure]

theorem printsArguments_cons {first : Node} {later : List Node} (firstPrints : first.Prints)
    (expression : first.isExpression = true) (laterPrint : PrintsMore later) :
    PrintsArguments (first :: later) := by
  obtain ⟨firstWords, firstSpelled, firstPlain, firstReads⟩ :=
    firstPrints.1 expression 0 (Nat.zero_le _)
  obtain ⟨laterWords, laterSpelled, laterPlain, ⟨laterDerivation⟩⟩ := laterPrint
  obtain ⟨firstDerivation⟩ := firstReads _ (headD_ne_leftParen laterDerivation)
  refine ⟨firstWords ++ laterWords, ?_, by simp [firstPlain, laterPlain],
    ⟨.someArguments firstDerivation laterDerivation⟩⟩
  simp [spellArguments, firstSpelled, laterSpelled, bind, Except.bind, pure, Except.pure]

mutual

/-- A well-formed tree is spelled with words that derive it. -/
theorem prints_of_isWellFormed (node : Node) (wellFormed : node.isWellFormed = true) :
    node.Prints := by
  cases node with
  | int value => exact prints_int wellFormed
  | bool value => exact prints_bool value
  | name spelling => exact prints_name wellFormed
  | binary op left right =>
      simp only [isWellFormed, Bool.and_eq_true] at wellFormed
      obtain ⟨⟨⟨leftExpression, leftFormed⟩, rightExpression⟩, rightFormed⟩ := wellFormed
      exact prints_binary (prints_of_isWellFormed left leftFormed) leftExpression
        (prints_of_isWellFormed right rightFormed) rightExpression
  | letE target value =>
      simp only [isWellFormed, Bool.and_eq_true] at wellFormed
      obtain ⟨⟨name, expression⟩, valueFormed⟩ := wellFormed
      exact prints_letE name (prints_of_isWellFormed value valueFormed) expression
  | returnE value =>
      simp only [isWellFormed, Bool.and_eq_true] at wellFormed
      obtain ⟨expression, valueFormed⟩ := wellFormed
      exact prints_returnE (prints_of_isWellFormed value valueFormed) expression
  | block statements => exact prints_block (printsAll_of_areWellFormed statements wellFormed)
  | ifThen condition consequence =>
      simp only [isWellFormed, Bool.and_eq_true] at wellFormed
      obtain ⟨⟨expression, conditionFormed⟩, consequenceFormed⟩ := wellFormed
      exact prints_ifThen (prints_of_isWellFormed condition conditionFormed) expression
        (prints_of_isWellFormed consequence consequenceFormed)
  | ifElse condition consequence alternative =>
      simp only [isWellFormed, Bool.and_eq_true, Bool.not_eq_true'] at wellFormed
      obtain ⟨⟨⟨⟨expression, conditionFormed⟩, consequenceFormed⟩, closed⟩, alternativeFormed⟩ :=
        wellFormed
      exact prints_ifElse (prints_of_isWellFormed condition conditionFormed) expression
        (prints_of_isWellFormed consequence consequenceFormed) closed
        (prints_of_isWellFormed alternative alternativeFormed)
  | call callee arguments =>
      simp only [isWellFormed, Bool.and_eq_true] at wellFormed
      obtain ⟨⟨name, expressions⟩, argumentsFormed⟩ := wellFormed
      exact prints_call name (printsArguments_of_areWellFormed arguments expressions argumentsFormed)
  | func parameters body =>
      simp only [isWellFormed, Bool.and_eq_true] at wellFormed
      obtain ⟨names, bodyFormed⟩ := wellFormed
      exact prints_func names (printsAll_of_areWellFormed body bodyFormed)
  | strayLet | strayCall | strayFunc | shownAs | stray => cases wellFormed

theorem printsAll_of_areWellFormed (nodes : List Node) (wellFormed : areWellFormed nodes = true) :
    PrintsAll nodes := by
  cases nodes with
  | nil => exact ⟨[], rfl, rfl, fun _ _ => ⟨.noStatements⟩⟩
  | cons first later =>
      obtain ⟨firstFormed, laterFormed⟩ := Bool.and_eq_true_iff.mp wellFormed
      exact printsAll_cons (prints_of_isWellFormed first firstFormed)
        (printsAll_of_areWellFormed later laterFormed)

theorem printsMore_of_areWellFormed (nodes : List Node)
    (expressions : nodes.all isExpression = true) (wellFormed : areWellFormed nodes = true) :
    PrintsMore nodes := by
  cases nodes with
  | nil => exact ⟨[], rfl, rfl, ⟨.lastArgument⟩⟩
  | cons first later =>
      obtain ⟨expression, others⟩ := Bool.and_eq_true_iff.mp expressions
      obtain ⟨firstFormed, laterFormed⟩ := Bool.and_eq_true_iff.mp wellFormed
      exact printsMore_cons (prints_of_isWellFormed first firstFormed) expression
        (printsMore_of_areWellFormed later others laterFormed)

theorem printsArguments_of_areWellFormed (nodes : List Node)
    (expressions : nodes.all isExpression = true) (wellFormed : areWellFormed nodes = true) :
    PrintsArguments nodes := by
  cases nodes with
  | nil => exact ⟨[], rfl, rfl, ⟨.noArguments⟩⟩
  | cons first later =>
      obtain ⟨expression, others⟩ := Bool.and_eq_true_iff.mp expressions
      obtain ⟨firstFormed, laterFormed⟩ := Bool.and_eq_true_iff.mp wellFormed
      exact printsArguments_cons (prints_of_isWellFormed first firstFormed) expression
        (printsMore_of_areWellFormed later others laterFormed)

end

end Node

end TinyScript
