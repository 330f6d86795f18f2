import TinyScript.Proofs.Grammar.Soundness

/-!
# Readers follow derivations

A reader that comes upon words which spell its phrase takes exactly these words, if the token
behind them is the one that the derivation names. Chains are derived from the left and read from
the left, so that the induction speaks about a reader that holds the left operand already.
-/

set_option autoImplicit false

namespace TinyScript

namespace Parse

/-- A reader gives a value and leaves a rest. -/
def Gives {α : Type} {tokens : List Token} (result : Except ParseError (Parsed α tokens))
    (value : α) (rest : List Token) : Prop :=
  ∃ shorter, result = .ok ⟨value, rest, shorter⟩

def Leaves {α : Type} {tokens : List Token} (result : Except ParseError (Continued α tokens))
    (value : α) (rest : List Token) : Prop :=
  ∃ noLonger, result = .ok ⟨value, rest, noLonger⟩

theorem Gives.bind {α β : Type} {later tokens : List Token}
    {result : Except ParseError (Parsed α later)}
    {next : Parsed α later → Except ParseError (Parsed β tokens)}
    {value : α} {rest : List Token} {final : β} {left : List Token}
    (gives : Gives result value rest)
    (step : ∀ shorter, Gives (next ⟨value, rest, shorter⟩) final left) :
    Gives (result >>= next) final left := by
  obtain ⟨shorter, rfl⟩ := gives
  exact step shorter

theorem Leaves.bind {α β : Type} {later tokens : List Token}
    {result : Except ParseError (Continued α later)}
    {next : Continued α later → Except ParseError (Parsed β tokens)}
    {value : α} {rest : List Token} {final : β} {left : List Token}
    (leaves : Leaves result value rest)
    (step : ∀ noLonger, Gives (next ⟨value, rest, noLonger⟩) final left) :
    Gives (result >>= next) final left := by
  obtain ⟨noLonger, rfl⟩ := leaves
  exact step noLonger

theorem skip?_self (expected : Token) (rest : List Token) :
    skip? expected (expected :: rest) = some ⟨(), rest, Nat.lt_succ_self _⟩ := by
  simp [skip?]

theorem skip?_eq_none {expected : Token} {tokens : List Token}
    (other : current tokens ≠ expected) : skip? expected tokens = none := by
  cases tokens with
  | nil => rfl
  | cons first later => simpa [skip?, current] using other

theorem expect_gives (expected : Symbol) (rest : List Token) :
    Gives (expect expected (.symbol expected :: rest)) () rest := by
  simp [expect, skip?_self, Gives]

theorem identifier_gives (spelling : String) (rest : List Token) :
    Gives (identifier (.name spelling :: rest)) spelling rest :=
  ⟨_, rfl⟩

theorem statementEnd_semicolon (rest : List Token) :
    Leaves (statementEnd (.symbol .semicolon :: rest)) () rest := by
  simp [statementEnd, current, expect, skip?_self, Leaves, bind, Except.bind, pure, Except.pure]

theorem statementEnd_rightBrace {rest : List Token} (closes : current rest = .symbol .rightBrace) :
    Leaves (statementEnd rest) () rest := by
  simp [statementEnd, closes, Leaves]

theorem operator?_self (op : BinaryOp) (rest : List Token) :
    operator? op.precedence (.symbol op.symbol :: rest) =
      some ⟨op, rest, Nat.lt_succ_self _⟩ := by
  simp [operator?]

theorem operator?_eq_none {level : Nat} {tokens : List Token}
    (others : ∀ op, (current tokens).operator? = some op → op.precedence ≠ level) :
    operator? level tokens = none := by
  unfold operator?
  split
  · next mark later =>
      split
      · next op known => rw [if_neg (others op known)]
      · rfl
  · rfl

theorem moreParameters_gives (names : List String) (rest : List Token) :
    Gives (moreParameters ((names.flatMap fun spelling => [.symbol .comma, .name spelling]) ++
      .symbol .rightParen :: rest)) names rest := by
  induction names with
  | nil =>
      unfold moreParameters
      rw [List.flatMap_nil, List.nil_append, skip?_eq_none (by simp [current])]
      refine (expect_gives .rightParen rest).bind ?_
      intro _
      exact ⟨_, rfl⟩
  | cons first later ih =>
      change Gives (moreParameters (.symbol .comma :: .name first ::
        ((later.flatMap fun spelling => [.symbol .comma, .name spelling]) ++
          .symbol .rightParen :: rest))) _ _
      unfold moreParameters
      rw [skip?_self]
      refine (identifier_gives first _).bind ?_
      intro _
      refine ih.bind ?_
      intro _
      exact ⟨_, rfl⟩

theorem parameters_gives (names : List String) (rest : List Token) :
    Gives (parameters (nameWords names ++ .symbol .rightParen :: rest)) names rest := by
  cases names with
  | nil =>
      change Gives (parameters (.symbol .rightParen :: rest)) _ _
      unfold parameters
      rw [skip?_self]
      exact ⟨_, rfl⟩
  | cons first later =>
      rw [nameWords_cons, List.cons_append]
      unfold parameters
      rw [skip?_eq_none (by simp [current])]
      refine (identifier_gives first _).bind ?_
      intro _
      refine (moreParameters_gives later rest).bind ?_
      intro _
      exact ⟨_, rfl⟩

theorem program_cons {tokens afterFirst : List Token} {node : Node} {nodes : List Node}
    (more : current tokens ≠ .endMark) (first : Gives (statement tokens) node afterFirst)
    (later : program afterFirst = .ok nodes) : program tokens = .ok (node :: nodes) := by
  obtain ⟨_, firstRead⟩ := first
  unfold program
  split
  · exact absurd rfl more
  · exact absurd rfl more
  · simp [firstRead, later, bind, Except.bind, pure, Except.pure]

theorem statement_expression {tokens afterValue rest : List Token} {node : Node}
    (starts : (current tokens).startsExpression = true)
    (value : Gives (expression tokens) node afterValue)
    (stop : Leaves (statementEnd afterValue) () rest) : Gives (statement tokens) node rest := by
  unfold statement
  split
  case h_5 =>
    refine value.bind ?_
    intro _
    refine stop.bind ?_
    intro _
    exact ⟨_, rfl⟩
  all_goals simp [current, Token.startsExpression, Token.startsOperand] at starts

theorem expression_comparison {tokens rest : List Token} {node : Node}
    (starts : (current tokens).startsOperand = true) (value : Gives (operand 1 tokens) node rest) :
    Gives (expression tokens) node rest := by
  have other : current tokens ≠ .keyword .fnKw := by
    intro same
    simp [same, Token.startsOperand] at starts
  unfold expression
  rw [skip?_eq_none other]
  exact value

/-- Some turns of a chain: each takes an operator of the level and an operand of the next one. -/
inductive Turns (level : Nat) (first : Node) (afterFirst : List Token) :
    Node → List Token → Prop where
  | none : Turns level first afterFirst first afterFirst
  | turn {op : BinaryOp} {left right : Node} {tokens rest : List Token} :
      Turns level first afterFirst left (.symbol op.symbol :: tokens) →
      op.precedence = level →
      Gives (operand (level + 1) tokens) right rest →
      Turns level first afterFirst (.binary op left right) rest

/-- What the chain does after some turns it does from its first operand on. -/
theorem Turns.leaves {level : Nat} {first node : Node} {afterFirst rest : List Token}
    (turns : Turns level first afterFirst node rest) {final : Node} {left : List Token}
    (leaves : Leaves (chain level node rest) final left) :
    Leaves (chain level first afterFirst) final left := by
  induction turns with
  | none => exact leaves
  | @turn op _ _ _ _ _ levelOf gives ih =>
      apply ih
      subst levelOf
      obtain ⟨_, givesEq⟩ := gives
      obtain ⟨_, leavesEq⟩ := leaves
      unfold chain
      rw [operator?_self]
      simp only [givesEq, leavesEq, bind, Except.bind, pure, Except.pure]
      exact ⟨_, rfl⟩

/-- The reader of a level comes to hold a node with a rest left. On its way to a chain this may be
any number of turns after its first operand. -/
def Reaches (level : Nat) (tokens : List Token) (node : Node) (rest : List Token) : Prop :=
  if level < primaryLevel then
    ∃ first afterFirst, Gives (operand (level + 1) tokens) first afterFirst ∧
      Turns level first afterFirst node rest
  else Gives (operand level tokens) node rest

theorem chain_leaves {level : Nat} {rest : List Token} (node : Node)
    (others : ∀ op, (current rest).operator? = some op → op.precedence ≠ level) :
    Leaves (chain level node rest) node rest := by
  unfold chain
  rw [operator?_eq_none others]
  exact ⟨Nat.le_refl _, rfl⟩

theorem Reaches.operand {level : Nat} {tokens rest : List Token} {node : Node}
    (reaches : Reaches level tokens node rest)
    (others : ∀ op, (current rest).operator? = some op → op.precedence ≠ level) :
    Gives (operand level tokens) node rest := by
  unfold Reaches at reaches
  split at reaches
  · next chained =>
      obtain ⟨first, afterFirst, gives, turns⟩ := reaches
      unfold Parse.operand
      rw [if_pos chained]
      refine gives.bind ?_
      intro _
      refine (turns.leaves (chain_leaves node others)).bind ?_
      intro _
      exact ⟨_, rfl⟩
  · exact reaches

end Parse

/-- What the readers do with the words of a phrase in front of the token `next`. -/
def Phrase.ReadBack (next : Token) : Phrase → List Token → Prop
  | .statements nodes, words =>
      (next = .symbol .rightBrace → ∀ rest,
        Parse.Gives (Parse.blockBody (words ++ .symbol .rightBrace :: rest)) nodes rest) ∧
      (next = .endMark → ∀ rest, Parse.current rest = .endMark →
        Parse.program (words ++ rest) = .ok nodes)
  | .statement node, words => ∀ rest, Parse.current rest = next →
      Parse.Gives (Parse.statement (words ++ rest)) node rest
  | .expression node, words => next.operator? = none → ∀ rest, Parse.current rest = next →
      Parse.Gives (Parse.expression (words ++ rest)) node rest
  | .operand level node, words =>
      (∀ op, next.operator? = some op → op.precedence ≤ level) →
      ∀ rest, Parse.current rest = next → Parse.Reaches level (words ++ rest) node rest
  | .arguments nodes, words => next = .symbol .rightParen → ∀ rest,
      Parse.Gives (Parse.arguments (words ++ .symbol .rightParen :: rest)) nodes rest
  | .moreArguments nodes, words => next = .symbol .rightParen → ∀ rest,
      Parse.Gives (Parse.moreArguments (words ++ .symbol .rightParen :: rest)) nodes rest

section

variable {next : Token}

theorem readBack_noStatements : (Phrase.statements []).ReadBack next [] := by
  constructor
  · intro closes rest
    unfold Parse.blockBody
    rw [List.nil_append, Parse.skip?_self]
    exact ⟨_, rfl⟩
  · intro ends rest front
    rw [List.nil_append]
    unfold Parse.program
    split
    · rfl
    · rfl
    · next some unmarked =>
        cases rest with
        | nil => exact absurd rfl some
        | cons first later => exact absurd (congrArg (· :: later) front) (unmarked later)

theorem readBack_noArguments : (Phrase.arguments []).ReadBack next [] := by
  intro _ rest
  unfold Parse.arguments
  rw [List.nil_append, Parse.skip?_self]
  exact ⟨_, rfl⟩

theorem readBack_lastArgument : (Phrase.moreArguments []).ReadBack next [] := by
  intro _ rest
  unfold Parse.moreArguments
  rw [List.nil_append, Parse.skip?_eq_none (by simp [Parse.current])]
  refine (Parse.expect_gives .rightParen rest).bind ?_
  intro _
  exact ⟨_, rfl⟩

theorem readBack_someStatements {node : Node} {nodes : List Node} {first later : List Token}
    (opens : (Phrase.statement node).Opens first)
    (firstBack : (Phrase.statement node).ReadBack (later.headD next) first)
    (laterBack : (Phrase.statements nodes).ReadBack next later) :
    (Phrase.statements (node :: nodes)).ReadBack next (first ++ later) := by
  obtain ⟨word, others, rfl, starts⟩ := opens
  constructor
  · intro closes rest
    subst closes
    have front : Parse.current (later ++ .symbol .rightBrace :: rest) =
        later.headD (.symbol .rightBrace) := Parse.current_append _ _
    have other : word ≠ .symbol .rightBrace := by
      rintro rfl
      simp [Token.startsStatement, Token.startsExpression, Token.startsOperand] at starts
    rw [List.append_assoc]
    unfold Parse.blockBody
    rw [Parse.skip?_eq_none (by simpa [Parse.current] using other)]
    refine (firstBack _ front).bind ?_
    intro _
    refine (laterBack.1 rfl rest).bind ?_
    intro _
    exact ⟨_, rfl⟩
  · intro ends rest front
    subst ends
    have front' : Parse.current (later ++ rest) = later.headD .endMark := by
      rw [Parse.current_append, front]
    have other : word ≠ .endMark := by
      rintro rfl
      simp [Token.startsStatement, Token.startsExpression, Token.startsOperand] at starts
    rw [List.append_assoc]
    exact Parse.program_cons other (firstBack _ front') (laterBack.2 rfl rest front)

theorem readBack_letE {target : String} {value : Node} {words : List Token}
    (back : (Phrase.expression value).ReadBack (.symbol .semicolon) words) :
    (Phrase.statement (.letE target value)).ReadBack next
      (.keyword .letKw :: .name target :: .symbol .assign :: words ++ [.symbol .semicolon]) := by
  intro rest _
  simp only [List.cons_append]
  rw [List.append_assoc]
  unfold Parse.statement
  refine (Parse.identifier_gives target _).bind ?_
  intro _
  refine (Parse.expect_gives .assign _).bind ?_
  intro _
  refine (back rfl (.symbol .semicolon :: rest) rfl).bind ?_
  intro _
  refine (Parse.expect_gives .semicolon rest).bind ?_
  intro _
  exact ⟨_, rfl⟩

theorem StatementEnd.plain {before : Token} {stop : List Token}
    (ends : StatementEnd before stop next) : before.operator? = none := by
  cases ends <;> rfl

theorem StatementEnd.leaves {before : Token} {stop rest : List Token}
    (ends : StatementEnd before stop next) (front : Parse.current rest = next) :
    Parse.current (stop ++ rest) = before ∧
      Parse.Leaves (Parse.statementEnd (stop ++ rest)) () rest := by
  cases ends with
  | semicolon => exact ⟨rfl, Parse.statementEnd_semicolon rest⟩
  | omitted => exact ⟨front, Parse.statementEnd_rightBrace front⟩

theorem readBack_returnE {value : Node} {words stop : List Token} {before : Token}
    (back : (Phrase.expression value).ReadBack before words)
    (ends : StatementEnd before stop next) :
    (Phrase.statement (.returnE value)).ReadBack next (.keyword .returnKw :: words ++ stop) := by
  intro rest front
  obtain ⟨stopFront, leaves⟩ := ends.leaves front
  simp only [List.cons_append]
  rw [List.append_assoc]
  unfold Parse.statement
  refine (back ends.plain _ stopFront).bind ?_
  intro _
  refine leaves.bind ?_
  intro _
  exact ⟨_, rfl⟩

theorem readBack_expressionE {node : Node} {words stop : List Token} {before : Token}
    (opens : (Phrase.expression node).Opens words)
    (back : (Phrase.expression node).ReadBack before words)
    (ends : StatementEnd before stop next) :
    (Phrase.statement node).ReadBack next (words ++ stop) := by
  intro rest front
  obtain ⟨stopFront, leaves⟩ := ends.leaves front
  obtain ⟨word, others, rfl, starts⟩ := opens
  rw [List.append_assoc]
  exact Parse.statement_expression starts (back ends.plain _ stopFront) leaves

theorem readBack_block {nodes : List Node} {words : List Token}
    (back : (Phrase.statements nodes).ReadBack (.symbol .rightBrace) words) :
    (Phrase.statement (.block nodes)).ReadBack next
      (.symbol .leftBrace :: words ++ [.symbol .rightBrace]) := by
  intro rest _
  simp only [List.cons_append]
  rw [List.append_assoc]
  unfold Parse.statement
  refine (back.1 rfl rest).bind ?_
  intro _
  exact ⟨_, rfl⟩

theorem operator?_headD {node : Node} {words : List Token} {next : Token}
    (opens : (Phrase.statement node).Opens words) : (words.headD next).operator? = none := by
  obtain ⟨word, others, rfl, starts⟩ := opens
  exact Token.operator?_eq_none_of_startsStatement starts

theorem readBack_ifThen {condition consequence : Node}
    {conditionWords consequenceWords : List Token}
    (opens : (Phrase.statement consequence).Opens consequenceWords)
    (conditionBack :
      (Phrase.expression condition).ReadBack (consequenceWords.headD next) conditionWords)
    (consequenceBack : (Phrase.statement consequence).ReadBack next consequenceWords)
    (noElse : next ≠ .keyword .elseKw) :
    (Phrase.statement (.ifThen condition consequence)).ReadBack next
      (.keyword .ifKw :: conditionWords ++ consequenceWords) := by
  intro rest front
  have middle : Parse.current (consequenceWords ++ rest) = consequenceWords.headD next := by
    rw [Parse.current_append, front]
  simp only [List.cons_append]
  rw [List.append_assoc]
  unfold Parse.statement
  refine (conditionBack (operator?_headD opens) _ middle).bind ?_
  intro _
  refine (consequenceBack rest front).bind ?_
  intro _
  rw [Parse.skip?_eq_none (by rw [front]; exact noElse)]
  exact ⟨_, rfl⟩

theorem readBack_ifElse {condition consequence alternative : Node}
    {conditionWords consequenceWords alternativeWords : List Token}
    (opens : (Phrase.statement consequence).Opens consequenceWords)
    (conditionBack : (Phrase.expression condition).ReadBack
      (consequenceWords.headD (.keyword .elseKw)) conditionWords)
    (consequenceBack :
      (Phrase.statement consequence).ReadBack (.keyword .elseKw) consequenceWords)
    (alternativeBack : (Phrase.statement alternative).ReadBack next alternativeWords) :
    (Phrase.statement (.ifElse condition consequence alternative)).ReadBack next
      (.keyword .ifKw :: conditionWords ++ consequenceWords ++
        .keyword .elseKw :: alternativeWords) := by
  intro rest front
  have middle : Parse.current
      (consequenceWords ++ .keyword .elseKw :: (alternativeWords ++ rest)) =
        consequenceWords.headD (.keyword .elseKw) := Parse.current_append _ _
  rw [List.append_assoc, List.append_assoc, List.cons_append, List.cons_append]
  unfold Parse.statement
  refine (conditionBack (operator?_headD opens) _ middle).bind ?_
  intro _
  refine (consequenceBack _ rfl).bind ?_
  intro _
  rw [Parse.skip?_self]
  refine (alternativeBack rest front).bind ?_
  intro _
  exact ⟨_, rfl⟩

theorem readBack_func {parameters : List String} {body : List Node} {words : List Token}
    (back : (Phrase.statements body).ReadBack (.symbol .rightBrace) words) :
    (Phrase.expression (.func parameters body)).ReadBack next
      (.keyword .fnKw :: .symbol .leftParen :: nameWords parameters ++
        .symbol .rightParen :: .symbol .leftBrace :: words ++ [.symbol .rightBrace]) := by
  intro _ rest _
  have shape : .keyword .fnKw :: .symbol .leftParen :: nameWords parameters ++
      .symbol .rightParen :: .symbol .leftBrace :: words ++ [.symbol .rightBrace] ++ rest =
        .keyword .fnKw :: .symbol .leftParen :: (nameWords parameters ++
          .symbol .rightParen :: .symbol .leftBrace :: (words ++ .symbol .rightBrace :: rest)) := by
    simp
  rw [shape]
  unfold Parse.expression
  rw [Parse.skip?_self]
  refine (Parse.expect_gives .leftParen _).bind ?_
  intro _
  refine (Parse.parameters_gives parameters _).bind ?_
  intro _
  refine (Parse.expect_gives .leftBrace _).bind ?_
  intro _
  refine (back.1 rfl rest).bind ?_
  intro _
  exact ⟨_, rfl⟩

/-- An operand is read whole in front of operators that bind less tightly than its own level. -/
theorem operand_gives {level : Nat} {node : Node} {words rest : List Token}
    (back : (Phrase.operand level node).ReadBack next words)
    (looser : ∀ op, next.operator? = some op → op.precedence < level)
    (front : Parse.current rest = next) :
    Parse.Gives (Parse.operand level (words ++ rest)) node rest := by
  have reaches := back (fun op stands => Nat.le_of_lt (looser op stands)) rest front
  refine reaches.operand ?_
  rw [front]
  intro op stands
  exact Nat.ne_of_lt (looser op stands)

theorem readBack_comparison {node : Node} {words : List Token}
    (opens : (Phrase.operand 1 node).Opens words)
    (back : (Phrase.operand 1 node).ReadBack next words) :
    (Phrase.expression node).ReadBack next words := by
  intro plain rest front
  have gives := operand_gives back (by simp [plain]) front
  obtain ⟨word, others, rfl, starts⟩ := opens
  exact Parse.expression_comparison starts gives

theorem readBack_tighter {level : Nat} {node : Node} {words : List Token}
    (chained : level < Parse.primaryLevel)
    (back : (Phrase.operand (level + 1) node).ReadBack next words) :
    (Phrase.operand level node).ReadBack next words := by
  intro looser rest front
  have gives := operand_gives back (fun op stands => Nat.lt_succ_of_le (looser op stands)) front
  unfold Parse.Reaches
  rw [if_pos chained]
  exact ⟨node, rest, gives, .none⟩

theorem precedence_lt_primaryLevel (op : BinaryOp) : op.precedence < Parse.primaryLevel := by
  cases op <;> decide

theorem readBack_binary {op : BinaryOp} {left right : Node} {leftWords rightWords : List Token}
    (leftBack : (Phrase.operand op.precedence left).ReadBack (.symbol op.symbol) leftWords)
    (rightBack : (Phrase.operand (op.precedence + 1) right).ReadBack next rightWords) :
    (Phrase.operand op.precedence (.binary op left right)).ReadBack next
      (leftWords ++ .symbol op.symbol :: rightWords) := by
  intro looser rest front
  have chained := precedence_lt_primaryLevel op
  have rightGives := operand_gives rightBack
    (fun other stands => Nat.lt_succ_of_le (looser other stands)) front
  have leftReaches := leftBack (by simp [Token.operator?])
    (.symbol op.symbol :: (rightWords ++ rest)) rfl
  rw [List.append_assoc, List.cons_append]
  unfold Parse.Reaches at leftReaches ⊢
  rw [if_pos chained] at leftReaches ⊢
  obtain ⟨first, afterFirst, gives, turns⟩ := leftReaches
  exact ⟨first, afterFirst, gives, turns.turn rfl rightGives⟩

theorem readBack_primary {node : Node} {words : List Token}
    (back : ∀ rest, Parse.current rest = next →
      Parse.Gives (Parse.primary (words ++ rest)) node rest) :
    (Phrase.operand Parse.primaryLevel node).ReadBack next words := by
  intro _ rest front
  unfold Parse.Reaches
  rw [if_neg (Nat.lt_irrefl _)]
  unfold Parse.operand
  rw [if_neg (Nat.lt_irrefl _)]
  exact back rest front

theorem readBack_bool {value : Bool} : (Phrase.operand Parse.primaryLevel (.bool value)).ReadBack
    next [.keyword (if value then .trueKw else .falseKw)] := by
  apply readBack_primary
  intro rest _
  unfold Parse.primary
  cases value <;> exact ⟨_, rfl⟩

theorem readBack_name {spelling : String} (noCall : next ≠ .symbol .leftParen) :
    (Phrase.operand Parse.primaryLevel (.name spelling)).ReadBack next [.name spelling] := by
  apply readBack_primary
  intro rest front
  rw [List.singleton_append]
  unfold Parse.primary
  rw [Parse.skip?_eq_none (by rw [front]; exact noCall)]
  exact ⟨_, rfl⟩

theorem readBack_call {callee : String} {nodes : List Node} {words : List Token}
    (back : (Phrase.arguments nodes).ReadBack (.symbol .rightParen) words) :
    (Phrase.operand Parse.primaryLevel (.call callee nodes)).ReadBack next
      (.name callee :: .symbol .leftParen :: words ++ [.symbol .rightParen]) := by
  apply readBack_primary
  intro rest _
  simp only [List.cons_append]
  rw [List.append_assoc]
  unfold Parse.primary
  rw [Parse.skip?_self]
  refine (back rfl rest).bind ?_
  intro _
  exact ⟨_, rfl⟩

theorem readBack_paren {node : Node} {words : List Token}
    (back : (Phrase.expression node).ReadBack (.symbol .rightParen) words) :
    (Phrase.operand Parse.primaryLevel node).ReadBack next
      (.symbol .leftParen :: words ++ [.symbol .rightParen]) := by
  apply readBack_primary
  intro rest _
  simp only [List.cons_append]
  rw [List.append_assoc]
  unfold Parse.primary
  refine (back rfl (.symbol .rightParen :: rest) rfl).bind ?_
  intro _
  refine (Parse.expect_gives .rightParen rest).bind ?_
  intro _
  exact ⟨_, rfl⟩

theorem operator?_headD_moreArguments {nodes : List Node} {words : List Token}
    (opens : (Phrase.moreArguments nodes).Opens words) :
    (words.headD (.symbol .rightParen)).operator? = none := by
  obtain rfl | ⟨others, rfl⟩ := opens <;> rfl

theorem readBack_someArguments {node : Node} {nodes : List Node} {first later : List Token}
    (opens : (Phrase.expression node).Opens first)
    (laterOpens : (Phrase.moreArguments nodes).Opens later)
    (firstBack : (Phrase.expression node).ReadBack (later.headD next) first)
    (laterBack : (Phrase.moreArguments nodes).ReadBack next later) :
    (Phrase.arguments (node :: nodes)).ReadBack next (first ++ later) := by
  intro closes rest
  subst closes
  have front : Parse.current (later ++ .symbol .rightParen :: rest) =
      later.headD (.symbol .rightParen) := Parse.current_append _ _
  obtain ⟨word, others, rfl, starts⟩ := opens
  have other : word ≠ .symbol .rightParen := by
    rintro rfl
    simp [Token.startsExpression, Token.startsOperand] at starts
  rw [List.append_assoc]
  unfold Parse.arguments
  rw [Parse.skip?_eq_none (by simpa [Parse.current] using other)]
  refine (firstBack (operator?_headD_moreArguments laterOpens) _ front).bind ?_
  intro _
  refine (laterBack rfl rest).bind ?_
  intro _
  exact ⟨_, rfl⟩

theorem readBack_nextArgument {node : Node} {nodes : List Node} {first later : List Token}
    (laterOpens : (Phrase.moreArguments nodes).Opens later)
    (firstBack : (Phrase.expression node).ReadBack (later.headD next) first)
    (laterBack : (Phrase.moreArguments nodes).ReadBack next later) :
    (Phrase.moreArguments (node :: nodes)).ReadBack next (.symbol .comma :: first ++ later) := by
  intro closes rest
  subst closes
  have front : Parse.current (later ++ .symbol .rightParen :: rest) =
      later.headD (.symbol .rightParen) := Parse.current_append _ _
  rw [List.append_assoc, List.cons_append]
  unfold Parse.moreArguments
  rw [Parse.skip?_self]
  refine (firstBack (operator?_headD_moreArguments laterOpens) _ front).bind ?_
  intro _
  refine (laterBack rfl rest).bind ?_
  intro _
  exact ⟨_, rfl⟩

end

/-- The readers follow every derivation. -/
theorem Derivation.readBack {phrase : Phrase} {words : List Token} {next : Token}
    (derivation : Derivation phrase words next) : phrase.ReadBack next words := by
  induction derivation with
  | noStatements => exact readBack_noStatements
  | someStatements first _ firstIH laterIH =>
      exact readBack_someStatements first.opens firstIH laterIH
  | letE _ ih => exact readBack_letE ih
  | returnE _ ends ih => exact readBack_returnE ih ends
  | block _ ih => exact readBack_block ih
  | ifThen _ consequence noElse conditionIH consequenceIH =>
      exact readBack_ifThen consequence.opens conditionIH consequenceIH noElse
  | ifElse _ consequence _ conditionIH consequenceIH alternativeIH =>
      exact readBack_ifElse consequence.opens conditionIH consequenceIH alternativeIH
  | expressionE value ends ih => exact readBack_expressionE value.opens ih ends
  | func _ ih => exact readBack_func ih
  | comparison value ih => exact readBack_comparison value.opens ih
  | tighter chained _ ih => exact readBack_tighter chained ih
  | binary _ _ leftIH rightIH => exact readBack_binary leftIH rightIH
  | int | givenBool =>
      apply readBack_primary
      intro rest _
      unfold Parse.primary
      exact ⟨_, rfl⟩
  | bool => exact readBack_bool
  | name noCall => exact readBack_name noCall
  | call _ ih => exact readBack_call ih
  | paren _ ih => exact readBack_paren ih
  | noArguments => exact readBack_noArguments
  | someArguments first later firstIH laterIH =>
      exact readBack_someArguments first.opens later.opens firstIH laterIH
  | lastArgument => exact readBack_lastArgument
  | nextArgument _ later firstIH laterIH => exact readBack_nextArgument later.opens firstIH laterIH

theorem Derivation.program {nodes : List Node} {words rest : List Token}
    (derivation : Derivation (.statements nodes) words .endMark)
    (ends : Parse.current rest = .endMark) : Parse.program (words ++ rest) = .ok nodes :=
  derivation.readBack.2 rfl rest ends

end TinyScript
