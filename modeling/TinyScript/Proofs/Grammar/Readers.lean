import TinyScript.Proofs.Grammar.Completeness

/-!
# Readers that hand tokens on

The readers keep the evidence that they take tokens, because it is why they end. To follow several
of them one after the other they are seen here without it, as steps that take tokens and hand on the
ones they left. What a reader does in front of a token is then one equation.
-/

set_option autoImplicit false

namespace TinyScript

/-- Why a token cannot be a name. -/
def Token.nameFault : Token → ParseFault
  | .empty => .emptyToken
  | found => .expectedIdentifier found

/-- Why an operand cannot begin with a token. -/
def Token.operandFault : Token → ParseFault
  | .illegal content => .illegalCharacter content
  | .empty => .emptyToken
  | found => .unexpectedToken found

namespace Parse

/-- A step that takes tokens and hands on those that it left. -/
abbrev Reader (α : Type) : Type := StateT (List Token) (Except ParseError) α

/-- A value with the tokens left, without the evidence that some were taken. -/
def Parsed.pair {α : Type} {tokens : List Token} (parsed : Parsed α tokens) : α × List Token :=
  (parsed.value, parsed.rest)

/-- The same where possibly none was taken. -/
def Continued.pair {α : Type} {tokens : List Token} (continued : Continued α tokens) :
    α × List Token :=
  (continued.value, continued.rest)

theorem shorter_of_pair {α : Type} {tokens rest : List Token} {value : α}
    {result : Except ParseError (Parsed α tokens)}
    (gives : result.map Parsed.pair = .ok (value, rest)) : rest.length < tokens.length := by
  cases result with
  | error error => cases gives
  | ok parsed =>
      cases gives
      exact parsed.shorter

theorem map_bind {α β γ δ : Type} {tokens : List Token} {reader : Reader α} {inner : α → Reader β}
    {result : Except ParseError γ} {next : γ → Except ParseError δ} {pair : γ → α × List Token}
    {nextPair : δ → β × List Token} (first : reader tokens = result.map pair)
    (same : ∀ given, (next given).map nextPair = inner (pair given).1 (pair given).2) :
    (result >>= next).map nextPair = (reader >>= inner) tokens := by
  change _ = (reader tokens).bind _
  rw [first]
  cases result with
  | error error => rfl
  | ok given => exact same given

theorem map_bind_last {α γ δ : Type} {result : Except ParseError γ} {next : γ → Except ParseError δ}
    {pair : γ → α × List Token} {nextPair : δ → α × List Token}
    (same : ∀ given, (next given).map nextPair = .ok (pair given)) :
    (result >>= next).map nextPair = result.map pair := by
  cases result with
  | error error => rfl
  | ok given => exact same given

namespace Reader

def expect (expected : Symbol) : Reader Unit :=
  fun tokens => (Parse.expect expected tokens).map Parsed.pair

def identifier : Reader String :=
  fun tokens => (Parse.identifier tokens).map Parsed.pair

def statementEnd : Reader Unit :=
  fun tokens => (Parse.statementEnd tokens).map Continued.pair

def parameters : Reader (List String) :=
  fun tokens => (Parse.parameters tokens).map Parsed.pair

def moreParameters : Reader (List String) :=
  fun tokens => (Parse.moreParameters tokens).map Parsed.pair

def statement : Reader Node :=
  fun tokens => (Parse.statement tokens).map Parsed.pair

def blockBody : Reader (List Node) :=
  fun tokens => (Parse.blockBody tokens).map Parsed.pair

def expression : Reader Node :=
  fun tokens => (Parse.expression tokens).map Parsed.pair

def operand (level : Nat) : Reader Node :=
  fun tokens => (Parse.operand level tokens).map Parsed.pair

def chain (level : Nat) (left : Node) : Reader Node :=
  fun tokens => (Parse.chain level left tokens).map Continued.pair

def primary : Reader Node :=
  fun tokens => (Parse.primary tokens).map Parsed.pair

def arguments : Reader (List Node) :=
  fun tokens => (Parse.arguments tokens).map Parsed.pair

def moreArguments : Reader (List Node) :=
  fun tokens => (Parse.moreArguments tokens).map Parsed.pair

variable {tokens : List Token}

theorem expect_self (expected : Symbol) (later : List Token) :
    expect expected (.symbol expected :: later) = (pure () : Reader Unit) later := by
  simp only [expect, Parse.expect, skip?_self]
  rfl

theorem expect_other {expected : Symbol} (other : current tokens ≠ .symbol expected) :
    expect expected tokens = .error ⟨.expectedSymbol expected (current tokens), tokens⟩ := by
  simp only [expect, Parse.expect, skip?_eq_none other]
  rfl

theorem identifier_name (spelling : String) (later : List Token) :
    identifier (.name spelling :: later) = (pure spelling : Reader String) later :=
  rfl

theorem identifier_other (noName : ∀ spelling, current tokens ≠ .name spelling) :
    identifier tokens = .error ⟨(current tokens).nameFault, tokens⟩ := by
  cases tokens with
  | nil => rfl
  | cons first later =>
      cases first with
      | name spelling => exact absurd rfl (noName spelling)
      | _ => rfl

theorem statementEnd_rightBrace (closes : current tokens = .symbol .rightBrace) :
    statementEnd tokens = (pure () : Reader Unit) tokens := by
  simp only [statementEnd, Parse.statementEnd, closes]
  rfl

theorem statementEnd_otherwise (goesOn : current tokens ≠ .symbol .rightBrace) :
    statementEnd tokens = expect .semicolon tokens := by
  unfold statementEnd Parse.statementEnd
  split
  · next closes => exact absurd closes goesOn
  · exact map_bind_last fun _ => rfl

theorem statement_letKw (later : List Token) :
    statement (.keyword .letKw :: later) =
      (do
        let target ← identifier
        expect .assign
        let value ← expression
        expect .semicolon
        return .letE target value : Reader Node) later := by
  rw [statement, Parse.statement]
  exact map_bind rfl fun target => map_bind rfl fun _ => map_bind rfl fun _ => map_bind rfl fun _ =>
    rfl

theorem statement_returnKw (later : List Token) :
    statement (.keyword .returnKw :: later) =
      (do
        let value ← expression
        statementEnd
        return .returnE value : Reader Node) later := by
  rw [statement, Parse.statement]
  exact map_bind rfl fun _ => map_bind rfl fun _ => rfl

theorem statement_leftBrace (later : List Token) :
    statement (.symbol .leftBrace :: later) =
      (do
        let statements ← blockBody
        return .block statements : Reader Node) later := by
  rw [statement, Parse.statement]
  exact map_bind rfl fun _ => rfl

def alternative (condition consequence : Node) : Reader Node :=
  fun tokens =>
    match skip? (.keyword .elseKw) tokens with
    | some afterElse =>
        (do
          let alternative ← statement
          return .ifElse condition consequence alternative : Reader Node) afterElse.rest
    | none => .ok (.ifThen condition consequence, tokens)

theorem alternative_elseKw (condition consequence : Node) (later : List Token) :
    alternative condition consequence (.keyword .elseKw :: later) =
      (do
        let alternative ← statement
        return .ifElse condition consequence alternative : Reader Node) later := by
  rw [alternative, skip?_self]

theorem alternative_missing (condition consequence : Node)
    (missing : current tokens ≠ .keyword .elseKw) :
    alternative condition consequence tokens =
      (pure (.ifThen condition consequence) : Reader Node) tokens := by
  rw [alternative, skip?_eq_none missing]
  rfl

theorem statement_ifKw (later : List Token) :
    statement (.keyword .ifKw :: later) =
      (do
        let condition ← expression
        let consequence ← statement
        alternative condition consequence : Reader Node) later := by
  unfold statement
  rw [Parse.statement]
  refine map_bind rfl fun condition => map_bind rfl fun consequence => ?_
  unfold alternative
  simp only [Parsed.pair]
  split
  · next afterElse found =>
      rw [found]
      exact map_bind rfl fun _ => rfl
  · next missing =>
      rw [missing]
      rfl

theorem statement_otherwise (others : current tokens ∉
      [.keyword .letKw, .keyword .returnKw, .symbol .leftBrace, .keyword .ifKw]) :
    statement tokens =
      (do
        let value ← expression
        statementEnd
        return value : Reader Node) tokens := by
  unfold statement
  unfold Parse.statement
  split
  case h_5 => exact map_bind rfl fun _ => map_bind rfl fun _ => rfl
  all_goals simp [current] at others

theorem blockBody_close (later : List Token) :
    blockBody (.symbol .rightBrace :: later) = (pure [] : Reader (List Node)) later := by
  rw [blockBody, Parse.blockBody, skip?_self]
  rfl

theorem blockBody_more (more : current tokens ≠ .symbol .rightBrace) :
    blockBody tokens =
      (do
        let first ← statement
        let later ← blockBody
        return first :: later : Reader (List Node)) tokens := by
  rw [blockBody, Parse.blockBody, skip?_eq_none more]
  exact map_bind rfl fun _ => map_bind rfl fun _ => rfl

theorem expression_fnKw (later : List Token) :
    expression (.keyword .fnKw :: later) =
      (do
        expect .leftParen
        let names ← parameters
        expect .leftBrace
        let body ← blockBody
        return .func names body : Reader Node) later := by
  rw [expression, Parse.expression, skip?_self]
  exact map_bind rfl fun _ => map_bind rfl fun _ => map_bind rfl fun _ => map_bind rfl fun _ => rfl

theorem expression_otherwise (other : current tokens ≠ .keyword .fnKw) :
    expression tokens = operand 1 tokens := by
  rw [expression, Parse.expression, skip?_eq_none other]
  rfl

theorem operand_chained {level : Nat} (chained : level < primaryLevel) (tokens : List Token) :
    operand level tokens =
      (do
        let first ← operand (level + 1)
        chain level first : Reader Node) tokens := by
  rw [operand, Parse.operand, if_pos chained]
  exact map_bind rfl fun _ => map_bind_last fun _ => rfl

theorem operand_primaryLevel (tokens : List Token) :
    operand primaryLevel tokens = primary tokens := by
  rw [operand, Parse.operand]
  rfl

theorem chain_stop {level : Nat} (left : Node) (stops : operator? level tokens = none) :
    chain level left tokens = .ok (left, tokens) := by
  rw [chain, Parse.chain, stops]
  rfl

theorem chain_operator (op : BinaryOp) (left : Node) (later : List Token) :
    chain op.precedence left (.symbol op.symbol :: later) =
      (do
        let right ← operand (op.precedence + 1)
        chain op.precedence (.binary op left right) : Reader Node) later := by
  rw [chain, Parse.chain, operator?_self]
  exact map_bind rfl fun _ => map_bind_last fun _ => rfl

theorem arguments_close (later : List Token) :
    arguments (.symbol .rightParen :: later) = (pure [] : Reader (List Node)) later := by
  rw [arguments, Parse.arguments, skip?_self]
  rfl

theorem arguments_more (more : current tokens ≠ .symbol .rightParen) :
    arguments tokens =
      (do
        let first ← expression
        let later ← moreArguments
        return first :: later : Reader (List Node)) tokens := by
  rw [arguments, Parse.arguments, skip?_eq_none more]
  exact map_bind rfl fun _ => map_bind rfl fun _ => rfl

theorem moreArguments_comma (later : List Token) :
    moreArguments (.symbol .comma :: later) =
      (do
        let next ← expression
        let later ← moreArguments
        return next :: later : Reader (List Node)) later := by
  rw [moreArguments, Parse.moreArguments, skip?_self]
  exact map_bind rfl fun _ => map_bind rfl fun _ => rfl

theorem moreArguments_close (last : current tokens ≠ .symbol .comma) :
    moreArguments tokens =
      (do
        expect .rightParen
        return [] : Reader (List Node)) tokens := by
  rw [moreArguments, Parse.moreArguments, skip?_eq_none last]
  exact map_bind rfl fun _ => rfl

theorem parameters_close (later : List Token) :
    parameters (.symbol .rightParen :: later) = (pure [] : Reader (List String)) later := by
  rw [parameters, Parse.parameters, skip?_self]
  rfl

theorem parameters_more (more : current tokens ≠ .symbol .rightParen) :
    parameters tokens =
      (do
        let first ← identifier
        let later ← moreParameters
        return first :: later : Reader (List String)) tokens := by
  rw [parameters, Parse.parameters, skip?_eq_none more]
  exact map_bind rfl fun _ => map_bind rfl fun _ => rfl

theorem moreParameters_comma (later : List Token) :
    moreParameters (.symbol .comma :: later) =
      (do
        let next ← identifier
        let later ← moreParameters
        return next :: later : Reader (List String)) later := by
  rw [moreParameters, Parse.moreParameters, skip?_self]
  exact map_bind rfl fun _ => map_bind rfl fun _ => rfl

theorem moreParameters_close (last : current tokens ≠ .symbol .comma) :
    moreParameters tokens =
      (do
        expect .rightParen
        return [] : Reader (List String)) tokens := by
  rw [moreParameters, Parse.moreParameters, skip?_eq_none last]
  exact map_bind rfl fun _ => rfl

theorem primary_int (value : Int) (later : List Token) :
    primary (.int value :: later) = (pure (.int value) : Reader Node) later := by
  rw [primary, Parse.primary]
  rfl

theorem primary_givenBool (value : Bool) (later : List Token) :
    primary (.bool value :: later) = (pure (.bool value) : Reader Node) later := by
  rw [primary, Parse.primary]
  rfl

theorem primary_bool (value : Bool) (later : List Token) :
    primary (.keyword (if value then .trueKw else .falseKw) :: later) =
      (pure (.bool value) : Reader Node) later := by
  unfold primary Parse.primary
  cases value <;> rfl

theorem primary_leftParen (later : List Token) :
    primary (.symbol .leftParen :: later) =
      (do
        let inner ← expression
        expect .rightParen
        return inner : Reader Node) later := by
  rw [primary, Parse.primary]
  exact map_bind rfl fun _ => map_bind rfl fun _ => rfl

theorem primary_call (callee : String) (later : List Token) :
    primary (.name callee :: .symbol .leftParen :: later) =
      (do
        let operands ← arguments
        return .call callee operands : Reader Node) later := by
  rw [primary, Parse.primary, skip?_self]
  exact map_bind rfl fun _ => rfl

theorem primary_name (spelling : String) (noCall : current tokens ≠ .symbol .leftParen) :
    primary (.name spelling :: tokens) = (pure (.name spelling) : Reader Node) tokens := by
  rw [primary, Parse.primary, skip?_eq_none noCall]
  rfl

theorem primary_other (noOperand : (current tokens).startsOperand = false) :
    primary tokens = .error ⟨(current tokens).operandFault, tokens⟩ := by
  rw [primary, Parse.primary.eq_def]
  cases tokens with
  | nil => rfl
  | cons first later =>
      cases first with
      | int | bool | name => cases noOperand
      | keyword word => cases word <;> first
          | rfl
          | cases noOperand
      | symbol mark => cases mark <;> first
          | rfl
          | cases noOperand
      | _ => rfl

end Reader

theorem exists_cons_of_current {first : Token} {tokens : List Token}
    (front : current tokens = first) (proper : first ≠ .endMark) :
    ∃ later, tokens = first :: later := by
  cases tokens with
  | nil => exact absurd front.symm proper
  | cons token later => exact ⟨later, congrArg (· :: later) front⟩

theorem exists_cons_of_operator? {op : BinaryOp} {tokens : List Token}
    (stands : (current tokens).operator? = some op) :
    ∃ later, tokens = .symbol op.symbol :: later := by
  cases tokens with
  | nil => cases stands
  | cons first later =>
      cases first with
      | symbol mark => exact ⟨later, by rw [BinaryOp.ofSymbol?_eq_some_iff.mp stands]⟩
      | _ => cases stands

theorem exists_bool_of_startsOperand {word : Keyword}
    (starts : (Token.keyword word).startsOperand = true) :
    ∃ value : Bool, word = if value then .trueKw else .falseKw := by
  cases word with
  | trueKw => exact ⟨true, rfl⟩
  | falseKw => exact ⟨false, rfl⟩
  | _ => cases starts

theorem eq_leftParen_of_startsOperand {mark : Symbol}
    (starts : (Token.symbol mark).startsOperand = true) : mark = .leftParen := by
  simpa [Token.startsOperand] using starts

theorem program_more {tokens : List Token} (more : current tokens ≠ .endMark) :
    program tokens =
      (Reader.statement tokens).bind fun pair => (program pair.2).map (pair.1 :: ·) := by
  conv => lhs; unfold program
  split
  · exact absurd rfl more
  · exact absurd rfl more
  · unfold Reader.statement
    cases statement tokens with
    | error error => rfl
    | ok first => cases program first.rest <;> rfl

end Parse

end TinyScript
