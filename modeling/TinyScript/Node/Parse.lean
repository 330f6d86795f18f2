import TinyScript.Node.Basic

/-!
# From tokens to trees

The grammar is read from left to right with one token of lookahead. Every reader takes the tokens
in front of it and gives a value with the tokens it left, of which there are fewer than before; that
is why the readers end. A reader that fails says which token it could not use: the tokens from that
one on are part of the error. Past the last token every further one counts as an end mark.

Binary operators have three levels, given by their precedence, and each level is a chain that
groups to the left. The level beyond the tightest operator is that of primary expressions.
-/

set_option autoImplicit false

namespace TinyScript

/-- Why a token cannot be used. -/
inductive ParseFault where
  | expectedSymbol (expected : Symbol) (found : Token)
  | expectedIdentifier (found : Token)
  | illegalCharacter (content : Datum)
  | unexpectedToken (found : Token)
  /-- The empty text has no first character to judge it by. -/
  | emptyToken
  deriving DecidableEq

namespace ParseFault

def failure : ParseFault → Failure
  | .expectedSymbol expected found =>
      ⟨.language .grammar,
        "Expected \x60" ++ expected.text ++ "\x60 @ _consume(): " ++ found.text⟩
  | .expectedIdentifier found =>
      ⟨.language .grammar, "Expected identifier @ _identifier(): " ++ found.text⟩
  | .illegalCharacter content =>
      ⟨.language .grammar, "Illegal character @ _primary(): " ++ content.inserted⟩
  | .unexpectedToken found =>
      ⟨.language .grammar, "Unexpected token @ _primary(): " ++ found.text⟩
  | .emptyToken => ⟨.emptyText, emptyTextMessage⟩

end ParseFault

/-- A fault, with the tokens from the one that cannot be used on. -/
structure ParseError where
  fault : ParseFault
  rest : List Token
  deriving DecidableEq

namespace Parse

/-- A value read from the front of some tokens, with the tokens left. -/
structure Parsed (α : Type) (tokens : List Token) where
  value : α
  rest : List Token
  shorter : rest.length < tokens.length

/-- A value read from the front of some tokens, of which possibly none was taken. -/
structure Continued (α : Type) (tokens : List Token) where
  value : α
  rest : List Token
  noLonger : rest.length ≤ tokens.length

def current : List Token → Token
  | [] => .endMark
  | first :: _ => first

/-- Takes the token in front if it is the given one. -/
def skip? (expected : Token) : (tokens : List Token) → Option (Parsed Unit tokens)
  | [] => none
  | first :: later =>
      if first = expected then some ⟨(), later, Nat.lt_succ_self _⟩ else none

/-- Takes the token in front, which has to be the given symbol. -/
def expect (expected : Symbol) (tokens : List Token) : Except ParseError (Parsed Unit tokens) :=
  match skip? (.symbol expected) tokens with
  | some taken => .ok taken
  | none => .error ⟨.expectedSymbol expected (current tokens), tokens⟩

/-- Takes the token in front, which has to be a name. -/
def identifier : (tokens : List Token) → Except ParseError (Parsed String tokens)
  | .name spelling :: later => .ok ⟨spelling, later, Nat.lt_succ_self _⟩
  | .empty :: later => .error ⟨.emptyToken, .empty :: later⟩
  | tokens => .error ⟨.expectedIdentifier (current tokens), tokens⟩

/-- The end of an expression or return statement: a semicolon, which may be missing in front of a
closing brace. -/
def statementEnd (tokens : List Token) : Except ParseError (Continued Unit tokens) :=
  match current tokens with
  | .symbol .rightBrace => .ok ⟨(), tokens, Nat.le_refl _⟩
  | _ => do
      let stop ← expect .semicolon tokens
      return ⟨(), stop.rest, Nat.le_of_lt stop.shorter⟩

/-- Takes the operator in front if it belongs to the given level. -/
def operator? (level : Nat) : (tokens : List Token) → Option (Parsed BinaryOp tokens)
  | .symbol mark :: later =>
      match BinaryOp.ofSymbol? mark with
      | some op => if op.precedence = level then some ⟨op, later, Nat.lt_succ_self _⟩ else none
      | none => none
  | _ => none

/-- The further names of a parameter list, and its closing parenthesis. -/
def moreParameters (tokens : List Token) : Except ParseError (Parsed (List String) tokens) :=
  match skip? (.symbol .comma) tokens with
  | some comma => do
      let next ← identifier comma.rest
      let later ← moreParameters next.rest
      return ⟨next.value :: later.value, later.rest,
        Nat.lt_trans later.shorter (Nat.lt_trans next.shorter comma.shorter)⟩
  | none => do
      let close ← expect .rightParen tokens
      return ⟨[], close.rest, close.shorter⟩
termination_by tokens.length
decreasing_by exact Nat.lt_trans next.shorter comma.shorter

/-- The names of a parameter list, and its closing parenthesis. -/
def parameters (tokens : List Token) : Except ParseError (Parsed (List String) tokens) :=
  match skip? (.symbol .rightParen) tokens with
  | some close => .ok ⟨[], close.rest, close.shorter⟩
  | none => do
      let first ← identifier tokens
      let later ← moreParameters first.rest
      return ⟨first.value :: later.value, later.rest, Nat.lt_trans later.shorter first.shorter⟩

/-- The level beyond the tightest operator. -/
def primaryLevel : Nat := 4

mutual

def statement (tokens : List Token) : Except ParseError (Parsed Node tokens) :=
  match tokens with
  | .keyword .letKw :: afterLet => do
      let target ← identifier afterLet
      let equals ← expect .assign target.rest
      let value ← expression equals.rest
      let stop ← expect .semicolon value.rest
      return ⟨.letE target.value value.value, stop.rest,
        Nat.lt_succ_of_lt (Nat.lt_trans stop.shorter (Nat.lt_trans value.shorter
          (Nat.lt_trans equals.shorter target.shorter)))⟩
  | .keyword .returnKw :: afterReturn => do
      let value ← expression afterReturn
      let stop ← statementEnd value.rest
      return ⟨.returnE value.value, stop.rest,
        Nat.lt_succ_of_lt (Nat.lt_of_le_of_lt stop.noLonger value.shorter)⟩
  | .symbol .leftBrace :: inside => do
      let statements ← blockBody inside
      return ⟨.block statements.value, statements.rest, Nat.lt_succ_of_lt statements.shorter⟩
  | .keyword .ifKw :: afterIf => do
      let condition ← expression afterIf
      let consequence ← statement condition.rest
      match skip? (.keyword .elseKw) consequence.rest with
      | some afterElse => do
          let alternative ← statement afterElse.rest
          return ⟨.ifElse condition.value consequence.value alternative.value, alternative.rest,
            Nat.lt_succ_of_lt (Nat.lt_trans alternative.shorter (Nat.lt_trans afterElse.shorter
              (Nat.lt_trans consequence.shorter condition.shorter)))⟩
      | none =>
          return ⟨.ifThen condition.value consequence.value, consequence.rest,
            Nat.lt_succ_of_lt (Nat.lt_trans consequence.shorter condition.shorter)⟩
  | tokens => do
      let value ← expression tokens
      let stop ← statementEnd value.rest
      return ⟨value.value, stop.rest, Nat.lt_of_le_of_lt stop.noLonger value.shorter⟩
termination_by (tokens.length, 7)
decreasing_by
  · exact .left _ _ (Nat.lt_succ_of_lt (Nat.lt_trans equals.shorter target.shorter))
  · exact .left _ _ (Nat.lt_succ_self _)
  · exact .left _ _ (Nat.lt_succ_self _)
  · exact .left _ _ (Nat.lt_succ_self _)
  · exact .left _ _ (Nat.lt_succ_of_lt condition.shorter)
  · exact .left _ _ (Nat.lt_succ_of_lt (Nat.lt_trans afterElse.shorter
      (Nat.lt_trans consequence.shorter condition.shorter)))
  · exact .right _ (by decide)

def blockBody (tokens : List Token) : Except ParseError (Parsed (List Node) tokens) :=
  match skip? (.symbol .rightBrace) tokens with
  | some close => .ok ⟨[], close.rest, close.shorter⟩
  | none => do
      let first ← statement tokens
      let later ← blockBody first.rest
      return ⟨first.value :: later.value, later.rest, Nat.lt_trans later.shorter first.shorter⟩
termination_by (tokens.length, 8)
decreasing_by
  · exact .right _ (by decide)
  · exact .left _ _ first.shorter

/-- An expression: a function literal, or a chain of comparisons. -/
def expression (tokens : List Token) : Except ParseError (Parsed Node tokens) :=
  match skip? (.keyword .fnKw) tokens with
  | some afterFn => do
      let opening ← expect .leftParen afterFn.rest
      let names ← parameters opening.rest
      let brace ← expect .leftBrace names.rest
      let body ← blockBody brace.rest
      return ⟨.func names.value body.value, body.rest,
        Nat.lt_trans body.shorter (Nat.lt_trans brace.shorter (Nat.lt_trans names.shorter
          (Nat.lt_trans opening.shorter afterFn.shorter)))⟩
  | none => operand 1 tokens
termination_by (tokens.length, 6)
decreasing_by
  · exact .left _ _ (Nat.lt_trans brace.shorter (Nat.lt_trans names.shorter
      (Nat.lt_trans opening.shorter afterFn.shorter)))
  · exact .right _ (by decide)

/-- An operand of the given level: a primary expression, or a chain of operators of that level. -/
def operand (level : Nat) (tokens : List Token) : Except ParseError (Parsed Node tokens) :=
  if level < primaryLevel then do
    let first ← operand (level + 1) tokens
    let chained ← chain level first.value first.rest
    return ⟨chained.value, chained.rest, Nat.lt_of_le_of_lt chained.noLonger first.shorter⟩
  else
    primary tokens
termination_by (tokens.length, primaryLevel - level + 1)
decreasing_by
  · exact .right _ (by omega)
  · exact .left _ _ first.shorter
  · exact .right _ (by omega)

/-- The operators of a level that follow an expression, each with its right operand. -/
def chain (level : Nat) (left : Node) (tokens : List Token) :
    Except ParseError (Continued Node tokens) :=
  match operator? level tokens with
  | none => .ok ⟨left, tokens, Nat.le_refl _⟩
  | some op => do
      let right ← operand (level + 1) op.rest
      let chained ← chain level (.binary op.value left right.value) right.rest
      return ⟨chained.value, chained.rest,
        Nat.le_trans chained.noLonger (Nat.le_of_lt (Nat.lt_trans right.shorter op.shorter))⟩
termination_by (tokens.length, 0)
decreasing_by
  · exact .left _ _ op.shorter
  · exact .left _ _ (Nat.lt_trans right.shorter op.shorter)

/-- A literal, a name, a call or an expression in parentheses. -/
def primary (tokens : List Token) : Except ParseError (Parsed Node tokens) :=
  match tokens with
  | .int value :: later => .ok ⟨.int value, later, Nat.lt_succ_self _⟩
  | .bool value :: later => .ok ⟨.bool value, later, Nat.lt_succ_self _⟩
  | .keyword .trueKw :: later => .ok ⟨.bool true, later, Nat.lt_succ_self _⟩
  | .keyword .falseKw :: later => .ok ⟨.bool false, later, Nat.lt_succ_self _⟩
  | .symbol .leftParen :: inside => do
      let inner ← expression inside
      let close ← expect .rightParen inner.rest
      return ⟨inner.value, close.rest,
        Nat.lt_succ_of_lt (Nat.lt_trans close.shorter inner.shorter)⟩
  | .name spelling :: later =>
      match skip? (.symbol .leftParen) later with
      | some opening => do
          let operands ← arguments opening.rest
          return ⟨.call spelling operands.value, operands.rest,
            Nat.lt_succ_of_lt (Nat.lt_trans operands.shorter opening.shorter)⟩
      | none => .ok ⟨.name spelling, later, Nat.lt_succ_self _⟩
  | .illegal content :: later =>
      .error ⟨.illegalCharacter content, .illegal content :: later⟩
  | .empty :: later => .error ⟨.emptyToken, .empty :: later⟩
  | tokens => .error ⟨.unexpectedToken (current tokens), tokens⟩
termination_by (tokens.length, 0)
decreasing_by
  · exact .left _ _ (Nat.lt_succ_self _)
  · exact .left _ _ (Nat.lt_succ_of_lt opening.shorter)

/-- The expressions of an argument list, and its closing parenthesis. -/
def arguments (tokens : List Token) : Except ParseError (Parsed (List Node) tokens) :=
  match skip? (.symbol .rightParen) tokens with
  | some close => .ok ⟨[], close.rest, close.shorter⟩
  | none => do
      let first ← expression tokens
      let later ← moreArguments first.rest
      return ⟨first.value :: later.value, later.rest, Nat.lt_trans later.shorter first.shorter⟩
termination_by (tokens.length, 7)
decreasing_by
  · exact .right _ (by decide)
  · exact .left _ _ first.shorter

/-- The further expressions of an argument list, and its closing parenthesis. -/
def moreArguments (tokens : List Token) : Except ParseError (Parsed (List Node) tokens) :=
  match skip? (.symbol .comma) tokens with
  | some comma => do
      let next ← expression comma.rest
      let later ← moreArguments next.rest
      return ⟨next.value :: later.value, later.rest,
        Nat.lt_trans later.shorter (Nat.lt_trans next.shorter comma.shorter)⟩
  | none => do
      let close ← expect .rightParen tokens
      return ⟨[], close.rest, close.shorter⟩
termination_by (tokens.length, 0)
decreasing_by
  · exact .left _ _ comma.shorter
  · exact .left _ _ (Nat.lt_trans next.shorter comma.shorter)

end

/-- The statements up to the first end mark, behind which nothing is read. -/
def program (tokens : List Token) : Except ParseError Program :=
  match tokens with
  | [] => .ok []
  | .endMark :: _ => .ok []
  | tokens => do
      let first ← statement tokens
      let later ← program first.rest
      return first.value :: later
termination_by tokens.length
decreasing_by exact first.shorter

end Parse

end TinyScript
