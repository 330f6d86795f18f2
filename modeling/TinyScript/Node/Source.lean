import TinyScript.Node.Data

/-!
# From trees to source text

A tree is spelled as tokens first, and the tokens are then laid out as text. Operands are put into
parentheses only where their operator, or their being a function literal, asks for it; the condition
of an alternative always is. The gap between two neighbouring tokens depends on these two alone.
-/

set_option autoImplicit false

namespace TinyScript

/-- Why a tree has no spelling. -/
inductive SpellError where
  | negativeLiteral (value : Int)
  | unexpectedExpression (node : Node)
  deriving DecidableEq

def SpellError.failure : SpellError → Failure
  | .negativeLiteral value =>
      ⟨.unusable, "Negative literal has no source form @ unparse_expr(): " ++ value.repr⟩
  | .unexpectedExpression node =>
      ⟨.unusable, "Unexpected expression @ unparse_expr(): " ++ node.toDatum.inserted⟩

/-- Where a tree stands: as a statement, or where an operand of at least some precedence goes. -/
inductive Place where
  | statement
  | operand (precedence : Nat)
  deriving DecidableEq, Repr

namespace Place

/-- An expression that never needs parentheses, in its place. A statement ends in a semicolon. -/
def atom (tokens : List Token) : Place → List Token
  | .statement => tokens ++ [.symbol .semicolon]
  | .operand _ => tokens

/-- An expression of some precedence in its place: in parentheses where the place asks for more. -/
def compound (strength : Nat) (tokens : List Token) : Place → List Token
  | .statement => tokens ++ [.symbol .semicolon]
  | .operand precedence =>
      if strength < precedence then .symbol .leftParen :: tokens ++ [.symbol .rightParen]
      else tokens

end Place

def spellNames : List String → List Token
  | [] => []
  | first :: later =>
      .name first :: later.flatMap fun spelling => [.symbol .comma, .name spelling]

namespace Node

mutual

/-- The tokens of a tree in its place. -/
def spell (place : Place) : Node → Except SpellError (List Token)
  | .int value =>
      if value < 0 then .error (.negativeLiteral value) else .ok (place.atom [.int value])
  | .bool value => .ok (place.atom [.keyword (if value then .trueKw else .falseKw)])
  | .name spelling => .ok (place.atom [.name spelling])
  | .binary op left right => do
      let leftTokens ← spell (.operand op.precedence) left
      let rightTokens ← spell (.operand (op.precedence + 1)) right
      return place.compound op.precedence (leftTokens ++ .symbol op.symbol :: rightTokens)
  | .call callee arguments => do
      let inner ← spellArguments arguments
      return place.atom (.name callee :: .symbol .leftParen :: inner ++ [.symbol .rightParen])
  | .strayCall callee arguments => do
      let inner ← spellArguments arguments
      return place.atom (.stray callee :: .symbol .leftParen :: inner ++ [.symbol .rightParen])
  | .func parameters body => do
      let inner ← spellAll body
      return place.compound 0
        (.keyword .fnKw :: .symbol .leftParen :: spellNames parameters ++
          .symbol .rightParen :: .symbol .leftBrace :: inner ++ [.symbol .rightBrace])
  | .strayFunc parameters _ statements => do
      let inner ← spellAll statements
      return place.compound 0
        (.keyword .fnKw :: .symbol .leftParen :: spellNames (parameters.words?.getD []) ++
          .symbol .rightParen :: .symbol .leftBrace :: inner ++ [.symbol .rightBrace])
  | .letE target value => do
      if place ≠ .statement then throw (.unexpectedExpression (.letE target value))
      let inner ← spell (.operand 0) value
      return .keyword .letKw :: .name target :: .symbol .assign :: inner ++ [.symbol .semicolon]
  | .strayLet target value => do
      if place ≠ .statement then throw (.unexpectedExpression (.strayLet target value))
      let inner ← spell (.operand 0) value
      return .keyword .letKw :: .stray target :: .symbol .assign :: inner ++ [.symbol .semicolon]
  | .returnE value => do
      if place ≠ .statement then throw (.unexpectedExpression (.returnE value))
      let inner ← spell (.operand 0) value
      return .keyword .returnKw :: inner ++ [.symbol .semicolon]
  | .block statements => do
      if place ≠ .statement then throw (.unexpectedExpression (.block statements))
      let inner ← spellAll statements
      return .symbol .leftBrace :: inner ++ [.symbol .rightBrace]
  | .ifThen condition consequence => do
      if place ≠ .statement then throw (.unexpectedExpression (.ifThen condition consequence))
      let conditionTokens ← spell (.operand 0) condition
      let consequenceTokens ← spell .statement consequence
      return .keyword .ifKw :: .symbol .leftParen :: conditionTokens ++
        .symbol .rightParen :: consequenceTokens
  | .ifElse condition consequence alternative => do
      if place ≠ .statement then
        throw (.unexpectedExpression (.ifElse condition consequence alternative))
      let conditionTokens ← spell (.operand 0) condition
      let consequenceTokens ← spell .statement consequence
      let alternativeTokens ← spell .statement alternative
      return .keyword .ifKw :: .symbol .leftParen :: conditionTokens ++
        .symbol .rightParen :: consequenceTokens ++ .keyword .elseKw :: alternativeTokens
  | .shownAs content meaning => do
      if place ≠ .statement ∧ meaning.isExpression = false then
        throw (.unexpectedExpression (.shownAs content meaning))
      spell place meaning
  | .stray content => .error (.unexpectedExpression (.stray content))

def spellAll : List Node → Except SpellError (List Token)
  | [] => .ok []
  | first :: later => do
      let firstTokens ← spell .statement first
      let laterTokens ← spellAll later
      return firstTokens ++ laterTokens

def spellArguments : List Node → Except SpellError (List Token)
  | [] => .ok []
  | first :: later => do
      let firstTokens ← spell (.operand 0) first
      let laterTokens ← spellMore later
      return firstTokens ++ laterTokens

/-- The tokens of several arguments, with a comma in front of each. -/
def spellMore : List Node → Except SpellError (List Token)
  | [] => .ok []
  | first :: later => do
      let firstTokens ← spell (.operand 0) first
      let laterTokens ← spellMore later
      return .symbol .comma :: firstTokens ++ laterTokens

end

end Node

namespace Token

/-- Whether two neighbouring tokens stand without a gap: inside of parentheses, in front of a
comma, a semicolon or a closing parenthesis, and between a name and the parenthesis of its call or
the keyword of a function and that of its parameters. -/
def joined : Token → Token → Bool
  | .symbol .leftParen, _ => true
  | _, .symbol .rightParen => true
  | _, .symbol .comma => true
  | _, .symbol .semicolon => true
  | .name _, .symbol .leftParen => true
  | .stray _, .symbol .leftParen => true
  | .keyword .fnKw, .symbol .leftParen => true
  | _, _ => false

/-- Tokens laid out as characters. -/
def layout : List Token → List Char
  | [] => []
  | [only] => only.text.toList
  | first :: second :: later =>
      first.text.toList ++ (if joined first second then [] else [' ']) ++ layout (second :: later)

end Token

def Node.source (place : Place) (node : Node) : Except SpellError String :=
  return String.ofList (Token.layout (← node.spell place))

def Program.source (program : Program) : Except SpellError String :=
  return String.ofList (Token.layout (← Node.spellAll program))

end TinyScript
