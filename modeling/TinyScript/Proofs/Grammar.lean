import TinyScript.Node.Parse

/-!
# The grammar

Which trees a run of tokens spells, stated without a reader. Every phrase is spelled in front of
some next token, because a few rules depend on it: a name in front of an opening parenthesis is
always a call, an alternative belongs to the nearest condition that lacks one, and the semicolon
of an expression or return statement may be missing in front of the closing brace of its block.
A derivation is data, so that it makes sense to ask how many of them there are.
-/

set_option autoImplicit false

namespace TinyScript

/-- What tokens can spell. An operand of level one to three is a chain of comparisons, of sums or
of products; one of level four is a primary expression. -/
inductive Phrase where
  | statements (nodes : List Node)
  | statement (node : Node)
  | expression (node : Node)
  | operand (level : Nat) (node : Node)
  | arguments (nodes : List Node)
  | moreArguments (nodes : List Node)

/-- The tokens of names with commas between them. -/
def nameWords (names : List String) : List Token :=
  (names.map Token.name).intersperse (.symbol .comma)

/-- How an expression or return statement ends in front of the token `next`: with a semicolon, or
with nothing in front of a closing brace. The first token is the one behind the expression. -/
inductive StatementEnd : Token → List Token → Token → Type where
  | semicolon {next : Token} : StatementEnd (.symbol .semicolon) [.symbol .semicolon] next
  | omitted : StatementEnd (.symbol .rightBrace) [] (.symbol .rightBrace)

/-- The ways in which words spell a phrase in front of the token `next`. The token in front of
which a part stands is the first word behind it, or `next` if there is none. Only the closing brace
of a block ever makes a closing brace the next token of a statement. -/
inductive Derivation : Phrase → List Token → Token → Type where
  | noStatements {next : Token} : Derivation (.statements []) [] next
  | someStatements {node : Node} {nodes : List Node} {first later : List Token} {next : Token} :
      Derivation (.statement node) first (later.headD next) →
      Derivation (.statements nodes) later next →
      Derivation (.statements (node :: nodes)) (first ++ later) next
  | letE {target : String} {value : Node} {words : List Token} {next : Token} :
      Derivation (.expression value) words (.symbol .semicolon) →
      Derivation (.statement (.letE target value))
        (.keyword .letKw :: .name target :: .symbol .assign :: words ++ [.symbol .semicolon]) next
  | returnE {value : Node} {words stop : List Token} {before next : Token} :
      Derivation (.expression value) words before →
      StatementEnd before stop next →
      Derivation (.statement (.returnE value)) (.keyword .returnKw :: words ++ stop) next
  | block {nodes : List Node} {words : List Token} {next : Token} :
      Derivation (.statements nodes) words (.symbol .rightBrace) →
      Derivation (.statement (.block nodes))
        (.symbol .leftBrace :: words ++ [.symbol .rightBrace]) next
  | ifThen {condition consequence : Node} {conditionWords consequenceWords : List Token}
      {next : Token} :
      Derivation (.expression condition) conditionWords (consequenceWords.headD next) →
      Derivation (.statement consequence) consequenceWords next →
      next ≠ .keyword .elseKw →
      Derivation (.statement (.ifThen condition consequence))
        (.keyword .ifKw :: conditionWords ++ consequenceWords) next
  | ifElse {condition consequence alternative : Node}
      {conditionWords consequenceWords alternativeWords : List Token} {next : Token} :
      Derivation (.expression condition) conditionWords
        (consequenceWords.headD (.keyword .elseKw)) →
      Derivation (.statement consequence) consequenceWords (.keyword .elseKw) →
      Derivation (.statement alternative) alternativeWords next →
      Derivation (.statement (.ifElse condition consequence alternative))
        (.keyword .ifKw :: conditionWords ++ consequenceWords ++
          .keyword .elseKw :: alternativeWords) next
  | expressionE {node : Node} {words stop : List Token} {before next : Token} :
      Derivation (.expression node) words before →
      StatementEnd before stop next →
      Derivation (.statement node) (words ++ stop) next
  | func {parameters : List String} {body : List Node} {words : List Token} {next : Token} :
      Derivation (.statements body) words (.symbol .rightBrace) →
      Derivation (.expression (.func parameters body))
        (.keyword .fnKw :: .symbol .leftParen :: nameWords parameters ++
          .symbol .rightParen :: .symbol .leftBrace :: words ++ [.symbol .rightBrace]) next
  | comparison {node : Node} {words : List Token} {next : Token} :
      Derivation (.operand 1 node) words next →
      Derivation (.expression node) words next
  | tighter {level : Nat} {node : Node} {words : List Token} {next : Token} :
      level < Parse.primaryLevel →
      Derivation (.operand (level + 1) node) words next →
      Derivation (.operand level node) words next
  | binary {op : BinaryOp} {left right : Node} {leftWords rightWords : List Token}
      {next : Token} :
      Derivation (.operand op.precedence left) leftWords (.symbol op.symbol) →
      Derivation (.operand (op.precedence + 1) right) rightWords next →
      Derivation (.operand op.precedence (.binary op left right))
        (leftWords ++ .symbol op.symbol :: rightWords) next
  | int {value : Int} {next : Token} :
      Derivation (.operand Parse.primaryLevel (.int value)) [.int value] next
  | bool {value : Bool} {next : Token} :
      Derivation (.operand Parse.primaryLevel (.bool value))
        [.keyword (if value then .trueKw else .falseKw)] next
  /-- No source text has such a token, but a list from outside may. -/
  | givenBool {value : Bool} {next : Token} :
      Derivation (.operand Parse.primaryLevel (.bool value)) [.bool value] next
  | name {spelling : String} {next : Token} :
      next ≠ .symbol .leftParen →
      Derivation (.operand Parse.primaryLevel (.name spelling)) [.name spelling] next
  | call {callee : String} {nodes : List Node} {words : List Token} {next : Token} :
      Derivation (.arguments nodes) words (.symbol .rightParen) →
      Derivation (.operand Parse.primaryLevel (.call callee nodes))
        (.name callee :: .symbol .leftParen :: words ++ [.symbol .rightParen]) next
  | paren {node : Node} {words : List Token} {next : Token} :
      Derivation (.expression node) words (.symbol .rightParen) →
      Derivation (.operand Parse.primaryLevel node)
        (.symbol .leftParen :: words ++ [.symbol .rightParen]) next
  | noArguments {next : Token} : Derivation (.arguments []) [] next
  | someArguments {node : Node} {nodes : List Node} {first later : List Token} {next : Token} :
      Derivation (.expression node) first (later.headD next) →
      Derivation (.moreArguments nodes) later next →
      Derivation (.arguments (node :: nodes)) (first ++ later) next
  | lastArgument {next : Token} : Derivation (.moreArguments []) [] next
  | nextArgument {node : Node} {nodes : List Node} {first later : List Token} {next : Token} :
      Derivation (.expression node) first (later.headD next) →
      Derivation (.moreArguments nodes) later next →
      Derivation (.moreArguments (node :: nodes)) (.symbol .comma :: first ++ later) next

@[simp] theorem BinaryOp.ofSymbol?_symbol (op : BinaryOp) : ofSymbol? op.symbol = some op := by
  cases op <;> rfl

namespace Token

def operator? : Token → Option BinaryOp
  | .symbol mark => BinaryOp.ofSymbol? mark
  | _ => none

def startsOperand : Token → Bool
  | .int _ | .bool _ | .name _ => true
  | .keyword word => word == .trueKw || word == .falseKw
  | .symbol mark => mark == .leftParen
  | _ => false

def startsExpression (token : Token) : Bool :=
  token == .keyword .fnKw || token.startsOperand

def startsStatement (token : Token) : Bool :=
  token == .keyword .letKw || token == .keyword .returnKw || token == .keyword .ifKw ||
    token == .symbol .leftBrace || token.startsExpression

theorem operator?_eq_none_of_startsStatement {token : Token}
    (starts : token.startsStatement = true) : token.operator? = none := by
  cases token with
  | symbol mark =>
      cases mark <;> first
        | rfl
        | simp [startsStatement, startsExpression, startsOperand] at starts
  | _ => rfl

end Token

/-- What the words of a phrase begin with. Those of a list of phrases can be missing. -/
def Phrase.Opens : Phrase → List Token → Prop
  | .statement _, words => ∃ first later, words = first :: later ∧ first.startsStatement = true
  | .expression _, words => ∃ first later, words = first :: later ∧ first.startsExpression = true
  | .operand _ _, words => ∃ first later, words = first :: later ∧ first.startsOperand = true
  | .moreArguments _, words => words = [] ∨ ∃ later, words = .symbol .comma :: later
  | .statements _, _ | .arguments _, _ => True

theorem Derivation.opens {phrase : Phrase} {words : List Token} {next : Token}
    (derivation : Derivation phrase words next) : phrase.Opens words := by
  induction derivation with
  | noStatements | someStatements | noArguments | someArguments => trivial
  | lastArgument => exact .inl rfl
  | nextArgument => exact .inr ⟨_, rfl⟩
  | letE | returnE | block | ifThen | ifElse | func => exact ⟨_, _, rfl, rfl⟩
  | int | givenBool | name | call | paren => exact ⟨_, _, rfl, rfl⟩
  | @bool value => cases value <;> exact ⟨_, _, rfl, rfl⟩
  | expressionE _ _ ih =>
      obtain ⟨first, later, rfl, starts⟩ := ih
      exact ⟨first, _, rfl, by simp [Token.startsStatement, starts]⟩
  | comparison _ ih =>
      obtain ⟨first, later, rfl, starts⟩ := ih
      exact ⟨first, later, rfl, by simp [Token.startsExpression, starts]⟩
  | tighter _ _ ih => exact ih
  | binary _ _ leftIH _ =>
      obtain ⟨first, later, rfl, starts⟩ := leftIH
      exact ⟨first, _, rfl, starts⟩

end TinyScript
