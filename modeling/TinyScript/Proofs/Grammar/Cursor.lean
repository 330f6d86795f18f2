import TinyScript.Proofs.Grammar.Readers

/-!
# Reading with a cursor

The readers hand on the tokens that they left, of which there are fewer and fewer, so that it is a
part of their definition that they end and that they take only what is there. Here the same grammar
is read by a cursor, which keeps the whole list and the place where it stands. It looks at the token
there, or at an end mark past the last one, and moves on by one place, which fails if there is no
token to move over. A loop goes round as long as it finds what it looks for. Nothing here says that
it ends: calls may stand one in another down to a given depth, where a turn of a loop is a call in
the turn before, and a cursor that goes on forever has no result at any depth.
-/

set_option autoImplicit false

namespace TinyScript

/-- Why a cursor stops early. -/
inductive Halt where
  | fault (fault : ParseFault)
  /-- It moved over a token where there is none. -/
  | pastEnd

/-- A step that looks at some tokens and moves from one place to another. It may have no result. -/
abbrev Cursor (α : Type) : Type := ReaderT (List Token) (StateT Nat (ExceptT Halt Option)) α

namespace Cursor

def current : Cursor Token := do
  return (← read)[← get]?.getD .endMark

def advance : Cursor Unit := do
  let place ← getModify (· + 1)
  if (← read).length ≤ place then
    throw .pastEnd

def expect (expected : Symbol) : Cursor Unit := do
  let found ← current
  if found = .symbol expected then
    advance
  else
    throw (.fault (.expectedSymbol expected found))

def identifier : Cursor String := do
  match ← current with
  | .name spelling =>
      advance
      return spelling
  | found => throw (.fault found.nameFault)

def statementEnd : Cursor Unit := do
  if (← current) ≠ .symbol .rightBrace then
    expect .semicolon

/-- At the end of the depth there is no result yet. -/
def unfinished {α : Type} : Cursor α := fun _ _ => ExceptT.mk none

def moreParameters : Nat → Cursor (List String)
  | 0 => unfinished
  | depth + 1 => do
      if (← current) = .symbol .comma then
        advance
        let next ← identifier
        let later ← moreParameters depth
        return next :: later
      else
        expect .rightParen
        return []

def parameters (depth : Nat) : Cursor (List String) := do
  if (← current) = .symbol .rightParen then
    expect .rightParen
    return []
  else
    let first ← identifier
    let later ← moreParameters depth
    return first :: later

mutual

def statement : Nat → Cursor Node
  | 0 => unfinished
  | depth + 1 => do
      match ← current with
      | .keyword .letKw => letStatement depth
      | .keyword .returnKw => returnStatement depth
      | .symbol .leftBrace => return .block (← block depth)
      | .keyword .ifKw => ifStatement depth
      | _ => expressionStatement depth

def letStatement : Nat → Cursor Node
  | 0 => unfinished
  | depth + 1 => do
      advance
      let target ← identifier
      expect .assign
      let value ← expression depth
      expect .semicolon
      return .letE target value

def returnStatement : Nat → Cursor Node
  | 0 => unfinished
  | depth + 1 => do
      advance
      let value ← expression depth
      statementEnd
      return .returnE value

def block : Nat → Cursor (List Node)
  | 0 => unfinished
  | depth + 1 => do
      expect .leftBrace
      blockBody depth

/-- The statements of a block one after the other, until its closing brace. -/
def blockBody : Nat → Cursor (List Node)
  | 0 => unfinished
  | depth + 1 => do
      if (← current) = .symbol .rightBrace then
        advance
        return []
      else
        let first ← statement depth
        let later ← blockBody depth
        return first :: later

def ifStatement : Nat → Cursor Node
  | 0 => unfinished
  | depth + 1 => do
      advance
      let condition ← expression depth
      let consequence ← statement depth
      alternative condition consequence depth

def alternative (condition consequence : Node) : Nat → Cursor Node
  | 0 => unfinished
  | depth + 1 => do
      if (← current) = .keyword .elseKw then
        advance
        let alternative ← statement depth
        return .ifElse condition consequence alternative
      else
        return .ifThen condition consequence

def expressionStatement : Nat → Cursor Node
  | 0 => unfinished
  | depth + 1 => do
      let value ← expression depth
      statementEnd
      return value

def expression : Nat → Cursor Node
  | 0 => unfinished
  | depth + 1 => do
      if (← current) = .keyword .fnKw then
        function depth
      else
        operand 1 depth

def function : Nat → Cursor Node
  | 0 => unfinished
  | depth + 1 => do
      advance
      expect .leftParen
      let names ← parameters depth
      let body ← block depth
      return .func names body

def operand (level : Nat) : Nat → Cursor Node
  | 0 => unfinished
  | depth + 1 => do
      if level < Parse.primaryLevel then
        let first ← operand (level + 1) depth
        chain level first depth
      else
        primary depth

/-- The operators of a level one after the other, each with its right operand. -/
def chain (level : Nat) (left : Node) : Nat → Cursor Node
  | 0 => unfinished
  | depth + 1 => do
      match (← current).operator? with
      | some op =>
          if op.precedence = level then
            advance
            let right ← operand (level + 1) depth
            chain level (.binary op left right) depth
          else
            return left
      | none => return left

def primary : Nat → Cursor Node
  | 0 => unfinished
  | depth + 1 => do
      match ← current with
      | .int value =>
          advance
          return .int value
      | .bool value =>
          advance
          return .bool value
      | .keyword .trueKw =>
          advance
          return .bool true
      | .keyword .falseKw =>
          advance
          return .bool false
      | .symbol .leftParen => paren depth
      | .name spelling =>
          advance
          nameOrCall spelling depth
      | found => throw (.fault found.operandFault)

/-- Behind a name, an opening parenthesis makes it a call. -/
def nameOrCall (spelling : String) : Nat → Cursor Node
  | 0 => unfinished
  | depth + 1 => do
      if (← current) = .symbol .leftParen then
        return .call spelling (← callArguments depth)
      else
        return .name spelling

def paren : Nat → Cursor Node
  | 0 => unfinished
  | depth + 1 => do
      advance
      let inner ← expression depth
      expect .rightParen
      return inner

def callArguments : Nat → Cursor (List Node)
  | 0 => unfinished
  | depth + 1 => do
      expect .leftParen
      arguments depth

def arguments : Nat → Cursor (List Node)
  | 0 => unfinished
  | depth + 1 => do
      if (← current) = .symbol .rightParen then
        expect .rightParen
        return []
      else
        let first ← expression depth
        let later ← moreArguments depth
        return first :: later

def moreArguments : Nat → Cursor (List Node)
  | 0 => unfinished
  | depth + 1 => do
      if (← current) = .symbol .comma then
        advance
        let next ← expression depth
        let later ← moreArguments depth
        return next :: later
      else
        expect .rightParen
        return []

end

/-- The statements one after the other, until the first end mark. -/
def program : Nat → Cursor Program
  | 0 => unfinished
  | depth + 1 => do
      if (← current) = .endMark then
        return []
      else
        let first ← statement depth
        let later ← program depth
        return first :: later

/-- What a cursor gives from a place on, wherever it then stands. -/
def outcome {α : Type} (cursor : Cursor α) (tokens : List Token) (place : Nat) :
    Option (Except Halt α) :=
  Option.map (Except.map Prod.fst) (cursor tokens place)

/-- A whole list of tokens, read from its first place. -/
def parse (depth : Nat) (tokens : List Token) : Option (Except Halt Program) :=
  outcome (program depth) tokens 0

/-- From some depth on, a cursor comes to this result. -/
def ComesTo {α : Type} (cursor : Nat → Cursor α) (tokens : List Token) (place : Nat)
    (result : Except Halt (α × Nat)) : Prop :=
  ∃ enough, ∀ depth, enough ≤ depth → cursor depth tokens place = some result

section

variable {α β : Type} {cursor : Cursor α} {next : α → Cursor β}
variable {tokens : List Token} {place stop : Nat}

theorem bind_eq (cursor : Cursor α) (next : α → Cursor β) (tokens : List Token) (place : Nat) :
    (cursor >>= next) tokens place =
      match cursor tokens place with
      | some (.ok (value, stop)) => next value tokens stop
      | some (.error halt) => some (.error halt)
      | none => none := by
  change (cursor tokens place >>= fun pair => next pair.1 tokens pair.2 : ExceptT Halt Option _) = _
  cases cursor tokens place with
  | none => rfl
  | some result => cases result <;> rfl

theorem bind_of_ok {value : α} (moved : cursor tokens place = some (.ok (value, stop))) :
    (cursor >>= next) tokens place = next value tokens stop := by
  rw [bind_eq, moved]

theorem bind_of_error {halt : Halt} (halted : cursor tokens place = some (.error halt)) :
    (cursor >>= next) tokens place = some (.error halt) := by
  rw [bind_eq, halted]

theorem current_eq (tokens : List Token) (place : Nat) :
    current tokens place = some (.ok (Parse.current (tokens.drop place), place)) := by
  have front : tokens[place]?.getD .endMark = Parse.current (tokens.drop place) := by
    rw [← List.head?_drop]
    cases tokens.drop place <;> rfl
  rw [← front]
  rfl

/-- There has to be a token to move over. -/
theorem advance_eq (tokens : List Token) (place : Nat) :
    advance tokens place =
      if tokens.length ≤ place then some (.error .pastEnd) else some (.ok ((), place + 1)) := by
  change (if tokens.length ≤ place then throw .pastEnd else pure () : Cursor Unit) tokens _ = _
  split <;> rfl

example : advance [.int 1] 1 = some (.error .pastEnd) := rfl

end

end Cursor

end TinyScript
