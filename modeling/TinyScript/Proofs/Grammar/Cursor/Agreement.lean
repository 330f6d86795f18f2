import TinyScript.Proofs.Grammar.Cursor

/-!
# A cursor does what a reader does

From any place on, a cursor that has enough depth takes the tokens that the reader of the same
phrase takes there, gives the same value or stops for the same reason, and then stands behind what
it took. This is shown for all cursors together, by induction on the number of tokens ahead: at most
twelve calls stand one in another before a token is taken. That cursors come to an end is a part of
it: the readers do.
-/

set_option autoImplicit false

namespace TinyScript

namespace Parse.Reader

/-- The statements of a block, with its two braces. -/
def block : Reader (List Node) := do
  expect .leftBrace
  blockBody

/-- The arguments of a call, with its two parentheses. -/
def callArguments : Reader (List Node) := do
  expect .leftParen
  arguments

theorem expect_then {α : Type} (expected : Symbol) (inner : Reader α) (later : List Token) :
    (do
      expect expected
      inner) (.symbol expected :: later) = inner later := by
  change (expect expected (.symbol expected :: later)).bind _ = _
  rw [expect_self]
  rfl

variable {tokens : List Token}

theorem statement_block (opens : current tokens = .symbol .leftBrace) :
    statement tokens = (do return .block (← block) : Reader Node) tokens := by
  obtain ⟨later, rfl⟩ := exists_cons_of_current opens (by simp)
  rw [statement_leftBrace, block, bind_assoc, expect_then]

theorem expression_function (later : List Token) :
    expression (.keyword .fnKw :: later) =
      (do
        expect .leftParen
        let names ← parameters
        let body ← block
        return .func names body : Reader Node) later := by
  simp only [expression_fnKw, block, bind_assoc]

theorem primary_callArguments (callee : String) (opens : current tokens = .symbol .leftParen) :
    primary (.name callee :: tokens) =
      (do return .call callee (← callArguments) : Reader Node) tokens := by
  obtain ⟨later, rfl⟩ := exists_cons_of_current opens (by simp)
  rw [primary_call, callArguments, bind_assoc, expect_then]

end Parse.Reader

namespace Cursor

/-- From a place on, a cursor does what a reader does with the tokens from there on. -/
inductive Follows {α : Type} (cursor : Cursor α) (reader : Parse.Reader α) (tokens : List Token)
    (place : Nat) : Prop where
  | arrives (value : α) (taken rest : List Token) :
      tokens.drop place = taken ++ rest →
      reader (tokens.drop place) = .ok (value, rest) →
      cursor tokens place = some (.ok (value, place + taken.length)) →
      Follows cursor reader tokens place
  | halts (error : ParseError) :
      reader (tokens.drop place) = .error error →
      cursor tokens place = some (.error (.fault error.fault)) →
      Follows cursor reader tokens place

section

variable {α β : Type} {cursor : Cursor α} {reader inner : Parse.Reader α}
variable {tokens later : List Token} {place : Nat}

theorem drop_behind {words rest : List Token} (split : tokens.drop place = words ++ rest) :
    tokens.drop (place + words.length) = rest := by
  rw [← List.drop_drop, split, List.drop_left]

theorem Follows.pure (value : α) (tokens : List Token) (place : Nat) :
    Follows (pure value) (pure value) tokens place :=
  .arrives value [] (tokens.drop place) rfl rfl rfl

theorem Follows.fail {fault : ParseFault}
    (fails : reader (tokens.drop place) = .error ⟨fault, tokens.drop place⟩) :
    Follows (throw (.fault fault)) reader tokens place :=
  .halts _ fails rfl

/-- A cursor does the same as another one that follows the reader. -/
theorem Follows.of_eq {other : Cursor α} (same : cursor tokens place = other tokens place)
    (follows : Follows other reader tokens place) : Follows cursor reader tokens place := by
  cases follows with
  | arrives value taken rest split read moved =>
      exact .arrives value taken rest split read (same.trans moved)
  | halts error read halted => exact .halts error read (same.trans halted)

/-- A reader does the same as another one that the cursor follows. -/
theorem Follows.congr (same : reader (tokens.drop place) = inner (tokens.drop place))
    (follows : Follows cursor inner tokens place) : Follows cursor reader tokens place := by
  cases follows with
  | arrives value taken rest split read moved =>
      exact .arrives value taken rest split (same.trans read) moved
  | halts error read halted => exact .halts error (same.trans read) halted

theorem Follows.result_of_ok {value : α} {words rest : List Token}
    (follows : Follows cursor reader tokens place) (split : tokens.drop place = words ++ rest)
    (read : reader (tokens.drop place) = .ok (value, rest)) :
    cursor tokens place = some (.ok (value, place + words.length)) := by
  cases follows with
  | halts error rejected halted => cases read.symm.trans rejected
  | arrives other taken behind splitTaken given moved =>
      cases read.symm.trans given
      cases List.append_cancel_right (split.symm.trans splitTaken)
      exact moved

theorem Follows.result_of_error {error : ParseError} (follows : Follows cursor reader tokens place)
    (rejected : reader (tokens.drop place) = .error error) :
    cursor tokens place = some (.error (.fault error.fault)) := by
  cases follows with
  | halts other read halted =>
      cases rejected.symm.trans read
      exact halted
  | arrives value taken rest split read moved => cases rejected.symm.trans read

theorem Follows.outcome_eq (follows : Follows cursor reader tokens place) :
    outcome cursor tokens place =
      some (((reader (tokens.drop place)).map Prod.fst).mapError
        fun error => .fault error.fault) := by
  unfold outcome
  cases follows with
  | halts error read halted =>
      rw [halted, read]
      rfl
  | arrives value taken rest split read moved =>
      rw [moved, read]
      rfl

theorem Follows.bind {next : α → Cursor β} {nextReader : α → Parse.Reader β}
    (first : Follows cursor reader tokens place)
    (step : ∀ value stop, reader (tokens.drop place) = .ok (value, tokens.drop stop) →
      Follows (next value) (nextReader value) tokens stop) :
    Follows (cursor >>= next) (reader >>= nextReader) tokens place := by
  have reads : (reader >>= nextReader) (tokens.drop place) =
      (reader (tokens.drop place)).bind fun pair => nextReader pair.1 pair.2 := rfl
  cases first with
  | halts error read halted =>
      rw [read] at reads
      exact .halts error reads (bind_of_error halted)
  | arrives value taken rest split read moved =>
      have left := drop_behind split
      rw [read] at reads
      have goesOn : (cursor >>= next) tokens place = next value tokens (place + taken.length) :=
        bind_of_ok moved
      cases step value (place + taken.length) (left ▸ read) with
      | halts error further halted =>
          rw [left] at further
          exact .halts error (reads.trans further) (goesOn.trans halted)
      | arrives result more behind splitRest further arrived =>
          rw [left] at splitRest further
          refine .arrives result (taken ++ more) behind ?_ (reads.trans further) ?_
          · rw [split, splitRest, List.append_assoc]
          · rw [goesOn, List.length_append, ← Nat.add_assoc]
            exact arrived

theorem Follows.peek {next : Token → Cursor α}
    (follows : Follows (next (Parse.current (tokens.drop place))) reader tokens place) :
    Follows (current >>= next) reader tokens place :=
  .of_eq (bind_of_ok (current_eq tokens place)) follows

theorem advance_of_drop {first : Token} (stands : tokens.drop place = first :: later) :
    Cursor.advance tokens place = some (.ok ((), place + 1)) := by
  rw [advance_eq, if_neg]
  intro past
  rw [List.drop_eq_nil_of_le past] at stands
  cases stands

/-- A cursor moves over the token that a reader takes first. -/
theorem Follows.advance {first : Token} (stands : tokens.drop place = first :: later)
    (same : reader (first :: later) = inner later)
    (follows : Follows cursor inner tokens (place + 1)) :
    Follows (do Cursor.advance; cursor) reader tokens place := by
  have goesOn : (do Cursor.advance; cursor) tokens place = cursor tokens (place + 1) :=
    bind_of_ok (advance_of_drop stands)
  have behind : tokens.drop (place + 1) = later := by
    rw [← List.drop_drop, stands]
    rfl
  cases follows with
  | arrives value taken rest split read moved =>
      rw [behind] at split read
      refine .arrives value (first :: taken) rest ?_ ?_ ?_
      · rw [stands, split]
        rfl
      · rw [stands, same, read]
      · rw [goesOn, moved, List.length_cons, Nat.add_assoc, Nat.add_comm 1]
  | halts error read halted =>
      rw [behind] at read
      exact .halts error (by rw [stands, same, read]) (goesOn.trans halted)

theorem Follows.advance_front {first : Token} (front : Parse.current (tokens.drop place) = first)
    (stands : first ≠ .endMark) (same : ∀ later, reader (first :: later) = inner later)
    (follows : Follows cursor inner tokens (place + 1)) :
    Follows (do Cursor.advance; cursor) reader tokens place := by
  obtain ⟨later, ahead⟩ := Parse.exists_cons_of_current front stands
  exact .advance ahead (same later) follows

theorem fewer_ahead {first : Token} (stands : tokens.drop place = first :: later) :
    (tokens.drop (place + 1)).length < (tokens.drop place).length := by
  rw [← List.drop_drop, stands]
  exact Nat.lt_succ_self _

end

open Parse (Reader exists_cons_of_current shorter_of_pair)

theorem expect_follows (expected : Symbol) (tokens : List Token) (place : Nat) :
    Follows (expect expected) (Reader.expect expected) tokens place := by
  apply Follows.peek
  split
  · next front =>
      rw [← bind_pure_unit (x := advance)]
      exact .advance_front front (by simp) (Reader.expect_self expected) (.pure () tokens _)
  · next other => exact .fail (Reader.expect_other other)

theorem identifier_follows (tokens : List Token) (place : Nat) :
    Follows identifier Reader.identifier tokens place := by
  apply Follows.peek
  split
  · next spelling front =>
      exact .advance_front front (by simp) (Reader.identifier_name spelling) (.pure spelling tokens _)
  · next noName => exact .fail (Reader.identifier_other noName)

theorem statementEnd_follows (tokens : List Token) (place : Nat) :
    Follows statementEnd Reader.statementEnd tokens place := by
  apply Follows.peek
  split
  · next goesOn =>
      exact .congr (Reader.statementEnd_otherwise goesOn) (expect_follows .semicolon tokens place)
  · next closes =>
      have front := Decidable.not_not.mp closes
      exact .congr (Reader.statementEnd_rightBrace front) (.pure () tokens place)

/-- The end of a list, at its closing parenthesis. -/
theorem close_follows {α : Type} (value : α) (tokens : List Token) (place : Nat) :
    Follows (do expect .rightParen; return value) (do Reader.expect .rightParen; return value)
      tokens place :=
  (expect_follows .rightParen tokens place).bind fun _ rest _ => .pure value tokens rest

/-- At a place, the cursors of the grammar that have this depth do what its readers do. -/
structure FollowsReaders (tokens : List Token) (place depth : Nat) : Prop where
  statement : Follows (statement depth) Reader.statement tokens place
  blockBody : Follows (blockBody depth) Reader.blockBody tokens place
  expression : Follows (expression depth) Reader.expression tokens place
  operand : ∀ level, level ≤ Parse.primaryLevel →
    Follows (operand level depth) (Reader.operand level) tokens place
  chain : ∀ level left, level < Parse.primaryLevel →
    Follows (chain level left depth) (Reader.chain level left) tokens place
  arguments : Follows (arguments depth) Reader.arguments tokens place
  moreArguments : Follows (moreArguments depth) Reader.moreArguments tokens place
  moreParameters : Follows (moreParameters depth) Reader.moreParameters tokens place

/-- From this depth on, the cursors of the grammar do what its readers do, at all places that have
fewer tokens ahead. -/
def FollowsAhead (tokens : List Token) (place depth : Nat) : Prop :=
  ∀ stop, (tokens.drop stop).length < (tokens.drop place).length →
    ∀ deeper, depth ≤ deeper → FollowsReaders tokens stop deeper

section

variable {tokens later : List Token} {place stop depth : Nat}

theorem FollowsAhead.here (ahead : FollowsAhead tokens place depth)
    (further : (tokens.drop stop).length < (tokens.drop place).length) :
    FollowsReaders tokens stop depth :=
  ahead stop further depth (Nat.le_refl depth)

theorem FollowsAhead.deeper (ahead : FollowsAhead tokens place depth) (more : Nat) :
    FollowsAhead tokens place (depth + more) :=
  fun stop further deeper enough =>
    ahead stop further deeper (Nat.le_trans (Nat.le_add_right depth more) enough)

theorem FollowsAhead.further (ahead : FollowsAhead tokens place depth)
    (moved : (tokens.drop stop).length < (tokens.drop place).length) :
    FollowsAhead tokens stop depth :=
  fun other further => ahead other (Nat.lt_trans further moved)

variable (ahead : FollowsAhead tokens place depth)

include ahead

theorem moreParameters_follows :
    Follows (moreParameters (depth + 1)) Reader.moreParameters tokens place := by
  unfold moreParameters
  apply Follows.peek
  split
  · next more =>
      obtain ⟨later, stands⟩ := exists_cons_of_current more (by simp)
      apply Follows.advance stands (Reader.moreParameters_comma later)
      apply (identifier_follows tokens (place + 1)).bind
      intro next stop taken
      have moved := Nat.lt_trans (shorter_of_pair taken) (fewer_ahead stands)
      exact (ahead.here moved).moreParameters.bind fun _ rest _ => .pure _ tokens rest
  · next last => exact .congr (Reader.moreParameters_close last) (close_follows [] tokens place)

theorem parameters_follows : Follows (parameters depth) Reader.parameters tokens place := by
  apply Follows.peek
  split
  · next closes =>
      obtain ⟨later, stands⟩ := exists_cons_of_current closes (by simp)
      refine .congr ?_ (close_follows ([] : List String) tokens place)
      rw [stands, Reader.parameters_close, Reader.expect_then]
  · next more =>
      apply Follows.congr (Reader.parameters_more more)
      apply (identifier_follows tokens place).bind
      intro first stop taken
      have moved := shorter_of_pair taken
      exact (ahead.here moved).moreParameters.bind fun _ rest _ => .pure _ tokens rest

theorem block_follows : Follows (block (depth + 1)) Reader.block tokens place := by
  unfold block
  apply (expect_follows .leftBrace tokens place).bind
  intro _ stop opened
  exact (ahead.here (shorter_of_pair opened)).blockBody

theorem callArguments_follows :
    Follows (callArguments (depth + 1)) Reader.callArguments tokens place := by
  unfold callArguments
  apply (expect_follows .leftParen tokens place).bind
  intro _ stop opened
  exact (ahead.here (shorter_of_pair opened)).arguments

theorem paren_follows (stands : tokens.drop place = .symbol .leftParen :: later) :
    Follows (paren (depth + 1)) Reader.primary tokens place := by
  unfold paren
  apply Follows.advance stands (Reader.primary_leftParen later)
  apply (ahead.here (fewer_ahead stands)).expression.bind
  intro inner stop _
  exact close_follows inner tokens stop

theorem nameOrCall_follows (spelling : String) :
    Follows (nameOrCall spelling (depth + 2))
      (fun later => Reader.primary (.name spelling :: later)) tokens place := by
  unfold nameOrCall
  apply Follows.peek
  split
  · next opens =>
      apply Follows.congr (Reader.primary_callArguments spelling opens)
      exact (callArguments_follows ahead).bind fun _ rest _ => .pure _ tokens rest
  · next noCall => exact .congr (Reader.primary_name spelling noCall) (.pure _ tokens place)

theorem primary_follows : Follows (primary (depth + 3)) Reader.primary tokens place := by
  unfold primary
  apply Follows.peek
  split
  · next value front =>
      exact .advance_front front (by simp) (Reader.primary_int value) (.pure _ tokens _)
  · next value front =>
      exact .advance_front front (by simp) (Reader.primary_givenBool value) (.pure _ tokens _)
  · next front =>
      exact .advance_front front (by simp) (Reader.primary_bool true) (.pure _ tokens _)
  · next front =>
      exact .advance_front front (by simp) (Reader.primary_bool false) (.pure _ tokens _)
  · next front =>
      obtain ⟨later, stands⟩ := exists_cons_of_current front (by simp)
      exact paren_follows (ahead.deeper 1) stands
  · next spelling front =>
      obtain ⟨later, stands⟩ := exists_cons_of_current front (by simp)
      have behind := ahead.further (fewer_ahead stands)
      exact .advance stands rfl (nameOrCall_follows behind spelling)
  · next noInt noBool noTrue noFalse noParen noName =>
      apply Follows.fail
      apply Reader.primary_other
      cases front : Parse.current (tokens.drop place) with
      | int value => exact absurd front (noInt value)
      | bool value => exact absurd front (noBool value)
      | name spelling => exact absurd front (noName spelling)
      | keyword word => cases word with
        | trueKw => exact absurd front noTrue
        | falseKw => exact absurd front noFalse
        | _ => rfl
      | symbol mark => cases mark with
        | leftParen => exact absurd front noParen
        | _ => rfl
      | illegal | endMark | empty | stray => rfl

theorem chain_follows {level : Nat} (left : Node) (chained : level < Parse.primaryLevel) :
    Follows (chain level left (depth + 1)) (Reader.chain level left) tokens place := by
  unfold chain
  apply Follows.peek
  by_cases goes : ∃ op, (Parse.current (tokens.drop place)).operator? = some op ∧
      op.precedence = level
  · obtain ⟨op, isOperator, rfl⟩ := goes
    obtain ⟨later, stands⟩ := Parse.exists_cons_of_operator? isOperator
    have behind := fewer_ahead stands
    simp only [isOperator, ↓reduceIte]
    apply Follows.advance stands (Reader.chain_operator op left later)
    apply ((ahead.here behind).operand (op.precedence + 1) chained).bind
    intro right stop taken
    exact (ahead.here (Nat.lt_trans (shorter_of_pair taken) behind)).chain _ _ chained
  · have stays : Follows (pure left) (Reader.chain level left) tokens place := by
      apply Follows.congr (Reader.chain_stop left _) (.pure left tokens place)
      exact Parse.operator?_eq_none fun op isOperator levelOf => goes ⟨op, isOperator, levelOf⟩
    split
    · next op isOperator =>
        rw [if_neg fun levelOf => goes ⟨op, isOperator, levelOf⟩]
        exact stays
    · exact stays

theorem operand_follows_of_distance {level distance : Nat}
    (sum : level + distance = Parse.primaryLevel) :
    Follows (operand level (depth + 4 + distance)) (Reader.operand level) tokens place := by
  induction distance generalizing level with
  | zero =>
      obtain rfl : level = Parse.primaryLevel := sum
      unfold operand
      rw [if_neg (Nat.lt_irrefl _)]
      exact .congr (Reader.operand_primaryLevel _) (primary_follows ahead)
  | succ distance ih =>
      have chained : level < Parse.primaryLevel := by omega
      have nextSum : level + 1 + distance = Parse.primaryLevel := by omega
      rw [← Nat.add_assoc, operand, if_pos chained]
      apply Follows.congr (Reader.operand_chained chained _)
      apply (ih nextSum).bind
      intro first stop taken
      have behind := (ahead.deeper (4 + distance)).here (shorter_of_pair taken)
      rw [← Nat.add_assoc] at behind
      exact behind.chain level first chained

theorem operand_follows {level : Nat} (bound : level ≤ Parse.primaryLevel) :
    Follows (operand level (depth + 8)) (Reader.operand level) tokens place := by
  have follows := operand_follows_of_distance (ahead.deeper level) (Nat.add_sub_cancel' bound)
  have sum : depth + level + 4 + (Parse.primaryLevel - level) = depth + 8 := by
    unfold Parse.primaryLevel at bound ⊢
    omega
  rwa [sum] at follows

theorem function_follows (stands : tokens.drop place = .keyword .fnKw :: later) :
    Follows (function (depth + 2)) Reader.expression tokens place := by
  unfold function
  apply Follows.advance stands (Reader.expression_function later)
  apply (expect_follows .leftParen tokens (place + 1)).bind
  intro _ afterParen opened
  have afterOpening := ahead.further (Nat.lt_trans (shorter_of_pair opened) (fewer_ahead stands))
  apply (parameters_follows (afterOpening.deeper 1)).bind
  intro names afterNames named
  apply (block_follows (afterOpening.further (shorter_of_pair named))).bind
  exact fun body rest _ => .pure _ tokens rest

theorem expression_follows : Follows (expression (depth + 9)) Reader.expression tokens place := by
  unfold expression
  apply Follows.peek
  split
  · next front =>
      obtain ⟨later, stands⟩ := exists_cons_of_current front (by simp)
      exact function_follows (ahead.deeper 6) stands
  · next other =>
      apply Follows.congr (Reader.expression_otherwise other)
      exact operand_follows ahead (by decide)

theorem letStatement_follows (stands : tokens.drop place = .keyword .letKw :: later) :
    Follows (letStatement (depth + 1)) Reader.statement tokens place := by
  unfold letStatement
  apply Follows.advance stands (Reader.statement_letKw later)
  apply (identifier_follows tokens (place + 1)).bind
  intro target afterTarget named
  apply (expect_follows .assign tokens afterTarget).bind
  intro _ afterEquals assigned
  have moved := Nat.lt_trans (shorter_of_pair assigned)
    (Nat.lt_trans (shorter_of_pair named) (fewer_ahead stands))
  apply (ahead.here moved).expression.bind
  intro value afterValue _
  exact (expect_follows .semicolon tokens afterValue).bind fun _ rest _ => .pure _ tokens rest

theorem returnStatement_follows (stands : tokens.drop place = .keyword .returnKw :: later) :
    Follows (returnStatement (depth + 1)) Reader.statement tokens place := by
  unfold returnStatement
  apply Follows.advance stands (Reader.statement_returnKw later)
  apply (ahead.here (fewer_ahead stands)).expression.bind
  intro value afterValue _
  exact (statementEnd_follows tokens afterValue).bind fun _ rest _ => .pure _ tokens rest

theorem alternative_follows (condition consequence : Node) :
    Follows (alternative condition consequence (depth + 1))
      (Reader.alternative condition consequence) tokens place := by
  unfold alternative
  apply Follows.peek
  split
  · next front =>
      obtain ⟨later, stands⟩ := exists_cons_of_current front (by simp)
      apply Follows.advance stands (Reader.alternative_elseKw condition consequence later)
      apply (ahead.here (fewer_ahead stands)).statement.bind
      exact fun _ rest _ => .pure _ tokens rest
  · next missing =>
      exact .congr (Reader.alternative_missing condition consequence missing) (.pure _ tokens place)

theorem ifStatement_follows (stands : tokens.drop place = .keyword .ifKw :: later) :
    Follows (ifStatement (depth + 2)) Reader.statement tokens place := by
  unfold ifStatement
  apply Follows.advance stands (Reader.statement_ifKw later)
  have behind := fewer_ahead stands
  apply ((ahead.deeper 1).here behind).expression.bind
  intro condition afterCondition conditional
  have moved := Nat.lt_trans (shorter_of_pair conditional) behind
  apply ((ahead.deeper 1).here moved).statement.bind
  intro consequence rest consequent
  have afterBoth := ahead.further (Nat.lt_trans (shorter_of_pair consequent) moved)
  exact alternative_follows afterBoth condition consequence

theorem expressionStatement_follows
    (others : Parse.current (tokens.drop place) ∉
      [.keyword .letKw, .keyword .returnKw, .symbol .leftBrace, .keyword .ifKw]) :
    Follows (expressionStatement (depth + 10)) Reader.statement tokens place := by
  unfold expressionStatement
  apply Follows.congr (Reader.statement_otherwise others)
  apply (expression_follows ahead).bind
  intro value afterValue _
  exact (statementEnd_follows tokens afterValue).bind fun _ rest _ => .pure value tokens rest

theorem statement_follows : Follows (statement (depth + 11)) Reader.statement tokens place := by
  unfold statement
  apply Follows.peek
  split
  · next front =>
      obtain ⟨later, stands⟩ := exists_cons_of_current front (by simp)
      exact letStatement_follows (ahead.deeper 9) stands
  · next front =>
      obtain ⟨later, stands⟩ := exists_cons_of_current front (by simp)
      exact returnStatement_follows (ahead.deeper 9) stands
  · next front =>
      apply Follows.congr (Reader.statement_block front)
      exact (block_follows (ahead.deeper 9)).bind fun _ rest _ => .pure _ tokens rest
  · next front =>
      obtain ⟨later, stands⟩ := exists_cons_of_current front (by simp)
      exact ifStatement_follows (ahead.deeper 8) stands
  · next noLet noReturn noBlock noIf =>
      apply expressionStatement_follows ahead
      simp only [List.mem_cons, List.not_mem_nil, or_false, not_or]
      exact ⟨noLet, noReturn, noBlock, noIf⟩

theorem blockBody_follows : Follows (blockBody (depth + 12)) Reader.blockBody tokens place := by
  unfold blockBody
  apply Follows.peek
  split
  · next front =>
      exact .advance_front front (by simp) Reader.blockBody_close (.pure [] tokens _)
  · next more =>
      apply Follows.congr (Reader.blockBody_more more)
      apply (statement_follows ahead).bind
      intro first stop taken
      apply ((ahead.deeper 11).here (shorter_of_pair taken)).blockBody.bind
      exact fun _ rest _ => .pure _ tokens rest

theorem arguments_follows : Follows (arguments (depth + 10)) Reader.arguments tokens place := by
  unfold arguments
  apply Follows.peek
  split
  · next closes =>
      obtain ⟨later, stands⟩ := exists_cons_of_current closes (by simp)
      refine .congr ?_ (close_follows ([] : List Node) tokens place)
      rw [stands, Reader.arguments_close, Reader.expect_then]
  · next more =>
      apply Follows.congr (Reader.arguments_more more)
      apply (expression_follows ahead).bind
      intro first stop taken
      apply ((ahead.deeper 9).here (shorter_of_pair taken)).moreArguments.bind
      exact fun _ rest _ => .pure _ tokens rest

theorem moreArguments_follows :
    Follows (moreArguments (depth + 1)) Reader.moreArguments tokens place := by
  unfold moreArguments
  apply Follows.peek
  split
  · next more =>
      obtain ⟨later, stands⟩ := exists_cons_of_current more (by simp)
      have behind := fewer_ahead stands
      apply Follows.advance stands (Reader.moreArguments_comma later)
      apply (ahead.here behind).expression.bind
      intro next stop taken
      apply (ahead.here (Nat.lt_trans (shorter_of_pair taken) behind)).moreArguments.bind
      exact fun _ rest _ => .pure _ tokens rest
  · next last => exact .congr (Reader.moreArguments_close last) (close_follows [] tokens place)

theorem FollowsAhead.followsReaders : FollowsReaders tokens place (depth + 12) where
  statement := statement_follows (ahead.deeper 1)
  blockBody := blockBody_follows ahead
  expression := expression_follows (ahead.deeper 3)
  operand := fun _ bound => operand_follows (ahead.deeper 4) bound
  chain := fun _ left chained => chain_follows (ahead.deeper 11) left chained
  arguments := arguments_follows (ahead.deeper 2)
  moreArguments := moreArguments_follows (ahead.deeper 11)
  moreParameters := moreParameters_follows (ahead.deeper 11)

end

/-- Enough depth to read on from a place: twelve calls for each token ahead, and twelve to find that
there is none. -/
def enough (tokens : List Token) (place : Nat) : Nat :=
  12 * (tokens.drop place).length + 12

theorem exists_followsAhead {tokens : List Token} {place depth : Nat}
    (room : enough tokens place ≤ depth) :
    ∃ base, depth = base + 12 ∧ FollowsAhead tokens place base := by
  unfold enough at room
  refine ⟨depth - 12, by omega, fun stop further deeper roomAhead => ?_⟩
  have roomThere : enough tokens stop ≤ deeper := by
    unfold enough
    omega
  obtain ⟨base, rfl, ahead⟩ := exists_followsAhead roomThere
  exact ahead.followsReaders
termination_by (tokens.drop place).length
decreasing_by assumption

theorem followsReaders_of_enough {tokens : List Token} {place depth : Nat}
    (room : enough tokens place ≤ depth) : FollowsReaders tokens place depth := by
  obtain ⟨base, rfl, ahead⟩ := exists_followsAhead room
  exact ahead.followsReaders

section

variable {α β : Type} {cursor : Cursor α} {tokens : List Token} {place : Nat}

theorem outcome_of_eq {other : Cursor α} {stop : Nat}
    (same : cursor tokens place = other tokens stop) :
    outcome cursor tokens place = outcome other tokens stop := by
  unfold outcome
  rw [same]

theorem outcome_map (build : α → β) :
    outcome (do return build (← cursor)) tokens place =
      (outcome cursor tokens place).map (Except.map build) := by
  unfold outcome
  rw [bind_eq]
  cases cursor tokens place with
  | none => rfl
  | some result => cases result <;> rfl

end

/-- A whole program is read, or rejected, as the reader of programs does. -/
theorem outcome_program {tokens : List Token} {place depth : Nat}
    (room : enough tokens place < depth) :
    outcome (program depth) tokens place =
      some ((Parse.program (tokens.drop place)).mapError fun error => .fault error.fault) := by
  obtain ⟨deeper, rfl, roomHere⟩ : ∃ deeper, depth = deeper + 1 ∧ enough tokens place ≤ deeper :=
    ⟨depth - 1, by omega, by omega⟩
  unfold program
  rw [outcome_of_eq (bind_of_ok (current_eq tokens place))]
  split
  · next ends =>
      have read : Parse.program ([] ++ tokens.drop place) = .ok [] :=
        Derivation.noStatements.program ends
      rw [List.nil_append] at read
      rw [read]
      rfl
  · next more =>
      have reads := Parse.program_more more
      cases (followsReaders_of_enough roomHere).statement with
      | halts error read halted =>
          rw [read] at reads
          rw [outcome, bind_of_error halted, reads]
          rfl
      | arrives first taken rest split read moved =>
          have left := drop_behind split
          have fewer : (tokens.drop (place + taken.length)).length <
              (tokens.drop place).length := by
            rw [left]
            exact shorter_of_pair read
          have later : Parse.program (tokens.drop place) =
              (Parse.program rest).map (first :: ·) := by
            rw [reads, read]
            rfl
          have roomAhead : enough tokens (place + taken.length) < deeper := by
            unfold enough at roomHere ⊢
            omega
          rw [outcome_of_eq (bind_of_ok moved), outcome_map, outcome_program roomAhead, left, later]
          cases Parse.program rest <;> rfl
termination_by (tokens.drop place).length
decreasing_by assumption

end Cursor

end TinyScript
