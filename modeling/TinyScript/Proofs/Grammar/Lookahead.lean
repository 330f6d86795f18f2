import TinyScript.Proofs.Grammar.Readers

/-!
# Readers look one token ahead

What a reader does is decided by the tokens that it takes and the one behind them. Anything may
follow that token, and the reader still gives the same value or fails for the same reason, at the
same place.
-/

set_option autoImplicit false

namespace TinyScript

namespace Parse

/-- What a reader comes to, with the tokens that it left. -/
def arrive {α : Type} : Except ParseFault α → List Token → Except ParseError (α × List Token)
  | .ok value, rest => .ok (value, rest)
  | .error fault, rest => .error ⟨fault, rest⟩

/-- On some tokens a reader sees no more than the words that it takes and the token behind them. -/
def LooksAhead {α : Type} (reader : Reader α) (tokens : List Token) : Prop :=
  ∃ words rest outcome, tokens = words ++ rest ∧
    ∀ other, current other = current rest → reader (words ++ other) = arrive outcome other

section

variable {α β : Type} {tokens : List Token}

theorem LooksAhead.pure (value : α) (tokens : List Token) :
    LooksAhead (Pure.pure value) tokens :=
  ⟨[], tokens, .ok value, rfl, fun _ _ => rfl⟩

/-- Readers of which each looks one token ahead do so together. -/
theorem LooksAhead.bind {reader : Reader α} {next : α → Reader β} (first : LooksAhead reader tokens)
    (step : ∀ value rest, reader tokens = .ok (value, rest) → LooksAhead (next value) rest) :
    LooksAhead (reader >>= next) tokens := by
  obtain ⟨words, rest, outcome, rfl, arrives⟩ := first
  cases outcome with
  | error fault =>
      refine ⟨words, rest, .error fault, rfl, ?_⟩
      intro other front
      change (reader (words ++ other)).bind _ = _
      rw [arrives other front]
      rfl
  | ok value =>
      obtain ⟨further, behind, outcome, rfl, goesOn⟩ := step value rest (arrives rest rfl)
      refine ⟨words ++ further, behind, outcome, (List.append_assoc _ _ _).symm, ?_⟩
      intro other front
      -- the first reader sees the same token in front of what it leaves, also if the next takes none
      have reached : reader (words ++ (further ++ other)) = .ok (value, further ++ other) :=
        arrives _ (by rw [current_append, current_append, front])
      rw [List.append_assoc]
      change (reader (words ++ (further ++ other))).bind _ = _
      rw [reached]
      exact goesOn other front

/-- A reader does what another one does whenever the same token is in front. -/
theorem LooksAhead.congr {reader inner : Reader α}
    (same : ∀ other, current other = current tokens → reader other = inner other)
    (looks : LooksAhead inner tokens) : LooksAhead reader tokens := by
  obtain ⟨words, rest, outcome, rfl, arrives⟩ := looks
  refine ⟨words, rest, outcome, rfl, ?_⟩
  intro other front
  rw [same _ (by rw [current_append, current_append, front]), arrives other front]

/-- A reader takes one token and does what another one does behind it. -/
theorem LooksAhead.cons {reader inner : Reader α} {first : Token}
    (same : ∀ later, reader (first :: later) = inner later) (looks : LooksAhead inner tokens) :
    LooksAhead reader (first :: tokens) := by
  obtain ⟨words, rest, outcome, rfl, arrives⟩ := looks
  exact ⟨first :: words, rest, outcome, rfl, fun other front =>
    (same (words ++ other)).trans (arrives other front)⟩

theorem LooksAhead.fail {reader : Reader α} (fault : ParseFault)
    (fails : ∀ other, current other = current tokens → reader other = .error ⟨fault, other⟩) :
    LooksAhead reader tokens :=
  ⟨[], tokens, .error fault, rfl, fails⟩

end

section

variable {tokens : List Token}

theorem expect_looksAhead (expected : Symbol) (tokens : List Token) :
    LooksAhead (Reader.expect expected) tokens := by
  by_cases front : current tokens = .symbol expected
  · obtain ⟨later, rfl⟩ := exists_cons_of_current front (by simp)
    exact .cons (Reader.expect_self expected) (.pure () later)
  · apply LooksAhead.fail (.expectedSymbol expected (current tokens))
    intro other same
    rw [Reader.expect_other (same ▸ front), same]

theorem identifier_looksAhead (tokens : List Token) : LooksAhead Reader.identifier tokens := by
  by_cases front : ∃ spelling, current tokens = .name spelling
  · obtain ⟨spelling, front⟩ := front
    obtain ⟨later, rfl⟩ := exists_cons_of_current front (by simp)
    exact .cons (Reader.identifier_name spelling) (.pure spelling later)
  · apply LooksAhead.fail (current tokens).nameFault
    intro other same
    rw [Reader.identifier_other (same ▸ not_exists.mp front), same]

theorem statementEnd_looksAhead (tokens : List Token) :
    LooksAhead Reader.statementEnd tokens := by
  by_cases closes : current tokens = .symbol .rightBrace
  · refine .congr ?_ (.pure () tokens)
    exact fun other same => Reader.statementEnd_rightBrace (same ▸ closes)
  · refine .congr ?_ (expect_looksAhead .semicolon tokens)
    exact fun other same => Reader.statementEnd_otherwise (same ▸ closes)

theorem moreParameters_looksAhead (tokens : List Token) :
    LooksAhead Reader.moreParameters tokens := by
  by_cases more : current tokens = .symbol .comma
  · obtain ⟨later, rfl⟩ := exists_cons_of_current more (by simp)
    apply LooksAhead.cons Reader.moreParameters_comma
    apply (identifier_looksAhead later).bind
    intro next afterNext taken
    have fewer := shorter_of_pair taken
    apply (moreParameters_looksAhead afterNext).bind
    intro further rest _
    exact .pure _ _
  · apply LooksAhead.congr fun other same => Reader.moreParameters_close (same ▸ more)
    exact (expect_looksAhead .rightParen tokens).bind fun _ rest _ => .pure _ rest
termination_by tokens.length
decreasing_by grind

theorem parameters_looksAhead (tokens : List Token) : LooksAhead Reader.parameters tokens := by
  by_cases closes : current tokens = .symbol .rightParen
  · obtain ⟨later, rfl⟩ := exists_cons_of_current closes (by simp)
    exact .cons Reader.parameters_close (.pure [] later)
  · apply LooksAhead.congr fun other same => Reader.parameters_more (same ▸ closes)
    apply (identifier_looksAhead tokens).bind
    intro first afterFirst _
    exact (moreParameters_looksAhead afterFirst).bind fun _ rest _ => .pure _ rest

end

/-- All readers look one token ahead on the same tokens. -/
structure ReadersLookAhead (tokens : List Token) : Prop where
  statement : LooksAhead Reader.statement tokens
  blockBody : LooksAhead Reader.blockBody tokens
  expression : LooksAhead Reader.expression tokens
  operand : ∀ level, level ≤ primaryLevel → LooksAhead (Reader.operand level) tokens
  chain : ∀ level left, level < primaryLevel → LooksAhead (Reader.chain level left) tokens
  arguments : LooksAhead Reader.arguments tokens
  moreArguments : LooksAhead Reader.moreArguments tokens

section

variable {tokens : List Token}
variable (shorter : ∀ later : List Token, later.length < tokens.length → ReadersLookAhead later)

include shorter

/-- Behind a name, an opening parenthesis makes it a call. -/
theorem name_looksAhead (spelling : String) {later : List Token}
    (fewer : later.length < tokens.length) :
    LooksAhead (fun later => Reader.primary (.name spelling :: later)) later := by
  by_cases call : current later = .symbol .leftParen
  · obtain ⟨inside, rfl⟩ := exists_cons_of_current call (by simp)
    apply LooksAhead.cons (Reader.primary_call spelling)
    apply (shorter inside (Nat.lt_of_succ_lt fewer)).arguments.bind
    exact fun operands rest _ => .pure _ rest
  · refine .congr ?_ (.pure (.name spelling) later)
    exact fun other same => Reader.primary_name spelling (same ▸ call)

theorem primary_looksAhead : LooksAhead Reader.primary tokens := by
  by_cases starts : (current tokens).startsOperand = true
  · cases tokens with
    | nil => cases starts
    | cons first later =>
        have behind := shorter later (Nat.lt_succ_self _)
        cases first with
        | int value => exact .cons (Reader.primary_int value) (.pure _ later)
        | bool value =>
            exact .cons (Reader.primary_givenBool value) (.pure _ later)
        | keyword word =>
            obtain ⟨value, rfl⟩ := exists_bool_of_startsOperand starts
            exact .cons (Reader.primary_bool value) (.pure _ later)
        | symbol mark =>
            obtain rfl := eq_leftParen_of_startsOperand starts
            apply LooksAhead.cons Reader.primary_leftParen
            refine behind.expression.bind ?_
            intro inner rest _
            exact (expect_looksAhead .rightParen rest).bind fun _ rest _ => .pure _ rest
        | name spelling =>
            apply LooksAhead.cons fun _ => rfl
            exact name_looksAhead shorter spelling (Nat.lt_succ_self _)
        | illegal | endMark | empty | stray => cases starts
  · apply LooksAhead.fail (current tokens).operandFault
    intro other same
    rw [Reader.primary_other (same ▸ Bool.eq_false_iff.mpr starts), same]

theorem chain_looksAhead {level : Nat} (left : Node) (chained : level < primaryLevel) :
    LooksAhead (Reader.chain level left) tokens := by
  by_cases goes : ∃ op, (current tokens).operator? = some op ∧ op.precedence = level
  · obtain ⟨op, stands, rfl⟩ := goes
    obtain ⟨later, rfl⟩ := exists_cons_of_operator? stands
    apply LooksAhead.cons (Reader.chain_operator op left)
    apply ((shorter later (Nat.lt_succ_self _)).operand (op.precedence + 1) chained).bind
    intro right rest taken
    have fewer := Nat.lt_succ_of_lt (shorter_of_pair taken)
    exact (shorter rest fewer).chain op.precedence _ chained
  · refine .congr ?_ (.pure left tokens)
    intro other same
    apply Reader.chain_stop
    apply operator?_eq_none
    intro op stands
    exact fun levelOf => goes ⟨op, same ▸ stands, levelOf⟩

theorem operand_looksAhead {level distance : Nat} (sum : level + distance = primaryLevel) :
    LooksAhead (Reader.operand level) tokens := by
  induction distance generalizing level with
  | zero =>
      obtain rfl : level = primaryLevel := sum
      exact .congr (fun other _ => Reader.operand_primaryLevel other) (primary_looksAhead shorter)
  | succ distance ih =>
      have chained : level < primaryLevel := by omega
      apply LooksAhead.congr fun other _ => Reader.operand_chained chained other
      apply (ih (by omega)).bind
      intro first afterFirst taken
      exact (shorter afterFirst (shorter_of_pair taken)).chain level first chained

theorem expression_looksAhead : LooksAhead Reader.expression tokens := by
  by_cases function : current tokens = .keyword .fnKw
  · obtain ⟨afterFn, rfl⟩ := exists_cons_of_current function (by simp)
    apply LooksAhead.cons Reader.expression_fnKw
    apply (expect_looksAhead .leftParen afterFn).bind
    intro _ afterParen opened
    apply (parameters_looksAhead afterParen).bind
    intro names afterNames named
    apply (expect_looksAhead .leftBrace afterNames).bind
    intro _ afterBrace braced
    have fewer : afterBrace.length < (Token.keyword .fnKw :: afterFn).length :=
      Nat.lt_succ_of_lt (Nat.lt_trans (shorter_of_pair braced)
        (Nat.lt_trans (shorter_of_pair named) (shorter_of_pair opened)))
    apply (shorter afterBrace fewer).blockBody.bind
    exact fun body rest _ => .pure _ rest
  · apply LooksAhead.congr fun other same => Reader.expression_otherwise (same ▸ function)
    exact operand_looksAhead shorter (rfl : 1 + 3 = primaryLevel)

theorem alternative_looksAhead (condition consequence : Node) {rest : List Token}
    (fewer : rest.length < tokens.length) :
    LooksAhead (Reader.alternative condition consequence) rest := by
  by_cases alternative : current rest = .keyword .elseKw
  · obtain ⟨afterElse, rfl⟩ := exists_cons_of_current alternative (by simp)
    apply LooksAhead.cons (Reader.alternative_elseKw condition consequence)
    apply (shorter afterElse (Nat.lt_of_succ_lt fewer)).statement.bind
    exact fun _ rest _ => .pure _ rest
  · refine .congr ?_ (.pure (.ifThen condition consequence) rest)
    exact fun other same => Reader.alternative_missing condition consequence (same ▸ alternative)

theorem statement_looksAhead : LooksAhead Reader.statement tokens := by
  by_cases keyed : current tokens ∈
      [.keyword .letKw, .keyword .returnKw, .symbol .leftBrace, .keyword .ifKw]
  · simp only [List.mem_cons, List.not_mem_nil, or_false] at keyed
    rcases keyed with letKw | returnKw | leftBrace | ifKw
    · obtain ⟨afterLet, rfl⟩ := exists_cons_of_current letKw (by simp)
      apply LooksAhead.cons Reader.statement_letKw
      apply (identifier_looksAhead afterLet).bind
      intro target afterTarget named
      apply (expect_looksAhead .assign afterTarget).bind
      intro _ afterEquals assigned
      have fewer : afterEquals.length < (Token.keyword .letKw :: afterLet).length :=
        Nat.lt_succ_of_lt (Nat.lt_trans (shorter_of_pair assigned) (shorter_of_pair named))
      apply (shorter afterEquals fewer).expression.bind
      intro value afterValue _
      exact (expect_looksAhead .semicolon afterValue).bind fun _ rest _ => .pure _ rest
    · obtain ⟨afterReturn, rfl⟩ := exists_cons_of_current returnKw (by simp)
      apply LooksAhead.cons Reader.statement_returnKw
      apply (shorter afterReturn (Nat.lt_succ_self _)).expression.bind
      intro value afterValue _
      exact (statementEnd_looksAhead afterValue).bind fun _ rest _ => .pure _ rest
    · obtain ⟨inside, rfl⟩ := exists_cons_of_current leftBrace (by simp)
      apply LooksAhead.cons Reader.statement_leftBrace
      apply (shorter inside (Nat.lt_succ_self _)).blockBody.bind
      exact fun _ rest _ => .pure _ rest
    · obtain ⟨afterIf, rfl⟩ := exists_cons_of_current ifKw (by simp)
      apply LooksAhead.cons Reader.statement_ifKw
      apply (shorter afterIf (Nat.lt_succ_self _)).expression.bind
      intro condition afterCondition conditional
      have fewer := Nat.lt_succ_of_lt (shorter_of_pair conditional)
      apply (shorter afterCondition fewer).statement.bind
      intro consequence afterConsequence consequent
      exact alternative_looksAhead shorter condition consequence
        (Nat.lt_trans (shorter_of_pair consequent) fewer)
  · apply LooksAhead.congr fun other same => Reader.statement_otherwise (same ▸ keyed)
    apply (expression_looksAhead shorter).bind
    intro value afterValue _
    exact (statementEnd_looksAhead afterValue).bind fun _ rest _ => .pure _ rest

theorem blockBody_looksAhead : LooksAhead Reader.blockBody tokens := by
  by_cases closes : current tokens = .symbol .rightBrace
  · obtain ⟨later, rfl⟩ := exists_cons_of_current closes (by simp)
    exact .cons Reader.blockBody_close (.pure [] later)
  · apply LooksAhead.congr fun other same => Reader.blockBody_more (same ▸ closes)
    apply (statement_looksAhead shorter).bind
    intro first afterFirst taken
    apply (shorter afterFirst (shorter_of_pair taken)).blockBody.bind
    exact fun _ rest _ => .pure _ rest

theorem arguments_looksAhead : LooksAhead Reader.arguments tokens := by
  by_cases closes : current tokens = .symbol .rightParen
  · obtain ⟨later, rfl⟩ := exists_cons_of_current closes (by simp)
    exact .cons Reader.arguments_close (.pure [] later)
  · apply LooksAhead.congr fun other same => Reader.arguments_more (same ▸ closes)
    apply (expression_looksAhead shorter).bind
    intro first afterFirst taken
    apply (shorter afterFirst (shorter_of_pair taken)).moreArguments.bind
    exact fun _ rest _ => .pure _ rest

theorem moreArguments_looksAhead : LooksAhead Reader.moreArguments tokens := by
  by_cases more : current tokens = .symbol .comma
  · obtain ⟨later, rfl⟩ := exists_cons_of_current more (by simp)
    apply LooksAhead.cons Reader.moreArguments_comma
    apply (shorter later (Nat.lt_succ_self _)).expression.bind
    intro next afterNext taken
    have fewer := Nat.lt_succ_of_lt (shorter_of_pair taken)
    apply (shorter afterNext fewer).moreArguments.bind
    exact fun _ rest _ => .pure _ rest
  · apply LooksAhead.congr fun other same => Reader.moreArguments_close (same ▸ more)
    exact (expect_looksAhead .rightParen tokens).bind fun _ rest _ => .pure _ rest

end

theorem readers_lookAhead (tokens : List Token) : ReadersLookAhead tokens := by
  have shorter : ∀ later : List Token, later.length < tokens.length → ReadersLookAhead later :=
    fun later _ => readers_lookAhead later
  exact {
    statement := statement_looksAhead shorter
    blockBody := blockBody_looksAhead shorter
    expression := expression_looksAhead shorter
    operand := fun level bound => operand_looksAhead shorter (Nat.add_sub_cancel' bound)
    chain := fun _ left chained => chain_looksAhead shorter left chained
    arguments := arguments_looksAhead shorter
    moreArguments := moreArguments_looksAhead shorter }
termination_by tokens.length

/-- Whether and why a program is rejected is decided by the words in front of some token and that
token. -/
theorem program_looksAhead (tokens : List Token) :
    ∃ words rest, ∃ outcome : Except ParseFault Program, tokens = words ++ rest ∧
      ∀ other, current other = current rest →
        program (words ++ other) = outcome.mapError fun fault => ⟨fault, other⟩ := by
  by_cases more : current tokens = .endMark
  · refine ⟨[], tokens, .ok [], rfl, ?_⟩
    intro other front
    exact Derivation.noStatements.program (front.trans more)
  · obtain ⟨words, rest, outcome, rfl, arrives⟩ := (readers_lookAhead tokens).statement
    have starts {other : List Token} (front : current other = current rest) :
        current (words ++ other) ≠ .endMark := by
      rwa [current_append, front, ← current_append]
    cases outcome with
    | error fault =>
        refine ⟨words, rest, .error fault, rfl, ?_⟩
        intro other front
        rw [program_more (starts front), arrives other front]
        rfl
    | ok first =>
        have fewer : rest.length < (words ++ rest).length := shorter_of_pair (arrives rest rfl)
        obtain ⟨further, behind, outcome, rfl, goesOn⟩ := program_looksAhead rest
        refine ⟨words ++ further, behind, outcome.map (first :: ·), by rw [List.append_assoc], ?_⟩
        intro other front
        have same : current (further ++ other) = current (further ++ behind) := by
          rw [current_append, current_append, front]
        rw [List.append_assoc, program_more (starts same), arrives _ same]
        change (program (further ++ other)).map _ = _
        rw [goesOn other front]
        cases outcome <;> rfl
termination_by tokens.length
decreasing_by grind

/-- A program fails in the same way whatever stands behind the token at which it does. -/
theorem program_error_ahead {tokens : List Token} {error : ParseError}
    (failed : program tokens = .error error) :
    ∃ words, tokens = words ++ error.rest ∧
      ∀ other, current other = current error.rest →
        program (words ++ other) = .error ⟨error.fault, other⟩ := by
  obtain ⟨words, rest, outcome, rfl, arrives⟩ := program_looksAhead tokens
  rw [arrives rest rfl] at failed
  cases outcome with
  | error fault =>
      cases failed
      exact ⟨words, rfl, arrives⟩
  | ok nodes => cases failed

end Parse

end TinyScript
