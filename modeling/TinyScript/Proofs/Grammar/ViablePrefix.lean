import Mathlib
import TinyScript.Proofs.Grammar.Exactness
import TinyScript.Proofs.Grammar.Lookahead
import TinyScript.Proofs.Grammar.Viability

/-!
# Errors at the first unexpected token

What a reader takes before it fails is viable: it can be gone on with to the phrase that the reader
is for. Together with the token that was found it can not, since readers look one token ahead.
-/

set_option autoImplicit false

namespace TinyScript

namespace Parse

/-- If a reader fails, what it took before has a property. -/
def Stalls {α : Type} (reader : Reader α) (tokens : List Token) (viable : List Token → Prop) :
    Prop :=
  ∀ error, reader tokens = .error error → ∃ words, tokens = words ++ error.rest ∧ viable words

section

variable {α β : Type} {tokens : List Token} {viable : List Token → Prop}

/-- The token in front is the first that the reader took, or the one that it found instead. -/
theorem Stalls.behind {reader : Reader α} {narrower : List Token → Prop}
    (stalls : Stalls reader tokens narrower)
    (wider : ∀ words found, current tokens = words.headD found → narrower words → viable words) :
    Stalls reader tokens viable := by
  intro error failed
  obtain ⟨words, rfl, holds⟩ := stalls error failed
  exact ⟨words, rfl, wider words _ (current_append _ _) holds⟩

theorem Stalls.imp {reader : Reader α} {narrower : List Token → Prop}
    (stalls : Stalls reader tokens narrower) (wider : ∀ words, narrower words → viable words) :
    Stalls reader tokens viable :=
  stalls.behind fun words _ _ => wider words

theorem Stalls.pure (value : α) (tokens : List Token) : Stalls (Pure.pure value) tokens viable :=
  fun _ failed => nomatch failed

theorem Stalls.congr {reader inner : Reader α} (same : reader tokens = inner tokens)
    (stalls : Stalls inner tokens viable) : Stalls reader tokens viable :=
  fun error failed => stalls error (same.symm.trans failed)

theorem Stalls.cons {reader inner : Reader α} {first : Token}
    (same : reader (first :: tokens) = inner tokens)
    (stalls : Stalls inner tokens fun words => viable (first :: words)) :
    Stalls reader (first :: tokens) viable := by
  intro error failed
  obtain ⟨words, split, holds⟩ := stalls error (same.symm.trans failed)
  exact ⟨first :: words, congrArg _ split, holds⟩

/-- A reader stalls in its first part, or in the second one behind what the first took. -/
theorem Stalls.bind {reader : Reader α} {next : α → Reader β}
    (first : Stalls reader tokens viable)
    (step : ∀ value rest, reader tokens = .ok (value, rest) →
      ∃ taken, tokens = taken ++ rest ∧
        Stalls (next value) rest fun words => viable (taken ++ words)) :
    Stalls (reader >>= next) tokens viable := by
  intro error failed
  change (reader tokens).bind _ = _ at failed
  cases result : reader tokens with
  | error fault =>
      rw [result] at failed
      cases failed
      exact first error result
  | ok pair =>
      obtain ⟨value, rest⟩ := pair
      obtain ⟨taken, rfl, stalls⟩ := step value rest result
      rw [result] at failed
      obtain ⟨words, rfl, holds⟩ := stalls error failed
      exact ⟨taken ++ words, (List.append_assoc _ _ _).symm, holds⟩

theorem Stalls.last {reader : Reader α} (build : α → β) (stalls : Stalls reader tokens viable) :
    Stalls (reader >>= fun value => Pure.pure (build value)) tokens viable := by
  intro error failed
  change (reader tokens).bind _ = _ at failed
  cases result : reader tokens with
  | error fault =>
      rw [result] at failed
      cases failed
      exact stalls error result
  | ok pair =>
      rw [result] at failed
      cases failed

theorem expect_stalls (expected : Symbol) (missing : viable []) :
    Stalls (Reader.expect expected) tokens viable := by
  intro error failed
  by_cases front : current tokens = .symbol expected
  · obtain ⟨later, rfl⟩ := exists_cons_of_current front (by simp)
    rw [Reader.expect_self] at failed
    cases failed
  · rw [Reader.expect_other front] at failed
    cases failed
    exact ⟨[], rfl, missing⟩

theorem identifier_stalls (missing : viable []) : Stalls Reader.identifier tokens viable := by
  intro error failed
  by_cases front : ∃ spelling, current tokens = .name spelling
  · obtain ⟨spelling, front⟩ := front
    obtain ⟨later, rfl⟩ := exists_cons_of_current front (by simp)
    rw [Reader.identifier_name] at failed
    cases failed
  · rw [Reader.identifier_other (not_exists.mp front)] at failed
    cases failed
    exact ⟨[], rfl, missing⟩

theorem statementEnd_stalls (missing : viable []) :
    Stalls Reader.statementEnd tokens viable := by
  by_cases closes : current tokens = .symbol .rightBrace
  · exact .congr (Reader.statementEnd_rightBrace closes) (.pure () tokens)
  · exact .congr (Reader.statementEnd_otherwise closes) (expect_stalls .semicolon missing)

theorem Reads.of_pair {holds : α → List Token → Prop}
    {result : Except ParseError (Parsed α tokens)} (reads : Reads tokens holds result)
    (value : α) (rest : List Token) (gives : result.map Parsed.pair = .ok (value, rest)) :
    holds value rest := by
  cases result with
  | error error => cases gives
  | ok parsed =>
      cases gives
      exact reads

theorem Stalls.expect {expected : Symbol} {next : Unit → Reader β} (missing : viable [])
    (step : ∀ rest, tokens = .symbol expected :: rest →
      Stalls (next ()) rest fun words => viable (.symbol expected :: words)) :
    Stalls (Reader.expect expected >>= next) tokens viable := by
  apply (expect_stalls expected missing).bind
  intro _ rest taken
  have same := (expect_reads expected tokens).of_pair _ _ taken
  exact ⟨[.symbol expected], same, step rest same⟩

theorem Stalls.identifier {next : String → Reader β} (missing : viable [])
    (step : ∀ spelling rest, tokens = .name spelling :: rest →
      Stalls (next spelling) rest fun words => viable (.name spelling :: words)) :
    Stalls (Reader.identifier >>= next) tokens viable := by
  apply (identifier_stalls missing).bind
  intro spelling rest taken
  have same := (identifier_reads tokens).of_pair _ _ taken
  exact ⟨[.name spelling], same, step spelling rest same⟩

/-- A reader stalls in the phrase that it begins with, or behind the words that spell it. -/
theorem Stalls.phrase {kind : α → Phrase} {reader : Reader α} {next : α → Reader β}
    (spells : ∀ value rest, reader tokens = .ok (value, rest) → Spells tokens (kind value) rest)
    (first : Stalls reader tokens viable)
    (step : ∀ value words rest, reader tokens = .ok (value, rest) → tokens = words ++ rest →
      Derivation (kind value) words (current rest) →
      Stalls (next value) rest fun others => viable (words ++ others)) :
    Stalls (reader >>= next) tokens viable := by
  apply first.bind
  intro value rest taken
  obtain ⟨words, same, ⟨derivation⟩⟩ := spells value rest taken
  exact ⟨words, same, step value words rest taken same derivation⟩

/-- An expression with a symbol behind it is viable as the expression alone is. -/
theorem Stalls.ended {stop : Reader Unit} (build : Node → Node)
    (value : Stalls Reader.expression tokens (Viable Phrase.expression))
    (grows : ∀ words, Viable Phrase.expression words → viable words)
    (stops : ∀ rest (missing : List Token → Prop), missing [] → Stalls stop rest missing) :
    Stalls (do
      let value ← Reader.expression
      stop
      return build value) tokens viable := by
  apply Stalls.phrase (readers_spell tokens).expression.of_pair (value.imp grows)
  intro value words rest _ _ derivation
  apply (stops rest _ ?_).last
  rw [List.append_nil]
  exact grows words (.of_expression derivation)

end

theorem moreParameters_stalls (tokens : List Token) :
    Stalls Reader.moreParameters tokens ViableFurtherNames := by
  by_cases more : current tokens = .symbol .comma
  · obtain ⟨later, rfl⟩ := exists_cons_of_current more (by simp)
    apply Stalls.cons (Reader.moreParameters_comma later)
    apply Stalls.identifier .comma
    rintro spelling rest rfl
    exact ((moreParameters_stalls rest).imp fun _ => .cons spelling).last _
  · apply Stalls.congr (Reader.moreParameters_close more)
    exact (expect_stalls .rightParen .none).last _
termination_by tokens.length
decreasing_by grind

theorem parameters_stalls (tokens : List Token) : Stalls Reader.parameters tokens ViableNames := by
  by_cases closes : current tokens = .symbol .rightParen
  · obtain ⟨later, rfl⟩ := exists_cons_of_current closes (by simp)
    exact .cons (Reader.parameters_close later) (.pure [] later)
  · apply Stalls.congr (Reader.parameters_more closes)
    apply Stalls.identifier .none
    rintro spelling rest rfl
    exact ((moreParameters_stalls rest).imp fun _ => .cons spelling).last _

/-- What all readers took before they fail on the same tokens. A chain goes on behind an operand. -/
structure ReadersStall (tokens : List Token) : Prop where
  statement : Stalls Reader.statement tokens (Viable Phrase.statement)
  blockBody : Stalls Reader.blockBody tokens (Viable Phrase.statements)
  expression : Stalls Reader.expression tokens (Viable Phrase.expression)
  operand : ∀ level, level ≤ primaryLevel →
    Stalls (Reader.operand level) tokens (Viable (Phrase.operand level))
  chain : ∀ level left leftWords, level < primaryLevel →
    Derivation (.operand level left) leftWords (current tokens) →
    Stalls (Reader.chain level left) tokens fun words =>
      Viable (Phrase.operand level) (leftWords ++ words)
  arguments : Stalls Reader.arguments tokens (Viable Phrase.arguments)
  moreArguments : Stalls Reader.moreArguments tokens (Viable Phrase.moreArguments)

section

variable {tokens : List Token}
variable (shorter : ∀ later : List Token, later.length < tokens.length → ReadersStall later)

include shorter

theorem primary_stalls :
    Stalls Reader.primary tokens (Viable (Phrase.operand primaryLevel)) := by
  by_cases starts : (current tokens).startsOperand = true
  · cases tokens with
    | nil => cases starts
    | cons first later =>
        have behind := shorter later (Nat.lt_succ_self _)
        cases first with
        | int value => exact .cons (Reader.primary_int value later) (.pure _ later)
        | bool value => exact .cons (Reader.primary_givenBool value later) (.pure _ later)
        | keyword word =>
            obtain ⟨value, rfl⟩ := exists_bool_of_startsOperand starts
            exact .cons (Reader.primary_bool value later) (.pure _ later)
        | symbol mark =>
            obtain rfl := eq_leftParen_of_startsOperand starts
            apply Stalls.cons (Reader.primary_leftParen later)
            exact behind.expression.ended id (fun _ => .paren) fun _ _ => expect_stalls .rightParen
        | name spelling =>
            by_cases call : current later = .symbol .leftParen
            · obtain ⟨inside, rfl⟩ := exists_cons_of_current call (by simp)
              have arguments := (shorter inside (Nat.lt_succ_of_lt (Nat.lt_succ_self _))).arguments
              have behindName : Stalls (fun later => Reader.primary (.name spelling :: later))
                  (.symbol .leftParen :: inside) fun words =>
                    Viable (Phrase.operand primaryLevel) (.name spelling :: words) :=
                .cons (Reader.primary_call spelling inside)
                  ((arguments.imp fun _ => .call spelling).last _)
              exact .cons rfl behindName
            · exact .cons (Reader.primary_name spelling call) (.pure _ later)
        | illegal | endMark | empty | stray => cases starts
  · intro error failed
    rw [Reader.primary_other (Bool.eq_false_iff.mpr starts)] at failed
    cases failed
    exact ⟨[], rfl, .noOperand⟩

theorem chain_stalls {level : Nat} {left : Node} {leftWords : List Token}
    (chained : level < primaryLevel)
    (leftDerived : Derivation (.operand level left) leftWords (current tokens)) :
    Stalls (Reader.chain level left) tokens fun words =>
      Viable (Phrase.operand level) (leftWords ++ words) := by
  by_cases goes : ∃ op, (current tokens).operator? = some op ∧ op.precedence = level
  · obtain ⟨op, stands, rfl⟩ := goes
    obtain ⟨later, rfl⟩ := exists_cons_of_operator? stands
    -- the left operand stays in front of its operator, so that nothing about it changes
    apply Stalls.cons (Reader.chain_operator op left later)
    have right := (shorter later (Nat.lt_succ_self _)).operand (op.precedence + 1) chained
    apply Stalls.phrase ((readers_spell later).operand (op.precedence + 1) chained).of_pair
      (right.imp fun _ => .right leftDerived)
    intro right words rest taken same rightDerived
    have fewer := Nat.lt_succ_of_lt (shorter_of_pair taken)
    have further := (shorter rest fewer).chain op.precedence _ _ chained
      (.binary leftDerived rightDerived)
    apply further.imp
    intro others viable
    simpa using viable
  · have stops : operator? level tokens = none :=
      operator?_eq_none fun op stands levelOf => goes ⟨op, stands, levelOf⟩
    exact .congr (Reader.chain_stop left stops) (.pure left tokens)

theorem operand_stalls {level distance : Nat} (sum : level + distance = primaryLevel) :
    Stalls (Reader.operand level) tokens (Viable (Phrase.operand level)) := by
  induction distance generalizing level with
  | zero =>
      obtain rfl : level = primaryLevel := sum
      exact .congr (Reader.operand_primaryLevel tokens) (primary_stalls shorter)
  | succ distance ih =>
      have chained : level < primaryLevel := by omega
      apply Stalls.congr (Reader.operand_chained chained tokens)
      apply Stalls.phrase ((readers_spell tokens).operand (level + 1) chained).of_pair
        ((ih (by omega)).imp fun _ => .tighter chained)
      intro first words rest taken _ derivation
      exact (shorter rest (shorter_of_pair taken)).chain level first words chained
        (.tighter chained derivation)

theorem expression_stalls : Stalls Reader.expression tokens (Viable Phrase.expression) := by
  by_cases function : current tokens = .keyword .fnKw
  · obtain ⟨afterFn, rfl⟩ := exists_cons_of_current function (by simp)
    apply Stalls.cons (Reader.expression_fnKw afterFn)
    apply Stalls.expect
    · exact .front [.symbol .leftParen] rfl (.functionParameters .none)
    rintro afterParen rfl
    apply ((parameters_stalls afterParen).imp fun _ => .functionParameters).bind
    intro names afterNames taken
    have same := (parameters_reads afterParen).of_pair _ _ taken
    subst same
    refine ⟨nameWords names ++ [.symbol .rightParen], by simp, ?_⟩
    apply Stalls.expect
    · apply Viable.front [.symbol .leftBrace] rfl
      simpa using Viable.functionBody names .noStatements
    rintro afterBrace rfl
    have body := (shorter afterBrace (by grind)).blockBody
    refine ((body.imp ?_).last (Node.func names))
    intro words viable
    simpa using Viable.functionBody names viable
  · have chained : 1 + 3 = primaryLevel := rfl
    apply Stalls.congr (Reader.expression_otherwise function)
    exact (operand_stalls shorter chained).imp fun _ => .comparison

theorem alternative_stalls {condition consequence : Node}
    {conditionWords consequenceWords rest : List Token}
    (conditionDerived : Derivation (.expression condition) conditionWords
      (consequenceWords.headD (current rest)))
    (consequenceDerived : Derivation (.statement consequence) consequenceWords (current rest))
    (fewer : rest.length < tokens.length) :
    Stalls (Reader.alternative condition consequence) rest fun words => Viable Phrase.statement
      (.keyword .ifKw :: (conditionWords ++ (consequenceWords ++ words))) := by
  by_cases alternative : current rest = .keyword .elseKw
  · obtain ⟨afterElse, rfl⟩ := exists_cons_of_current alternative (by simp)
    apply Stalls.cons (Reader.alternative_elseKw condition consequence afterElse)
    have further := (shorter afterElse (Nat.lt_of_succ_lt fewer)).statement
    exact (further.imp fun _ => .alternative conditionDerived consequenceDerived).last _
  · exact .congr (Reader.alternative_missing condition consequence alternative) (.pure _ rest)

theorem statement_stalls : Stalls Reader.statement tokens (Viable Phrase.statement) := by
  by_cases keyed : current tokens ∈
      [.keyword .letKw, .keyword .returnKw, .symbol .leftBrace, .keyword .ifKw]
  · simp only [List.mem_cons, List.not_mem_nil, or_false] at keyed
    rcases keyed with letKw | returnKw | leftBrace | ifKw
    · obtain ⟨afterLet, rfl⟩ := exists_cons_of_current letKw (by simp)
      apply Stalls.cons (Reader.statement_letKw afterLet)
      apply Stalls.identifier
      · exact .front [.name "x", .symbol .assign] (by decide) (.letValue "x" .noExpression)
      rintro target afterTarget rfl
      apply Stalls.expect
      · exact .front [.symbol .assign] rfl (.letValue target .noExpression)
      rintro afterEquals rfl
      exact (shorter afterEquals (by grind)).expression.ended (.letE target)
        (fun _ => .letValue target) fun _ _ => expect_stalls .semicolon
    · obtain ⟨afterReturn, rfl⟩ := exists_cons_of_current returnKw (by simp)
      apply Stalls.cons (Reader.statement_returnKw afterReturn)
      exact (shorter afterReturn (Nat.lt_succ_self _)).expression.ended .returnE
        (fun _ => .returnValue) fun _ _ => statementEnd_stalls
    · obtain ⟨inside, rfl⟩ := exists_cons_of_current leftBrace (by simp)
      apply Stalls.cons (Reader.statement_leftBrace inside)
      have statements := (shorter inside (Nat.lt_succ_self _)).blockBody
      exact (statements.imp fun _ => .block).last _
    · obtain ⟨afterIf, rfl⟩ := exists_cons_of_current ifKw (by simp)
      apply Stalls.cons (Reader.statement_ifKw afterIf)
      have condition := (shorter afterIf (Nat.lt_succ_self _)).expression
      apply Stalls.phrase (readers_spell afterIf).expression.of_pair
        (condition.imp fun _ => .condition)
      intro condition conditionWords afterCondition conditional same conditionDerived
      have fewer := Nat.lt_succ_of_lt (shorter_of_pair conditional)
      have consequence := (shorter afterCondition fewer).statement
      -- the condition stands in front of what was taken of the consequence, be it nothing
      apply Stalls.phrase (readers_spell afterCondition).statement.of_pair
        (consequence.behind fun _ _ front => .consequence (front ▸ conditionDerived))
      intro consequence consequenceWords rest consequent same consequenceDerived
      subst same
      rw [current_append] at conditionDerived
      exact alternative_stalls shorter conditionDerived consequenceDerived
        (Nat.lt_trans (shorter_of_pair consequent) fewer)
  · apply Stalls.congr (Reader.statement_otherwise keyed)
    exact (expression_stalls shorter).ended id (fun _ => .expressionValue)
      fun _ _ => statementEnd_stalls

theorem blockBody_stalls : Stalls Reader.blockBody tokens (Viable Phrase.statements) := by
  by_cases closes : current tokens = .symbol .rightBrace
  · obtain ⟨later, rfl⟩ := exists_cons_of_current closes (by simp)
    exact .cons (Reader.blockBody_close later) (.pure [] later)
  · apply Stalls.congr (Reader.blockBody_more closes)
    apply Stalls.phrase (readers_spell tokens).statement.of_pair
      ((statement_stalls shorter).imp fun _ => .firstStatement)
    intro first words rest taken _ derivation
    have later := (shorter rest (shorter_of_pair taken)).blockBody
    exact (later.behind fun _ _ front => .laterStatements (front ▸ derivation)).last _

theorem arguments_stalls : Stalls Reader.arguments tokens (Viable Phrase.arguments) := by
  by_cases closes : current tokens = .symbol .rightParen
  · obtain ⟨later, rfl⟩ := exists_cons_of_current closes (by simp)
    exact .cons (Reader.arguments_close later) (.pure [] later)
  · apply Stalls.congr (Reader.arguments_more closes)
    apply Stalls.phrase (readers_spell tokens).expression.of_pair
      ((expression_stalls shorter).imp fun _ => .firstArgument)
    intro first words rest taken _ derivation
    have later := (shorter rest (shorter_of_pair taken)).moreArguments
    exact (later.behind fun _ _ front => .laterArguments (front ▸ derivation)).last _

theorem moreArguments_stalls :
    Stalls Reader.moreArguments tokens (Viable Phrase.moreArguments) := by
  by_cases more : current tokens = .symbol .comma
  · obtain ⟨later, rfl⟩ := exists_cons_of_current more (by simp)
    apply Stalls.cons (Reader.moreArguments_comma later)
    have next := (shorter later (Nat.lt_succ_self _)).expression
    apply Stalls.phrase (readers_spell later).expression.of_pair (next.imp fun _ => .nextArgument)
    intro next words rest taken _ derivation
    have further := (shorter rest (Nat.lt_succ_of_lt (shorter_of_pair taken))).moreArguments
    exact (further.behind fun _ _ front => .furtherArguments (front ▸ derivation)).last _
  · apply Stalls.congr (Reader.moreArguments_close more)
    exact (expect_stalls .rightParen .lastArgument).last _

end

theorem readers_stall (tokens : List Token) : ReadersStall tokens := by
  have shorter : ∀ later : List Token, later.length < tokens.length → ReadersStall later :=
    fun later _ => readers_stall later
  exact {
    statement := statement_stalls shorter
    blockBody := blockBody_stalls shorter
    expression := expression_stalls shorter
    operand := fun level bound => operand_stalls shorter (Nat.add_sub_cancel' bound)
    chain := fun _ _ _ chained leftDerived => chain_stalls shorter chained leftDerived
    arguments := arguments_stalls shorter
    moreArguments := moreArguments_stalls shorter }
termination_by tokens.length

/-- What is read of a program before it fails is viable. -/
theorem program_stalls {tokens : List Token} {error : ParseError}
    (failed : program tokens = .error error) :
    ∃ words, tokens = words ++ error.rest ∧ Viable Phrase.statements words := by
  have more : current tokens ≠ .endMark := by
    intro ends
    have read : program ([] ++ tokens) = .ok [] := Derivation.noStatements.program ends
    rw [List.nil_append, failed] at read
    cases read
  rw [program_more more] at failed
  cases first : Reader.statement tokens with
  | error fault =>
      rw [first] at failed
      cases failed
      obtain ⟨words, same, viable⟩ := (readers_stall tokens).statement error first
      exact ⟨words, same, .firstStatement viable⟩
  | ok pair =>
      obtain ⟨node, rest⟩ := pair
      have fewer := shorter_of_pair first
      obtain ⟨words, rfl, ⟨derivation⟩⟩ := (readers_spell tokens).statement.of_pair node rest first
      rw [first] at failed
      cases later : program rest with
      | ok nodes =>
          change (program rest).map _ = _ at failed
          rw [later] at failed
          cases failed
      | error fault =>
          change (program rest).map _ = _ at failed
          rw [later] at failed
          cases failed
          obtain ⟨others, rfl, viable⟩ := program_stalls later
          rw [current_append] at derivation
          exact ⟨words ++ others, by rw [List.append_assoc], .laterStatements derivation viable⟩
termination_by tokens.length
decreasing_by grind

end Parse

theorem Token.isScanned_of_isPlain {token : Token} (plain : token.isPlain = true) :
    token.isScanned = true := by
  cases token with
  | illegal => cases plain
  | _ => exact plain

/-- Scanned words that are no program fail at one of their tokens, or at the end mark. The words in
front of it can be gone on with to a program. With the token it is no program whatever follows, and
fails at this token for the same reason. -/
theorem Program.ofTokens_fails_early {words : List Token}
    (scanned : ∀ word ∈ words, word.isScanned = true) {error : ParseError}
    (failed : Parse.program (words ++ [.endMark]) = .error error) :
    ∃ taken found others, words ++ [.endMark] = taken ++ found :: others ∧
      error.rest = found :: others ∧
      (∃ continuation program, (∀ word ∈ taken ++ continuation, word.isScanned = true) ∧
        ofTokens (taken ++ continuation ++ [.endMark]) = .ok program) ∧
      ∀ different,
        Parse.program (taken ++ found :: different) = .error ⟨error.fault, found :: different⟩ ∧
        ofTokens (taken ++ found :: different) = .error error.fault.failure := by
  obtain ⟨taken, same, viable⟩ := Parse.program_stalls failed
  obtain ⟨before, split, ahead⟩ := Parse.program_error_ahead failed
  obtain rfl : taken = before := List.append_cancel_right (same.symm.trans split)
  obtain ⟨continuation, program, plain, derives⟩ := viable
  obtain ⟨derivation⟩ := derives .endMark ⟨by simp, by simp⟩
  have noEnd := derivation.endMark_not_mem
  have taken_scanned : ∀ word ∈ taken, word.isScanned = true := by
    intro word member
    have among : word ∈ words ++ [.endMark] := same ▸ List.mem_append_left _ member
    rcases List.mem_append.mp among with inside | last
    · exact scanned word inside
    · cases List.mem_singleton.mp last
      exact absurd (List.mem_append_left _ member) noEnd
  have continued : ∀ word ∈ taken ++ continuation, word.isScanned = true := by
    intro word member
    rcases List.mem_append.mp member with inside | further
    · exact taken_scanned word inside
    · exact Token.isScanned_of_isPlain (List.all_eq_true.mp plain word further)
  cases rest : error.rest with
  | nil =>
      rw [rest, List.append_nil] at same
      have ends : .endMark ∈ taken := same ▸ List.mem_append_right _ (.head _)
      exact absurd (List.mem_append_left _ ends) noEnd
  | cons found others =>
      rw [rest] at same
      refine ⟨taken, found, others, same, rfl, ⟨continuation, program, continued, ?_⟩, ?_⟩
      · exact ofTokens_of_ok (derivation.program rfl)
      · intro different
        have fails := ahead (found :: different) (by rw [rest]; rfl)
        have rejected := ofTokens_of_error fails
        exact ⟨fails, rejected⟩

/-- Outside of a block, a closing brace ends a statement and is then not expected. -/
theorem Program.ofTokens_fails_early_stray_brace :
    (∀ word ∈ [Token.name "x", .symbol .rightBrace], word.isScanned = true) ∧
    Parse.program ([.name "x", .symbol .rightBrace] ++ [.endMark]) =
      .error ⟨.unexpectedToken (.symbol .rightBrace), [.symbol .rightBrace, .endMark]⟩ ∧
    ∀ different, ofTokens (.name "x" :: .symbol .rightBrace :: different) =
      .error ⟨.language .grammar, "Unexpected token @ _primary(): \x7d"⟩ := by
  have scanned : ∀ word ∈ [Token.name "x", .symbol .rightBrace], word.isScanned = true := by
    decide
  have failed : Parse.program ([.name "x", .symbol .rightBrace] ++ [.endMark]) =
      .error ⟨.unexpectedToken (.symbol .rightBrace), [.symbol .rightBrace, .endMark]⟩ := by
    cbv
  refine ⟨scanned, failed, ?_⟩
  intro different
  obtain ⟨taken, found, others, same, rest, _, fails⟩ := ofTokens_fails_early scanned failed
  cases rest
  obtain rfl : [.name "x"] = taken := List.append_cancel_right same
  exact (fails different).2

end TinyScript
