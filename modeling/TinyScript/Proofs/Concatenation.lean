import TinyScript.Proofs.Boundaries
import TinyScript.Proofs.Grammar.Viability
import TinyScript.Proofs.RoundTrip

/-!
# Texts one behind the other

What two texts spell, one right behind the other, is what they spell by themselves, if both are
programs. A program ends in a semicolon or a closing brace, which no lexeme behind it goes on with.
Its last statement may be followed by anything but an alternative, and no program begins with one.
-/

set_option autoImplicit false

namespace TinyScript

namespace Token

theorem mapM_ofLexeme_append {lexemes others : List Lexeme} {tokens more : List Token}
    (given : lexemes.mapM ofLexeme = .ok tokens) (givenLater : others.mapM ofLexeme = .ok more) :
    (lexemes ++ others).mapM ofLexeme = .ok (tokens ++ more) := by
  rw [List.mapM_append, given, givenLater]
  rfl

theorem getLast?_of_mapM {lexemes : List Lexeme} {tokens : List Token} {lexeme : Lexeme}
    (given : lexemes.mapM ofLexeme = .ok tokens) (last : lexeme ∈ lexemes.getLast?) :
    ∃ token ∈ tokens.getLast?, ofLexeme lexeme = .ok token := by
  induction lexemes generalizing tokens with
  | nil => cases last
  | cons first later ih =>
      obtain ⟨head, tail, firstGiven, laterGiven, rfl⟩ := mapM_ofLexeme_cons.mp given
      cases later with
      | nil =>
          cases last
          cases laterGiven
          exact ⟨head, rfl, firstGiven⟩
      | cons next further =>
          obtain ⟨token, among, gives⟩ := ih laterGiven last
          refine ⟨token, ?_, gives⟩
          rw [List.getLast?_cons, among]
          rfl

/-- Two texts give the tokens of both if no lexeme goes from the one into the other. -/
theorem mapM_split_append {first second : List Char} {tokens more : List Token}
    (given : (Lexeme.split first).mapM ofLexeme = .ok tokens)
    (givenLater : (Lexeme.split second).mapM ofLexeme = .ok more)
    (stops : ∀ lexeme, EndsIn first lexeme → lexeme.StopsBefore second) :
    (Lexeme.split (first ++ second)).mapM ofLexeme = .ok (tokens ++ more) := by
  have apart : ¬ Merges first second := by
    rw [merges_iff]
    exact fun ⟨lexeme, ends, goes⟩ => goes (stops lexeme ends)
  rw [Lexeme.split_append_iff.mpr apart]
  exact mapM_ofLexeme_append given givenLater

end Token

/-- What the words of statements end with, unless a closing brace is behind them. -/
def Phrase.Closes : Phrase → List Token → Token → Prop
  | .statement _, words, next => next ≠ .symbol .rightBrace →
      ∃ mark ∈ [Symbol.semicolon, .rightBrace], [.symbol mark] <:+ words
  | .statements _, words, next => next ≠ .symbol .rightBrace →
      words = [] ∨ ∃ mark ∈ [Symbol.semicolon, .rightBrace], [.symbol mark] <:+ words
  | _, _, _ => True

/-- Words of statements that do not need a closing brace behind them do not depend on what else is
behind them, except that it is no alternative. -/
def Phrase.StandsAlone : Phrase → List Token → Token → Prop
  | .statement node, words, next => next ≠ .symbol .rightBrace →
      ∀ other, other ≠ .keyword .elseKw → Nonempty (Derivation (.statement node) words other)
  | .statements nodes, words, next => next ≠ .symbol .rightBrace →
      ∀ other, other ≠ .keyword .elseKw → Nonempty (Derivation (.statements nodes) words other)
  | _, _, _ => True

theorem StatementEnd.eq_semicolon {before next : Token} {stop : List Token}
    (ends : StatementEnd before stop next) (noBrace : next ≠ .symbol .rightBrace) :
    before = .symbol .semicolon ∧ stop = [.symbol .semicolon] := by
  cases ends with
  | semicolon => exact ⟨rfl, rfl⟩
  | omitted => exact absurd rfl noBrace

theorem headD_ne {words : List Token} {next unwanted : Token} (noNext : next ≠ unwanted)
    (noFirst : ∀ first ∈ words.head?, first ≠ unwanted) : words.headD next ≠ unwanted := by
  cases words with
  | nil => exact noNext
  | cons first later => exact noFirst first rfl

namespace Derivation

variable {phrase : Phrase} {words : List Token} {next : Token}

theorem statements_head? {nodes : List Node} (derivation : Derivation (.statements nodes) words next) :
    ∀ first ∈ words.head?, first.startsStatement = true := by
  intro first front
  cases derivation with
  | noStatements => cases front
  | someStatements statement _ =>
      obtain ⟨head, later, rfl, starts⟩ := statement.opens
      cases front
      exact starts

theorem closes (derivation : Derivation phrase words next) : phrase.Closes words next := by
  induction derivation with
  | func | comparison | tighter | binary | int | bool | givenBool | name | call | paren
  | noArguments | someArguments | lastArgument | nextArgument => trivial
  | noStatements => exact fun _ => .inl rfl
  | @someStatements _ _ first later _ _ _ statementIH statementsIH =>
      intro noBrace
      rcases statementsIH noBrace with rfl | ⟨mark, closing, last⟩
      · rw [List.append_nil]
        exact .inr (statementIH noBrace)
      · exact .inr ⟨mark, closing, last.trans (List.suffix_append first later)⟩
  | letE => exact fun _ => ⟨.semicolon, .head _, List.suffix_append _ _⟩
  | block => exact fun _ => ⟨.rightBrace, .tail _ (.head _), List.suffix_append _ _⟩
  | returnE _ ends =>
      intro noBrace
      obtain ⟨_, rfl⟩ := ends.eq_semicolon noBrace
      exact ⟨.semicolon, .head _, List.suffix_append _ _⟩
  | expressionE _ ends =>
      intro noBrace
      obtain ⟨_, rfl⟩ := ends.eq_semicolon noBrace
      exact ⟨.semicolon, .head _, List.suffix_append _ _⟩
  | ifThen _ _ _ _ consequenceIH =>
      intro noBrace
      obtain ⟨mark, closing, last⟩ := consequenceIH noBrace
      exact ⟨mark, closing, last.trans (List.suffix_append _ _)⟩
  | ifElse _ _ _ _ _ alternativeIH =>
      intro noBrace
      obtain ⟨mark, closing, last⟩ := alternativeIH noBrace
      exact ⟨mark, closing, (last.trans (List.suffix_cons _ _)).trans (List.suffix_append _ _)⟩

theorem closing_of_getLast? {nodes : List Node}
    (derivation : Derivation (.statements nodes) words next) (noBrace : next ≠ .symbol .rightBrace)
    {token : Token} (last : token ∈ words.getLast?) :
    ∃ mark ∈ [Symbol.semicolon, .rightBrace], token = .symbol mark := by
  rcases derivation.closes noBrace with rfl | ⟨mark, closing, front, rfl⟩
  · cases last
  · rw [List.getLast?_concat] at last
    cases last
    exact ⟨mark, closing, rfl⟩

theorem standsAlone (derivation : Derivation phrase words next) : phrase.StandsAlone words next := by
  induction derivation with
  | func | comparison | tighter | binary | int | bool | givenBool | name | call | paren
  | noArguments | someArguments | lastArgument | nextArgument => trivial
  | noStatements => exact fun _ _ _ => ⟨.noStatements⟩
  | @someStatements _ _ first later _ statement statements statementIH statementsIH =>
      intro noBrace other noElse
      obtain ⟨rest⟩ := statementsIH noBrace other noElse
      -- The token behind a statement changes only if it is the last one.
      cases later with
      | nil =>
          obtain ⟨alone⟩ := statementIH noBrace other noElse
          exact ⟨.someStatements alone rest⟩
      | cons head further => exact ⟨.someStatements statement rest⟩
  | letE value => exact fun _ _ _ => ⟨.letE value⟩
  | block statements => exact fun _ _ _ => ⟨.block statements⟩
  | returnE value ends =>
      intro noBrace other _
      obtain ⟨rfl, rfl⟩ := ends.eq_semicolon noBrace
      exact ⟨.returnE value .semicolon⟩
  | expressionE value ends =>
      intro noBrace other _
      obtain ⟨rfl, rfl⟩ := ends.eq_semicolon noBrace
      exact ⟨.expressionE value .semicolon⟩
  | @ifThen _ _ _ consequenceWords next condition consequence _ _ consequenceIH =>
      intro noBrace other noElse
      obtain ⟨alone⟩ := consequenceIH noBrace other noElse
      have front := headD_append_of_opens consequence.opens [] other next
      rw [List.append_nil] at front
      rw [← front] at condition
      exact ⟨.ifThen condition alone noElse⟩
  | ifElse condition consequence _ _ _ alternativeIH =>
      intro noBrace other noElse
      obtain ⟨alone⟩ := alternativeIH noBrace other noElse
      exact ⟨.ifElse condition consequence alone⟩

theorem append_statements {earlier later : List Node} {words others : List Token} {next : Token}
    (first : Derivation (.statements earlier) words (others.headD next))
    (second : Derivation (.statements later) others next) :
    Nonempty (Derivation (.statements (earlier ++ later)) (words ++ others) next) := by
  induction earlier generalizing words with
  | nil =>
      cases first
      exact ⟨second⟩
  | cons node earlier ih =>
      cases first with
      | @someStatements _ _ head tail _ statement statements =>
          obtain ⟨rest⟩ := ih statements
          have front : tail.headD (others.headD next) = (tail ++ others).headD next := by
            cases tail <;> rfl
          rw [front] at statement
          rw [List.append_assoc]
          exact ⟨.someStatements statement rest⟩

theorem append {earlier later : List Node} {words others : List Token}
    (first : Derivation (.statements earlier) words .endMark)
    (second : Derivation (.statements later) others .endMark) :
    Nonempty (Derivation (.statements (earlier ++ later)) (words ++ others) .endMark) := by
  have noElse : others.headD .endMark ≠ .keyword .elseKw := by
    refine headD_ne (by simp) fun head front same => ?_
    have starts := second.statements_head? head front
    rw [same] at starts
    cases starts
  obtain ⟨alone⟩ := first.standsAlone (by simp) _ noElse
  exact alone.append_statements second

end Derivation

namespace Program

theorem ofSource_eq_ok_iff {source : String} {program : Program} :
    ofSource source = .ok program ↔
      ∃ words, (Lexeme.split source.toList).mapM Token.ofLexeme = .ok words ∧
        Nonempty (Derivation (.statements program) words .endMark) := by
  constructor
  · intro parsed
    obtain ⟨tokens, scan⟩ := scan_of_ofSource parsed
    obtain ⟨words, rfl, legal⟩ := Token.scan_shape scan
    rw [ofSource_of_scan scan] at parsed
    have derived := (ofTokens_eq_ok_iff (endMark_not_mem_of_isScanned legal)).mp parsed
    cases given : (Lexeme.split source.toList).mapM Token.ofLexeme with
    | error fault =>
        unfold Token.scan at scan
        rw [given] at scan
        cases scan
    | ok others =>
        rw [Token.scan_of_mapM given] at scan
        cases List.append_cancel_right (Except.ok.inj scan)
        exact ⟨words, rfl, derived⟩
  · intro ⟨words, given, derivation⟩
    rw [ofSource_of_scan (Token.scan_of_mapM given)]
    have noEnd : Token.endMark ∉ words := derivation.elim fun derived => derived.endMark_not_mem
    exact (ofTokens_eq_ok_iff noEnd).mpr derivation

theorem ofSource_congr {first second : String}
    (same : Lexeme.split first.toList = Lexeme.split second.toList) :
    ofSource first = ofSource second := by
  unfold ofSource
  rw [Token.ofSource_congr same]

/-- The programs of two texts are one behind the other, and so are their statements. -/
theorem ofSource_append {first second : String} {earlier later : Program}
    (parsed : ofSource first = .ok earlier) (parsedLater : ofSource second = .ok later) :
    ofSource (first ++ second) = .ok (earlier ++ later) := by
  obtain ⟨words, given, ⟨derivation⟩⟩ := ofSource_eq_ok_iff.mp parsed
  obtain ⟨others, givenLater, ⟨derivationLater⟩⟩ := ofSource_eq_ok_iff.mp parsedLater
  refine ofSource_eq_ok_iff.mpr ⟨words ++ others, ?_, derivation.append derivationLater⟩
  rw [String.toList_append]
  refine Token.mapM_split_append given givenLater fun lexeme ends character _ => ?_
  obtain ⟨token, lastToken, gives⟩ := Token.getLast?_of_mapM given ends.getLast?_split
  obtain ⟨mark, closing, rfl⟩ := derivation.closing_of_getLast? (by simp) lastToken
  cases Token.eq_symbol_of_ofLexeme gives
  simp only [List.mem_cons, List.not_mem_nil, or_false] at closing
  rcases closing with rfl | rfl <;> rfl

end Program

end TinyScript
