import TinyScript.Proofs.Concatenation
import TinyScript.Proofs.Grammar.ViablePrefix

/-!
# Braces of texts and of phrases

A brace is a lexeme by itself wherever it stands, so that the braces of a text are those of its
tokens. The words of a phrase close every brace that they open and no other one, and what can be gone
on with to a phrase closes at most what it opened.
-/

set_option autoImplicit false

namespace TinyScript

theorem Symbol.isNameRest_of_ofChar? {character : Char} {mark : Symbol}
    (found : ofChar? character = some mark) : Text.isNameRest character = false := by
  unfold ofChar? at found
  split at found <;> cases found
  all_goals decide

namespace Lexeme

section

variable {character : Char} {mark : Symbol}

/-- A character that no equals sign turns into a longer symbol is always a lexeme by itself. -/
theorem count_text {lexeme : Lexeme} (proper : lexeme.isProper = true)
    (spelled : Symbol.ofChar? character = some mark) (alone : mark.withEquals? = none) :
    lexeme.text.count character = if lexeme = .symbol mark then 1 else 0 := by
  obtain ⟨_, noDigit, noFirst⟩ := Symbol.classes_of_ofChar? spelled
  have noRest := Symbol.isNameRest_of_ofChar? spelled
  cases lexeme with
  | digits run =>
      have inside := (Bool.and_eq_true_iff.mp proper).2
      have absent : character ∉ run := by
        intro among
        rw [List.all_eq_true.mp inside character among] at noDigit
        cases noDigit
      simp [text, List.count_eq_zero.mpr absent]
  | word run =>
      have absent : character ∉ run := by
        intro among
        cases run with
        | nil => cases among
        | cons first later =>
            obtain ⟨start, inside⟩ := Bool.and_eq_true_iff.mp proper
            rcases List.mem_cons.mp among with rfl | further
            · rw [start] at noFirst
              cases noFirst
            · rw [List.all_eq_true.mp inside character further] at noRest
              cases noRest
      simp [text, List.count_eq_zero.mpr absent]
  | symbol other =>
      have own := Symbol.text_of_ofChar? spelled
      by_cases same : other = mark
      · subst same
        simp [text, own]
      · have absent : character ∉ other.text.toList := by
          intro among
          rcases other.text_shape with ⟨only, shape, found⟩ | ⟨first, short, shape, found, longer⟩
          · rw [shape] at among
            obtain rfl := List.mem_singleton.mp among
            rw [spelled] at found
            exact same (Option.some.inj found).symm
          · rw [shape] at among
            simp only [List.mem_cons, List.not_mem_nil, or_false] at among
            rcases among with rfl | rfl
            · rw [spelled] at found
              obtain rfl := Option.some.inj found
              rw [alone] at longer
              cases longer
            · cases spelled
              cases alone
        simp [text, List.count_eq_zero.mpr absent, same]
  | foreign other =>
      have noSymbol : Symbol.ofChar? other = none := by
        have foreign := (Bool.and_eq_true_iff.mp proper).2
        simpa using foreign
      have different : other ≠ character := by
        rintro rfl
        rw [spelled] at noSymbol
        cases noSymbol
      simp [text, different]

theorem Splits.count_symbol {text : List Char} {lexemes : List Lexeme}
    (splits : Splits text lexemes) (spelled : Symbol.ofChar? character = some mark)
    (alone : mark.withEquals? = none) :
    lexemes.count (.symbol mark) = text.count character := by
  obtain ⟨noBlank, _, _⟩ := Symbol.classes_of_ofChar? spelled
  induction splits with
  | done => rfl
  | @blank first later _ blank _ ih =>
      have different : first ≠ character := by
        rintro rfl
        rw [blank] at noBlank
        cases noBlank
      rw [ih, List.count_cons_of_ne different]
  | lexeme proper _ _ ih =>
      rw [List.count_append, count_text proper spelled alone, ← ih, List.count_cons, Nat.add_comm]
      simp only [beq_iff_eq]

end

end Lexeme

namespace Token

theorem count_symbol_of_mapM {lexemes : List Lexeme} {tokens : List Token}
    (given : lexemes.mapM ofLexeme = .ok tokens) (mark : Symbol) :
    tokens.count (.symbol mark) = lexemes.count (.symbol mark) := by
  induction lexemes generalizing tokens with
  | nil =>
      cases given
      rfl
  | cons first later ih =>
      obtain ⟨head, tail, firstGiven, laterGiven, rfl⟩ := mapM_ofLexeme_cons.mp given
      have same : head = .symbol mark ↔ first = .symbol mark := by
        constructor
        · rintro rfl
          exact eq_symbol_of_ofLexeme firstGiven
        · rintro rfl
          cases firstGiven
          rfl
      simp only [List.count_cons, ih laterGiven, beq_iff_eq, same]

/-- A symbol that nothing makes longer is scanned as often as its character stands in the text. -/
theorem count_symbol_of_scan {source : String} {tokens : List Token} {character : Char}
    {mark : Symbol} (scanned : scan source = .ok tokens)
    (spelled : Symbol.ofChar? character = some mark) (alone : mark.withEquals? = none) :
    tokens.count (.symbol mark) = source.toList.count character := by
  unfold scan at scanned
  cases given : (Lexeme.split source.toList).mapM ofLexeme with
  | error fault =>
      rw [given] at scanned
      cases scanned
  | ok words =>
      rw [given] at scanned
      cases scanned
      rw [← (Lexeme.splits_split source.toList).count_symbol spelled alone,
        ← count_symbol_of_mapM given mark]
      simp

/-- How many braces are open behind a token, if it closes none that was not opened. -/
def braces (depth : Nat) : Token → Option Nat
  | .symbol .leftBrace => some (depth + 1)
  | .symbol .rightBrace => if depth = 0 then none else some (depth - 1)
  | _ => some depth

def isBrace : Token → Bool
  | .symbol .leftBrace | .symbol .rightBrace => true
  | _ => false

@[simp] theorem braces_leftBrace (depth : Nat) :
    braces depth (.symbol .leftBrace) = some (depth + 1) :=
  rfl

@[simp] theorem braces_rightBrace (depth : Nat) :
    braces (depth + 1) (.symbol .rightBrace) = some depth :=
  rfl

theorem braces_of_not_isBrace {token : Token} (other : token.isBrace = false) (depth : Nat) :
    token.braces depth = some depth := by
  unfold isBrace at other
  split at other
  · cases other
  · cases other
  · next noLeft noRight =>
      unfold braces
      split
      · exact absurd rfl noLeft
      · exact absurd rfl noRight
      · rfl

/-- Words that close the braces which they open, and no others. -/
def Balanced (words : List Token) : Prop :=
  ∀ depth, words.foldlM braces depth = some depth

section

variable {words others : List Token}

theorem Balanced.nil : Balanced [] :=
  fun _ => rfl

theorem Balanced.append (first : Balanced words) (second : Balanced others) :
    Balanced (words ++ others) := by
  intro depth
  rw [List.foldlM_append, first depth]
  exact second depth

theorem Balanced.single {token : Token} (other : token.isBrace = false) : Balanced [token] := by
  intro depth
  rw [List.foldlM_cons, braces_of_not_isBrace other]
  rfl

theorem Balanced.cons {token : Token} (other : token.isBrace = false) (later : Balanced words) :
    Balanced (token :: words) :=
  (Balanced.single other).append later

theorem Balanced.concat {token : Token} (earlier : Balanced words) (other : token.isBrace = false) :
    Balanced (words ++ [token]) :=
  earlier.append (.single other)

theorem Balanced.block (inner : Balanced words) :
    Balanced (.symbol .leftBrace :: words ++ [.symbol .rightBrace]) := by
  intro depth
  rw [List.cons_append, List.foldlM_cons, braces_leftBrace, Option.bind_eq_bind, Option.bind_some,
    List.foldlM_append, inner (depth + 1)]
  rfl

theorem balanced_nameWords (names : List String) : Balanced (nameWords names) := by
  induction names with
  | nil => exact .nil
  | cons first later ih =>
      cases later with
      | nil => exact .single rfl
      | cons second further => exact .cons rfl (.cons rfl ih)

theorem count_of_foldlM_braces {depth after : Nat}
    (walked : words.foldlM braces depth = some after) :
    depth + words.count (.symbol .leftBrace) = after + words.count (.symbol .rightBrace) := by
  induction words generalizing depth with
  | nil =>
      cases walked
      rfl
  | cons first later ih =>
      obtain ⟨between, step, rest⟩ := Option.bind_eq_some_iff.mp walked
      have counted := ih rest
      unfold braces at step
      split at step
      · cases step
        simp only [List.count_cons_self, List.count_cons_of_ne (show
          Token.symbol .leftBrace ≠ .symbol .rightBrace by simp)]
        omega
      · split at step
        · cases step
        · cases step
          simp only [List.count_cons_self, List.count_cons_of_ne (show
            Token.symbol .rightBrace ≠ .symbol .leftBrace by simp)]
          omega
      · next noLeft noRight =>
          cases step
          rw [List.count_cons_of_ne noLeft, List.count_cons_of_ne noRight]
          exact counted

theorem Balanced.count_eq (balanced : Balanced words) :
    words.count (.symbol .leftBrace) = words.count (.symbol .rightBrace) := by
  simpa using count_of_foldlM_braces (balanced 0)

/-- The front of balanced words closes at most what it opens. -/
theorem Balanced.count_le (balanced : Balanced (words ++ others)) :
    words.count (.symbol .rightBrace) ≤ words.count (.symbol .leftBrace) := by
  have walked := balanced 0
  rw [List.foldlM_append] at walked
  obtain ⟨after, front, _⟩ := Option.bind_eq_some_iff.mp walked
  have counted := count_of_foldlM_braces front
  omega

end

end Token

open Token in
theorem StatementEnd.balanced {before next : Token} {stop : List Token}
    (ends : StatementEnd before stop next) : Balanced stop := by
  cases ends with
  | semicolon => exact .single rfl
  | omitted => exact .nil

open Token in
/-- The words of a phrase are balanced. -/
theorem Derivation.balanced {phrase : Phrase} {words : List Token} {next : Token}
    (derivation : Derivation phrase words next) : Balanced words := by
  induction derivation with
  | noStatements | noArguments | lastArgument => exact .nil
  | someStatements _ _ firstIH laterIH => exact firstIH.append laterIH
  | letE _ ih => exact .cons rfl (.cons rfl (.cons rfl (ih.concat rfl)))
  | returnE _ ends ih => exact .cons rfl (ih.append ends.balanced)
  | block _ ih => exact ih.block
  | ifThen _ _ _ conditionIH consequenceIH => exact .cons rfl (conditionIH.append consequenceIH)
  | ifElse _ _ _ conditionIH consequenceIH alternativeIH =>
      exact .append (.cons rfl (conditionIH.append consequenceIH)) (.cons rfl alternativeIH)
  | expressionE _ ends ih => exact ih.append ends.balanced
  | @func parameters _ _ _ _ ih =>
      have front : Balanced (.keyword .fnKw :: .symbol .leftParen :: nameWords parameters ++
          [.symbol .rightParen]) :=
        .concat (.cons rfl (.cons rfl (balanced_nameWords parameters))) rfl
      simpa using front.append ih.block
  | comparison _ ih => exact ih
  | tighter _ _ ih => exact ih
  | @binary op _ _ _ _ _ _ _ leftIH rightIH =>
      exact leftIH.append (.cons (by cases op <;> rfl) rightIH)
  | int | givenBool | name => exact .single rfl
  | @bool value => cases value <;> exact .single rfl
  | call _ ih => exact .cons rfl (.cons rfl (ih.concat rfl))
  | paren _ ih => exact .cons rfl (ih.concat rfl)
  | someArguments _ _ firstIH laterIH => exact firstIH.append laterIH
  | nextArgument _ _ firstIH laterIH => exact .cons rfl (firstIH.append laterIH)

/-- A program closes as many braces as it opens. -/
theorem Program.count_braces_of_ofSource {source : String} {program : Program}
    (parsed : ofSource source = .ok program) :
    source.toList.count '\x7b' = source.toList.count '\x7d' := by
  obtain ⟨words, given, ⟨derivation⟩⟩ := ofSource_eq_ok_iff.mp parsed
  have splits := Lexeme.splits_split source.toList
  have opened : words.count (.symbol .leftBrace) = source.toList.count '\x7b' :=
    (Token.count_symbol_of_mapM given .leftBrace).trans (splits.count_symbol rfl rfl)
  have closed : words.count (.symbol .rightBrace) = source.toList.count '\x7d' :=
    (Token.count_symbol_of_mapM given .rightBrace).trans (splits.count_symbol rfl rfl)
  rw [← opened, ← closed]
  exact derivation.balanced.count_eq

/-- A text that fails only because it ends closes no brace which it did not open. -/
theorem Parse.count_braces_of_program_error {source : String} {tokens : List Token}
    {error : ParseError} (scanned : Token.scan source = .ok tokens)
    (failed : program tokens = .error error) (atEnd : error.rest = [.endMark]) :
    source.toList.count '\x7d' ≤ source.toList.count '\x7b' := by
  obtain ⟨words, split, continuation, value, _, derives⟩ := program_stalls failed
  obtain ⟨derivation⟩ := derives .endMark ⟨by simp, by simp⟩
  have front := derivation.balanced.count_le
  have opened : tokens.count (.symbol .leftBrace) = source.toList.count '\x7b' :=
    Token.count_symbol_of_scan scanned rfl rfl
  have closed : tokens.count (.symbol .rightBrace) = source.toList.count '\x7d' :=
    Token.count_symbol_of_scan scanned rfl rfl
  rw [← opened, ← closed, split, atEnd]
  simpa using front

end TinyScript
