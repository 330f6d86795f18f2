import TinyScript.Proofs.RoundTrip

/-!
# Levels of the printer and of the readers

An operand that is printed for a place of some precedence is what the reader of that level takes, and
the reader goes no further than the operand does, unless the token behind it would have to belong to it.
-/

set_option autoImplicit false

namespace TinyScript

/-- The reader of a level. Below all operators stand the expressions, and beyond the tightest one the
primary expressions. -/
def Parse.reader (level : Nat) (tokens : List Token) : Except ParseError (Parsed Node tokens) :=
  if level = 0 then expression tokens
  else if level < primaryLevel then operand level tokens
  else primary tokens

/-- Words end in a name, so that a parenthesis right behind them would open a call. -/
def EndsInName (words : List Token) : Prop :=
  ∃ spelling, words.getLast? = some (.name spelling)

theorem EndsInName.append {later : List Token} (ends : EndsInName later) (earlier : List Token) :
    EndsInName (earlier ++ later) := by
  obtain ⟨spelling, last⟩ := ends
  exact ⟨spelling, by rw [List.getLast?_append, last, Option.some_or]⟩

/-- What derives an expression does so in front of any token that does not open a call. -/
theorem Derivation.before {phrase : Phrase} {words : List Token} {next : Token}
    (derivation : Derivation phrase words next) {other : Token}
    (noCall : EndsInName words → other ≠ .symbol .leftParen) :
    match phrase with
    | .expression _ | .operand _ _ => Nonempty (Derivation phrase words other)
    | _ => True := by
  induction derivation with
  | func body _ => exact ⟨.func body⟩
  | comparison _ ih =>
      obtain ⟨derived⟩ := ih noCall
      exact ⟨.comparison derived⟩
  | tighter chained _ ih =>
      obtain ⟨derived⟩ := ih noCall
      exact ⟨.tighter chained derived⟩
  | @binary op left right leftWords rightWords next leftDerivation _ _ ih =>
      -- The left operand stands in front of its operator, whatever comes behind the right one.
      obtain ⟨derived⟩ := ih fun ends => noCall ((ends.append [.symbol op.symbol]).append leftWords)
      exact ⟨.binary leftDerivation derived⟩
  | int => exact ⟨.int⟩
  | bool => exact ⟨.bool⟩
  | givenBool => exact ⟨.givenBool⟩
  | @name spelling _ _ => exact ⟨.name (noCall ⟨spelling, rfl⟩)⟩
  | call arguments _ => exact ⟨.call arguments⟩
  | paren inner _ => exact ⟨.paren inner⟩
  | _ => trivial

theorem Derivation.read_at_level {level : Nat} {node : Node} {words rest : List Token}
    (bounded : level ≤ Parse.primaryLevel)
    (derivation : Derivation (.atLevel level node) words (Parse.current rest))
    (looser : ∀ op, (Parse.current rest).operator? = some op → op.precedence < level) :
    Parse.Gives (Parse.reader level (words ++ rest)) node rest := by
  unfold Parse.reader
  cases level with
  | zero =>
      have plain : (Parse.current rest).operator? = none :=
        Option.eq_none_iff_forall_not_mem.mpr fun op stands => Nat.not_lt_zero _ (looser op stands)
      exact derivation.readBack plain rest rfl
  | succ level =>
      have gives := operand_gives derivation.readBack looser rfl
      rw [if_neg (Nat.succ_ne_zero level)]
      split
      · exact gives
      · next tightest =>
          rw [Parse.operand, if_neg tightest] at gives
          exact gives

namespace Node

/-- An expression that is printed for a place of some precedence is scanned to words that the reader of
that level takes as this expression and no further, in front of whatever is neither an operator of the
level or a tighter one, nor a parenthesis right behind a name. -/
theorem source_read_at_level {node : Node} (expression : node.isExpression = true)
    (wellFormed : node.isWellFormed = true) {level : Nat} (bounded : level ≤ 4) :
    ∃ text words, node.source (.operand level) = .ok text ∧
      Token.scan text = .ok (words ++ [.endMark]) ∧
      ∀ rest, (∀ op, (Parse.current rest).operator? = some op → op.precedence < level) →
        (EndsInName words → Parse.current rest ≠ .symbol .leftParen) →
        Parse.Gives (Parse.reader level (words ++ rest)) node rest := by
  obtain ⟨words, spelled, plain, reads⟩ :=
    (prints_of_isWellFormed node wellFormed).1 expression level bounded
  refine ⟨_, words, source_of_spell spelled, Token.scan_layout plain, fun rest looser noCall => ?_⟩
  obtain ⟨derivation⟩ := reads .endMark (by simp)
  have reframed : Nonempty (Derivation (.atLevel level node) words (Parse.current rest)) := by
    cases level <;> exact derivation.before noCall
  obtain ⟨derivation⟩ := reframed
  exact derivation.read_at_level bounded looser

/-- A difference where a factor goes is read in its parentheses, and a sum with it is not begun. -/
theorem source_read_at_level_difference :
    ∃ text words,
      (binary .sub (.int 1) (.binary .sub (.int 2) (.name "n"))).source (.operand 3) = .ok text ∧
      Token.scan text = .ok (words ++ [.endMark]) ∧
      Parse.Gives (Parse.reader 3 (words ++ [.symbol .plus, .int 3]))
        (binary .sub (.int 1) (.binary .sub (.int 2) (.name "n"))) [.symbol .plus, .int 3] := by
  have formed : (binary .sub (.int 1) (.binary .sub (.int 2) (.name "n"))).isWellFormed = true := by
    decide +kernel
  have looser : ∀ op, (Token.symbol .plus).operator? = some op → op.precedence < 3 := by
    decide
  obtain ⟨text, words, printed, scanned, reads⟩ :=
    source_read_at_level rfl formed (Nat.le_succ 3)
  exact ⟨text, words, printed, scanned,
    reads [.symbol .plus, .int 3] looser fun _ => by decide⟩

end Node

end TinyScript
