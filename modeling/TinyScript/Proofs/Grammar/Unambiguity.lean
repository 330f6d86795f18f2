import TinyScript.Proofs.Grammar.Completeness

/-!
# Words have one derivation

Two derivations of the same words end in the same rule, because the readers follow both: where one
part of a phrase stops and the next begins, the reader of the first part stops, too. The number of
turns of a chain is told by the size of what it holds.
-/

set_option autoImplicit false

namespace TinyScript

namespace Parse

theorem Gives.unique {α : Type} {tokens : List Token}
    {result : Except ParseError (Parsed α tokens)} {value other : α} {rest otherRest : List Token}
    (gives : Gives result value rest) (givesOther : Gives result other otherRest) :
    value = other ∧ rest = otherRest := by
  obtain ⟨_, same⟩ := gives
  obtain ⟨_, otherSame⟩ := givesOther
  rw [same] at otherSame
  cases otherSame
  exact ⟨rfl, rfl⟩

theorem Turns.sizeOf_le {level : Nat} {first node : Node} {afterFirst rest : List Token}
    (turns : Turns level first afterFirst node rest) : sizeOf first ≤ sizeOf node := by
  induction turns with
  | none => exact Nat.le_refl _
  | turn _ _ _ ih =>
      simp only [Node.binary.sizeOf_spec]
      omega

/-- The node that a chain holds tells how far it has come. -/
theorem Turns.rest_unique {level : Nat} {first node : Node} {afterFirst rest otherRest : List Token}
    (turns : Turns level first afterFirst node rest)
    (others : Turns level first afterFirst node otherRest) : rest = otherRest := by
  induction turns generalizing otherRest with
  | none =>
      cases others with
      | none => rfl
      | turn others _ _ =>
          have smaller := others.sizeOf_le
          simp only [Node.binary.sizeOf_spec] at smaller
          omega
  | turn turns _ gives ih =>
      cases others with
      | none =>
          have smaller := turns.sizeOf_le
          simp only [Node.binary.sizeOf_spec] at smaller
          omega
      | turn others _ givesOther =>
          have same := ih others
          cases same
          exact (gives.unique givesOther).2

theorem Reaches.rest_unique {level : Nat} {tokens rest otherRest : List Token} {node : Node}
    (reaches : Reaches level tokens node rest) (reachesOther : Reaches level tokens node otherRest) :
    rest = otherRest := by
  unfold Reaches at reaches reachesOther
  split at reaches
  · next chained =>
      rw [if_pos chained] at reachesOther
      obtain ⟨first, afterFirst, gives, turns⟩ := reaches
      obtain ⟨otherFirst, afterOther, givesOther, turnsOther⟩ := reachesOther
      obtain ⟨rfl, rfl⟩ := gives.unique givesOther
      exact turns.rest_unique turnsOther
  · next primary =>
      rw [if_neg primary] at reachesOther
      exact (reaches.unique reachesOther).2

end Parse

/-- The token behind a phrase is one in front of which its reader stops. -/
def Phrase.Settled (next : Token) : Phrase → Prop
  | .statements _ | .statement _ => True
  | .expression _ => next.operator? = none
  | .operand level _ => ∀ op, next.operator? = some op → op.precedence ≤ level
  | .arguments _ | .moreArguments _ => next = .symbol .rightParen

theorem Phrase.settled_operand_of_plain {level : Nat} {node : Node} {next : Token}
    (plain : next.operator? = none) : (Phrase.operand level node).Settled next := by
  simp [Phrase.Settled, plain]

theorem Phrase.settled_left (op : BinaryOp) (node : Node) :
    (Phrase.operand op.precedence node).Settled (.symbol op.symbol) := by
  simp [Phrase.Settled, Token.operator?]

theorem Phrase.Settled.tighter {level : Nat} {node other : Node} {next : Token}
    (settled : (Phrase.operand level node).Settled next) :
    (Phrase.operand (level + 1) other).Settled next :=
  fun op stands => Nat.le_succ_of_le (settled op stands)

section

variable {words otherWords rest otherRest : List Token} {next otherNext : Token}

theorem statement_words_unique {node other : Node}
    (derivation : Derivation (.statement node) words next)
    (otherDerivation : Derivation (.statement other) otherWords otherNext)
    (same : words ++ rest = otherWords ++ otherRest) (front : Parse.current rest = next)
    (otherFront : Parse.current otherRest = otherNext) :
    words = otherWords ∧ rest = otherRest := by
  have gives := derivation.readBack rest front
  have givesOther := otherDerivation.readBack otherRest otherFront
  rw [same] at gives
  have sameRest := (gives.unique givesOther).2
  exact ⟨List.append_cancel_right (sameRest ▸ same), sameRest⟩

theorem expression_words_unique {node other : Node}
    (derivation : Derivation (.expression node) words next)
    (otherDerivation : Derivation (.expression other) otherWords otherNext)
    (plain : next.operator? = none) (otherPlain : otherNext.operator? = none)
    (same : words ++ rest = otherWords ++ otherRest) (front : Parse.current rest = next)
    (otherFront : Parse.current otherRest = otherNext) :
    words = otherWords ∧ rest = otherRest := by
  have gives := derivation.readBack plain rest front
  have givesOther := otherDerivation.readBack otherPlain otherRest otherFront
  rw [same] at gives
  have sameRest := (gives.unique givesOther).2
  exact ⟨List.append_cancel_right (sameRest ▸ same), sameRest⟩

theorem StatementEnd.unique {before : Token} {stop : List Token}
    (ends others : StatementEnd before stop next) : ends = others := by
  cases ends <;> cases others <;> rfl

/-- Where an expression in front of the end of a statement stops. -/
theorem ended_words_unique {node other : Node} {before otherBefore : Token}
    {stop otherStop : List Token}
    (derivation : Derivation (.expression node) words before) (ends : StatementEnd before stop next)
    (otherDerivation : Derivation (.expression other) otherWords otherBefore)
    (otherEnds : StatementEnd otherBefore otherStop next)
    (same : words ++ stop = otherWords ++ otherStop) :
    words = otherWords ∧ stop = otherStop ∧ before = otherBefore := by
  obtain ⟨front, _⟩ := ends.leaves (Eq.refl (Parse.current [next]))
  obtain ⟨otherFront, _⟩ := otherEnds.leaves (Eq.refl (Parse.current [next]))
  have sameLonger : words ++ (stop ++ [next]) = otherWords ++ (otherStop ++ [next]) := by
    rw [← List.append_assoc, same, List.append_assoc]
  obtain ⟨sameWords, sameRest⟩ := expression_words_unique derivation otherDerivation
    ends.plain otherEnds.plain sameLonger front otherFront
  refine ⟨sameWords, List.append_cancel_right sameRest, ?_⟩
  rw [← front, sameRest, otherFront]

/-- Where the first of several statements stops. -/
theorem first_statement_words_unique {node other : Node} {later otherLater : List Token}
    (derivation : Derivation (.statement node) words (later.headD next))
    (otherDerivation : Derivation (.statement other) otherWords (otherLater.headD next))
    (same : words ++ later = otherWords ++ otherLater) :
    words = otherWords ∧ later = otherLater := by
  have sameLonger : words ++ (later ++ [next]) = otherWords ++ (otherLater ++ [next]) := by
    rw [← List.append_assoc, same, List.append_assoc]
  obtain ⟨sameWords, sameRest⟩ := statement_words_unique derivation otherDerivation sameLonger
    (Parse.current_append _ _) (Parse.current_append _ _)
  exact ⟨sameWords, List.append_cancel_right sameRest⟩

/-- Where an expression in front of others, or of a statement, stops. -/
theorem first_expression_words_unique {node other : Node} {later otherLater : List Token}
    (derivation : Derivation (.expression node) words (later.headD next))
    (otherDerivation : Derivation (.expression other) otherWords (otherLater.headD next))
    (plain : (later.headD next).operator? = none)
    (otherPlain : (otherLater.headD next).operator? = none)
    (same : words ++ later = otherWords ++ otherLater) :
    words = otherWords ∧ later = otherLater := by
  have sameLonger : words ++ (later ++ [next]) = otherWords ++ (otherLater ++ [next]) := by
    rw [← List.append_assoc, same, List.append_assoc]
  obtain ⟨sameWords, sameRest⟩ := expression_words_unique derivation otherDerivation
    plain otherPlain sameLonger (Parse.current_append _ _) (Parse.current_append _ _)
  exact ⟨sameWords, List.append_cancel_right sameRest⟩

/-- Where the left operand of an operator stops. -/
theorem left_words_unique {op : BinaryOp} {left : Node} {later otherLater : List Token}
    (derivation : Derivation (.operand op.precedence left) words (.symbol op.symbol))
    (otherDerivation : Derivation (.operand op.precedence left) otherWords (.symbol op.symbol))
    (same : words ++ .symbol op.symbol :: later = otherWords ++ .symbol op.symbol :: otherLater) :
    words = otherWords ∧ later = otherLater := by
  have settled := Phrase.settled_left op left
  have reaches := derivation.readBack settled (.symbol op.symbol :: later) rfl
  have reachesOther := otherDerivation.readBack settled (.symbol op.symbol :: otherLater) rfl
  rw [same] at reaches
  have sameRest := reaches.rest_unique reachesOther
  exact ⟨List.append_cancel_right (sameRest ▸ same), List.tail_eq_of_cons_eq sameRest⟩

/-- An operation is no operand of the next level, unless its words are others. -/
theorem binary_not_tighter {op : BinaryOp} {left right : Node} {later : List Token}
    (derivation : Derivation (.operand (op.precedence + 1) (.binary op left right)) words next)
    (settled : (Phrase.operand op.precedence (.binary op left right)).Settled next)
    (leftDerivation : Derivation (.operand op.precedence left) otherWords (.symbol op.symbol))
    (same : words = otherWords ++ .symbol op.symbol :: later) : False := by
  have gives := operand_gives derivation.readBack
    (fun other stands => Nat.lt_succ_of_le (settled other stands)) (Eq.refl (Parse.current [next]))
  have reaches := leftDerivation.readBack (Phrase.settled_left op left)
    (.symbol op.symbol :: (later ++ [next])) rfl
  rw [← List.cons_append, ← List.append_assoc, ← same] at reaches
  unfold Parse.Reaches at reaches
  rw [if_pos (precedence_lt_primaryLevel op)] at reaches
  obtain ⟨first, afterFirst, givesFirst, turns⟩ := reaches
  obtain ⟨rfl, rfl⟩ := gives.unique givesFirst
  have smaller := turns.sizeOf_le
  simp only [Node.binary.sizeOf_spec] at smaller
  omega

/-- The first word of an expression begins no other form of statement. -/
theorem expression_first {node : Node} {first : Token} {later : List Token}
    (derivation : Derivation (.expression node) words next)
    (same : first :: later = words ++ rest) : first.startsExpression = true := by
  obtain ⟨word, others, rfl, starts⟩ := derivation.opens
  cases same
  exact starts

theorem operand_first {level : Nat} {node : Node} {first : Token} {later : List Token}
    (derivation : Derivation (.operand level node) words next) (same : words = first :: later) :
    first.startsOperand = true := by
  obtain ⟨word, others, rfl, starts⟩ := derivation.opens
  cases same
  exact starts

end

/-- Derivations of one phrase from the same words are the same, also where the phrases, the words
and the tokens behind them are given in different terms. -/
theorem Derivation.heq {phrase otherPhrase : Phrase} {words otherWords : List Token}
    {next otherNext : Token} (derivation : Derivation phrase words next)
    (other : Derivation otherPhrase otherWords otherNext) (settled : phrase.Settled next)
    (samePhrase : phrase = otherPhrase) (sameWords : words = otherWords)
    (sameNext : next = otherNext) : HEq derivation other := by
  induction derivation generalizing otherPhrase otherWords otherNext with
  | noStatements =>
      subst sameNext
      cases other with
      | noStatements => rfl
      | _ => cases samePhrase
  | someStatements first later firstIH laterIH =>
      subst sameNext
      cases other with
      | someStatements otherFirst otherLater =>
          cases samePhrase
          obtain ⟨rfl, rfl⟩ := first_statement_words_unique first otherFirst sameWords
          obtain rfl := eq_of_heq (firstIH otherFirst trivial rfl rfl rfl)
          obtain rfl := eq_of_heq (laterIH otherLater trivial rfl rfl rfl)
          rfl
      | _ => cases samePhrase
  | letE value ih =>
      subst sameNext
      cases other with
      | letE otherValue =>
          cases samePhrase
          obtain rfl : _ = _ := by simpa using sameWords
          obtain rfl := eq_of_heq (ih otherValue rfl rfl rfl rfl)
          rfl
      | expressionE otherValue _ =>
          exact absurd (expression_first otherValue sameWords) (by decide)
      | _ => cases samePhrase
  | returnE value ends ih =>
      subst sameNext
      cases other with
      | returnE otherValue otherEnds =>
          cases samePhrase
          have same := List.tail_eq_of_cons_eq sameWords
          obtain ⟨rfl, rfl, rfl⟩ := ended_words_unique value ends otherValue otherEnds same
          obtain rfl := ends.unique otherEnds
          obtain rfl := eq_of_heq (ih otherValue ends.plain rfl rfl rfl)
          rfl
      | expressionE otherValue _ =>
          exact absurd (expression_first otherValue sameWords) (by decide)
      | _ => cases samePhrase
  | block statements ih =>
      subst sameNext
      cases other with
      | block otherStatements =>
          cases samePhrase
          obtain rfl : _ = _ := by simpa using sameWords
          obtain rfl := eq_of_heq (ih otherStatements trivial rfl rfl rfl)
          rfl
      | expressionE otherValue _ =>
          exact absurd (expression_first otherValue sameWords) (by decide)
      | _ => cases samePhrase
  | ifThen condition consequence _ conditionIH consequenceIH =>
      subst sameNext
      cases other with
      | ifThen otherCondition otherConsequence _ =>
          cases samePhrase
          obtain ⟨rfl, rfl⟩ := first_expression_words_unique condition otherCondition
            (operator?_headD consequence.opens) (operator?_headD otherConsequence.opens)
            (List.tail_eq_of_cons_eq sameWords)
          obtain rfl := eq_of_heq
            (conditionIH otherCondition (operator?_headD consequence.opens) rfl rfl rfl)
          obtain rfl := eq_of_heq (consequenceIH otherConsequence trivial rfl rfl rfl)
          rfl
      | expressionE otherValue _ =>
          exact absurd (expression_first otherValue sameWords) (by decide)
      | _ => cases samePhrase
  | ifElse condition consequence alternative conditionIH consequenceIH alternativeIH =>
      subst sameNext
      cases other with
      | ifElse otherCondition otherConsequence otherAlternative =>
          cases samePhrase
          simp only [List.cons_append, List.append_assoc, List.cons.injEq, true_and] at sameWords
          obtain ⟨rfl, sameRest⟩ := expression_words_unique condition otherCondition
            (operator?_headD consequence.opens) (operator?_headD otherConsequence.opens) sameWords
            (Parse.current_append _ _) (Parse.current_append _ _)
          obtain ⟨rfl, sameAlternative⟩ := statement_words_unique consequence otherConsequence
            sameRest rfl rfl
          obtain rfl := List.tail_eq_of_cons_eq sameAlternative
          obtain rfl := eq_of_heq
            (conditionIH otherCondition (operator?_headD consequence.opens) rfl rfl rfl)
          obtain rfl := eq_of_heq (consequenceIH otherConsequence trivial rfl rfl rfl)
          obtain rfl := eq_of_heq (alternativeIH otherAlternative trivial rfl rfl rfl)
          rfl
      | expressionE otherValue _ =>
          exact absurd (expression_first otherValue sameWords) (by decide)
      | _ => cases samePhrase
  | expressionE value ends ih =>
      subst sameNext
      cases other with
      | expressionE otherValue otherEnds =>
          cases samePhrase
          obtain ⟨rfl, rfl, rfl⟩ := ended_words_unique value ends otherValue otherEnds sameWords
          obtain rfl := ends.unique otherEnds
          obtain rfl := eq_of_heq (ih otherValue ends.plain rfl rfl rfl)
          rfl
      | letE | returnE | block | ifThen | ifElse =>
          exact absurd (expression_first value sameWords.symm) (by decide)
      | _ => cases samePhrase
  | func body ih =>
      subst sameNext
      cases other with
      | func otherBody =>
          cases samePhrase
          obtain rfl : _ = _ := by simpa using sameWords
          obtain rfl := eq_of_heq (ih otherBody trivial rfl rfl rfl)
          rfl
      | comparison otherOperand =>
          exact absurd (operand_first otherOperand sameWords.symm) (by decide)
      | _ => cases samePhrase
  | comparison operand ih =>
      subst sameNext
      cases other with
      | comparison otherOperand =>
          cases samePhrase
          subst sameWords
          obtain rfl := eq_of_heq
            (ih otherOperand (Phrase.settled_operand_of_plain settled) rfl rfl rfl)
          rfl
      | func otherBody => exact absurd (operand_first operand sameWords) (by decide)
      | _ => cases samePhrase
  | tighter chained operand ih =>
      subst sameNext
      cases other with
      | tighter _ otherOperand =>
          cases samePhrase
          subst sameWords
          obtain rfl := eq_of_heq (ih otherOperand settled.tighter rfl rfl rfl)
          rfl
      | binary otherLeft _ =>
          cases samePhrase
          exact (binary_not_tighter operand settled otherLeft sameWords).elim
      | int | bool | givenBool | name | call | paren =>
          cases samePhrase
          exact absurd chained (Nat.lt_irrefl _)
      | _ => cases samePhrase
  | binary left right leftIH rightIH =>
      subst sameNext
      cases other with
      | binary otherLeft otherRight =>
          injection samePhrase with _ sameNode
          cases sameNode
          obtain ⟨rfl, rfl⟩ := left_words_unique left otherLeft sameWords
          obtain rfl := eq_of_heq (leftIH otherLeft (Phrase.settled_left _ _) rfl rfl rfl)
          obtain rfl := eq_of_heq (rightIH otherRight settled.tighter rfl rfl rfl)
          rfl
      | tighter _ otherOperand =>
          cases samePhrase
          exact (binary_not_tighter otherOperand settled left sameWords.symm).elim
      | paren =>
          injection samePhrase with sameLevel _
          exact absurd sameLevel (Nat.ne_of_lt (precedence_lt_primaryLevel _))
      | int | bool | givenBool | name | call =>
          injection samePhrase with _ sameNode
          cases sameNode
      | _ => cases samePhrase
  | int | bool | givenBool | name =>
      subst sameNext
      cases other with
      | int | bool | givenBool | name => cases samePhrase <;> first | rfl | cases sameWords
      | tighter chained _ =>
          cases samePhrase
          exact absurd chained (Nat.lt_irrefl _)
      | binary =>
          injection samePhrase with _ sameNode
          cases sameNode
      | paren => cases sameWords
      | _ => cases samePhrase
  | call nodes ih =>
      subst sameNext
      cases other with
      | call otherNodes =>
          cases samePhrase
          obtain rfl : _ = _ := by simpa using sameWords
          obtain rfl := eq_of_heq (ih otherNodes rfl rfl rfl rfl)
          rfl
      | tighter chained _ =>
          cases samePhrase
          exact absurd chained (Nat.lt_irrefl _)
      | binary =>
          injection samePhrase with _ sameNode
          cases sameNode
      | paren => cases sameWords
      | _ => cases samePhrase
  | paren inner ih =>
      subst sameNext
      cases other with
      | paren otherInner =>
          cases samePhrase
          obtain rfl : _ = _ := by simpa using sameWords
          obtain rfl := eq_of_heq (ih otherInner rfl rfl rfl rfl)
          rfl
      | tighter chained _ =>
          cases samePhrase
          exact absurd chained (Nat.lt_irrefl _)
      | binary =>
          injection samePhrase with sameLevel _
          exact absurd sameLevel.symm (Nat.ne_of_lt (precedence_lt_primaryLevel _))
      | int | bool | givenBool | name | call => cases sameWords
      | _ => cases samePhrase
  | noArguments =>
      subst sameNext
      cases other with
      | noArguments => rfl
      | _ => cases samePhrase
  | someArguments first later firstIH laterIH =>
      subst sameNext
      cases other with
      | someArguments otherFirst otherLater =>
          cases samePhrase
          cases settled
          have plain := operator?_headD_moreArguments later.opens
          have otherPlain := operator?_headD_moreArguments otherLater.opens
          obtain ⟨rfl, rfl⟩ :=
            first_expression_words_unique first otherFirst plain otherPlain sameWords
          obtain rfl := eq_of_heq (firstIH otherFirst plain rfl rfl rfl)
          obtain rfl := eq_of_heq (laterIH otherLater rfl rfl rfl rfl)
          rfl
      | _ => cases samePhrase
  | lastArgument =>
      subst sameNext
      cases other with
      | lastArgument => rfl
      | _ => cases samePhrase
  | nextArgument first later firstIH laterIH =>
      subst sameNext
      cases other with
      | nextArgument otherFirst otherLater =>
          cases samePhrase
          cases settled
          have plain := operator?_headD_moreArguments later.opens
          have otherPlain := operator?_headD_moreArguments otherLater.opens
          obtain ⟨rfl, rfl⟩ := first_expression_words_unique first otherFirst plain otherPlain
            (List.tail_eq_of_cons_eq sameWords)
          obtain rfl := eq_of_heq (firstIH otherFirst plain rfl rfl rfl)
          obtain rfl := eq_of_heq (laterIH otherLater rfl rfl rfl rfl)
          rfl
      | _ => cases samePhrase

end TinyScript
