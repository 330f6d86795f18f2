import TinyScript.Proofs.Grammar

/-!
# Readers give derivations

Whatever a reader takes from the front of some tokens spells the tree that it gives, and a reader
that fails blames the token in front of what it left. Both are proved together, by induction on the
number of tokens: a reader calls others either on fewer tokens or, on the same ones, in the order of
the theorems below.
-/

set_option autoImplicit false

namespace TinyScript

/-- The fault of an error is about the token in front of what the error left. -/
def ParseError.Fits (error : ParseError) : Prop :=
  match error.fault with
  | .expectedSymbol expected found =>
      found = Parse.current error.rest ∧ found ≠ .symbol expected
  | .expectedIdentifier found => found = Parse.current error.rest
  | .illegalCharacter content => Parse.current error.rest = .illegal content
  | .unexpectedToken found => found = Parse.current error.rest
  | .emptyToken => Parse.current error.rest = .empty

namespace Parse

/-- A result is a value that holds, or an error about one of the tokens or their end. -/
def Within {α : Type} (tokens : List Token) (holds : α → Prop) : Except ParseError α → Prop
  | .ok value => holds value
  | .error error => error.rest <:+ tokens ∧ error.Fits

/-- A reader gives a value that holds together with the tokens it left, or a proper error. -/
def Reads {α : Type} (tokens : List Token) (holds : α → List Token → Prop)
    (result : Except ParseError (Parsed α tokens)) : Prop :=
  Within tokens (fun parsed => holds parsed.value parsed.rest) result

def Continues {α : Type} (tokens : List Token) (holds : α → List Token → Prop)
    (result : Except ParseError (Continued α tokens)) : Prop :=
  Within tokens (fun continued => holds continued.value continued.rest) result

theorem Within.pure {α : Type} {tokens : List Token} {holds : α → Prop} {value : α}
    (held : holds value) : Within tokens holds (pure value) :=
  held

theorem Within.imp {α : Type} {tokens : List Token} {holds holdsMore : α → Prop}
    {result : Except ParseError α} (within : Within tokens holds result)
    (more : ∀ value, holds value → holdsMore value) : Within tokens holdsMore result := by
  cases result with
  | ok value => exact more value within
  | error error => exact within

theorem Within.bind {α β : Type} {later tokens : List Token} {holds : α → Prop}
    {holdsNext : β → Prop} {result : Except ParseError α} {next : α → Except ParseError β}
    (within : Within later holds result) (suffix : later <:+ tokens)
    (step : ∀ value, holds value → Within tokens holdsNext (next value)) :
    Within tokens holdsNext (result >>= next) := by
  cases result with
  | ok value => exact step value within
  | error error => exact ⟨within.1.trans suffix, within.2⟩

theorem Reads.bind {α β : Type} {later tokens : List Token} {holds : α → List Token → Prop}
    {holdsNext : β → Prop} {result : Except ParseError (Parsed α later)}
    {next : Parsed α later → Except ParseError β}
    (reads : Reads later holds result) (suffix : later <:+ tokens)
    (step : ∀ value rest shorter, holds value rest →
      Within tokens holdsNext (next ⟨value, rest, shorter⟩)) :
    Within tokens holdsNext (result >>= next) :=
  Within.bind reads suffix fun ⟨value, rest, shorter⟩ held => step value rest shorter held

theorem Continues.bind {α β : Type} {later tokens : List Token} {holds : α → List Token → Prop}
    {holdsNext : β → Prop} {result : Except ParseError (Continued α later)}
    {next : Continued α later → Except ParseError β}
    (continues : Continues later holds result) (suffix : later <:+ tokens)
    (step : ∀ value rest noLonger, holds value rest →
      Within tokens holdsNext (next ⟨value, rest, noLonger⟩)) :
    Within tokens holdsNext (result >>= next) :=
  Within.bind continues suffix fun ⟨value, rest, noLonger⟩ held => step value rest noLonger held

theorem skip?_eq_some {expected : Token} {tokens rest : List Token} {shorter}
    (found : skip? expected tokens = some ⟨(), rest, shorter⟩) : tokens = expected :: rest := by
  cases tokens with
  | nil => simp [skip?] at found
  | cons first later =>
      simp only [skip?] at found
      split at found
      · next same =>
          cases found
          rw [same]
      · cases found

theorem current_ne_of_skip?_eq_none {expected : Token} {tokens : List Token}
    (missing : skip? expected tokens = none) (proper : expected ≠ .endMark) :
    current tokens ≠ expected := by
  cases tokens with
  | nil => exact proper.symm
  | cons first later =>
      simp only [skip?] at missing
      split at missing
      · cases missing
      · assumption

theorem expect_reads (expected : Symbol) (tokens : List Token) :
    Reads tokens (fun _ rest => tokens = .symbol expected :: rest) (expect expected tokens) := by
  unfold expect
  split
  · next taken found => exact skip?_eq_some found
  · next missing =>
      exact ⟨List.suffix_rfl, rfl, current_ne_of_skip?_eq_none missing (by simp)⟩

theorem identifier_reads (tokens : List Token) :
    Reads tokens (fun spelling rest => tokens = .name spelling :: rest) (identifier tokens) := by
  unfold identifier
  split
  · rfl
  · exact ⟨List.suffix_rfl, rfl⟩
  · exact ⟨List.suffix_rfl, rfl⟩

theorem statementEnd_continues (tokens : List Token) :
    Continues tokens
      (fun _ rest => ∃ stop, tokens = stop ++ rest ∧
        Nonempty (StatementEnd (current tokens) stop (current rest)))
      (statementEnd tokens) := by
  unfold statementEnd
  split
  · next closes => exact ⟨[], rfl, ⟨closes ▸ .omitted⟩⟩
  · refine (expect_reads .semicolon tokens).bind List.suffix_rfl ?_
    intro _ rest _ taken
    subst taken
    exact ⟨[.symbol .semicolon], rfl, ⟨.semicolon⟩⟩

theorem operator?_eq_some {level : Nat} {tokens rest : List Token} {op : BinaryOp} {shorter}
    (found : operator? level tokens = some ⟨op, rest, shorter⟩) :
    tokens = .symbol op.symbol :: rest ∧ op.precedence = level := by
  unfold operator? at found
  split at found
  · split at found
    · next known =>
        split at found
        · next same =>
            cases found
            exact ⟨by rw [BinaryOp.ofSymbol?_eq_some_iff.mp known], same⟩
        · cases found
    · cases found
  · cases found

theorem nameWords_cons (first : String) (later : List String) :
    nameWords (first :: later) =
      .name first :: later.flatMap fun spelling => [.symbol .comma, .name spelling] := by
  induction later generalizing first with
  | nil => rfl
  | cons second later ih =>
      have tail := ih second
      simp only [nameWords, List.map_cons] at tail ⊢
      simp [tail]

theorem moreParameters_reads (tokens : List Token) :
    Reads tokens
      (fun spellings rest => tokens =
        (spellings.flatMap fun spelling => [.symbol .comma, .name spelling]) ++
          .symbol .rightParen :: rest)
      (moreParameters tokens) := by
  unfold moreParameters
  split
  · next comma found =>
      obtain ⟨_, afterComma, _⟩ := comma
      have same : tokens = .symbol .comma :: afterComma := skip?_eq_some found
      clear found
      subst same
      have behind : afterComma <:+ .symbol .comma :: afterComma := List.suffix_cons _ _
      refine (identifier_reads afterComma).bind behind ?_
      intro spelling afterName _ taken
      subst taken
      refine (moreParameters_reads afterName).bind ((List.suffix_cons _ _).trans behind) ?_
      intro names rest _ taken
      subst taken
      exact .pure (by simp)
  · refine (expect_reads .rightParen tokens).bind List.suffix_rfl ?_
    intro _ rest _ taken
    exact taken
termination_by tokens.length
decreasing_by grind

theorem parameters_reads (tokens : List Token) :
    Reads tokens (fun spellings rest => tokens = nameWords spellings ++ .symbol .rightParen :: rest)
      (parameters tokens) := by
  unfold parameters
  split
  · next close found => exact skip?_eq_some found
  · refine (identifier_reads tokens).bind List.suffix_rfl ?_
    intro spelling afterName _ taken
    subst taken
    refine (moreParameters_reads afterName).bind (List.suffix_cons _ _) ?_
    intro names rest _ taken
    subst taken
    exact .pure (by simp [nameWords_cons])

/-- The tokens up to the rest spell a phrase in front of it. -/
def Spells (tokens : List Token) (phrase : Phrase) (rest : List Token) : Prop :=
  ∃ words, tokens = words ++ rest ∧ Nonempty (Derivation phrase words (current rest))

theorem current_append (words rest : List Token) :
    current (words ++ rest) = words.headD (current rest) := by
  cases words <;> rfl

/-- The tokens up to a closing symbol and the rest spell a phrase in front of the symbol. -/
def SpellsUpTo (tokens : List Token) (phrase : Phrase) (closing : Symbol) (rest : List Token) :
    Prop :=
  Spells tokens phrase (.symbol closing :: rest)

/-- What all readers do on the same tokens. A chain goes on behind an operand of its level. -/
structure ReadersSpell (tokens : List Token) : Prop where
  statement : Reads tokens (fun node => Spells tokens (.statement node)) (statement tokens)
  blockBody : Reads tokens (fun nodes => SpellsUpTo tokens (.statements nodes) .rightBrace)
    (blockBody tokens)
  expression : Reads tokens (fun node => Spells tokens (.expression node)) (expression tokens)
  operand : ∀ level, level ≤ primaryLevel →
    Reads tokens (fun node => Spells tokens (.operand level node)) (operand level tokens)
  chain : ∀ level left leftWords, level < primaryLevel →
    Derivation (.operand level left) leftWords (current tokens) →
    Continues tokens
      (fun node rest => Spells (leftWords ++ tokens) (.operand level node) rest)
      (chain level left tokens)
  arguments : Reads tokens (fun nodes => SpellsUpTo tokens (.arguments nodes) .rightParen)
    (arguments tokens)
  moreArguments : Reads tokens (fun nodes => SpellsUpTo tokens (.moreArguments nodes) .rightParen)
    (moreArguments tokens)

section

variable {tokens : List Token}
variable (shorter : ∀ later : List Token, later.length < tokens.length → ReadersSpell later)

include shorter

theorem primary_spells :
    Reads tokens (fun node => Spells tokens (.operand primaryLevel node)) (primary tokens) := by
  unfold primary
  split
  · exact ⟨_, (List.singleton_append).symm, ⟨.int⟩⟩
  · exact ⟨_, (List.singleton_append).symm, ⟨.givenBool⟩⟩
  · exact ⟨_, (List.singleton_append).symm, ⟨.bool⟩⟩
  · exact ⟨_, (List.singleton_append).symm, ⟨.bool⟩⟩
  · next inside =>
      refine (shorter inside (by simp)).expression.bind (List.suffix_cons _ _) ?_
      intro inner afterInner _ spelled
      obtain ⟨words, rfl, ⟨derived⟩⟩ := spelled
      have behind : afterInner <:+ .symbol .leftParen :: (words ++ afterInner) :=
        (List.suffix_append _ _).trans (List.suffix_cons _ _)
      refine (expect_reads .rightParen afterInner).bind behind ?_
      intro _ rest _ taken
      subst taken
      exact .pure ⟨_, by simp, ⟨.paren derived⟩⟩
  · next spelling later =>
      split
      · next opening found =>
          obtain ⟨_, inside, _⟩ := opening
          have same : later = .symbol .leftParen :: inside := skip?_eq_some found
          clear found
          subst same
          have behind : inside <:+ .name spelling :: .symbol .leftParen :: inside :=
            (List.suffix_cons _ _).trans (List.suffix_cons _ _)
          refine (shorter inside (by grind)).arguments.bind behind ?_
          intro nodes rest _ spelled
          obtain ⟨words, rfl, ⟨derived⟩⟩ := spelled
          exact .pure ⟨_, by simp, ⟨.call derived⟩⟩
      · next missing =>
          have noCall := current_ne_of_skip?_eq_none missing (by simp)
          exact ⟨_, (List.singleton_append).symm, ⟨.name noCall⟩⟩
  · exact ⟨List.suffix_rfl, rfl⟩
  · exact ⟨List.suffix_rfl, rfl⟩
  · exact ⟨List.suffix_rfl, rfl⟩

theorem chain_spells {level : Nat} {left : Node} {leftWords : List Token}
    (chained : level < primaryLevel)
    (leftDerived : Derivation (.operand level left) leftWords (current tokens)) :
    Continues tokens
      (fun node rest => Spells (leftWords ++ tokens) (.operand level node) rest)
      (chain level left tokens) := by
  unfold chain
  split
  · exact ⟨_, rfl, ⟨leftDerived⟩⟩
  · next op found =>
      obtain ⟨op, afterOp, _⟩ := op
      obtain ⟨same, rfl⟩ := operator?_eq_some found
      clear found
      subst same
      have behind : afterOp <:+ .symbol op.symbol :: afterOp := List.suffix_cons _ _
      refine ((shorter afterOp (by simp)).operand (op.precedence + 1) chained).bind behind ?_
      intro right afterRight _ spelled
      obtain ⟨rightWords, rfl, ⟨rightDerived⟩⟩ := spelled
      have joined := Derivation.binary leftDerived rightDerived
      have fewer :
          afterRight.length < (Token.symbol op.symbol :: (rightWords ++ afterRight)).length := by
        grind
      have further := (shorter afterRight fewer).chain op.precedence _ _ chained joined
      refine further.bind ((List.suffix_append _ _).trans behind) ?_
      intro node rest _ spelled
      obtain ⟨words, split, ⟨derived⟩⟩ := spelled
      exact .pure ⟨words, by simpa using split, ⟨derived⟩⟩

theorem operand_spells {level distance : Nat} (sum : level + distance = primaryLevel) :
    Reads tokens (fun node => Spells tokens (.operand level node)) (operand level tokens) := by
  induction distance generalizing level with
  | zero =>
      obtain rfl : level = primaryLevel := sum
      unfold operand
      rw [if_neg (Nat.lt_irrefl _)]
      exact primary_spells shorter
  | succ distance ih =>
      have chained : level < primaryLevel := by omega
      unfold operand
      rw [if_pos chained]
      have next : level + 1 + distance = primaryLevel := by omega
      refine (ih next).bind List.suffix_rfl ?_
      intro first afterFirst fewer spelled
      obtain ⟨words, rfl, ⟨derived⟩⟩ := spelled
      have further := (shorter afterFirst fewer).chain level _ _ chained (.tighter chained derived)
      refine further.bind (List.suffix_append _ _) ?_
      intro node rest _ spelled
      exact .pure spelled

theorem expression_spells :
    Reads tokens (fun node => Spells tokens (.expression node)) (expression tokens) := by
  unfold expression
  split
  · next afterFn found =>
      obtain ⟨_, afterFn, _⟩ := afterFn
      have same : tokens = .keyword .fnKw :: afterFn := skip?_eq_some found
      clear found
      subst same
      have behindFn : afterFn <:+ .keyword .fnKw :: afterFn := List.suffix_cons _ _
      refine (expect_reads .leftParen afterFn).bind behindFn ?_
      intro _ afterParen _ taken
      subst taken
      have behindParen := (List.suffix_cons _ afterParen).trans behindFn
      refine (parameters_reads afterParen).bind behindParen ?_
      intro names afterNames _ taken
      subst taken
      have behindNames := ((List.suffix_cons _ afterNames).trans
        (List.suffix_append _ _)).trans behindParen
      refine (expect_reads .leftBrace afterNames).bind behindNames ?_
      intro _ afterBrace _ taken
      subst taken
      have behindBrace := (List.suffix_cons _ afterBrace).trans behindNames
      refine (shorter afterBrace (by grind)).blockBody.bind behindBrace ?_
      intro body rest _ spelled
      obtain ⟨words, rfl, ⟨derived⟩⟩ := spelled
      exact .pure ⟨_, by simp, ⟨.func derived⟩⟩
  · have chained : 1 + 3 = primaryLevel := rfl
    refine (operand_spells shorter chained).imp ?_
    intro parsed spelled
    obtain ⟨words, split, ⟨derived⟩⟩ := spelled
    exact ⟨words, split, ⟨.comparison derived⟩⟩

theorem statement_spells :
    Reads tokens (fun node => Spells tokens (.statement node)) (statement tokens) := by
  unfold statement
  split
  · next afterLet =>
      have behindLet : afterLet <:+ .keyword .letKw :: afterLet := List.suffix_cons _ _
      refine (identifier_reads afterLet).bind behindLet ?_
      intro target afterTarget _ taken
      subst taken
      have behindTarget := (List.suffix_cons _ afterTarget).trans behindLet
      refine (expect_reads .assign afterTarget).bind behindTarget ?_
      intro _ afterEquals _ taken
      subst taken
      have behindEquals := (List.suffix_cons _ afterEquals).trans behindTarget
      refine (shorter afterEquals (by grind)).expression.bind behindEquals ?_
      intro value afterValue _ spelled
      obtain ⟨words, rfl, ⟨derived⟩⟩ := spelled
      refine (expect_reads .semicolon afterValue).bind
        ((List.suffix_append _ _).trans behindEquals) ?_
      intro _ rest _ taken
      subst taken
      exact .pure ⟨_, by simp, ⟨.letE derived⟩⟩
  · next afterReturn =>
      have behind : afterReturn <:+ .keyword .returnKw :: afterReturn := List.suffix_cons _ _
      refine (shorter afterReturn (by simp)).expression.bind behind ?_
      intro value afterValue _ spelled
      obtain ⟨words, rfl, ⟨derived⟩⟩ := spelled
      refine (statementEnd_continues afterValue).bind ((List.suffix_append _ _).trans behind) ?_
      intro _ rest _ ended
      obtain ⟨stop, rfl, ⟨ends⟩⟩ := ended
      exact .pure ⟨_, by simp, ⟨.returnE derived ends⟩⟩
  · next inside =>
      refine (shorter inside (by simp)).blockBody.bind (List.suffix_cons _ _) ?_
      intro nodes rest _ spelled
      obtain ⟨words, rfl, ⟨derived⟩⟩ := spelled
      exact .pure ⟨_, by simp, ⟨.block derived⟩⟩
  · next afterIf =>
      have behindIf : afterIf <:+ .keyword .ifKw :: afterIf := List.suffix_cons _ _
      refine (shorter afterIf (by simp)).expression.bind behindIf ?_
      intro condition afterCondition _ spelled
      obtain ⟨conditionWords, rfl, ⟨conditionDerived⟩⟩ := spelled
      have behindCondition := (List.suffix_append _ afterCondition).trans behindIf
      refine (shorter afterCondition (by grind)).statement.bind behindCondition ?_
      intro consequence afterConsequence _ spelled
      obtain ⟨consequenceWords, rfl, ⟨consequenceDerived⟩⟩ := spelled
      rw [current_append] at conditionDerived
      have behindConsequence := (List.suffix_append _ afterConsequence).trans behindCondition
      split
      · next afterElse found =>
          obtain ⟨_, afterElse, _⟩ := afterElse
          have same : afterConsequence = .keyword .elseKw :: afterElse := skip?_eq_some found
          clear found
          subst same
          have behindElse := (List.suffix_cons _ afterElse).trans behindConsequence
          refine (shorter afterElse (by grind)).statement.bind behindElse ?_
          intro alternative rest _ spelled
          obtain ⟨alternativeWords, rfl, ⟨alternativeDerived⟩⟩ := spelled
          exact .pure ⟨_, by simp,
            ⟨.ifElse conditionDerived consequenceDerived alternativeDerived⟩⟩
      · next missing =>
          have noElse := current_ne_of_skip?_eq_none missing (by simp)
          exact .pure ⟨_, by simp, ⟨.ifThen conditionDerived consequenceDerived noElse⟩⟩
  · refine (expression_spells shorter).bind List.suffix_rfl ?_
    intro value afterValue _ spelled
    obtain ⟨words, rfl, ⟨derived⟩⟩ := spelled
    refine (statementEnd_continues afterValue).bind (List.suffix_append _ _) ?_
    intro _ rest _ ended
    obtain ⟨stop, rfl, ⟨ends⟩⟩ := ended
    exact .pure ⟨_, by simp, ⟨.expressionE derived ends⟩⟩

theorem blockBody_spells :
    Reads tokens (fun nodes => SpellsUpTo tokens (.statements nodes) .rightBrace)
      (blockBody tokens) := by
  unfold blockBody
  split
  · next close found => exact ⟨[], skip?_eq_some found, ⟨.noStatements⟩⟩
  · refine (statement_spells shorter).bind List.suffix_rfl ?_
    intro node afterFirst fewer spelled
    obtain ⟨firstWords, rfl, ⟨firstDerived⟩⟩ := spelled
    refine (shorter afterFirst fewer).blockBody.bind (List.suffix_append _ _) ?_
    intro nodes rest _ spelled
    obtain ⟨words, rfl, ⟨derived⟩⟩ := spelled
    rw [current_append] at firstDerived
    exact .pure ⟨_, by simp, ⟨.someStatements firstDerived derived⟩⟩

theorem arguments_spells :
    Reads tokens (fun nodes => SpellsUpTo tokens (.arguments nodes) .rightParen)
      (arguments tokens) := by
  unfold arguments
  split
  · next close found => exact ⟨[], skip?_eq_some found, ⟨.noArguments⟩⟩
  · refine (expression_spells shorter).bind List.suffix_rfl ?_
    intro node afterFirst fewer spelled
    obtain ⟨firstWords, rfl, ⟨firstDerived⟩⟩ := spelled
    refine (shorter afterFirst fewer).moreArguments.bind (List.suffix_append _ _) ?_
    intro nodes rest _ spelled
    obtain ⟨words, rfl, ⟨derived⟩⟩ := spelled
    rw [current_append] at firstDerived
    exact .pure ⟨_, by simp, ⟨.someArguments firstDerived derived⟩⟩

theorem moreArguments_spells :
    Reads tokens (fun nodes => SpellsUpTo tokens (.moreArguments nodes) .rightParen)
      (moreArguments tokens) := by
  unfold moreArguments
  split
  · next comma found =>
      obtain ⟨_, afterComma, _⟩ := comma
      have same : tokens = .symbol .comma :: afterComma := skip?_eq_some found
      clear found
      subst same
      have behind : afterComma <:+ .symbol .comma :: afterComma := List.suffix_cons _ _
      refine (shorter afterComma (by simp)).expression.bind behind ?_
      intro node afterNext _ spelled
      obtain ⟨nextWords, rfl, ⟨nextDerived⟩⟩ := spelled
      have behindNext := (List.suffix_append _ afterNext).trans behind
      refine (shorter afterNext (by grind)).moreArguments.bind behindNext ?_
      intro nodes rest _ spelled
      obtain ⟨words, rfl, ⟨derived⟩⟩ := spelled
      rw [current_append] at nextDerived
      exact .pure ⟨_, by simp, ⟨.nextArgument nextDerived derived⟩⟩
  · refine (expect_reads .rightParen tokens).bind List.suffix_rfl ?_
    intro _ rest _ taken
    exact .pure ⟨[], taken, ⟨.lastArgument⟩⟩

end

theorem readers_spell (tokens : List Token) : ReadersSpell tokens := by
  have shorter : ∀ later : List Token, later.length < tokens.length → ReadersSpell later :=
    fun later _ => readers_spell later
  exact {
    statement := statement_spells shorter
    blockBody := blockBody_spells shorter
    expression := expression_spells shorter
    operand := fun level bound => operand_spells shorter (Nat.add_sub_cancel' bound)
    chain := fun _ _ _ chained leftDerived => chain_spells shorter chained leftDerived
    arguments := arguments_spells shorter
    moreArguments := moreArguments_spells shorter }
termination_by tokens.length

theorem program_spells (tokens : List Token) :
    Within tokens
      (fun nodes => ∃ words rest, tokens = words ++ rest ∧ current rest = .endMark ∧
        Nonempty (Derivation (.statements nodes) words .endMark))
      (program tokens) := by
  unfold program
  split
  · exact ⟨[], [], rfl, rfl, ⟨.noStatements⟩⟩
  · next rest => exact ⟨[], .endMark :: rest, rfl, rfl, ⟨.noStatements⟩⟩
  · refine (readers_spell tokens).statement.bind List.suffix_rfl ?_
    intro node afterFirst fewer spelled
    obtain ⟨firstWords, rfl, ⟨firstDerived⟩⟩ := spelled
    refine (program_spells afterFirst).bind (List.suffix_append _ _) ?_
    intro nodes spelled
    obtain ⟨words, rest, rfl, front, ⟨derived⟩⟩ := spelled
    rw [current_append, front] at firstDerived
    exact .pure ⟨_, rest, (List.append_assoc _ _ _).symm, front,
      ⟨.someStatements firstDerived derived⟩⟩
termination_by tokens.length

end Parse

end TinyScript
