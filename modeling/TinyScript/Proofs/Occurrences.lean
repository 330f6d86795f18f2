import TinyScript.Proofs.Printing

/-!
# Where phrases occur in what is printed

The words of a printed phrase are those of its parts and a few words around each of them. Following
parts of parts down the tree leads to every phrase in it, with the words in front of it and behind it.
-/

set_option autoImplicit false

namespace TinyScript

namespace Place

/-- What a place puts in front of an expression of some precedence. -/
def opening (strength : Nat) : Place → List Token
  | .statement => []
  | .operand precedence => if strength < precedence then [.symbol .leftParen] else []

/-- What a place puts behind an expression that never needs parentheses. -/
def ending : Place → List Token
  | .statement => [.symbol .semicolon]
  | .operand _ => []

/-- What a place puts behind an expression of some precedence. -/
def closing (strength : Nat) : Place → List Token
  | .statement => [.symbol .semicolon]
  | .operand precedence => if strength < precedence then [.symbol .rightParen] else []

theorem atom_eq (place : Place) (tokens : List Token) :
    place.atom tokens = tokens ++ place.ending := by
  cases place with
  | statement => rfl
  | operand precedence => exact (List.append_nil tokens).symm

theorem compound_eq (place : Place) (strength : Nat) (tokens : List Token) :
    place.compound strength tokens =
      place.opening strength ++ tokens ++ place.closing strength := by
  cases place with
  | statement => rfl
  | operand precedence =>
      by_cases loose : strength < precedence <;> simp [compound, opening, closing, loose]

end Place

/-- A tree where it stands. -/
def Phrase.inPlace : Place → Node → Phrase
  | .statement, node => .statement node
  | .operand level, node => .atLevel level node

/-- The words that a phrase is printed as. -/
def Phrase.spell : Phrase → Except SpellError (List Token)
  | .statements nodes => Node.spellAll nodes
  | .statement node => node.spell .statement
  | .expression node => node.spell (.operand 0)
  | .operand level node => node.spell (.operand level)
  | .arguments nodes => Node.spellArguments nodes
  | .moreArguments nodes => Node.spellMore nodes

@[simp] theorem Phrase.spell_inPlace (place : Place) (node : Node) :
    (inPlace place node).spell = node.spell place := by
  cases place with
  | statement => rfl
  | operand level => cases level <;> rfl

namespace Node

/-! What the parts of a printed tree are printed as. -/

theorem bind_eq_ok {α β : Type} {given : Except SpellError α} {next : α → Except SpellError β}
    {value : β} (done : given >>= next = .ok value) :
    ∃ inner, given = .ok inner ∧ next inner = .ok value := by
  cases given with
  | error fault => cases done
  | ok inner => exact ⟨inner, rfl, done⟩

section

variable {place : Place} {words : List Token}

theorem spell_binary_eq_ok {op : BinaryOp} {left right : Node}
    (spelled : (binary op left right).spell place = .ok words) :
    ∃ leftWords rightWords, left.spell (.operand op.precedence) = .ok leftWords ∧
      right.spell (.operand (op.precedence + 1)) = .ok rightWords ∧
      words = place.compound op.precedence (leftWords ++ .symbol op.symbol :: rightWords) := by
  rw [spell] at spelled
  obtain ⟨leftWords, leftSpelled, rest⟩ := bind_eq_ok spelled
  obtain ⟨rightWords, rightSpelled, whole⟩ := bind_eq_ok rest
  cases whole
  exact ⟨leftWords, rightWords, leftSpelled, rightSpelled, rfl⟩

theorem spell_call_eq_ok {callee : String} {arguments : List Node}
    (spelled : (call callee arguments).spell place = .ok words) :
    ∃ inner, spellArguments arguments = .ok inner ∧
      words = place.atom (.name callee :: .symbol .leftParen :: inner ++ [.symbol .rightParen]) := by
  rw [spell] at spelled
  obtain ⟨inner, innerSpelled, whole⟩ := bind_eq_ok spelled
  cases whole
  exact ⟨inner, innerSpelled, rfl⟩

theorem spell_func_eq_ok {parameters : List String} {body : List Node}
    (spelled : (func parameters body).spell place = .ok words) :
    ∃ inner, spellAll body = .ok inner ∧
      words = place.compound 0 (.keyword .fnKw :: .symbol .leftParen :: spellNames parameters ++
        .symbol .rightParen :: .symbol .leftBrace :: inner ++ [.symbol .rightBrace]) := by
  rw [spell] at spelled
  obtain ⟨inner, innerSpelled, whole⟩ := bind_eq_ok spelled
  cases whole
  exact ⟨inner, innerSpelled, rfl⟩

theorem spell_letE_eq_ok {target : String} {value : Node}
    (spelled : (letE target value).spell .statement = .ok words) :
    ∃ inner, value.spell (.operand 0) = .ok inner ∧
      words = .keyword .letKw :: .name target :: .symbol .assign :: inner ++
        [.symbol .semicolon] := by
  rw [spell] at spelled
  obtain ⟨inner, innerSpelled, whole⟩ := bind_eq_ok spelled
  cases whole
  exact ⟨inner, innerSpelled, rfl⟩

theorem spell_returnE_eq_ok {value : Node}
    (spelled : (returnE value).spell .statement = .ok words) :
    ∃ inner, value.spell (.operand 0) = .ok inner ∧
      words = .keyword .returnKw :: inner ++ [.symbol .semicolon] := by
  rw [spell] at spelled
  obtain ⟨inner, innerSpelled, whole⟩ := bind_eq_ok spelled
  cases whole
  exact ⟨inner, innerSpelled, rfl⟩

theorem spell_block_eq_ok {statements : List Node}
    (spelled : (block statements).spell .statement = .ok words) :
    ∃ inner, spellAll statements = .ok inner ∧
      words = .symbol .leftBrace :: inner ++ [.symbol .rightBrace] := by
  rw [spell] at spelled
  obtain ⟨inner, innerSpelled, whole⟩ := bind_eq_ok spelled
  cases whole
  exact ⟨inner, innerSpelled, rfl⟩

theorem spell_ifThen_eq_ok {condition consequence : Node}
    (spelled : (ifThen condition consequence).spell .statement = .ok words) :
    ∃ conditionWords consequenceWords, condition.spell (.operand 0) = .ok conditionWords ∧
      consequence.spell .statement = .ok consequenceWords ∧
      words = .keyword .ifKw :: .symbol .leftParen :: conditionWords ++
        .symbol .rightParen :: consequenceWords := by
  rw [spell] at spelled
  obtain ⟨conditionWords, conditionSpelled, rest⟩ := bind_eq_ok spelled
  obtain ⟨consequenceWords, consequenceSpelled, whole⟩ := bind_eq_ok rest
  cases whole
  exact ⟨conditionWords, consequenceWords, conditionSpelled, consequenceSpelled, rfl⟩

theorem spell_ifElse_eq_ok {condition consequence alternative : Node}
    (spelled : (ifElse condition consequence alternative).spell .statement = .ok words) :
    ∃ conditionWords consequenceWords alternativeWords,
      condition.spell (.operand 0) = .ok conditionWords ∧
      consequence.spell .statement = .ok consequenceWords ∧
      alternative.spell .statement = .ok alternativeWords ∧
      words = .keyword .ifKw :: .symbol .leftParen :: conditionWords ++
        .symbol .rightParen :: consequenceWords ++ .keyword .elseKw :: alternativeWords := by
  rw [spell] at spelled
  obtain ⟨conditionWords, conditionSpelled, rest⟩ := bind_eq_ok spelled
  obtain ⟨consequenceWords, consequenceSpelled, rest⟩ := bind_eq_ok rest
  obtain ⟨alternativeWords, alternativeSpelled, whole⟩ := bind_eq_ok rest
  cases whole
  exact ⟨conditionWords, consequenceWords, alternativeWords, conditionSpelled, consequenceSpelled,
    alternativeSpelled, rfl⟩

variable {first : Node} {later : List Node}

theorem spellAll_cons_eq_ok (spelled : spellAll (first :: later) = .ok words) :
    ∃ firstWords laterWords, first.spell .statement = .ok firstWords ∧
      spellAll later = .ok laterWords ∧ words = firstWords ++ laterWords := by
  rw [spellAll] at spelled
  obtain ⟨firstWords, firstSpelled, rest⟩ := bind_eq_ok spelled
  obtain ⟨laterWords, laterSpelled, whole⟩ := bind_eq_ok rest
  cases whole
  exact ⟨firstWords, laterWords, firstSpelled, laterSpelled, rfl⟩

theorem spellArguments_cons_eq_ok (spelled : spellArguments (first :: later) = .ok words) :
    ∃ firstWords laterWords, first.spell (.operand 0) = .ok firstWords ∧
      spellMore later = .ok laterWords ∧ words = firstWords ++ laterWords := by
  rw [spellArguments] at spelled
  obtain ⟨firstWords, firstSpelled, rest⟩ := bind_eq_ok spelled
  obtain ⟨laterWords, laterSpelled, whole⟩ := bind_eq_ok rest
  cases whole
  exact ⟨firstWords, laterWords, firstSpelled, laterSpelled, rfl⟩

theorem spellMore_cons_eq_ok (spelled : spellMore (first :: later) = .ok words) :
    ∃ firstWords laterWords, first.spell (.operand 0) = .ok firstWords ∧
      spellMore later = .ok laterWords ∧
      words = .symbol .comma :: firstWords ++ laterWords := by
  rw [spellMore] at spelled
  obtain ⟨firstWords, firstSpelled, rest⟩ := bind_eq_ok spelled
  obtain ⟨laterWords, laterSpelled, whole⟩ := bind_eq_ok rest
  cases whole
  exact ⟨firstWords, laterWords, firstSpelled, laterSpelled, rfl⟩

end

/-- Statements are printed with a semicolon or a closing brace at the end. -/
theorem spell_statement_closes {node : Node} {words : List Token}
    (spelled : node.spell .statement = .ok words) :
    ∃ mark ∈ [Symbol.semicolon, .rightBrace], [.symbol mark] <:+ words := by
  cases node with
  | int value =>
      rw [spell] at spelled
      split at spelled <;> cases spelled
      exact ⟨.semicolon, .head _, List.suffix_append _ _⟩
  | bool | name =>
      cases spelled
      exact ⟨.semicolon, .head _, List.suffix_append _ _⟩
  | binary =>
      obtain ⟨_, _, _, _, rfl⟩ := spell_binary_eq_ok spelled
      exact ⟨.semicolon, .head _, List.suffix_append _ _⟩
  | call =>
      obtain ⟨_, _, rfl⟩ := spell_call_eq_ok spelled
      exact ⟨.semicolon, .head _, List.suffix_append _ _⟩
  | func =>
      obtain ⟨_, _, rfl⟩ := spell_func_eq_ok spelled
      exact ⟨.semicolon, .head _, List.suffix_append _ _⟩
  | letE =>
      obtain ⟨_, _, rfl⟩ := spell_letE_eq_ok spelled
      exact ⟨.semicolon, .head _, List.suffix_append _ _⟩
  | returnE =>
      obtain ⟨_, _, rfl⟩ := spell_returnE_eq_ok spelled
      exact ⟨.semicolon, .head _, List.suffix_append _ _⟩
  | block =>
      obtain ⟨_, _, rfl⟩ := spell_block_eq_ok spelled
      exact ⟨.rightBrace, .tail _ (.head _), List.suffix_append _ _⟩
  | ifThen condition consequence =>
      obtain ⟨_, _, _, consequenceSpelled, rfl⟩ := spell_ifThen_eq_ok spelled
      obtain ⟨mark, closing, last⟩ := spell_statement_closes consequenceSpelled
      exact ⟨mark, closing, (last.trans (List.suffix_cons _ _)).trans (List.suffix_append _ _)⟩
  | ifElse condition consequence alternative =>
      obtain ⟨_, _, _, _, _, alternativeSpelled, rfl⟩ := spell_ifElse_eq_ok spelled
      obtain ⟨mark, closing, last⟩ := spell_statement_closes alternativeSpelled
      exact ⟨mark, closing, (last.trans (List.suffix_cons _ _)).trans (List.suffix_append _ _)⟩
  | strayLet | strayCall | strayFunc =>
      rw [spell] at spelled
      obtain ⟨_, _, whole⟩ := bind_eq_ok spelled
      cases whole
      exact ⟨.semicolon, .head _, List.suffix_append _ _⟩
  | shownAs content meaning =>
      have inner : meaning.spell .statement = .ok words := by
        rw [spell] at spelled
        simpa using spelled
      exact spell_statement_closes inner
  | stray => cases spelled

end Node

namespace Phrase

/-- A phrase has another one as a part, which is printed between the given words. -/
inductive HasPart : Phrase → List Token → Phrase → List Token → Prop where
  | left {place : Place} {op : BinaryOp} {left right : Node} {rightWords : List Token} :
      right.spell (.operand (op.precedence + 1)) = .ok rightWords →
      HasPart (inPlace place (.binary op left right)) (place.opening op.precedence)
        (.operand op.precedence left)
        (.symbol op.symbol :: rightWords ++ place.closing op.precedence)
  | right {place : Place} {op : BinaryOp} {left right : Node} {leftWords : List Token} :
      left.spell (.operand op.precedence) = .ok leftWords →
      HasPart (inPlace place (.binary op left right))
        (place.opening op.precedence ++ leftWords ++ [.symbol op.symbol])
        (.operand (op.precedence + 1) right) (place.closing op.precedence)
  | callArguments {place : Place} {callee : String} {nodes : List Node} :
      HasPart (inPlace place (.call callee nodes)) [.name callee, .symbol .leftParen]
        (.arguments nodes) (.symbol .rightParen :: place.ending)
  | functionBody {place : Place} {parameters : List String} {body : List Node} :
      HasPart (inPlace place (.func parameters body))
        (place.opening 0 ++ .keyword .fnKw :: .symbol .leftParen :: spellNames parameters ++
          [.symbol .rightParen, .symbol .leftBrace])
        (.statements body) (.symbol .rightBrace :: place.closing 0)
  | letValue {target : String} {value : Node} :
      HasPart (.statement (.letE target value)) [.keyword .letKw, .name target, .symbol .assign]
        (.expression value) [.symbol .semicolon]
  | returnValue {value : Node} :
      HasPart (.statement (.returnE value)) [.keyword .returnKw] (.expression value)
        [.symbol .semicolon]
  | blockStatements {nodes : List Node} :
      HasPart (.statement (.block nodes)) [.symbol .leftBrace] (.statements nodes)
        [.symbol .rightBrace]
  | thenCondition {condition consequence : Node} {consequenceWords : List Token} :
      consequence.spell .statement = .ok consequenceWords →
      HasPart (.statement (.ifThen condition consequence)) [.keyword .ifKw, .symbol .leftParen]
        (.expression condition) (.symbol .rightParen :: consequenceWords)
  | thenConsequence {condition consequence : Node} {conditionWords : List Token} :
      condition.spell (.operand 0) = .ok conditionWords →
      HasPart (.statement (.ifThen condition consequence))
        (.keyword .ifKw :: .symbol .leftParen :: conditionWords ++ [.symbol .rightParen])
        (.statement consequence) []
  | elseCondition {condition consequence alternative : Node}
      {consequenceWords alternativeWords : List Token} :
      consequence.spell .statement = .ok consequenceWords →
      alternative.spell .statement = .ok alternativeWords →
      HasPart (.statement (.ifElse condition consequence alternative))
        [.keyword .ifKw, .symbol .leftParen] (.expression condition)
        (.symbol .rightParen :: consequenceWords ++ .keyword .elseKw :: alternativeWords)
  | elseConsequence {condition consequence alternative : Node}
      {conditionWords alternativeWords : List Token} :
      condition.spell (.operand 0) = .ok conditionWords →
      alternative.spell .statement = .ok alternativeWords →
      HasPart (.statement (.ifElse condition consequence alternative))
        (.keyword .ifKw :: .symbol .leftParen :: conditionWords ++ [.symbol .rightParen])
        (.statement consequence) (.keyword .elseKw :: alternativeWords)
  | alternative {condition consequence alternative : Node}
      {conditionWords consequenceWords : List Token} :
      condition.spell (.operand 0) = .ok conditionWords →
      consequence.spell .statement = .ok consequenceWords →
      HasPart (.statement (.ifElse condition consequence alternative))
        (.keyword .ifKw :: .symbol .leftParen :: conditionWords ++
          .symbol .rightParen :: consequenceWords ++ [.keyword .elseKw])
        (.statement alternative) []
  | firstStatement {first : Node} {later : List Node} {laterWords : List Token} :
      Node.spellAll later = .ok laterWords →
      HasPart (.statements (first :: later)) [] (.statement first) laterWords
  | laterStatements {first : Node} {later : List Node} {firstWords : List Token} :
      first.spell .statement = .ok firstWords →
      HasPart (.statements (first :: later)) firstWords (.statements later) []
  | firstArgument {first : Node} {later : List Node} {laterWords : List Token} :
      Node.spellMore later = .ok laterWords →
      HasPart (.arguments (first :: later)) [] (.expression first) laterWords
  | laterArguments {first : Node} {later : List Node} {firstWords : List Token} :
      first.spell (.operand 0) = .ok firstWords →
      HasPart (.arguments (first :: later)) firstWords (.moreArguments later) []
  | nextArgument {first : Node} {later : List Node} {laterWords : List Token} :
      Node.spellMore later = .ok laterWords →
      HasPart (.moreArguments (first :: later)) [.symbol .comma] (.expression first) laterWords
  | furtherArguments {first : Node} {later : List Node} {firstWords : List Token} :
      first.spell (.operand 0) = .ok firstWords →
      HasPart (.moreArguments (first :: later)) (.symbol .comma :: firstWords)
        (.moreArguments later) []

/-- A phrase contains another one, which is printed between the given words, as a part of a part. -/
inductive Contains (whole : Phrase) : List Token → Phrase → List Token → Prop where
  | whole : Contains whole [] whole []
  | part {middle part : Phrase} {before earlier later after : List Token} :
      Contains whole before middle after → HasPart middle earlier part later →
      Contains whole (before ++ earlier) part (later ++ after)

variable {whole part : Phrase} {words before earlier later after : List Token}

theorem HasPart.spell (has : HasPart whole earlier part later) (spelled : whole.spell = .ok words) :
    ∃ inner, part.spell = .ok inner ∧ words = earlier ++ inner ++ later := by
  cases has with
  | left rightSpelled =>
      rw [spell_inPlace] at spelled
      obtain ⟨leftWords, _, leftSpelled, others, rfl⟩ := Node.spell_binary_eq_ok spelled
      cases rightSpelled.symm.trans others
      exact ⟨leftWords, leftSpelled, by simp [Place.compound_eq]⟩
  | right leftSpelled =>
      rw [spell_inPlace] at spelled
      obtain ⟨_, rightWords, others, rightSpelled, rfl⟩ := Node.spell_binary_eq_ok spelled
      cases leftSpelled.symm.trans others
      exact ⟨rightWords, rightSpelled, by simp [Place.compound_eq]⟩
  | callArguments =>
      rw [spell_inPlace] at spelled
      obtain ⟨inner, innerSpelled, rfl⟩ := Node.spell_call_eq_ok spelled
      exact ⟨inner, innerSpelled, by simp [Place.atom_eq]⟩
  | functionBody =>
      rw [spell_inPlace] at spelled
      obtain ⟨inner, innerSpelled, rfl⟩ := Node.spell_func_eq_ok spelled
      exact ⟨inner, innerSpelled, by simp [Place.compound_eq]⟩
  | letValue =>
      obtain ⟨inner, innerSpelled, rfl⟩ := Node.spell_letE_eq_ok spelled
      exact ⟨inner, innerSpelled, rfl⟩
  | returnValue =>
      obtain ⟨inner, innerSpelled, rfl⟩ := Node.spell_returnE_eq_ok spelled
      exact ⟨inner, innerSpelled, rfl⟩
  | blockStatements =>
      obtain ⟨inner, innerSpelled, rfl⟩ := Node.spell_block_eq_ok spelled
      exact ⟨inner, innerSpelled, rfl⟩
  | thenCondition consequenceSpelled =>
      obtain ⟨inner, _, innerSpelled, others, rfl⟩ := Node.spell_ifThen_eq_ok spelled
      cases consequenceSpelled.symm.trans others
      exact ⟨inner, innerSpelled, rfl⟩
  | thenConsequence conditionSpelled =>
      obtain ⟨_, inner, others, innerSpelled, rfl⟩ := Node.spell_ifThen_eq_ok spelled
      cases conditionSpelled.symm.trans others
      exact ⟨inner, innerSpelled, by simp⟩
  | elseCondition consequenceSpelled alternativeSpelled =>
      obtain ⟨inner, _, _, innerSpelled, others, othersToo, rfl⟩ := Node.spell_ifElse_eq_ok spelled
      cases consequenceSpelled.symm.trans others
      cases alternativeSpelled.symm.trans othersToo
      exact ⟨inner, innerSpelled, by simp⟩
  | elseConsequence conditionSpelled alternativeSpelled =>
      obtain ⟨_, inner, _, others, innerSpelled, othersToo, rfl⟩ := Node.spell_ifElse_eq_ok spelled
      cases conditionSpelled.symm.trans others
      cases alternativeSpelled.symm.trans othersToo
      exact ⟨inner, innerSpelled, by simp⟩
  | alternative conditionSpelled consequenceSpelled =>
      obtain ⟨_, _, inner, others, othersToo, innerSpelled, rfl⟩ := Node.spell_ifElse_eq_ok spelled
      cases conditionSpelled.symm.trans others
      cases consequenceSpelled.symm.trans othersToo
      exact ⟨inner, innerSpelled, by simp⟩
  | firstStatement laterSpelled =>
      obtain ⟨inner, _, innerSpelled, others, rfl⟩ := Node.spellAll_cons_eq_ok spelled
      cases laterSpelled.symm.trans others
      exact ⟨inner, innerSpelled, rfl⟩
  | laterStatements firstSpelled =>
      obtain ⟨_, inner, others, innerSpelled, rfl⟩ := Node.spellAll_cons_eq_ok spelled
      cases firstSpelled.symm.trans others
      exact ⟨inner, innerSpelled, (List.append_nil _).symm⟩
  | firstArgument laterSpelled =>
      obtain ⟨inner, _, innerSpelled, others, rfl⟩ := Node.spellArguments_cons_eq_ok spelled
      cases laterSpelled.symm.trans others
      exact ⟨inner, innerSpelled, rfl⟩
  | laterArguments firstSpelled =>
      obtain ⟨_, inner, others, innerSpelled, rfl⟩ := Node.spellArguments_cons_eq_ok spelled
      cases firstSpelled.symm.trans others
      exact ⟨inner, innerSpelled, (List.append_nil _).symm⟩
  | nextArgument laterSpelled =>
      obtain ⟨inner, _, innerSpelled, others, rfl⟩ := Node.spellMore_cons_eq_ok spelled
      cases laterSpelled.symm.trans others
      exact ⟨inner, innerSpelled, rfl⟩
  | furtherArguments firstSpelled =>
      obtain ⟨_, inner, others, innerSpelled, rfl⟩ := Node.spellMore_cons_eq_ok spelled
      cases firstSpelled.symm.trans others
      exact ⟨inner, innerSpelled, (List.append_nil _).symm⟩

/-- A phrase is printed as what it contains and the words around this. -/
theorem Contains.spell (contains : whole.Contains before part after)
    (spelled : whole.spell = .ok words) :
    ∃ inner, part.spell = .ok inner ∧ words = before ++ inner ++ after := by
  induction contains with
  | whole => exact ⟨words, spelled, by simp⟩
  | part _ has ih =>
      obtain ⟨inner, innerSpelled, rfl⟩ := ih
      obtain ⟨inmost, inmostSpelled, rfl⟩ := has.spell innerSpelled
      exact ⟨inmost, inmostSpelled, by simp⟩

/-- An operand of some precedence is one of an operator, which stands right beside it. -/
theorem HasPart.operator_beside {level : Nat} {node : Node}
    (has : HasPart whole earlier (.operand level node) later) :
    (∃ more op, earlier = more ++ [.symbol (BinaryOp.symbol op)]) ∨
      ∃ op more, later = .symbol (BinaryOp.symbol op) :: more := by
  cases has with
  | left => exact .inr ⟨_, _, rfl⟩
  | right => exact .inl ⟨_, _, rfl⟩

theorem Contains.operator_beside {statement : Node} {level : Nat} {node : Node}
    (contains : (Phrase.statement statement).Contains before (.operand level node) after) :
    (∃ more op, before = more ++ [.symbol (BinaryOp.symbol op)]) ∨
      ∃ op more, after = .symbol (BinaryOp.symbol op) :: more := by
  cases contains with
  | part _ has =>
      rcases has.operator_beside with ⟨more, op, rfl⟩ | ⟨op, more, rfl⟩
      · exact .inl ⟨_, op, (List.append_assoc _ more _).symm⟩
      · exact .inr ⟨op, _, rfl⟩

end Phrase

/-- A parenthesis behind tokens is set off from them, unless it is inside of another one. -/
def Token.SetOff (tokens : List Token) : Prop :=
  ∀ last ∈ tokens.getLast?, joined last (.symbol .leftParen) = true → last = .symbol .leftParen

theorem Token.SetOff.append {earlier : List Token} {last : Token} (ends : [last] <:+ earlier)
    (off : joined last (.symbol .leftParen) = true → last = .symbol .leftParen)
    (before : List Token) : SetOff (before ++ earlier) := by
  intro token among
  obtain ⟨more, rfl⟩ := ends
  rw [← List.append_assoc, List.getLast?_concat] at among
  cases among
  exact off

theorem Token.SetOff.opening {before : List Token} (off : SetOff before) (place : Place)
    (strength : Nat) : SetOff (before ++ place.opening strength) := by
  cases place with
  | statement => simpa [Place.opening] using off
  | operand level =>
      by_cases loose : strength < level
      · simp only [Place.opening, if_pos loose]
        exact .append List.suffix_rfl (fun _ => rfl) before
      · simpa [Place.opening, loose] using off

namespace Phrase

/-- What stands in front of a phrase. Only the arguments behind the first one follow an expression,
and these begin with a comma. -/
def Follows (before : List Token) : Phrase → Prop
  | .moreArguments _ => True
  | _ => Token.SetOff before

@[simp] theorem follows_inPlace (before : List Token) (place : Place) (node : Node) :
    (inPlace place node).Follows before = Token.SetOff before := by
  cases place with
  | statement => rfl
  | operand level => cases level <;> rfl

variable {whole part : Phrase} {before earlier later after : List Token}

theorem HasPart.follows (has : HasPart whole earlier part later) (follows : whole.Follows before) :
    part.Follows (before ++ earlier) := by
  cases has with
  | left =>
      rw [follows_inPlace] at follows
      exact follows.opening _ _
  | @right _ op =>
      have off : Token.joined (.symbol op.symbol) (.symbol .leftParen) = true →
          Token.symbol op.symbol = .symbol .leftParen := by
        cases op <;> decide
      exact .append (List.suffix_append _ _) off before
  | @callArguments _ callee =>
      exact .append (List.suffix_cons (.name callee) [.symbol .leftParen]) (by decide) before
  | functionBody =>
      have last : [.symbol .leftBrace] <:+ [Token.symbol .rightParen, .symbol .leftBrace] :=
        List.suffix_cons _ _
      exact .append (last.trans (List.suffix_append _ _)) (by decide) before
  | letValue => exact .append (List.suffix_append [_, _] [_]) (by decide) before
  | returnValue => exact .append List.suffix_rfl (by decide) before
  | blockStatements => exact .append List.suffix_rfl (by decide) before
  | thenCondition | elseCondition => exact .append (List.suffix_cons _ _) (by decide) before
  | thenConsequence | elseConsequence =>
      exact .append (List.suffix_append _ _) (by decide) before
  | alternative => exact .append (List.suffix_append _ _) (by decide) before
  | firstStatement | firstArgument => rwa [List.append_nil]
  | laterStatements firstSpelled =>
      obtain ⟨mark, closing, last⟩ := Node.spell_statement_closes firstSpelled
      have off : Token.joined (.symbol mark) (.symbol .leftParen) = true →
          Token.symbol mark = .symbol .leftParen := by
        simp only [List.mem_cons, List.not_mem_nil, or_false] at closing
        rcases closing with rfl | rfl <;> decide
      exact .append last off before
  | laterArguments | furtherArguments => trivial
  | nextArgument => exact .append List.suffix_rfl (by decide) before

/-- No name and no `fn` stands in front of what a statement contains, but for arguments behind the
first one. -/
theorem Contains.follows {statement : Node}
    (contains : (Phrase.statement statement).Contains before part after) : part.Follows before := by
  induction contains with
  | whole => exact fun _ among => nomatch among
  | part _ has ih => exact has.follows ih

end Phrase

end TinyScript
