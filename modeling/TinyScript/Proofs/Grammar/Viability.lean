import TinyScript.Proofs.Grammar.Soundness
import TinyScript.Proofs.Scanning

/-!
# Words that can be gone on with

The beginning of a phrase is viable if some further words complete it. This is shown rule by rule: a
beginning is made of parts that are complete and of one that is viable itself. What stands behind a
complete part may change by this, since the words that complete the rest can begin with another
token than the one that was found there.
-/

set_option autoImplicit false

namespace TinyScript

/-- A token that can follow any phrase without becoming a part of it. -/
structure Token.IsNeutral (token : Token) : Prop where
  noElse : token ≠ .keyword .elseKw
  noCall : token ≠ .symbol .leftParen

theorem Symbol.isNeutral {mark : Symbol} (noCall : mark ≠ .leftParen) :
    (Token.symbol mark).IsNeutral :=
  ⟨by simp, by simpa using noCall⟩

/-- What becomes of words if another token follows. An expression stays what it is. A statement may
need the semicolon that it went without. -/
def Phrase.Outlasts : Phrase → List Token → Prop
  | .expression node, words => ∀ next, next.IsNeutral →
      Nonempty (Derivation (.expression node) words next)
  | .operand level node, words => ∀ next, next.IsNeutral →
      Nonempty (Derivation (.operand level node) words next)
  | .statement node, words => ∃ stop, stop.all Token.isPlain = true ∧ ∀ next, next.IsNeutral →
      Nonempty (Derivation (.statement node) (words ++ stop) next)
  | .statements _, _ | .arguments _, _ | .moreArguments _, _ => True

theorem Phrase.Outlasts.of_complete {node : Node} {words : List Token}
    (derives : ∀ next, Nonempty (Derivation (.statement node) words next)) :
    (Phrase.statement node).Outlasts words := by
  refine ⟨[], rfl, ?_⟩
  intro next _
  rw [List.append_nil]
  exact derives next

theorem StatementEnd.completed {before next : Token} {stop : List Token}
    (ends : StatementEnd before stop next) :
    ∃ more, more.all Token.isPlain = true ∧ stop ++ more = [.symbol .semicolon] := by
  cases ends with
  | semicolon => exact ⟨[], rfl, rfl⟩
  | omitted => exact ⟨[.symbol .semicolon], rfl, rfl⟩

theorem headD_append_of_opens {node : Node} {words : List Token}
    (opens : (Phrase.statement node).Opens words) (stop : List Token) (next other : Token) :
    (words ++ stop).headD next = words.headD other := by
  obtain ⟨first, later, rfl, _⟩ := opens
  rfl

theorem Derivation.outlasts {phrase : Phrase} {words : List Token} {next : Token}
    (derivation : Derivation phrase words next) : phrase.Outlasts words := by
  induction derivation with
  | noStatements | someStatements | noArguments | someArguments | lastArgument | nextArgument =>
      trivial
  | letE value => exact .of_complete fun _ => ⟨.letE value⟩
  | returnE _ ends ih =>
      obtain ⟨more, plain, whole⟩ := ends.completed
      obtain ⟨value⟩ := ih (.symbol .semicolon) (Symbol.isNeutral (by simp))
      refine ⟨more, plain, fun next _ => ?_⟩
      rw [List.append_assoc, whole]
      exact ⟨.returnE value .semicolon⟩
  | block statements => exact .of_complete fun _ => ⟨.block statements⟩
  | ifThen condition consequence _ _ consequenceIH =>
      obtain ⟨stop, plain, completes⟩ := consequenceIH
      refine ⟨stop, plain, fun next neutral => ?_⟩
      obtain ⟨complete⟩ := completes next neutral
      rw [← headD_append_of_opens consequence.opens stop next] at condition
      rw [List.append_assoc]
      exact ⟨.ifThen condition complete neutral.noElse⟩
  | ifElse condition consequence _ _ _ alternativeIH =>
      obtain ⟨stop, plain, completes⟩ := alternativeIH
      refine ⟨stop, plain, fun next neutral => ?_⟩
      obtain ⟨complete⟩ := completes next neutral
      rw [List.append_assoc, List.cons_append]
      exact ⟨.ifElse condition consequence complete⟩
  | expressionE _ ends ih =>
      obtain ⟨more, plain, whole⟩ := ends.completed
      obtain ⟨value⟩ := ih (.symbol .semicolon) (Symbol.isNeutral (by simp))
      refine ⟨more, plain, fun next _ => ?_⟩
      rw [List.append_assoc, whole]
      exact ⟨.expressionE value .semicolon⟩
  | func body => exact fun _ _ => ⟨.func body⟩
  | comparison _ ih =>
      intro next neutral
      obtain ⟨operand⟩ := ih next neutral
      exact ⟨.comparison operand⟩
  | tighter chained _ ih =>
      intro next neutral
      obtain ⟨operand⟩ := ih next neutral
      exact ⟨.tighter chained operand⟩
  | binary left _ _ rightIH =>
      intro next neutral
      obtain ⟨right⟩ := rightIH next neutral
      exact ⟨.binary left right⟩
  | int => exact fun _ _ => ⟨.int⟩
  | bool => exact fun _ _ => ⟨.bool⟩
  | givenBool => exact fun _ _ => ⟨.givenBool⟩
  | name => exact fun _ neutral => ⟨.name neutral.noCall⟩
  | call arguments => exact fun _ _ => ⟨.call arguments⟩
  | paren inner => exact fun _ _ => ⟨.paren inner⟩

/-- The shortest expression and the shortest statement, to complete others with. -/
def Derivation.zero (next : Token) : Derivation (.expression (.int 0)) [.int 0] next :=
  .comparison (.tighter (by decide) (.tighter (by decide) (.tighter (by decide) .int)))

def Derivation.zeroStatement (next : Token) :
    Derivation (.statement (.int 0)) [.int 0, .symbol .semicolon] next :=
  .expressionE (zero (.symbol .semicolon)) .semicolon

/-- Some plain words behind the given ones complete a phrase of a kind. -/
def Viable {α : Type} (kind : α → Phrase) (words : List Token) : Prop :=
  ∃ continuation value, continuation.all Token.isPlain = true ∧
    ∀ next, next.IsNeutral → Nonempty (Derivation (kind value) (words ++ continuation) next)

/-- Some plain words behind the given ones complete a list of names. -/
def ViableNames (words : List Token) : Prop :=
  ∃ continuation names, continuation.all Token.isPlain = true ∧
    words ++ continuation = nameWords names

def ViableFurtherNames (words : List Token) : Prop :=
  ∃ continuation, ∃ names : List String, continuation.all Token.isPlain = true ∧
    words ++ continuation = names.flatMap fun spelling => [.symbol .comma, .name spelling]

theorem ViableNames.none : ViableNames [] :=
  ⟨[], [], rfl, rfl⟩

theorem ViableNames.cons (spelling : String) {words : List Token}
    (further : ViableFurtherNames words) : ViableNames (.name spelling :: words) := by
  obtain ⟨continuation, names, plain, same⟩ := further
  refine ⟨continuation, spelling :: names, plain, ?_⟩
  rw [Parse.nameWords_cons, List.cons_append, same]

theorem ViableFurtherNames.none : ViableFurtherNames [] :=
  ⟨[], [], rfl, rfl⟩

theorem ViableFurtherNames.comma : ViableFurtherNames [.symbol .comma] :=
  ⟨[.name "x"], ["x"], by decide, rfl⟩

theorem ViableFurtherNames.cons (spelling : String) {words : List Token}
    (further : ViableFurtherNames words) :
    ViableFurtherNames (.symbol .comma :: .name spelling :: words) := by
  obtain ⟨continuation, names, plain, same⟩ := further
  refine ⟨continuation, spelling :: names, plain, ?_⟩
  rw [List.flatMap_cons, List.cons_append, List.cons_append, same]
  rfl

namespace Viable

theorem of_words {α : Type} {kind : α → Phrase} {words whole : List Token} (value : α)
    (continuation : List Token) (plain : continuation.all Token.isPlain = true)
    (same : words ++ continuation = whole)
    (derives : ∀ next, next.IsNeutral → Nonempty (Derivation (kind value) whole next)) :
    Viable kind words :=
  ⟨continuation, value, plain, same ▸ derives⟩

/-- What some words can be gone on with, a part of them can be gone on with. -/
theorem front {α : Type} {kind : α → Phrase} {words : List Token} (more : List Token)
    (plain : more.all Token.isPlain = true) (viable : Viable kind (words ++ more)) :
    Viable kind words := by
  obtain ⟨continuation, value, continuationPlain, derives⟩ := viable
  exact .of_words value (more ++ continuation) (by simp [plain, continuationPlain])
    (List.append_assoc _ _ _).symm derives

section

variable {α β : Type} {kind : α → Phrase} {wider : β → Phrase} {words whole : List Token}

/-- A phrase grows around a part that ends where it does. -/
theorem extend (build : α → β) (wrap : List Token → List Token) (viable : Viable kind words)
    (same : ∀ more, whole ++ more = wrap (words ++ more))
    (step : ∀ value more next, next.IsNeutral → Derivation (kind value) (words ++ more) next →
      Derivation (wider (build value)) (wrap (words ++ more)) next) : Viable wider whole := by
  obtain ⟨continuation, value, plain, derives⟩ := viable
  refine .of_words (build value) continuation plain (same continuation) ?_
  intro next neutral
  obtain ⟨derivation⟩ := derives next neutral
  exact ⟨step value continuation next neutral derivation⟩

/-- A phrase grows around a part, with a symbol that closes it. -/
theorem close {closing : Symbol} (build : α → β) (wrap : List Token → List Token)
    (viable : Viable kind words) (noCall : closing ≠ .leftParen)
    (same : ∀ more, whole ++ (more ++ [.symbol closing]) = wrap (words ++ more))
    (step : ∀ value inner next, Derivation (kind value) inner (.symbol closing) →
      Derivation (wider (build value)) (wrap inner) next) : Viable wider whole := by
  obtain ⟨continuation, value, plain, derives⟩ := viable
  obtain ⟨derivation⟩ := derives (.symbol closing) (Symbol.isNeutral noCall)
  exact .of_words (build value) (continuation ++ [.symbol closing]) (by simp [plain])
    (same continuation) fun next _ => ⟨step value _ next derivation⟩

end

variable {words others : List Token} {next found : Token}

theorem of_expression {node : Node} (derivation : Derivation (.expression node) words next) :
    Viable Phrase.expression words :=
  .of_words node [] rfl (List.append_nil _) derivation.outlasts

theorem of_statement {node : Node} (derivation : Derivation (.statement node) words next) :
    Viable Phrase.statement words := by
  obtain ⟨stop, plain, derives⟩ := derivation.outlasts
  exact .of_words node stop plain rfl derives

theorem letValue (target : String) (value : Viable Phrase.expression words) :
    Viable Phrase.statement (.keyword .letKw :: .name target :: .symbol .assign :: words) :=
  value.close (.letE target)
    (fun inner => .keyword .letKw :: .name target :: .symbol .assign :: inner ++
      [.symbol .semicolon])
    (by simp) (by simp) fun _ _ _ => .letE

theorem returnValue (value : Viable Phrase.expression words) :
    Viable Phrase.statement (.keyword .returnKw :: words) :=
  value.close .returnE (fun inner => .keyword .returnKw :: inner ++ [.symbol .semicolon])
    (by simp) (by simp) fun _ _ _ derivation => .returnE derivation .semicolon

theorem expressionValue (value : Viable Phrase.expression words) :
    Viable Phrase.statement words :=
  value.close id (fun inner => inner ++ [.symbol .semicolon]) (by simp) (by simp)
    fun _ _ _ derivation => .expressionE derivation .semicolon

theorem block (statements : Viable Phrase.statements words) :
    Viable Phrase.statement (.symbol .leftBrace :: words) :=
  statements.close .block (fun inner => .symbol .leftBrace :: inner ++ [.symbol .rightBrace])
    (by simp) (by simp) fun _ _ _ => .block

theorem condition (condition : Viable Phrase.expression words) :
    Viable Phrase.statement (.keyword .ifKw :: words) := by
  obtain ⟨continuation, node, plain, derives⟩ := condition
  obtain ⟨derivation⟩ := derives (.int 0) ⟨by simp, by simp⟩
  exact .of_words (.ifThen node (.int 0)) (continuation ++ [.int 0, .symbol .semicolon])
    (by simp [plain]; decide) (by simp)
    fun next neutral => ⟨.ifThen derivation (.zeroStatement next) neutral.noElse⟩

/-- If nothing of the consequence is there yet, it is a matter of the condition alone. -/
theorem consequence {condition : Node}
    (derivation : Derivation (.expression condition) words (others.headD found))
    (consequence : Viable Phrase.statement others) :
    Viable Phrase.statement (.keyword .ifKw :: (words ++ others)) := by
  cases others with
  | nil =>
      rw [List.append_nil]
      exact .condition (.of_expression derivation)
  | cons first later =>
      exact consequence.extend (.ifThen condition) (fun inner => .keyword .ifKw :: words ++ inner)
        (by simp) fun _ _ _ neutral statement => .ifThen derivation statement neutral.noElse

theorem alternative {condition consequence : Node} {conditionWords consequenceWords : List Token}
    (conditionDerived : Derivation (.expression condition) conditionWords
      (consequenceWords.headD (.keyword .elseKw)))
    (consequenceDerived : Derivation (.statement consequence) consequenceWords (.keyword .elseKw))
    (alternative : Viable Phrase.statement words) :
    Viable Phrase.statement
      (.keyword .ifKw :: (conditionWords ++ (consequenceWords ++ .keyword .elseKw :: words))) :=
  alternative.extend (.ifElse condition consequence)
    (fun inner => .keyword .ifKw :: conditionWords ++ consequenceWords ++ .keyword .elseKw :: inner)
    (by simp) fun _ _ _ _ => .ifElse conditionDerived consequenceDerived

theorem noExpression : Viable Phrase.expression [] :=
  .of_words (.int 0) [.int 0] (by decide) rfl fun next _ => ⟨.zero next⟩

theorem noStatements : Viable Phrase.statements [] :=
  .of_words [] [] rfl rfl fun _ _ => ⟨.noStatements⟩

theorem functionBody (names : List String) (body : Viable Phrase.statements words) :
    Viable Phrase.expression (.keyword .fnKw :: .symbol .leftParen :: (nameWords names ++
      .symbol .rightParen :: .symbol .leftBrace :: words)) :=
  body.close (.func names)
    (fun inner => .keyword .fnKw :: .symbol .leftParen :: nameWords names ++
      .symbol .rightParen :: .symbol .leftBrace :: inner ++ [.symbol .rightBrace])
    (by simp) (by simp) fun _ _ _ => .func

theorem functionParameters (names : ViableNames words) :
    Viable Phrase.expression (.keyword .fnKw :: .symbol .leftParen :: words) := by
  obtain ⟨continuation, names, plain, same⟩ := names
  have longer := functionBody names noStatements
  rw [← same] at longer
  apply front (continuation ++ [.symbol .rightParen, .symbol .leftBrace]) (by simp [plain])
  simpa using longer

theorem comparison (operand : Viable (Phrase.operand 1) words) : Viable Phrase.expression words :=
  operand.extend id id (fun _ => rfl) fun _ _ _ _ => .comparison

theorem tighter {level : Nat} (chained : level < Parse.primaryLevel)
    (operand : Viable (Phrase.operand (level + 1)) words) : Viable (Phrase.operand level) words :=
  operand.extend id id (fun _ => rfl) fun _ _ _ _ => .tighter chained

theorem right {op : BinaryOp} {left : Node}
    (derivation : Derivation (.operand op.precedence left) others (.symbol op.symbol))
    (right : Viable (Phrase.operand (op.precedence + 1)) words) :
    Viable (Phrase.operand op.precedence) (others ++ .symbol op.symbol :: words) :=
  right.extend (.binary op left) (fun inner => others ++ .symbol op.symbol :: inner) (by simp)
    fun _ _ _ _ => .binary derivation

theorem noOperand : Viable (Phrase.operand Parse.primaryLevel) [] :=
  .of_words (.int 0) [.int 0] (by decide) rfl fun _ _ => ⟨.int⟩

theorem paren (inner : Viable Phrase.expression words) :
    Viable (Phrase.operand Parse.primaryLevel) (.symbol .leftParen :: words) :=
  inner.close id (fun inner => .symbol .leftParen :: inner ++ [.symbol .rightParen])
    (by simp) (by simp) fun _ _ _ => .paren

theorem call (callee : String) (arguments : Viable Phrase.arguments words) :
    Viable (Phrase.operand Parse.primaryLevel) (.name callee :: .symbol .leftParen :: words) :=
  arguments.close (.call callee)
    (fun inner => .name callee :: .symbol .leftParen :: inner ++ [.symbol .rightParen])
    (by simp) (by simp) fun _ _ _ => .call

theorem firstStatement (first : Viable Phrase.statement words) : Viable Phrase.statements words :=
  first.extend ([·]) (· ++ []) (by simp) fun _ _ _ _ statement =>
    .someStatements statement .noStatements

theorem laterStatements {first : Node}
    (derivation : Derivation (.statement first) words (others.headD found))
    (later : Viable Phrase.statements others) : Viable Phrase.statements (words ++ others) := by
  cases others with
  | nil =>
      rw [List.append_nil]
      exact .firstStatement (.of_statement derivation)
  | cons second further =>
      exact later.extend (first :: ·) (words ++ ·) (by simp)
        fun _ _ _ _ => .someStatements derivation

theorem firstArgument (first : Viable Phrase.expression words) : Viable Phrase.arguments words :=
  first.extend ([·]) (· ++ []) (by simp) fun _ _ _ _ argument =>
    .someArguments argument .lastArgument

theorem laterArguments {first : Node}
    (derivation : Derivation (.expression first) words (others.headD found))
    (later : Viable Phrase.moreArguments others) : Viable Phrase.arguments (words ++ others) := by
  cases others with
  | nil =>
      rw [List.append_nil]
      exact .firstArgument (.of_expression derivation)
  | cons comma further =>
      exact later.extend (first :: ·) (words ++ ·) (by simp)
        fun _ _ _ _ => .someArguments derivation

theorem lastArgument : Viable Phrase.moreArguments [] :=
  .of_words [] [] rfl rfl fun _ _ => ⟨.lastArgument⟩

theorem nextArgument (argument : Viable Phrase.expression words) :
    Viable Phrase.moreArguments (.symbol .comma :: words) :=
  argument.extend ([·]) (fun inner => .symbol .comma :: inner ++ []) (by simp)
    fun _ _ _ _ derivation => .nextArgument derivation .lastArgument

theorem furtherArguments {first : Node}
    (derivation : Derivation (.expression first) words (others.headD found))
    (later : Viable Phrase.moreArguments others) :
    Viable Phrase.moreArguments (.symbol .comma :: (words ++ others)) := by
  cases others with
  | nil =>
      rw [List.append_nil]
      exact .nextArgument (.of_expression derivation)
  | cons comma further =>
      exact later.extend (first :: ·) (fun inner => .symbol .comma :: words ++ inner) (by simp)
        fun _ _ _ _ => .nextArgument derivation

end Viable

end TinyScript
