import TinyScript.Proofs.RoundTrip

/-!
# The yield of a tree

The tokens that a tree is made of, from left to right, are all that derives it, but for what only
groups: parentheses and semicolons. The text that a parsed program is printed as derives it again, so
nothing else is lost on the way to the tree and back, and nothing changes its place.
-/

set_option autoImplicit false

namespace TinyScript

namespace Token

def isGrouping : Token → Bool
  | .symbol .leftParen | .symbol .rightParen | .symbol .semicolon => true
  | _ => false

@[simp] theorem isGrouping_operator (op : BinaryOp) : isGrouping (.symbol op.symbol) = false := by
  cases op <;> rfl

/-- Tokens without those that only group. -/
def ungrouped (tokens : List Token) : List Token :=
  tokens.filter fun token => !token.isGrouping

@[simp] theorem ungrouped_nil : ungrouped [] = [] :=
  rfl

@[simp] theorem ungrouped_cons (token : Token) (later : List Token) :
    ungrouped (token :: later) =
      if token.isGrouping then ungrouped later else token :: ungrouped later := by
  cases groups : token.isGrouping <;> simp [ungrouped, groups]

@[simp] theorem ungrouped_append (earlier later : List Token) :
    ungrouped (earlier ++ later) = ungrouped earlier ++ ungrouped later :=
  List.filter_append earlier later

@[simp] theorem ungrouped_nameWords (names : List String) :
    ungrouped (nameWords names) = nameWords names := by
  refine List.filter_eq_self.mpr fun word among => ?_
  rcases mem_nameWords among with ⟨_, _, rfl⟩ | rfl <;> rfl

end Token

namespace Node

mutual

/-- The tokens that a tree is made of, in order. Data of other shapes are made of none. -/
def yield : Node → List Token
  | .int value => [.int value]
  | .bool value => [.keyword (if value then .trueKw else .falseKw)]
  | .name spelling => [.name spelling]
  | .binary op left right => yield left ++ .symbol op.symbol :: yield right
  | .letE target value => .keyword .letKw :: .name target :: .symbol .assign :: yield value
  | .returnE value => .keyword .returnKw :: yield value
  | .block statements => .symbol .leftBrace :: yieldAll statements ++ [.symbol .rightBrace]
  | .ifThen condition consequence => .keyword .ifKw :: yield condition ++ yield consequence
  | .ifElse condition consequence alternative =>
      .keyword .ifKw :: yield condition ++ yield consequence ++ .keyword .elseKw :: yield alternative
  | .call callee arguments => .name callee :: yieldArguments arguments
  | .func parameters body =>
      .keyword .fnKw :: nameWords parameters ++ .symbol .leftBrace :: yieldAll body ++
        [.symbol .rightBrace]
  | .strayLet .. | .strayCall .. | .strayFunc .. | .shownAs .. | .stray _ => []

def yieldAll : List Node → List Token
  | [] => []
  | first :: later => yield first ++ yieldAll later

def yieldArguments : List Node → List Token
  | [] => []
  | first :: later => yield first ++ yieldMore later

/-- The tokens of several arguments, with a comma in front of each. -/
def yieldMore : List Node → List Token
  | [] => []
  | first :: later => .symbol .comma :: yield first ++ yieldMore later

end

end Node

/-- The tokens that a phrase is made of. -/
def Phrase.yield : Phrase → List Token
  | .statements nodes => Node.yieldAll nodes
  | .statement node | .expression node | .operand _ node => node.yield
  | .arguments nodes => Node.yieldArguments nodes
  | .moreArguments nodes => Node.yieldMore nodes

theorem StatementEnd.ungrouped {before next : Token} {stop : List Token}
    (ends : StatementEnd before stop next) : Token.ungrouped stop = [] := by
  cases ends <;> rfl

/-- The words of a phrase are what it is made of, and what groups this. -/
theorem Derivation.ungrouped {phrase : Phrase} {words : List Token} {next : Token}
    (derivation : Derivation phrase words next) (scanned : ∀ word ∈ words, word.isScanned = true) :
    Token.ungrouped words = phrase.yield := by
  induction derivation with
  | noStatements | noArguments | lastArgument | int | bool | name => rfl
  | @givenBool value =>
      have given : (Token.bool value).isScanned = true := scanned _ (.head _)
      cases given
  | someStatements _ _ firstIH laterIH | someArguments _ _ firstIH laterIH =>
      obtain ⟨firstScanned, laterScanned⟩ := List.forall_mem_append.mp scanned
      rw [Token.ungrouped_append, firstIH firstScanned, laterIH laterScanned]
      rfl
  | nextArgument _ _ firstIH laterIH =>
      simp only [List.cons_append, List.forall_mem_cons, List.forall_mem_append] at scanned
      simp [firstIH scanned.2.1, laterIH scanned.2.2, Token.isGrouping, Phrase.yield,
        Node.yieldMore]
  | letE _ ih =>
      simp only [List.cons_append, List.forall_mem_cons, List.forall_mem_append] at scanned
      simp [ih scanned.2.2.2.1, Token.isGrouping, Phrase.yield, Node.yield]
  | returnE _ ends ih =>
      simp only [List.cons_append, List.forall_mem_cons, List.forall_mem_append] at scanned
      simp [ih scanned.2.1, ends.ungrouped, Token.isGrouping, Phrase.yield, Node.yield]
  | expressionE _ ends ih =>
      simp [ih (List.forall_mem_append.mp scanned).1, ends.ungrouped, Phrase.yield]
  | block _ ih | paren _ ih =>
      simp only [List.cons_append, List.forall_mem_cons, List.forall_mem_append] at scanned
      simp [ih scanned.2.1, Token.isGrouping, Phrase.yield, Node.yield]
  | call _ ih =>
      simp only [List.cons_append, List.forall_mem_cons, List.forall_mem_append] at scanned
      simp [ih scanned.2.2.1, Token.isGrouping, Phrase.yield, Node.yield]
  | ifThen _ _ _ conditionIH consequenceIH =>
      simp only [List.cons_append, List.forall_mem_cons, List.forall_mem_append] at scanned
      obtain ⟨_, conditionScanned, consequenceScanned⟩ := scanned
      simp [conditionIH conditionScanned, consequenceIH consequenceScanned, Token.isGrouping,
        Phrase.yield, Node.yield]
  | ifElse _ _ _ conditionIH consequenceIH alternativeIH =>
      simp only [List.cons_append, List.forall_mem_cons, List.forall_mem_append] at scanned
      obtain ⟨_, ⟨conditionScanned, consequenceScanned⟩, _, alternativeScanned⟩ := scanned
      simp [conditionIH conditionScanned, consequenceIH consequenceScanned,
        alternativeIH alternativeScanned, Token.isGrouping, Phrase.yield, Node.yield]
  | func _ ih =>
      simp only [List.cons_append, List.forall_mem_cons, List.forall_mem_append] at scanned
      obtain ⟨_, _, ⟨_, _, _, bodyScanned⟩, _⟩ := scanned
      simp [ih bodyScanned, Token.isGrouping, Phrase.yield, Node.yield]
  | comparison _ ih | tighter _ _ ih => exact ih scanned
  | binary _ _ leftIH rightIH =>
      simp only [List.forall_mem_cons, List.forall_mem_append] at scanned
      obtain ⟨leftScanned, _, rightScanned⟩ := scanned
      simp [leftIH leftScanned, rightIH rightScanned, Phrase.yield, Node.yield]

namespace Program

/-- What a source text is scanned as is what its program is made of, and what groups this. -/
theorem ungrouped_of_scan {source : String} {tokens : List Token} {program : Program}
    (scanned : Token.scan source = .ok tokens) (parsed : ofTokens tokens = .ok program) :
    Token.ungrouped tokens = Node.yieldAll program ++ [.endMark] := by
  obtain ⟨words, rfl, fromText⟩ := Token.scan_shape scanned
  obtain ⟨derivation⟩ := (ofTokens_eq_ok_iff (endMark_not_mem_of_isScanned fromText)).mp parsed
  rw [Token.ungrouped_append, derivation.ungrouped fromText]
  rfl

/-- A program that was parsed is printed as a text with the same tokens in the same order, except
for those that only group. -/
theorem source_keeps_tokens {source : String} {tokens : List Token} {program : Program}
    (scanned : Token.scan source = .ok tokens) (parsed : ofTokens tokens = .ok program) :
    ∃ text printed, program.source = .ok text ∧ Token.scan text = .ok printed ∧
      Token.ungrouped printed = Token.ungrouped tokens := by
  have parsedText : ofSource source = .ok program := by
    rw [ofSource_of_scan scanned, parsed]
  obtain ⟨text, spelled, reparsed⟩ :=
    source_of_areWellFormed (areWellFormed_of_ofSource parsedText)
  obtain ⟨printed, printedScanned⟩ := scan_of_ofSource reparsed
  rw [ofSource_of_scan printedScanned] at reparsed
  refine ⟨text, printed, spelled, printedScanned, ?_⟩
  rw [ungrouped_of_scan printedScanned reparsed, ungrouped_of_scan scanned parsed]

/-- Parentheses that say nothing are dropped, and semicolons that are missing are added. -/
theorem source_keeps_tokens_regrouped :
    ∃ text printed, source [.ifThen (.binary .less (.name "a") (.int 1))
        (.block [.call "f" [.name "a", .binary .mul (.int 2) (.int 3)]])] = .ok text ∧
      Token.scan text = .ok printed ∧
      Token.ungrouped printed = [.keyword .ifKw, .name "a", .symbol .less, .int 1,
        .symbol .leftBrace, .name "f", .name "a", .symbol .comma, .int 2, .symbol .star, .int 3,
        .symbol .rightBrace, .endMark] := by
  have scanned : Token.scan "if a < (1) \x7b f((a), (2 * 3)) \x7d" =
      .ok [.keyword .ifKw, .name "a", .symbol .less, .symbol .leftParen, .int 1,
        .symbol .rightParen, .symbol .leftBrace, .name "f", .symbol .leftParen, .symbol .leftParen,
        .name "a", .symbol .rightParen, .symbol .comma, .symbol .leftParen, .int 2, .symbol .star,
        .int 3, .symbol .rightParen, .symbol .rightParen, .symbol .rightBrace, .endMark] := by
    cbv
  have parsed : ofSource "if a < (1) \x7b f((a), (2 * 3)) \x7d" =
      .ok [.ifThen (.binary .less (.name "a") (.int 1))
        (.block [.call "f" [.name "a", .binary .mul (.int 2) (.int 3)]])] := by
    set_option maxRecDepth 10000 in
    cbv
  rw [ofSource_of_scan scanned] at parsed
  exact source_keeps_tokens scanned parsed

end Program

end TinyScript
