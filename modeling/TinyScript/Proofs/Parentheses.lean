import TinyScript.Proofs.Concatenation
import TinyScript.Proofs.Occurrences
import TinyScript.Proofs.Sessions
import TinyScript.Proofs.Yield

/-!
# Parentheses of operands

The text that a tree is printed as has no more parentheses right beside its operators than any other text
of this tree. Every operand that is printed in parentheses has one of them beside its operator, so a text
without these is none of the same tree.
-/

set_option autoImplicit false

namespace TinyScript

namespace Token

def isOperator (token : Token) : Bool :=
  token.operator?.isSome

/-- Whether an operator is the last of the tokens but for those that only group. If there is none but
these, it depends on whether the tokens are right behind one. -/
def endsBehind (behind : Bool) : List Token → Bool
  | [] => behind
  | first :: later => endsBehind (if first.isGrouping then behind else first.isOperator) later

/-- The number of opening parentheses with an operator in front of them, and nothing that does more than
group between. -/
def opened (behind : Bool) : List Token → Nat
  | [] => 0
  | first :: later =>
      (if first = .symbol .leftParen then behind.toNat else 0) +
        opened (if first.isGrouping then behind else first.isOperator) later

def mirrored : Token → Token
  | .symbol .leftParen => .symbol .rightParen
  | .symbol .rightParen => .symbol .leftParen
  | other => other

/-- The tokens from right to left, as they look in a mirror. -/
def mirror (tokens : List Token) : List Token :=
  (tokens.map mirrored).reverse

/-- The number of parentheses that stand beside operators, on the side of the operand. -/
def besideOperators (tokens : List Token) : Nat :=
  opened false tokens + opened false (mirror tokens)

@[simp] theorem isOperator_symbol (op : BinaryOp) : isOperator (.symbol op.symbol) = true := by
  cases op <;> rfl

@[simp] theorem mirrored_operator (op : BinaryOp) :
    mirrored (.symbol op.symbol) = .symbol op.symbol := by
  cases op <;> rfl

theorem isGrouping_mirrored (token : Token) : token.mirrored.isGrouping = token.isGrouping := by
  cases token with
  | symbol mark => cases mark <;> rfl
  | _ => rfl

@[simp] theorem mirror_nil : mirror [] = [] :=
  rfl

@[simp] theorem mirror_append (earlier later : List Token) :
    mirror (earlier ++ later) = mirror later ++ mirror earlier := by
  simp [mirror]

@[simp] theorem mirror_cons (first : Token) (later : List Token) :
    mirror (first :: later) = mirror later ++ [first.mirrored] := by
  simp [mirror]

@[simp] theorem endsBehind_append (behind : Bool) (earlier later : List Token) :
    endsBehind behind (earlier ++ later) = endsBehind (endsBehind behind earlier) later := by
  induction earlier generalizing behind with
  | nil => rfl
  | cons first earlier ih => exact ih _

@[simp] theorem opened_append (behind : Bool) (earlier later : List Token) :
    opened behind (earlier ++ later) =
      opened behind earlier + opened (endsBehind behind earlier) later := by
  induction earlier generalizing behind with
  | nil => simp [opened, endsBehind]
  | cons first earlier ih => simp [opened, endsBehind, ih, Nat.add_assoc]

/-- Parentheses count beside an operator that they are right behind, and beside one right behind them. -/
theorem besideOperators_parens (before inner after : List Token) :
    besideOperators (before ++ .symbol .leftParen :: inner ++ .symbol .rightParen :: after) =
      besideOperators (before ++ inner ++ after) + (endsBehind false before).toNat +
        (endsBehind false (mirror after)).toNat := by
  simp [besideOperators, opened, isGrouping, mirrored]
  omega

/-- Whatever stands in front of them, tokens open no more parentheses behind operators than others do,
and leave the same in front of what comes next. -/
structure Sparser (tokens others : List Token) : Prop where
  opened_le (behind : Bool) : opened behind tokens ≤ opened behind others
  ends (behind : Bool) : endsBehind behind tokens = endsBehind behind others

/-- Tokens that are sparser than others from either side. -/
structure Leaner (tokens others : List Token) : Prop where
  forward : Sparser tokens others
  backward : Sparser (mirror tokens) (mirror others)

theorem Sparser.refl (tokens : List Token) : Sparser tokens tokens :=
  ⟨fun _ => Nat.le_refl _, fun _ => rfl⟩

theorem Sparser.of_none {tokens others : List Token} (none : ∀ behind, opened behind tokens = 0)
    (ends : ∀ behind, endsBehind behind tokens = endsBehind behind others) : Sparser tokens others :=
  ⟨fun behind => (none behind).le.trans (Nat.zero_le _), ends⟩

theorem Sparser.trans {tokens others more : List Token} (first : Sparser tokens others)
    (second : Sparser others more) : Sparser tokens more :=
  ⟨fun behind => Nat.le_trans (first.opened_le behind) (second.opened_le behind),
    fun behind => (first.ends behind).trans (second.ends behind)⟩

theorem Sparser.append {earlier later others more : List Token} (first : Sparser earlier others)
    (second : Sparser later more) : Sparser (earlier ++ later) (others ++ more) := by
  constructor
  · intro behind
    rw [opened_append, opened_append, first.ends]
    exact Nat.add_le_add (first.opened_le behind) (second.opened_le _)
  · intro behind
    rw [endsBehind_append, endsBehind_append, first.ends, second.ends]

namespace Leaner

variable {tokens others earlier later more : List Token}

theorem refl (tokens : List Token) : Leaner tokens tokens :=
  ⟨.refl tokens, .refl _⟩

theorem trans (first : Leaner tokens others) (second : Leaner others more) : Leaner tokens more :=
  ⟨first.forward.trans second.forward, first.backward.trans second.backward⟩

theorem append (first : Leaner earlier others) (second : Leaner later more) :
    Leaner (earlier ++ later) (others ++ more) where
  forward := first.forward.append second.forward
  backward := by
    rw [mirror_append, mirror_append]
    exact second.backward.append first.backward

theorem around (inner : Leaner tokens others) (before after : List Token) :
    Leaner (before ++ tokens ++ after) (before ++ others ++ after) :=
  ((refl before).append inner).append (refl after)

theorem besideOperators_le (leaner : Leaner tokens others) :
    besideOperators tokens ≤ besideOperators others :=
  Nat.add_le_add (leaner.forward.opened_le false) (leaner.backward.opened_le false)

theorem of_grouping {token : Token} (groups : token.isGrouping = true) : Leaner [] [token] := by
  constructor
  · exact .of_none (fun _ => rfl) fun _ => by simp [endsBehind, groups]
  · exact .of_none (fun _ => rfl) fun _ => by simp [endsBehind, isGrouping_mirrored, groups]

/-- Parentheses around tokens are no fewer. -/
theorem parens (inner : Leaner tokens others) :
    Leaner tokens (.symbol .leftParen :: others ++ [.symbol .rightParen]) := by
  have opening : Leaner [] [.symbol .leftParen] := of_grouping rfl
  have closing : Leaner [] [.symbol .rightParen] := of_grouping rfl
  have whole := (opening.append inner).append closing
  rwa [List.nil_append, List.append_nil] at whole

/-- The parentheses of a condition count nowhere, since no consequence begins with an operator. -/
theorem condition {conditionWords consequenceWords : List Token}
    (condition : Leaner tokens conditionWords) (consequence : Leaner later consequenceWords)
    (noOperator : ∀ behind, endsBehind behind (mirror consequenceWords) = false) :
    Leaner (.keyword .ifKw :: .symbol .leftParen :: tokens ++ .symbol .rightParen :: later)
      (.keyword .ifKw :: conditionWords ++ consequenceWords) := by
  have opening : Sparser [.keyword .ifKw, .symbol .leftParen] [.keyword .ifKw] :=
    .of_none (fun _ => rfl) fun _ => rfl
  have closing : Sparser [.symbol .rightParen] [] := .of_none (fun _ => rfl) fun _ => rfl
  have mirroredOpening : Sparser [.symbol .rightParen, .keyword .ifKw] [.keyword .ifKw] :=
    .of_none (fun _ => rfl) fun _ => rfl
  have mirroredClosing : Sparser (mirror later ++ [.symbol .leftParen]) (mirror consequenceWords) := by
    have behindNone (behind : Bool) : endsBehind behind (mirror later) = false :=
      (consequence.backward.ends behind).trans (noOperator behind)
    constructor
    · intro behind
      rw [opened_append, behindNone]
      exact consequence.backward.opened_le behind
    · intro behind
      rw [endsBehind_append, ← consequence.backward.ends]
      rfl
  constructor
  · simpa using ((opening.append condition.forward).append closing).append consequence.forward
  · simpa [mirrored] using (mirroredClosing.append condition.backward).append mirroredOpening

end Leaner

end Token

namespace Node

/-- A tree is printed as the same words wherever it goes, in parentheses where a place asks for more
tightness than these have. -/
structure HasCore (node : Node) (strength : Nat) (core : List Token) : Prop where
  statement : node.spell .statement = .ok (core ++ [.symbol .semicolon])
  operand (level : Nat) : level ≤ Parse.primaryLevel →
    node.spell (.operand level) = .ok ((Place.operand level).compound strength core)

theorem HasCore.of_atom {node : Node} {core : List Token}
    (spells : ∀ place : Place, node.spell place = .ok (place.atom core)) :
    node.HasCore Parse.primaryLevel core := by
  refine ⟨spells .statement, fun level bounded => ?_⟩
  rw [spells, Place.atom_operand bounded]

theorem HasCore.of_compound {node : Node} {strength : Nat} {core : List Token}
    (spells : ∀ place : Place, node.spell place = .ok (place.compound strength core)) :
    node.HasCore strength core :=
  ⟨spells .statement, fun level _ => spells (.operand level)⟩

end Node

namespace Place

/-- The more tightness a place asks for, the more parentheses it takes. -/
theorem compound_leaner {low high : Nat} (below : low ≤ high) (strength : Nat) (core : List Token) :
    Token.Leaner ((operand low).compound strength core) ((operand high).compound strength core) := by
  by_cases loose : strength < low
  · simp only [compound, if_pos loose, if_pos (Nat.lt_of_lt_of_le loose below)]
    exact .refl _
  · simp only [compound, if_neg loose]
    split
    · exact (Token.Leaner.refl core).parens
    · exact .refl core

/-- No place takes more parentheses than one pair. -/
theorem compound_leaner_parens (level strength : Nat) (core : List Token) :
    Token.Leaner ((operand level).compound strength core)
      (.symbol .leftParen :: (operand 0).compound strength core ++ [.symbol .rightParen]) := by
  simp only [compound, Nat.not_lt_zero, if_false]
  split
  · exact .refl _
  · exact (Token.Leaner.refl core).parens

end Place

/-- The words of an expression or a statement do not begin with an operator, parentheses aside. -/
def Phrase.NoOperatorFirst (words : List Token) : Phrase → Prop
  | .statement _ | .expression _ | .operand _ _ =>
      ∀ behind, Token.endsBehind behind (Token.mirror words) = false
  | _ => True

/-- An expression that can be printed is printed as some core. -/
def Phrase.HasCore : Phrase → Prop
  | .expression node | .operand _ node =>
      ∀ place words, node.spell place = .ok words → ∃ strength core, node.HasCore strength core
  | _ => True

theorem Token.endsBehind_mirror_cons {first : Token} (solid : first.isGrouping = false)
    (later : List Token) (behind : Bool) :
    endsBehind behind (mirror (first :: later)) = first.mirrored.isOperator := by
  simp [endsBehind, isGrouping_mirrored, solid]

theorem StatementEnd.leaner {before next : Token} {stop : List Token}
    (ends : StatementEnd before stop next) : Token.Leaner [.symbol .semicolon] stop := by
  cases ends with
  | semicolon => exact .refl _
  | omitted => exact ⟨.of_none (fun _ => rfl) fun _ => rfl, .of_none (fun _ => rfl) fun _ => rfl⟩

namespace Derivation

variable {phrase : Phrase} {words printed : List Token} {next : Token}

theorem noOperatorFirst (derivation : Derivation phrase words next) :
    phrase.NoOperatorFirst words := by
  induction derivation with
  | noStatements | someStatements | noArguments | someArguments | lastArgument | nextArgument =>
      trivial
  | letE | returnE | block | ifThen | ifElse | func => exact Token.endsBehind_mirror_cons rfl _
  | int | bool | givenBool | name | call => exact Token.endsBehind_mirror_cons rfl _
  | comparison _ ih | tighter _ _ ih => exact ih
  | expressionE _ _ ih | binary _ _ ih _ =>
      intro behind
      rw [Token.mirror_append, Token.endsBehind_append]
      exact ih _
  | paren _ ih =>
      intro behind
      rw [List.cons_append, Token.mirror_cons, Token.mirror_append, Token.endsBehind_append,
        Token.endsBehind_append]
      exact ih _

theorem hasCore (derivation : Derivation phrase words next) : phrase.HasCore := by
  induction derivation with
  | comparison _ ih | tighter _ _ ih | paren _ ih => exact ih
  | @func parameters body =>
      intro _ _ spelled
      obtain ⟨inner, innerSpelled, _⟩ := Node.spell_func_eq_ok spelled
      have spells (place : Place) : (Node.func parameters body).spell place =
          .ok (place.compound 0 (.keyword .fnKw :: .symbol .leftParen :: spellNames parameters ++
            .symbol .rightParen :: .symbol .leftBrace :: inner ++ [.symbol .rightBrace])) := by
        rw [Node.spell, innerSpelled]
        rfl
      exact ⟨_, _, .of_compound spells⟩
  | @binary op left right =>
      intro _ _ spelled
      obtain ⟨leftWords, rightWords, leftSpelled, rightSpelled, _⟩ := Node.spell_binary_eq_ok spelled
      have spells (place : Place) : (Node.binary op left right).spell place =
          .ok (place.compound op.precedence (leftWords ++ .symbol op.symbol :: rightWords)) := by
        rw [Node.spell, leftSpelled, rightSpelled]
        rfl
      exact ⟨_, _, .of_compound spells⟩
  | @int value =>
      intro _ _ spelled
      rw [Node.spell] at spelled
      split at spelled
      · cases spelled
      · next nonnegative => exact ⟨_, _, .of_atom fun _ => if_neg nonnegative⟩
  | bool | givenBool | name => exact fun _ _ _ => ⟨_, _, .of_atom fun _ => rfl⟩
  | @call callee arguments =>
      intro _ _ spelled
      obtain ⟨inner, innerSpelled, _⟩ := Node.spell_call_eq_ok spelled
      have spells (place : Place) : (Node.call callee arguments).spell place =
          .ok (place.atom (.name callee :: .symbol .leftParen :: inner ++
            [.symbol .rightParen])) := by
        rw [Node.spell, innerSpelled]
        rfl
      exact ⟨_, _, .of_atom spells⟩
  | _ => trivial

/-- Whatever derives a phrase has at least the parentheses beside operators that it is printed with. -/
theorem leaner (derivation : Derivation phrase words next) (spelled : phrase.spell = .ok printed) :
    Token.Leaner printed words := by
  induction derivation generalizing printed with
  | noStatements | noArguments | lastArgument =>
      cases spelled
      exact .refl []
  | someStatements _ _ firstIH laterIH =>
      obtain ⟨_, _, firstSpelled, laterSpelled, rfl⟩ := Node.spellAll_cons_eq_ok spelled
      exact (firstIH firstSpelled).append (laterIH laterSpelled)
  | someArguments _ _ firstIH laterIH =>
      obtain ⟨_, _, firstSpelled, laterSpelled, rfl⟩ := Node.spellArguments_cons_eq_ok spelled
      exact (firstIH firstSpelled).append (laterIH laterSpelled)
  | nextArgument _ _ firstIH laterIH =>
      obtain ⟨_, _, firstSpelled, laterSpelled, rfl⟩ := Node.spellMore_cons_eq_ok spelled
      exact ((Token.Leaner.refl [.symbol .comma]).append (firstIH firstSpelled)).append
        (laterIH laterSpelled)
  | @letE target _ _ _ _ ih =>
      obtain ⟨_, valueSpelled, rfl⟩ := Node.spell_letE_eq_ok spelled
      exact (ih valueSpelled).around [.keyword .letKw, .name target, .symbol .assign] _
  | returnE _ ends ih =>
      obtain ⟨_, valueSpelled, rfl⟩ := Node.spell_returnE_eq_ok spelled
      exact ((Token.Leaner.refl [.keyword .returnKw]).append (ih valueSpelled)).append ends.leaner
  | expressionE value ends ih =>
      obtain ⟨_, core, asCore⟩ := value.hasCore _ _ spelled
      cases spelled.symm.trans asCore.statement
      exact (ih (asCore.operand 0 (Nat.zero_le _))).append ends.leaner
  | block _ ih =>
      obtain ⟨_, innerSpelled, rfl⟩ := Node.spell_block_eq_ok spelled
      exact (ih innerSpelled).around [.symbol .leftBrace] _
  | ifThen _ consequence _ conditionIH consequenceIH =>
      obtain ⟨_, _, conditionSpelled, consequenceSpelled, rfl⟩ := Node.spell_ifThen_eq_ok spelled
      exact (conditionIH conditionSpelled).condition (consequenceIH consequenceSpelled)
        consequence.noOperatorFirst
  | ifElse _ consequence _ conditionIH consequenceIH alternativeIH =>
      obtain ⟨_, _, _, conditionSpelled, consequenceSpelled, alternativeSpelled, rfl⟩ :=
        Node.spell_ifElse_eq_ok spelled
      have front := (conditionIH conditionSpelled).condition (consequenceIH consequenceSpelled)
        consequence.noOperatorFirst
      have back := (Token.Leaner.refl [.keyword .elseKw]).append (alternativeIH alternativeSpelled)
      simpa using front.append back
  | @func parameters _ _ _ _ ih =>
      obtain ⟨_, innerSpelled, rfl⟩ := Node.spell_func_eq_ok spelled
      have around := (ih innerSpelled).around (.keyword .fnKw :: .symbol .leftParen ::
        nameWords parameters ++ [.symbol .rightParen, .symbol .leftBrace]) [.symbol .rightBrace]
      rw [Node.spellNames_eq_nameWords]
      simpa [Place.compound] using around
  | comparison operand ih =>
      -- The place of the expression asks for less than the one that it is derived for.
      obtain ⟨_, core, asCore⟩ := operand.hasCore _ _ spelled
      cases spelled.symm.trans (asCore.operand 0 (Nat.zero_le _))
      exact (Place.compound_leaner (Nat.zero_le 1) _ core).trans
        (ih (asCore.operand 1 (by decide)))
  | @tighter level _ _ _ chained operand ih =>
      obtain ⟨_, core, asCore⟩ := operand.hasCore _ _ spelled
      cases spelled.symm.trans (asCore.operand level (Nat.le_of_lt chained))
      exact (Place.compound_leaner (Nat.le_succ level) _ core).trans
        (ih (asCore.operand (level + 1) chained))
  | binary _ _ leftIH rightIH =>
      obtain ⟨_, _, leftSpelled, rightSpelled, rfl⟩ := Node.spell_binary_eq_ok spelled
      simp only [Place.compound, Nat.lt_irrefl, if_false]
      exact (leftIH leftSpelled).append ((Token.Leaner.refl [_]).append (rightIH rightSpelled))
  | int =>
      rw [Phrase.spell, Node.spell] at spelled
      split at spelled <;> cases spelled
      exact .refl _
  | bool | name =>
      cases spelled
      exact .refl _
  | givenBool =>
      cases spelled
      exact ⟨.of_none (fun _ => rfl) fun _ => rfl, .of_none (fun _ => rfl) fun _ => rfl⟩
  | @call callee _ _ _ _ ih =>
      obtain ⟨_, innerSpelled, rfl⟩ := Node.spell_call_eq_ok spelled
      exact (ih innerSpelled).around [.name callee, .symbol .leftParen] _
  | paren inner ih =>
      obtain ⟨_, core, asCore⟩ := inner.hasCore _ _ spelled
      cases spelled.symm.trans (asCore.operand _ (Nat.le_refl _))
      exact (Place.compound_leaner_parens _ _ core).trans
        ((ih (asCore.operand 0 (Nat.zero_le _))).around [.symbol .leftParen] _)

end Derivation

namespace Token

/-- What the layout puts between tokens and others behind them. -/
def between (earlier later : List Token) : List Char :=
  match earlier.getLast? with
  | none => []
  | some last => last.gap later

theorem layout_append (earlier later : List Token) :
    layout (earlier ++ later) = layout earlier ++ (between earlier later ++ layout later) := by
  induction earlier with
  | nil => rfl
  | cons first more ih =>
      cases more with
      | nil => simp [layout_cons first later, layout, between]
      | cons second further =>
          have last : between (first :: second :: further) later = between (second :: further) later := by
            simp only [between, List.getLast?_cons_cons]
          rw [List.cons_append, layout_cons, layout_cons first, ih, last]
          simp [gap]

/-- What is laid out in front of a parenthesis that is set off gives its tokens whatever else follows. -/
theorem mapM_split_before {before tokens : List Token} {text : List Char}
    (plain : before.all isPlain = true) (off : SetOff before)
    (given : (Lexeme.split text).mapM ofLexeme = .ok tokens) :
    (Lexeme.split (layout before ++ between before [.symbol .leftParen] ++ text)).mapM ofLexeme =
      .ok (before ++ tokens) := by
  have laidOut := mapM_split_layout plain
  rw [List.append_assoc]
  refine mapM_split_append laidOut ?_ fun lexeme ends => ?_
  · unfold between
    split
    · exact given
    · rwa [split_gap]
  · obtain ⟨last, among, gives⟩ := getLast?_of_mapM laidOut ends.getLast?_split
    have spaced : between before [.symbol .leftParen] = last.gap [.symbol .leftParen] := by
      rw [between, among]
    rw [spaced, gap]
    split
    · next together =>
        -- Nothing but another parenthesis is in front, and this is a lexeme by itself.
        cases off last among together
        cases eq_symbol_of_ofLexeme gives
        exact fun _ _ => rfl
    · intro character front
      cases front
      exact goesOn_separator lexeme (by simp)

end Token

namespace Token

theorem between_cons (earlier : List Token) (first : Token) (later : List Token) :
    between earlier (first :: later) = between earlier [first] :=
  rfl

theorem between_rightParen (earlier later : List Token) :
    between earlier (.symbol .rightParen :: later) = [] := by
  unfold between
  split
  · rfl
  · next last _ =>
      have together : joined last (.symbol .rightParen) = true := by
        cases last with
        | symbol mark => cases mark <;> rfl
        | _ => rfl
      rw [gap, if_pos together]

/-- No blank stands inside of parentheses at either end. -/
theorem layout_parens (before inner after : List Token) :
    layout (before ++ (.symbol .leftParen :: inner ++ [.symbol .rightParen]) ++ after) =
      layout before ++ between before [.symbol .leftParen] ++ '(' :: layout inner ++
        ')' :: ((symbol .rightParen).gap after ++ layout after) := by
  have inside (later : List Token) : (symbol .leftParen).gap later = [] := by
    cases later <;> rfl
  have opening : (symbol .leftParen).text.toList = ['('] := rfl
  have closing : (symbol .rightParen).text.toList = [')'] := rfl
  simp only [List.append_assoc, List.cons_append, List.nil_append, layout_append, layout_cons, inside,
    between_cons before (.symbol .leftParen), between_rightParen, opening, closing]

end Token

/-- The words of a statement without the parentheses of an operand do not derive it. -/
theorem Phrase.Contains.isEmpty_derivation {statement operand : Node} {precedence : Nat}
    {before inner after : List Token}
    (contains : (Phrase.statement statement).Contains before (.operand precedence operand) after)
    (spelled : statement.spell .statement =
      .ok (before ++ (.symbol .leftParen :: inner ++ [.symbol .rightParen]) ++ after))
    (next : Token) : IsEmpty (Derivation (.statements [statement]) (before ++ inner ++ after) next) := by
  constructor
  intro derivation
  have alone : (Phrase.statements [statement]).spell =
      .ok (before ++ (.symbol .leftParen :: inner ++ [.symbol .rightParen]) ++ after) :=
    Node.spellAll_single spelled
  have fewest := (derivation.leaner alone).besideOperators_le
  have dropped := Token.besideOperators_parens before inner after
  rw [List.append_assoc, List.append_assoc, List.singleton_append, ← List.append_assoc] at fewest
  -- One of the two parentheses is beside the operator of the operand, so fewer are left than there are.
  rcases contains.operator_beside with ⟨more, op, rfl⟩ | ⟨op, more, rfl⟩
  · have behind : Token.endsBehind false (more ++ [.symbol op.symbol]) = true := by
      simp [Token.endsBehind]
    rw [behind, Bool.toNat_true] at dropped
    omega
  · have ahead : Token.endsBehind false (Token.mirror (.symbol op.symbol :: more)) = true := by
      simp [Token.endsBehind]
    rw [ahead, Bool.toNat_true] at dropped
    omega

namespace Program

/-- Of a statement that was parsed, take the text that it is printed as, and in this the two parentheses
that an operand of an operator is put into. The text without the two is no program, or another one. -/
theorem operand_parentheses_matter {source : String} {program : Program} {statement operand : Node}
    (parsed : ofSource source = .ok program) (among : statement ∈ program)
    {precedence : Nat} {before inner after : List Token}
    (contains : (Phrase.statement statement).Contains before (.operand precedence operand) after)
    (bare : operand.spell (.operand 0) = .ok inner)
    (wrapped : operand.spell (.operand precedence) =
      .ok (.symbol .leftParen :: inner ++ [.symbol .rightParen])) :
    ∃ opening interior closing,
      statement.source .statement = .ok (opening ++ "(" ++ interior ++ ")" ++ closing) ∧
      Token.scan opening = .ok (before ++ [.endMark]) ∧
      operand.source (.operand 0) = .ok interior ∧
      Token.scan closing = .ok (after ++ [.endMark]) ∧
      ofSource (opening ++ interior ++ closing) ≠ .ok [statement] := by
  have formed := isWellFormed_of_mem parsed among
  obtain ⟨words, spelled, plain, _⟩ := (Node.prints_of_isWellFormed statement formed).2
  obtain ⟨_, wrappedToo, rfl⟩ := contains.spell spelled
  cases wrapped.symm.trans wrappedToo
  simp only [List.all_append, List.cons_append, List.all_cons, Bool.and_eq_true] at plain
  obtain ⟨⟨beforePlain, _, innerPlain, _⟩, afterPlain⟩ := plain
  have closingGiven : (Lexeme.split ((Token.symbol .rightParen).gap after ++
      Token.layout after)).mapM Token.ofLexeme = .ok after := by
    rw [Token.split_gap, Token.mapM_split_layout afterPlain]
  have restGiven := Token.mapM_split_append (Token.mapM_split_layout innerPlain) closingGiven
    fun lexeme _ => Token.stopsBefore_gap_of_ne (by decide) after lexeme
  have off : Token.SetOff before := contains.follows
  refine ⟨String.ofList (Token.layout before ++ Token.between before [.symbol .leftParen]),
    String.ofList (Token.layout inner),
    String.ofList ((Token.symbol .rightParen).gap after ++ Token.layout after), ?_, ?_, ?_, ?_, ?_⟩
  · rw [Node.source_of_spell spelled, Token.layout_parens]
    refine congrArg Except.ok (String.toList_injective ?_)
    simp
  · refine Token.scan_of_mapM ?_
    have nothing : (Lexeme.split []).mapM Token.ofLexeme = .ok [] := by
      rw [Lexeme.split_nil]
      rfl
    simpa using Token.mapM_split_before beforePlain off nothing
  · exact Node.source_of_spell bare
  · exact Token.scan_of_mapM (by rwa [String.toList_ofList])
  · intro reparsed
    obtain ⟨others, given, ⟨derivation⟩⟩ := ofSource_eq_ok_iff.mp reparsed
    have whole := Token.mapM_split_before beforePlain off restGiven
    simp only [String.toList_append, String.toList_ofList, List.append_assoc] at given whole
    cases given.symm.trans whole
    rw [← List.append_assoc] at derivation
    exact (contains.isEmpty_derivation spelled .endMark).false derivation

/-- A difference that is subtracted, in an argument of a call. -/
theorem operand_parentheses_matter_difference :
    let operand : Node := .binary .sub (.int 1) (.name "c")
    let statement : Node := .returnE (.call "f" [.binary .sub (.name "b") operand])
    ∃ opening interior closing,
      statement.source .statement = .ok (opening ++ "(" ++ interior ++ ")" ++ closing) ∧
      Token.scan opening = .ok [.keyword .returnKw, .name "f", .symbol .leftParen, .name "b",
        .symbol .minus, .endMark] ∧
      operand.source (.operand 0) = .ok interior ∧
      Token.scan closing = .ok [.symbol .rightParen, .symbol .semicolon, .endMark] ∧
      ofSource (opening ++ interior ++ closing) ≠ .ok [statement] := by
  intro operand statement
  have parsed : ofSource "return f(b - (1 - c));" = .ok [statement] := by
    set_option maxRecDepth 10000 in cbv
  have called : (Phrase.statement statement).Contains
      [.keyword .returnKw, .name "f", .symbol .leftParen]
      (.arguments [.binary .sub (.name "b") operand]) [.symbol .rightParen, .symbol .semicolon] :=
    .part (.part .whole .returnValue) (@Phrase.HasPart.callArguments (.operand 0) _ _)
  have contained : (Phrase.statement statement).Contains
      [.keyword .returnKw, .name "f", .symbol .leftParen, .name "b", .symbol .minus]
      (.operand 3 operand) [.symbol .rightParen, .symbol .semicolon] :=
    .part (.part called (.firstArgument rfl))
      (@Phrase.HasPart.right (.operand 0) .sub (.name "b") operand _ rfl)
  exact operand_parentheses_matter parsed (.head _) contained rfl rfl

end Program

end TinyScript
