import TinyScript.Proofs.Braces
import TinyScript.Proofs.Grammar.Cursor.Agreement

/-!
# The parser moves on

Wherever a routine of the parser is started, it ends. Either it rejects the token that it has come
to, or it stands further on than before, inside the list or right behind it. What it moved over has
no end mark in it and closes the braces that it opens and no others. No routine moves past the last
token, and what stands behind an end mark makes no difference.
-/

set_option autoImplicit false

namespace TinyScript

namespace Parse

/-- A reader takes words that close the braces which they open, or fails at one of the tokens. -/
inductive TakesWords {α : Type} (reader : Reader α) (tokens : List Token) : Prop where
  | takes (value : α) (words rest : List Token) :
      tokens = words ++ rest → reader tokens = .ok (value, rest) →
      words ≠ [] → .endMark ∉ words → Token.Balanced words → TakesWords reader tokens
  | fails (error : ParseError) :
      reader tokens = .error error → error.rest <:+ tokens → error.Fits →
      TakesWords reader tokens

section

variable {α : Type} {tokens : List Token}
variable {read : (tokens : List Token) → Except ParseError (Parsed α tokens)}

theorem TakesWords.of_reads {kind : α → Phrase}
    (reads : Reads tokens (fun value => Spells tokens (kind value)) (read tokens)) :
    TakesWords (fun tokens => (read tokens).map Parsed.pair) tokens := by
  cases result : read tokens with
  | error error =>
      rw [result] at reads
      exact .fails error (congrArg _ result) reads.1 reads.2
  | ok parsed =>
      rw [result] at reads
      obtain ⟨words, split, ⟨derivation⟩⟩ := reads
      have some : words ≠ [] := by
        rintro rfl
        exact Nat.ne_of_gt parsed.shorter (congrArg List.length split)
      exact .takes parsed.value words parsed.rest split (congrArg _ result) some
        derivation.endMark_not_mem derivation.balanced

/-- What is read up to a closing symbol takes words together with the symbol that opens it. -/
theorem TakesWords.enclosed {opening closing : Symbol} {kind : α → Phrase}
    (reads : ∀ later,
      Reads later (fun value => SpellsUpTo later (kind value) closing) (read later))
    (encloses : ∀ words, Token.Balanced words →
      Token.Balanced (.symbol opening :: words ++ [.symbol closing])) :
    TakesWords (do Reader.expect opening; fun later => (read later).map Parsed.pair) tokens := by
  by_cases opens : current tokens = .symbol opening
  · obtain ⟨later, rfl⟩ := exists_cons_of_current opens (by simp)
    have behind := Reader.expect_then opening (fun later => (read later).map Parsed.pair) later
    have given := reads later
    cases result : read later with
    | error error =>
        rw [result] at given behind
        exact .fails error behind (given.1.trans (List.suffix_cons _ _)) given.2
    | ok parsed =>
        rw [result] at given behind
        obtain ⟨words, split, ⟨derivation⟩⟩ := given
        refine .takes parsed.value (.symbol opening :: words ++ [.symbol closing]) parsed.rest ?_
          behind (by simp) ?_ (encloses words derivation.balanced)
        · simp [split]
        · simp [derivation.endMark_not_mem]
  · let error : ParseError := ⟨.expectedSymbol opening (current tokens), tokens⟩
    refine .fails error ?_ List.suffix_rfl ⟨rfl, opens⟩
    change (Reader.expect opening tokens).bind _ = _
    rw [Reader.expect_other opens]
    rfl

end

end Parse

/-- The parts of the parser that take tokens by themselves, and what they give. -/
inductive Routine : Type → Type 1 where
  | statement : Routine Node
  | letStatement : Routine Node
  | returnStatement : Routine Node
  | ifStatement : Routine Node
  | block : Routine (List Node)
  | expression : Routine Node
  | function : Routine Node
  | comparison : Routine Node
  | sum : Routine Node
  | product : Routine Node
  | primary : Routine Node
  | paren : Routine Node
  | callArguments : Routine (List Node)

namespace Routine

variable {α : Type}

def cursor : Routine α → Nat → Cursor α
  | .statement => Cursor.statement
  | .letStatement => Cursor.letStatement
  | .returnStatement => Cursor.returnStatement
  | .ifStatement => Cursor.ifStatement
  | .block => Cursor.block
  | .expression => Cursor.expression
  | .function => Cursor.function
  | .comparison => Cursor.operand 1
  | .sum => Cursor.operand 2
  | .product => Cursor.operand 3
  | .primary => Cursor.primary
  | .paren => Cursor.paren
  | .callArguments => Cursor.callArguments

/-- The reader that does what a routine does on tokens that the routine can be started on. -/
def reader : Routine α → Parse.Reader α
  | .statement | .letStatement | .returnStatement | .ifStatement => Parse.Reader.statement
  | .block => Parse.Reader.block
  | .expression | .function => Parse.Reader.expression
  | .comparison => Parse.Reader.operand 1
  | .sum => Parse.Reader.operand 2
  | .product => Parse.Reader.operand 3
  | .primary | .paren => Parse.Reader.primary
  | .callArguments => Parse.Reader.callArguments

/-- The token that the parser has seen in front whenever it starts a routine. -/
def opening? : Routine α → Option Token
  | .letStatement => some (.keyword .letKw)
  | .returnStatement => some (.keyword .returnKw)
  | .ifStatement => some (.keyword .ifKw)
  | .function => some (.keyword .fnKw)
  | .paren => some (.symbol .leftParen)
  | .statement | .block | .expression | .comparison | .sum | .product | .primary
  | .callArguments => none

/-- A routine can be started anywhere, but for those that go over their first token unseen. -/
def StartsAt (routine : Routine α) (tokens : List Token) (place : Nat) : Prop :=
  ∀ first, routine.opening? = some first → tokens[place]? = some first

theorem takesWords (routine : Routine α) (tokens : List Token) :
    Parse.TakesWords routine.reader tokens := by
  have spell := Parse.readers_spell tokens
  cases routine with
  | statement | letStatement | returnStatement | ifStatement => exact .of_reads spell.statement
  | expression | function => exact .of_reads spell.expression
  | comparison => exact .of_reads (spell.operand 1 (by decide))
  | sum => exact .of_reads (spell.operand 2 (by decide))
  | product => exact .of_reads (spell.operand 3 (by decide))
  | primary | paren =>
      exact .of_reads (Parse.primary_spells fun later _ => Parse.readers_spell later)
  | block =>
      exact .enclosed (fun later => (Parse.readers_spell later).blockBody) fun _ => .block
  | callArguments =>
      exact .enclosed (fun later => (Parse.readers_spell later).arguments)
        fun _ inner => .cons rfl (inner.concat rfl)

theorem StartsAt.exists_drop {routine : Routine α} {tokens : List Token} {place : Nat}
    {first : Token} (starts : routine.StartsAt tokens place)
    (opens : routine.opening? = some first) : ∃ later, tokens.drop place = first :: later := by
  have front := starts first opens
  rw [← List.head?_drop] at front
  exact List.head?_eq_some_iff.mp front

theorem StartsAt.follows {routine : Routine α} {tokens : List Token} {place depth : Nat}
    (starts : routine.StartsAt tokens place) (room : Cursor.enough tokens place ≤ depth) :
    Cursor.Follows (routine.cursor depth) routine.reader tokens place := by
  obtain ⟨base, rfl, ahead⟩ := Cursor.exists_followsAhead room
  have here := ahead.followsReaders
  cases routine with
  | statement => exact here.statement
  | expression => exact here.expression
  | comparison => exact here.operand 1 (by decide)
  | sum => exact here.operand 2 (by decide)
  | product => exact here.operand 3 (by decide)
  | primary => exact Cursor.primary_follows (ahead.deeper 9)
  | block => exact Cursor.block_follows (ahead.deeper 11)
  | callArguments => exact Cursor.callArguments_follows (ahead.deeper 11)
  | letStatement =>
      obtain ⟨later, stands⟩ := starts.exists_drop rfl
      exact Cursor.letStatement_follows (ahead.deeper 11) stands
  | returnStatement =>
      obtain ⟨later, stands⟩ := starts.exists_drop rfl
      exact Cursor.returnStatement_follows (ahead.deeper 11) stands
  | ifStatement =>
      obtain ⟨later, stands⟩ := starts.exists_drop rfl
      exact Cursor.ifStatement_follows (ahead.deeper 10) stands
  | function =>
      obtain ⟨later, stands⟩ := starts.exists_drop rfl
      exact Cursor.function_follows (ahead.deeper 10) stands
  | paren =>
      obtain ⟨later, stands⟩ := starts.exists_drop rfl
      exact Cursor.paren_follows (ahead.deeper 11) stands

end Routine

/-- A place further on, inside the tokens or right behind them, is reached over tokens that are no
end marks and that close the braces which they open: no front of them closes more than it opens, and
all of them together close as many. -/
structure Advances (tokens : List Token) (start stop : Nat) : Prop where
  ahead : start < stop
  inside : stop ≤ tokens.length
  noEnd : .endMark ∉ tokens.extract start stop
  closesAll : (tokens.extract start stop).count (.symbol .leftBrace) =
    (tokens.extract start stop).count (.symbol .rightBrace)
  closesOpened : ∀ front, front <+: tokens.extract start stop →
    front.count (.symbol .rightBrace) ≤ front.count (.symbol .leftBrace)

theorem Advances.of_words {tokens words rest : List Token} {start : Nat}
    (split : tokens.drop start = words ++ rest) (some : words ≠ []) (noEnd : .endMark ∉ words)
    (balanced : Token.Balanced words) : Advances tokens start (start + words.length) := by
  have moved : 0 < words.length := List.length_pos_iff.mpr some
  have lengths := congrArg List.length split
  rw [List.length_drop, List.length_append] at lengths
  have between : tokens.extract start (start + words.length) = words := by
    rw [List.extract_eq_take_drop, Nat.add_sub_cancel_left, split, List.take_left]
  refine ⟨by omega, by omega, ?_, ?_, ?_⟩
  · rwa [between]
  · rw [between]
    exact balanced.count_eq
  · rw [between]
    rintro front ⟨others, rfl⟩
    exact balanced.count_le

/-- Behind an end mark nothing is read. -/
theorem Program.ofTokens_append_endMark (tokens others : List Token) :
    ofTokens (tokens ++ .endMark :: others) = ofTokens tokens := by
  obtain ⟨words, rest, outcome, rfl, arrives⟩ := Parse.program_looksAhead tokens
  have front : Parse.current (rest ++ .endMark :: others) = Parse.current rest := by
    cases rest <;> rfl
  unfold ofTokens
  rw [List.append_assoc, arrives rest rfl, arrives _ front]
  cases outcome <;> rfl

namespace Cursor

/-- From a place on, a cursor comes to an end, and never by moving past the last token. -/
def Ends {α : Type} (cursor : Nat → Cursor α) (tokens : List Token) (place : Nat) : Prop :=
  ∃ result : Except Halt α, result ≠ .error .pastEnd ∧
    ∃ bound, ∀ depth, bound ≤ depth → outcome (cursor depth) tokens place = some result

section

variable {α : Type} {cursor : Nat → Cursor α} {tokens : List Token} {place bound : Nat}

theorem Ends.of_read {read : Except ParseError α}
    (reads : ∀ depth, bound ≤ depth →
      outcome (cursor depth) tokens place = some (read.mapError fun error => .fault error.fault)) :
    Ends cursor tokens place := by
  refine ⟨_, ?_, bound, reads⟩
  cases read <;> simp [Except.mapError]

theorem Ends.of_follows {reader : Parse.Reader α}
    (follows : ∀ depth, bound ≤ depth → Follows (cursor depth) reader tokens place) :
    Ends cursor tokens place :=
  .of_read fun depth room => (follows depth room).outcome_eq

end

theorem program_ends (tokens : List Token) (place : Nat) : Ends program tokens place :=
  .of_read fun _ room => outcome_program (Nat.lt_of_succ_le room)

/-- Started anywhere in a list of tokens without the empty text, each routine of the parser ends: it
has moved on over tokens that close the braces which they open, or it rejects a token by the
grammar. The reader of the same phrase does the same. Each loop ends wherever it is begun. A whole
list is read or rejected as the reader of programs does, and what stands behind an end mark makes no
difference. -/
theorem routines_move_on :
    (∀ tokens, Token.empty ∉ tokens → ∀ {α : Type} (routine : Routine α) start,
      routine.StartsAt tokens start →
        (∃ value stop, ComesTo routine.cursor tokens start (.ok (value, stop)) ∧
          routine.reader (tokens.drop start) = .ok (value, tokens.drop stop) ∧
          Advances tokens start stop) ∨
        ∃ error message, ComesTo routine.cursor tokens start (.error (.fault error.fault)) ∧
          routine.reader (tokens.drop start) = .error error ∧
          error.fault.failure = ⟨.language .grammar, message⟩) ∧
    (∀ tokens place,
      Ends program tokens place ∧ Ends blockBody tokens place ∧
      Ends moreParameters tokens place ∧ Ends moreArguments tokens place ∧
      ∀ level left, level < Parse.primaryLevel → Ends (chain level left) tokens place) ∧
    (∀ tokens, ∃ bound, ∀ depth, bound ≤ depth → parse depth tokens =
      some ((Parse.program tokens).mapError fun error => .fault error.fault)) ∧
    ∀ tokens others, Program.ofTokens (tokens ++ .endMark :: others) = Program.ofTokens tokens := by
  refine ⟨?_, ?_, fun tokens => ⟨enough tokens 0 + 1, fun _ => outcome_program⟩,
    Program.ofTokens_append_endMark⟩
  · intro tokens noEmpty α routine start starts
    cases routine.takesWords (tokens.drop start) with
    | fails error rejected suffix fits =>
        have within := suffix.trans (List.drop_suffix start tokens)
        obtain ⟨message, failure⟩ := fits.failure within noEmpty
        have halts : ComesTo routine.cursor tokens start (.error (.fault error.fault)) :=
          ⟨enough tokens start, fun _ room => (starts.follows room).result_of_error rejected⟩
        exact .inr ⟨error, message, halts, rejected, failure⟩
    | takes value words rest split given some noEnd balanced =>
        have arrives : ComesTo routine.cursor tokens start (.ok (value, start + words.length)) :=
          ⟨enough tokens start, fun _ room => (starts.follows room).result_of_ok split given⟩
        have read : routine.reader (tokens.drop start) =
            .ok (value, tokens.drop (start + words.length)) := by
          rw [drop_behind split, given]
        exact .inl ⟨value, _, arrives, read, .of_words split some noEnd balanced⟩
  · intro tokens place
    have here : ∀ depth, enough tokens place ≤ depth → FollowsReaders tokens place depth :=
      fun _ => followsReaders_of_enough
    refine ⟨program_ends tokens place,
      .of_follows fun depth room => (here depth room).blockBody,
      .of_follows fun depth room => (here depth room).moreParameters,
      .of_follows fun depth room => (here depth room).moreArguments, ?_⟩
    intro level left chained
    exact .of_follows fun depth room => (here depth room).chain level left chained

/-- A condition that begins behind a stray brace is read up to an end mark. -/
theorem routines_move_on_condition :
    let tokens : List Token := [.symbol .rightBrace, .keyword .ifKw, .name "x", .symbol .leftBrace,
      .int 1, .symbol .rightBrace, .endMark, .bool true]
    Token.empty ∉ tokens ∧ Routine.ifStatement.StartsAt tokens 1 ∧
      ComesTo ifStatement tokens 1 (.ok (.ifThen (.name "x") (.block [.int 1]), 6)) ∧
      Advances tokens 1 6 := by
  intro tokens
  have noEmpty : Token.empty ∉ tokens := by decide
  have starts : Routine.ifStatement.StartsAt tokens 1 := by
    intro first opens
    cases opens
    rfl
  have read : Parse.Reader.statement (tokens.drop 1) =
      .ok (.ifThen (.name "x") (.block [.int 1]), [.endMark, .bool true]) := by
    cbv
  rcases routines_move_on.1 tokens noEmpty .ifStatement 1 starts with
    ⟨value, stop, moved, given, advances⟩ | ⟨error, message, _, rejected, _⟩
  · obtain ⟨rfl, behind⟩ := Prod.mk.inj (Except.ok.inj (given.symm.trans read))
    have length : 8 - stop = 2 := by simpa [tokens] using congrArg List.length behind
    obtain rfl : stop = 6 := by omega
    exact ⟨noEmpty, starts, moved, advances⟩
  · cases rejected.symm.trans read

end Cursor

end TinyScript
