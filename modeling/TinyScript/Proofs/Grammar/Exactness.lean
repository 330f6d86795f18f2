import TinyScript.Interpreter
import TinyScript.Proofs.Grammar.Soundness
import TinyScript.Proofs.Grammar.Unambiguity
import TinyScript.Proofs.Scanning

/-!
# The parser is exact

Scanned words in front of an end mark are read as a program if and only if they derive it. Words
that derive none end in a failure of the grammar.
-/

set_option autoImplicit false

namespace TinyScript

theorem StatementEnd.endMark_not_mem {before next : Token} {stop : List Token}
    (ends : StatementEnd before stop next) : Token.endMark ∉ stop := by
  cases ends <;> simp

theorem mem_nameWords {names : List String} {word : Token} (member : word ∈ nameWords names) :
    (∃ spelling ∈ names, word = .name spelling) ∨ word = .symbol .comma := by
  cases names with
  | nil => cases member
  | cons first later =>
      rw [Parse.nameWords_cons] at member
      rcases List.mem_cons.mp member with rfl | behind
      · exact .inl ⟨first, .head _, rfl⟩
      · obtain ⟨spelling, listed, among⟩ := List.mem_flatMap.mp behind
        simp only [List.mem_cons, List.not_mem_nil, or_false] at among
        rcases among with rfl | rfl
        · exact .inr rfl
        · exact .inl ⟨spelling, .tail _ listed, rfl⟩

theorem endMark_not_mem_nameWords (names : List String) : Token.endMark ∉ nameWords names := by
  intro member
  rcases mem_nameWords member with ⟨_, _, other⟩ | other <;> cases other

theorem Derivation.endMark_not_mem {phrase : Phrase} {words : List Token} {next : Token}
    (derivation : Derivation phrase words next) : Token.endMark ∉ words := by
  induction derivation with
  | @bool value => cases value <;> simp
  | returnE _ ends ih => simp [ih, ends.endMark_not_mem]
  | expressionE _ ends ih => simp [ih, ends.endMark_not_mem]
  | func _ ih => simp [ih, endMark_not_mem_nameWords]
  | _ => simp_all

/-- Where the words of a source text end, the text does. -/
theorem words_unique {words others rest : List Token} (noEnd : Token.endMark ∉ words)
    (noOtherEnd : Token.endMark ∉ others) (same : words ++ [.endMark] = others ++ rest)
    (front : Parse.current rest = .endMark) : others = words := by
  rcases List.append_eq_append_iff.mp same with ⟨between, rfl, split⟩ | ⟨between, rfl, split⟩
  · cases between with
    | nil => simp
    | cons first later =>
        cases (List.cons.inj split).1
        simp at noOtherEnd
  · cases between with
    | nil => simp
    | cons first later =>
        subst split
        cases front
        simp at noEnd

theorem Derivation.subsingleton (words : List Token) :
    Subsingleton (Σ program, Derivation (.statements program) words .endMark) := by
  constructor
  intro first second
  obtain ⟨program, derivation⟩ := first
  obtain ⟨other, otherDerivation⟩ := second
  have read : Parse.program (words ++ []) = .ok program := derivation.program rfl
  have otherRead : Parse.program (words ++ []) = .ok other := otherDerivation.program rfl
  rw [read] at otherRead
  cases otherRead
  exact congrArg _ (eq_of_heq (derivation.heq otherDerivation trivial rfl rfl rfl))

theorem ParseError.Fits.failure {error : ParseError} {tokens : List Token} (fits : error.Fits)
    (suffix : error.rest <:+ tokens) (noEmpty : .empty ∉ tokens) :
    ∃ message, error.fault.failure = ⟨.language .grammar, message⟩ := by
  obtain ⟨fault, rest⟩ := error
  cases fault with
  | emptyToken =>
      cases rest with
      | nil => cases fits
      | cons first later =>
          cases fits
          exact absurd (suffix.mem (.head _)) noEmpty
  | _ => exact ⟨_, rfl⟩

namespace Program

theorem ofTokens_of_ok {tokens : List Token} {program : Program}
    (read : Parse.program tokens = .ok program) : ofTokens tokens = .ok program := by
  unfold ofTokens
  rw [read]
  rfl

theorem ofTokens_of_error {tokens : List Token} {error : ParseError}
    (read : Parse.program tokens = .error error) :
    ofTokens tokens = .error error.fault.failure := by
  unfold ofTokens
  rw [read]
  rfl

/-- The words in front of an end mark are read as the programs that they derive. -/
theorem ofTokens_eq_ok_iff {words : List Token} {program : Program}
    (noEnd : Token.endMark ∉ words) :
    ofTokens (words ++ [.endMark]) = .ok program ↔
      Nonempty (Derivation (.statements program) words .endMark) := by
  constructor
  · intro parsed
    have spelled := Parse.program_spells (words ++ [.endMark])
    cases result : Parse.program (words ++ [.endMark]) with
    | error error =>
        rw [ofTokens_of_error result] at parsed
        cases parsed
    | ok nodes =>
        rw [ofTokens_of_ok result] at parsed
        cases parsed
        rw [result] at spelled
        obtain ⟨others, rest, same, front, ⟨derivation⟩⟩ := spelled
        cases words_unique noEnd derivation.endMark_not_mem same front
        exact ⟨derivation⟩
  · intro derived
    obtain ⟨derivation⟩ := derived
    exact ofTokens_of_ok (derivation.program rfl)

theorem ofTokens_rejects {tokens : List Token} {failure : Failure}
    (noEmpty : Token.empty ∉ tokens) (failed : ofTokens tokens = .error failure) :
    ∃ message, failure = ⟨.language .grammar, message⟩ := by
  have blamed := Parse.program_spells tokens
  cases result : Parse.program tokens with
  | ok program =>
      rw [ofTokens_of_ok result] at failed
      cases failed
  | error error =>
      rw [ofTokens_of_error result] at failed
      cases failed
      rw [result] at blamed
      exact blamed.2.failure blamed.1 noEmpty

/-- Scanned words are read as a program exactly if they derive it, in at most one way, and words
that derive no program are rejected by the grammar. -/
theorem ofTokens_exact {words : List Token}
    (scanned : ∀ word ∈ words, word.isScanned = true) :
    (∀ program, ofTokens (words ++ [.endMark]) = .ok program ↔
      Nonempty (Derivation (.statements program) words .endMark)) ∧
    ((¬ ∃ program, Nonempty (Derivation (.statements program) words .endMark)) →
      ∃ message, ofTokens (words ++ [.endMark]) = .error ⟨.language .grammar, message⟩) ∧
    Subsingleton (Σ program, Derivation (.statements program) words .endMark) := by
  have noEnd : Token.endMark ∉ words := fun member => Bool.noConfusion (scanned _ member)
  have noEmpty : Token.empty ∉ words ++ [.endMark] := by
    intro member
    rcases List.mem_append.mp member with among | last
    · exact Bool.noConfusion (scanned _ among)
    · cases List.mem_singleton.mp last
  refine ⟨fun program => ofTokens_eq_ok_iff noEnd, ?_, Derivation.subsingleton words⟩
  intro underivable
  cases result : ofTokens (words ++ [.endMark]) with
  | ok program => exact absurd ⟨program, (ofTokens_eq_ok_iff noEnd).mp result⟩ underivable
  | error failure =>
      obtain ⟨message, rfl⟩ := ofTokens_rejects noEmpty result
      exact ⟨message, rfl⟩

/-- The semicolon behind a function that is returned last in a block may be missing. -/
theorem ofTokens_exact_returned_function :
    ofTokens ([.symbol .leftBrace, .keyword .returnKw, .keyword .fnKw, .symbol .leftParen,
        .name "x", .symbol .rightParen, .symbol .leftBrace, .symbol .rightBrace,
        .symbol .rightBrace] ++ [.endMark]) =
      .ok [.block [.returnE (.func ["x"] [])]] := by
  refine ((ofTokens_exact (by decide)).1 _).mpr ⟨?_⟩
  have literal : Derivation (.expression (.func ["x"] []))
      [.keyword .fnKw, .symbol .leftParen, .name "x", .symbol .rightParen, .symbol .leftBrace,
        .symbol .rightBrace] (.symbol .rightBrace) := .func .noStatements
  exact .someStatements (.block (.someStatements (.returnE literal .omitted) .noStatements))
    .noStatements

end Program

end TinyScript
