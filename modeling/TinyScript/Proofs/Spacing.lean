import TinyScript.Proofs.Boundaries

/-!
# Written tokens

Tokens that are written with some blanks between neighbours are scanned back, and a source text gives
no other tokens than those that can be written.
-/

set_option autoImplicit false

namespace TinyScript

/-- How a token is written in a source text. -/
inductive Token.WrittenAs : Token → List Char → Prop where
  | int {value : Nat} : value ≤ 2 ^ 31 - 1 → WrittenAs (.int value) value.repr.toList
  | keyword (word : Keyword) : WrittenAs (.keyword word) word.text.toList
  | name {spelling : String} :
      Lexeme.isWord spelling.toList = true → Keyword.ofText? spelling = none →
      WrittenAs (.name spelling) spelling.toList
  | symbol (mark : Symbol) : WrittenAs (.symbol mark) mark.text.toList
  | illegal {character : Char} : Text.isForeign character = true →
      WrittenAs (.illegal (.text (String.singleton character))) [character]

/-- Tokens written one behind the other, with at least one blank between neighbours. -/
inductive Spaced : List Token → List Char → Prop where
  | none : Spaced [] []
  | one {token : Token} {text : List Char} : token.WrittenAs text → Spaced [token] text
  | more {first second : Token} {later : List Token} {text gap rest : List Char} :
      first.WrittenAs text → gap ≠ [] → gap.all Text.isBlank = true →
      Spaced (second :: later) rest → Spaced (first :: second :: later) (text ++ gap ++ rest)

namespace Token

theorem isPlain_int {value : Nat} (small : value ≤ 2 ^ 31 - 1) :
    (int value).isPlain = true := by
  have small' : (value : Int) ≤ intMax := by
    unfold intMax
    omega
  simp [isPlain, isLiteral, small']

theorem WrittenAs.exists_lexeme {token : Token} {text : List Char} (written : token.WrittenAs text) :
    ∃ lexeme : Lexeme, lexeme.isProper = true ∧ ofLexeme lexeme = .ok token ∧
      lexeme.text = text := by
  cases written with
  | int small => exact Token.exists_lexeme (isPlain_int small)
  | keyword word => exact Token.exists_lexeme (isPlain_keyword word)
  | name proper noKeyword => exact Token.exists_lexeme (by simp [isName, proper, noKeyword])
  | symbol mark => exact Token.exists_lexeme (isPlain_symbol mark)
  | @illegal character foreign => exact ⟨.foreign character, foreign, rfl, rfl⟩

theorem exists_writtenAs {token : Token} (scanned : token.isScanned = true) :
    ∃ text, token.WrittenAs text := by
  cases token with
  | int value =>
      obtain ⟨nonnegative, small⟩ : 0 ≤ value ∧ value ≤ intMax := by
        simpa [isScanned, isPlain, isLiteral] using scanned
      obtain ⟨number, rfl⟩ := Int.eq_ofNat_of_zero_le nonnegative
      refine ⟨_, .int ?_⟩
      unfold intMax at small
      omega
  | keyword word => exact ⟨_, .keyword word⟩
  | name spelling =>
      obtain ⟨proper, noKeyword⟩ : Lexeme.isWord spelling.toList = true ∧
          Keyword.ofText? spelling = none := by
        simpa [isScanned, isName] using scanned
      exact ⟨_, .name proper noKeyword⟩
  | symbol mark => exact ⟨_, .symbol mark⟩
  | illegal content =>
      cases content with
      | text spelling =>
          simp only [isScanned] at scanned
          split at scanned
          · next character alone =>
              obtain rfl : spelling = String.singleton character :=
                String.toList_injective (alone.trans (String.toList_singleton character).symm)
              exact ⟨_, .illegal scanned⟩
          · cases scanned
      | null | bool | int | sequence => cases scanned
  | bool | endMark | empty | stray => cases scanned

end Token

theorem Spaced.mapM_split {tokens : List Token} {text : List Char} (spaced : Spaced tokens text) :
    (Lexeme.split text).mapM Token.ofLexeme = .ok tokens := by
  induction spaced with
  | none =>
      rw [Lexeme.split_nil]
      rfl
  | one written =>
      obtain ⟨lexeme, proper, given, rfl⟩ := written.exists_lexeme
      rw [Lexeme.split_text proper]
      exact Token.mapM_ofLexeme_cons.mpr ⟨_, _, given, rfl, rfl⟩
  | @more first second later text gap rest written nonempty blank _ ih =>
      obtain ⟨lexeme, proper, given, rfl⟩ := written.exists_lexeme
      rw [Lexeme.split_gap nonempty blank, Lexeme.split_text proper]
      exact Token.mapM_ofLexeme_cons.mpr ⟨_, _, given, ih, rfl⟩

namespace Token

/-- Tokens that are written with blanks between them are scanned back. Conversely, a source text gives
tokens that can be written and an end mark. -/
theorem ofSource_inverts_writing :
    (∀ tokens text, Spaced tokens text →
      ofSource (String.ofList text) = .ok (tokens ++ [.endMark])) ∧
    ∀ source tokens, ofSource source = .ok tokens →
      ∃ words, tokens = words ++ [.endMark] ∧ ∀ word ∈ words, ∃ text, word.WrittenAs text := by
  constructor
  · intro tokens text spaced
    have given : (Lexeme.split (String.ofList text).toList).mapM ofLexeme = .ok tokens := by
      rw [String.toList_ofList, spaced.mapM_split]
    unfold ofSource
    rw [scan_of_mapM given]
    rfl
  · intro source tokens given
    cases scanned : scan source with
    | error fault =>
        unfold ofSource at given
        rw [scanned] at given
        cases given
    | ok others =>
        unfold ofSource at given
        rw [scanned] at given
        cases given
        obtain ⟨words, rfl, legal⟩ := scan_shape scanned
        exact ⟨words, rfl, fun word among => exists_writtenAs (legal word among)⟩

theorem ofSource_inverts_writing_each_kind :
    let tokens : List Token := [.int 7, .keyword .letKw, .name "x", .symbol .equal,
      .illegal (.text (String.singleton '@'))]
    Spaced tokens "7 let\tx  ==\n@".toList ∧
      ofSource "7 let\tx  ==\n@" = .ok (tokens ++ [.endMark]) ∧
      ∃ words, tokens ++ [.endMark] = words ++ [.endMark] ∧
        ∀ word ∈ words, ∃ text, word.WrittenAs text := by
  intro tokens
  have stray : Spaced [.illegal (.text (String.singleton '@'))] ['@'] :=
    .one (.illegal (by decide +kernel))
  have equal := Spaced.more (.symbol .equal) (List.cons_ne_nil '\n' []) (by decide) stray
  have name : (Token.name "x").WrittenAs "x".toList := .name (by decide +kernel) (by decide)
  have word := Spaced.more (.keyword .letKw) (List.cons_ne_nil '\t' []) (by decide)
    (.more name (List.cons_ne_nil ' ' [' ']) (by decide) equal)
  have number : (Token.int (7 : Nat)).WrittenAs (7 : Nat).repr.toList := .int (by decide)
  have spaced : Spaced tokens "7 let\tx  ==\n@".toList :=
    .more number (List.cons_ne_nil ' ' []) (by decide) word
  have scanned : ofSource "7 let\tx  ==\n@" = .ok (tokens ++ [.endMark]) :=
    ofSource_inverts_writing.1 tokens _ spaced
  exact ⟨spaced, scanned, ofSource_inverts_writing.2 _ _ scanned⟩

end Token

end TinyScript
