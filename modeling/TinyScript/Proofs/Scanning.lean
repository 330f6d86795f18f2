import TinyScript.Node.Source
import TinyScript.Proofs.Lexing
import TinyScript.Token.Scan

/-!
# Scanned tokens

The tokens that a source text can have are the ones its lexemes can give. Laid out side by side they
are scanned back: the layout puts a gap wherever two neighbours could run into each other.
-/

set_option autoImplicit false

namespace TinyScript

/-- Whether a text is a name and no keyword. -/
def isName (spelling : String) : Bool :=
  Lexeme.isWord spelling.toList && (Keyword.ofText? spelling).isNone

@[simp] theorem Keyword.ofText?_text (word : Keyword) : Keyword.ofText? word.text = some word := by
  cases word <;> rfl

theorem Keyword.isWord_text (word : Keyword) : Lexeme.isWord word.text.toList = true := by
  cases word <;> decide

namespace Token

/-- Whether a number can be written in a source text. -/
def isLiteral (value : Int) : Bool :=
  decide (0 ≤ value) && decide (value ≤ intMax)

/-- Whether a token can stand in the source text of a tree. -/
def isPlain : Token → Bool
  | .int value => isLiteral value
  | .keyword _ | .symbol _ => true
  | .name spelling => isName spelling
  | .bool _ | .illegal _ | .endMark | .empty | .stray _ => false

@[simp] theorem isPlain_keyword (word : Keyword) : (keyword word).isPlain = true :=
  rfl

@[simp] theorem isPlain_symbol (mark : Symbol) : (symbol mark).isPlain = true :=
  rfl

@[simp] theorem isPlain_name (spelling : String) : (name spelling).isPlain = isName spelling :=
  rfl

/-- Whether a source text can have the token in front of its end mark. -/
def isScanned : Token → Bool
  | .illegal (.text content) =>
      match content.toList with
      | [character] => Text.isForeign character
      | _ => false
  | token => token.isPlain

theorem isScanned_ofWord {text : List Char} (proper : Lexeme.isWord text = true) :
    (ofWord text).isScanned = true := by
  unfold ofWord
  split
  · rfl
  · next noKeyword => simp [isScanned, isPlain, isName, proper, noKeyword]

/-- The token of a lexeme that a text can have is one that a text can have. -/
theorem isScanned_ofLexeme {lexeme : Lexeme} {token : Token} (proper : lexeme.isProper = true)
    (given : ofLexeme lexeme = .ok token) : token.isScanned = true := by
  cases lexeme with
  | digits text =>
      simp only [ofLexeme, ofDigits] at given
      split at given
      · cases given
      · split at given
        · cases given
        · next small =>
            cases given
            simp [isScanned, isPlain, isLiteral, Int.not_lt.mp small]
  | word text =>
      cases given
      exact isScanned_ofWord proper
  | symbol mark =>
      cases given
      rfl
  | foreign character =>
      cases given
      have alone : Text.isForeign character = true := proper
      simp [isScanned, alone]

theorem mapM_ofLexeme_cons {first : Lexeme} {later : List Lexeme} {tokens : List Token} :
    (first :: later).mapM ofLexeme = .ok tokens ↔
      ∃ head tail, ofLexeme first = .ok head ∧ later.mapM ofLexeme = .ok tail ∧
        tokens = head :: tail := by
  rw [List.mapM_cons]
  cases firstGiven : ofLexeme first with
  | error fault => simp [bind, Except.bind]
  | ok head =>
      cases later.mapM ofLexeme with
      | error fault => simp [bind, Except.bind]
      | ok tail => simp [bind, Except.bind, pure, Except.pure, eq_comm]

theorem exists_of_mem_mapM {lexemes : List Lexeme} {tokens : List Token} {token : Token}
    (given : lexemes.mapM ofLexeme = .ok tokens) (member : token ∈ tokens) :
    ∃ lexeme ∈ lexemes, ofLexeme lexeme = .ok token := by
  induction lexemes generalizing tokens with
  | nil =>
      cases given
      cases member
  | cons first later ih =>
      obtain ⟨head, tail, firstGiven, laterGiven, rfl⟩ := mapM_ofLexeme_cons.mp given
      rcases List.mem_cons.mp member with rfl | further
      · exact ⟨first, .head _, firstGiven⟩
      · obtain ⟨lexeme, among, gives⟩ := ih laterGiven further
        exact ⟨lexeme, .tail _ among, gives⟩

/-- The tokens of a source text are scanned ones and the end mark. -/
theorem scan_shape {source : String} {tokens : List Token} (scanned : scan source = .ok tokens) :
    ∃ words, tokens = words ++ [.endMark] ∧ ∀ word ∈ words, word.isScanned = true := by
  unfold scan at scanned
  cases given : (Lexeme.split source.toList).mapM ofLexeme with
  | error fault => simp [given, bind, Except.bind] at scanned
  | ok words =>
      simp only [given, bind, Except.bind, pure, Except.pure, Except.ok.injEq] at scanned
      refine ⟨words, scanned.symm, ?_⟩
      intro word member
      obtain ⟨lexeme, among, gives⟩ := exists_of_mem_mapM given member
      exact isScanned_ofLexeme (Lexeme.isProper_of_mem_split among) gives

theorem ofDigits_toDigits {value : Nat} (small : (value : Int) ≤ intMax) :
    ofDigits (Nat.toDigits 10 value) = .ok (.int value) := by
  have few : (Nat.toDigits 10 value).length ≤ 10 := by
    rw [Nat.length_toDigits_le_iff (by decide) (by decide)]
    unfold intMax at small
    omega
  have limit : ¬ ScanError.digitLimit < (Nat.toDigits 10 value).length := by
    unfold ScanError.digitLimit
    omega
  simp only [ofDigits, Nat.ofDigitChars_ten_toDigits, if_neg limit, if_neg (Int.not_lt.mpr small)]

/-- A token of a source text is written as a lexeme that gives it. -/
theorem exists_lexeme {token : Token} (plain : token.isPlain = true) :
    ∃ lexeme : Lexeme, lexeme.isProper = true ∧ ofLexeme lexeme = .ok token ∧
      lexeme.text = token.text.toList := by
  cases token with
  | int value =>
      obtain ⟨nonnegative, small⟩ : 0 ≤ value ∧ value ≤ intMax := by
        simpa [isPlain, isLiteral] using plain
      obtain ⟨number, rfl⟩ := Int.eq_ofNat_of_zero_le nonnegative
      refine ⟨.digits (Nat.toDigits 10 number), ?_, ofDigits_toDigits small, ?_⟩
      · have digits : ∀ character ∈ Nat.toDigits 10 number, character.isDigit = true :=
          fun character member => Nat.isDigit_of_mem_toDigits (by decide) (by decide) member
        simpa [Lexeme.isProper] using digits
      · exact Nat.toList_repr.symm
  | keyword word =>
      refine ⟨.word word.text.toList, word.isWord_text, ?_, rfl⟩
      simp [ofLexeme, ofWord]
  | name spelling =>
      obtain ⟨proper, noKeyword⟩ : Lexeme.isWord spelling.toList = true ∧
          Keyword.ofText? spelling = none := by
        simpa [isPlain, isName] using plain
      refine ⟨.word spelling.toList, proper, ?_, rfl⟩
      simp [ofLexeme, ofWord, noKeyword]
  | symbol mark => exact ⟨.symbol mark, rfl, rfl, rfl⟩
  | _ => cases plain

theorem goesOn_eq_false {character : Char} (noDigit : character.isDigit = false)
    (noName : Text.isNameRest character = false) (noEquals : (character == '=') = false)
    (lexeme : Lexeme) : lexeme.goesOn character = false := by
  cases lexeme with
  | digits => exact noDigit
  | word => exact noName
  | symbol => simp only [Lexeme.goesOn, noEquals, Bool.and_false]
  | foreign => rfl

theorem goesOn_of_isBlank {character : Char} (blank : Text.isBlank character = true)
    (lexeme : Lexeme) : lexeme.goesOn character = false := by
  refine goesOn_eq_false ?_ ?_ ?_ lexeme
  · refine Bool.eq_false_iff.mpr fun digit => ?_
    rw [Text.isBlank_of_isDigit digit] at blank
    cases blank
  · refine Bool.eq_false_iff.mpr fun rest => ?_
    rw [Text.isBlank_of_isNameRest rest] at blank
    cases blank
  · refine Bool.eq_false_iff.mpr fun equals => ?_
    rw [eq_of_beq equals] at blank
    cases blank

/-- No lexeme goes on with a blank, a parenthesis, a comma or a semicolon. -/
theorem goesOn_separator (lexeme : Lexeme) {character : Char}
    (separator : character ∈ [' ', '(', ')', ',', ';']) : lexeme.goesOn character = false := by
  simp only [List.mem_cons, List.not_mem_nil, or_false] at separator
  rcases separator with rfl | rfl | rfl | rfl | rfl
  all_goals exact goesOn_eq_false rfl rfl rfl lexeme

theorem joined_cases {first second : Token} (together : joined first second = true) :
    first = .symbol .leftParen ∨
      ∃ only ∈ [' ', '(', ')', ',', ';'], second.text.toList = [only] := by
  unfold joined at together
  split at together
  · exact .inl rfl
  · exact .inr ⟨')', by decide, rfl⟩
  · exact .inr ⟨',', by decide, rfl⟩
  · exact .inr ⟨';', by decide, rfl⟩
  · exact .inr ⟨'(', by decide, rfl⟩
  · exact .inr ⟨'(', by decide, rfl⟩
  · exact .inr ⟨'(', by decide, rfl⟩
  · cases together

theorem eq_symbol_of_ofLexeme {lexeme : Lexeme} {mark : Symbol}
    (given : ofLexeme lexeme = .ok (.symbol mark)) : lexeme = .symbol mark := by
  cases lexeme with
  | digits text =>
      simp only [ofLexeme, ofDigits] at given
      split at given
      · cases given
      · split at given <;> cases given
  | word text =>
      simp only [ofLexeme, ofWord] at given
      split at given <;> cases given
  | symbol other =>
      cases given
      rfl
  | foreign character => cases given

/-- What stands between a token and the ones behind it. -/
def gap (first : Token) : List Token → List Char
  | [] => []
  | second :: _ => if joined first second then [] else [' ']

theorem layout_cons (first : Token) (later : List Token) :
    layout (first :: later) = first.text.toList ++ (first.gap later ++ layout later) := by
  cases later with
  | nil => simp [layout, gap]
  | cons second further => simp [layout, gap]

theorem split_gap (first : Token) (later : List Token) (text : List Char) :
    Lexeme.split (first.gap later ++ text) = Lexeme.split text := by
  unfold gap
  split
  · rfl
  · split
    · rfl
    · exact Lexeme.split_blank (by decide) text

/-- Behind any token but an opening parenthesis, what follows begins with a separator. -/
theorem stopsBefore_gap_of_ne {first : Token} (noParen : first ≠ .symbol .leftParen)
    (later : List Token) (lexeme : Lexeme) :
    lexeme.StopsBefore (first.gap later ++ layout later) := by
  intro character front
  cases later with
  | nil => cases front
  | cons second further =>
      cases together : joined first second with
      | false =>
          simp only [gap, together] at front
          cases front
          exact goesOn_separator lexeme (by simp)
      | true =>
          simp only [gap, together, layout_cons second] at front
          rcases joined_cases together with paren | ⟨only, separates, text⟩
          · exact absurd paren noParen
          · rw [text] at front
            cases front
            exact goesOn_separator lexeme separates

/-- The layout keeps a lexeme apart from what follows it. -/
theorem stopsBefore_gap {first : Token} {lexeme : Lexeme} (given : ofLexeme lexeme = .ok first)
    (later : List Token) : lexeme.StopsBefore (first.gap later ++ layout later) := by
  by_cases paren : first = .symbol .leftParen
  · subst paren
    cases eq_symbol_of_ofLexeme given
    exact fun _ _ => rfl
  · exact stopsBefore_gap_of_ne paren later lexeme

theorem mapM_split_layout {tokens : List Token} (plain : tokens.all isPlain = true) :
    (Lexeme.split (layout tokens)).mapM ofLexeme = .ok tokens := by
  induction tokens with
  | nil => simp [layout, pure, Except.pure]
  | cons first later ih =>
      obtain ⟨firstPlain, laterPlain⟩ := Bool.and_eq_true_iff.mp plain
      obtain ⟨lexeme, proper, given, text⟩ := exists_lexeme firstPlain
      rw [layout_cons, ← text, Lexeme.split_append proper (stopsBefore_gap given later), split_gap]
      exact mapM_ofLexeme_cons.mpr ⟨first, later, given, ih laterPlain, rfl⟩

theorem scan_of_mapM {source : String} {words : List Token}
    (given : (Lexeme.split source.toList).mapM ofLexeme = .ok words) :
    scan source = .ok (words ++ [.endMark]) := by
  unfold scan
  rw [given]
  rfl

theorem scan_layout {tokens : List Token} (plain : tokens.all isPlain = true) :
    scan (String.ofList (layout tokens)) = .ok (tokens ++ [.endMark]) := by
  refine scan_of_mapM ?_
  rw [String.toList_ofList, mapM_split_layout plain]

end Token

end TinyScript
