import TinyScript.Proofs.CharacterClasses

/-!
# Splitting text into lexemes

A lexeme in front of a text that does not go on with it is split off as it is, and every lexeme
that is split off is of a form that texts can have.
-/

set_option autoImplicit false

namespace TinyScript

/-- Whether a character is neither blank nor the beginning of a number, a name or a symbol. -/
def Text.isForeign (character : Char) : Bool :=
  !isBlank character && !character.isDigit && !isNameFirst character &&
    (Symbol.ofChar? character).isNone

namespace Lexeme

/-- Whether characters are a run that begins and goes on as a name does. -/
def isWord : List Char → Bool
  | [] => false
  | first :: later => Text.isNameFirst first && later.all Text.isNameRest

/-- Whether a text can have the lexeme. -/
def isProper : Lexeme → Bool
  | .digits text => !text.isEmpty && text.all Char.isDigit
  | .word text => isWord text
  | .symbol _ => true
  | .foreign character => Text.isForeign character

/-- Whether a character right behind a lexeme belongs to it. -/
def goesOn : Lexeme → Char → Bool
  | .digits _, character => character.isDigit
  | .word _, character => Text.isNameRest character
  | .symbol mark, character => mark.withEquals?.isSome && character == '='
  | .foreign _, _ => false

/-- A text does not go on with a lexeme in front of it. -/
def StopsBefore (lexeme : Lexeme) (later : List Char) : Prop :=
  ∀ character ∈ later.head?, lexeme.goesOn character = false

@[simp] theorem split_nil : split [] = [] := by
  unfold split
  rfl

theorem split_blank {first : Char} (blank : Text.isBlank first = true) (later : List Char) :
    split (first :: later) = split later := by
  rw [split, if_pos blank]

theorem split_blanks {gap : List Char} (blank : gap.all Text.isBlank = true) (later : List Char) :
    split (gap ++ later) = split later := by
  induction gap with
  | nil => rfl
  | cons first gap ih =>
      obtain ⟨firstBlank, gapBlank⟩ := Bool.and_eq_true_iff.mp blank
      rw [List.cons_append, split_blank firstBlank, ih gapBlank]

theorem takeWhile_append_stop {test : Char → Bool} {run later : List Char}
    (inside : run.all test = true) (stops : ∀ character ∈ later.head?, test character = false) :
    (run ++ later).takeWhile test = run ∧ (run ++ later).dropWhile test = later := by
  have inside' := List.all_eq_true.mp inside
  rw [List.takeWhile_append_of_pos inside', List.dropWhile_append_of_pos inside']
  cases later with
  | nil => simp
  | cons first rest =>
      have stop := stops first rfl
      simp [stop]

theorem split_digits {text later : List Char} (proper : (digits text).isProper = true)
    (stops : (digits text).StopsBefore later) :
    split (text ++ later) = .digits text :: split later := by
  cases text with
  | nil => cases proper
  | cons first run =>
      obtain ⟨digit, inside⟩ : first.isDigit = true ∧ run.all Char.isDigit = true := by
        simpa [isProper] using proper
      obtain ⟨taken, left⟩ := takeWhile_append_stop inside stops
      rw [List.cons_append, split, if_neg (by simp [Text.isBlank_of_isDigit digit]), if_pos digit,
        taken, left]

theorem split_word {text later : List Char} (proper : (word text).isProper = true)
    (stops : (word text).StopsBefore later) :
    split (text ++ later) = .word text :: split later := by
  cases text with
  | nil => cases proper
  | cons first run =>
      obtain ⟨start, inside⟩ := Bool.and_eq_true_iff.mp proper
      obtain ⟨taken, left⟩ := takeWhile_append_stop inside stops
      rw [List.cons_append, split, if_neg (by simp [Text.isBlank_of_isNameFirst start]),
        if_neg (by simp [Text.isDigit_of_isNameFirst start]), if_pos start, taken, left]

theorem split_of_ofChar? {first : Char} {short : Symbol}
    (found : Symbol.ofChar? first = some short) (later : List Char) :
    split (first :: later) =
      .symbol (short.extend later).1 :: split (short.extend later).2 := by
  obtain ⟨blank, digit, start⟩ := Symbol.classes_of_ofChar? found
  rw [split, if_neg (by simp [blank]), if_neg (by simp [digit]), if_neg (by simp [start]), found]

theorem extend_of_stopsBefore {mark : Symbol} {later : List Char}
    (stops : (symbol mark).StopsBefore later) : mark.extend later = (mark, later) := by
  unfold Symbol.extend
  split
  · next long afterEquals longer =>
      have stop := stops '=' rfl
      simp [goesOn, longer] at stop
  · rfl

theorem split_symbol {mark : Symbol} {later : List Char}
    (stops : (symbol mark).StopsBefore later) :
    split (mark.text.toList ++ later) = .symbol mark :: split later := by
  rcases mark.text_shape with ⟨only, text, found⟩ | ⟨first, short, text, found, longer⟩
  · rw [text, List.singleton_append, split_of_ofChar? found, extend_of_stopsBefore stops]
  · rw [text, List.cons_append, split_of_ofChar? found]
    simp [Symbol.extend, longer]

theorem split_foreign {character : Char} {later : List Char}
    (proper : (foreign character).isProper = true) :
    split (character :: later) = .foreign character :: split later := by
  obtain ⟨⟨⟨blank, digit⟩, first⟩, mark⟩ :
      ((Text.isBlank character = false ∧ character.isDigit = false) ∧
        Text.isNameFirst character = false) ∧ Symbol.ofChar? character = none := by
    simpa [isProper, Text.isForeign] using proper
  rw [split, if_neg (by simp [blank]), if_neg (by simp [digit]), if_neg (by simp [first]), mark]

theorem split_append {lexeme : Lexeme} {later : List Char} (proper : lexeme.isProper = true)
    (stops : lexeme.StopsBefore later) :
    split (lexeme.text ++ later) = lexeme :: split later := by
  cases lexeme with
  | digits text => exact split_digits proper stops
  | word text => exact split_word proper stops
  | symbol mark => exact split_symbol stops
  | foreign character => exact split_foreign proper

theorem split_text {lexeme : Lexeme} (proper : lexeme.isProper = true) :
    split lexeme.text = [lexeme] := by
  have alone : split (lexeme.text ++ []) = lexeme :: split [] :=
    split_append proper fun _ front => nomatch front
  rwa [List.append_nil, split_nil] at alone

theorem isProper_of_mem_split {text : List Char} {lexeme : Lexeme}
    (member : lexeme ∈ split text) : lexeme.isProper = true := by
  fun_induction split text with
  | case1 => cases member
  | case2 first later blank ih => exact ih member
  | case3 first later blank digit ih =>
      rcases List.mem_cons.mp member with rfl | further
      · simp [isProper, digit]
      · exact ih further
  | case4 first later blank digit start ih =>
      rcases List.mem_cons.mp member with rfl | further
      · simp only [isProper, isWord, start, Bool.true_and]
        exact List.all_takeWhile
      · exact ih further
  | case5 first later blank digit start found ih =>
      rcases List.mem_cons.mp member with rfl | further
      · simp [isProper, Text.isForeign, blank, digit, start, found]
      · exact ih further
  | case6 first later blank digit start short found ih =>
      rcases List.mem_cons.mp member with rfl | further
      · rfl
      · exact ih further

theorem isBlank_of_mem_text {lexeme : Lexeme} (proper : lexeme.isProper = true)
    {character : Char} (among : character ∈ lexeme.text) : Text.isBlank character = false := by
  cases lexeme with
  | digits text =>
      exact Text.isBlank_of_isDigit
        (List.all_eq_true.mp (Bool.and_eq_true_iff.mp proper).2 character among)
  | word text =>
      cases text with
      | nil => cases proper
      | cons first later =>
          obtain ⟨start, inside⟩ := Bool.and_eq_true_iff.mp proper
          rcases List.mem_cons.mp among with rfl | further
          · exact Text.isBlank_of_isNameFirst start
          · exact Text.isBlank_of_isNameRest (List.all_eq_true.mp inside character further)
  | symbol mark =>
      rcases mark.text_shape with ⟨only, shape, found⟩ | ⟨first, short, shape, found, _⟩
      · rw [text, shape] at among
        cases List.mem_singleton.mp among
        exact (Symbol.classes_of_ofChar? found).1
      · rw [text, shape] at among
        simp only [List.mem_cons, List.not_mem_nil, or_false] at among
        rcases among with rfl | rfl
        · exact (Symbol.classes_of_ofChar? found).1
        · decide
  | foreign other =>
      cases List.mem_singleton.mp among
      simp only [isProper, Text.isForeign, Bool.and_eq_true, Bool.not_eq_true'] at proper
      exact proper.1.1.1

/-- A text falls into lexemes, each of which takes all that goes on with it. -/
inductive Splits : List Char → List Lexeme → Prop where
  | done : Splits [] []
  | blank {first : Char} {later : List Char} {lexemes : List Lexeme} :
      Text.isBlank first = true → Splits later lexemes → Splits (first :: later) lexemes
  | lexeme {lexeme : Lexeme} {later : List Char} {lexemes : List Lexeme} :
      lexeme.isProper = true → lexeme.StopsBefore later → Splits later lexemes →
      Splits (lexeme.text ++ later) (lexeme :: lexemes)

theorem Splits.eq_split {text : List Char} {lexemes : List Lexeme} (splits : Splits text lexemes) :
    split text = lexemes := by
  induction splits with
  | done => exact split_nil
  | blank blank _ ih => rw [split_blank blank, ih]
  | lexeme proper stops _ ih => rw [split_append proper stops, ih]

theorem head?_dropWhile {test : Char → Bool} {later : List Char} :
    ∀ character ∈ (later.dropWhile test).head?, test character = false := by
  intro character front
  have stop := List.head?_dropWhile_not test later
  rw [front] at stop
  exact stop

theorem extend_splits {first : Char} {short : Symbol} (found : Symbol.ofChar? first = some short)
    (later : List Char) :
    first :: later = (symbol (short.extend later).1).text ++ (short.extend later).2 ∧
      (symbol (short.extend later).1).StopsBefore (short.extend later).2 := by
  have spelled := Symbol.text_of_ofChar? found
  unfold Symbol.extend
  split
  · next long afterEquals longer =>
      obtain ⟨spelledLong, last⟩ := Symbol.text_of_withEquals? longer
      refine ⟨by simp [text, spelledLong, spelled], fun character _ => ?_⟩
      simp [goesOn, last]
  · next alone =>
      refine ⟨by simp [text, spelled], fun character front => ?_⟩
      refine Bool.eq_false_iff.mpr fun goes => ?_
      obtain ⟨longer, rfl⟩ : short.withEquals?.isSome = true ∧ character = '=' := by
        simpa [goesOn] using goes
      obtain ⟨long, longer⟩ := Option.isSome_iff_exists.mp longer
      obtain ⟨rest, behind⟩ := List.head?_eq_some_iff.mp front
      exact alone long rest longer behind

theorem splits_split (text : List Char) : Splits text (split text) := by
  fun_induction split text with
  | case1 => exact .done
  | case2 first later blank ih => exact .blank blank ih
  | case3 first later noBlank digit ih =>
      have whole : first :: later =
          (digits (first :: later.takeWhile Char.isDigit)).text ++ later.dropWhile Char.isDigit := by
        simp [Lexeme.text]
      rw [whole]
      exact .lexeme (by simp [isProper, digit]) head?_dropWhile ih
  | case4 first later noBlank noDigit start ih =>
      have whole : first :: later =
          (word (first :: later.takeWhile Text.isNameRest)).text ++
            later.dropWhile Text.isNameRest := by
        simp [Lexeme.text]
      rw [whole]
      exact .lexeme (by simp [isProper, isWord, start, List.all_takeWhile]) head?_dropWhile ih
  | case5 first later blank digit start found ih =>
      have proper : (foreign first).isProper = true := by
        simp [isProper, Text.isForeign, blank, digit, start, found]
      exact .lexeme proper (fun _ _ => rfl) ih
  | case6 first later blank digit start short found ih =>
      obtain ⟨whole, stops⟩ := extend_splits found later
      rw [whole]
      exact .lexeme rfl stops ih

end Lexeme

end TinyScript
