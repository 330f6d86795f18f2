import Mathlib
import TinyScript.Interpreter
import TinyScript.Proofs.Scanning

/-!
# Scanning takes the longest lexemes

A text is cut in exactly one way into blanks and lexemes, each the longest that the text in front
of it can be read as. Nothing is dropped and nothing is added. The tokens are those of the lexemes,
unless one of them is no number of the language; then the first such lexeme decides the failure.
-/

set_option autoImplicit false

namespace TinyScript

namespace Lexeme

/-- A text begins with the lexeme and with no longer one. -/
structure IsLongest (lexeme : Lexeme) (text : List Char) : Prop where
  proper : lexeme.isProper = true
  leads : lexeme.text <+: text
  longest : ∀ other : Lexeme, other.isProper = true → other.text <+: text →
    other.text.length ≤ lexeme.text.length

theorem text_injective {first second : Lexeme} (firstProper : first.isProper = true)
    (secondProper : second.isProper = true) (same : first.text = second.text) : first = second := by
  have splits := split_text firstProper
  rw [same, split_text secondProper] at splits
  exact (List.cons.inj splits).1.symm

theorem text_ne_nil {lexeme : Lexeme} (proper : lexeme.isProper = true) : lexeme.text ≠ [] := by
  intro empty
  have splits := split_text proper
  rw [empty, split_nil] at splits
  cases splits

/-- A lexeme and a character that goes on with it begin a longer lexeme. -/
theorem exists_longer {lexeme : Lexeme} {next : Char} (proper : lexeme.isProper = true)
    (goes : lexeme.goesOn next = true) :
    ∃ longer : Lexeme, longer.isProper = true ∧ longer.text = lexeme.text ++ [next] := by
  cases lexeme with
  | digits run =>
      obtain ⟨_, inside⟩ := Bool.and_eq_true_iff.mp proper
      have digit : next.isDigit = true := goes
      exact ⟨.digits (run ++ [next]), by simp [isProper, inside, digit], rfl⟩
  | word run =>
      cases run with
      | nil => cases proper
      | cons first later =>
          obtain ⟨start, inside⟩ := Bool.and_eq_true_iff.mp proper
          have rest : Text.isNameRest next = true := goes
          refine ⟨.word (first :: later ++ [next]), ?_, rfl⟩
          simp [isProper, isWord, start, inside, rest]
  | symbol mark =>
      obtain ⟨longer, equals⟩ := Bool.and_eq_true_iff.mp goes
      obtain ⟨long, found⟩ := Option.isSome_iff_exists.mp longer
      refine ⟨.symbol long, rfl, ?_⟩
      rw [eq_of_beq equals]
      exact (Symbol.text_of_withEquals? found).1
  | foreign character => cases goes

/-- What a longer lexeme has behind a shorter one goes on with the shorter one. -/
theorem goesOn_of_longer {lexeme longer : Lexeme} {next : Char} {more : List Char}
    (proper : lexeme.isProper = true) (longerProper : longer.isProper = true)
    (extended : longer.text = lexeme.text ++ next :: more) : lexeme.goesOn next = true := by
  cases goes : lexeme.goesOn next with
  | true => rfl
  | false =>
      have stops : lexeme.StopsBefore (next :: more) := by
        intro character front
        cases front
        exact goes
      have splits := split_append proper stops
      rw [← extended, split_text longerProper] at splits
      have length := congrArg List.length extended
      rw [(List.cons.inj splits).1, List.length_append, List.length_cons] at length
      omega

theorem isLongest_iff {lexeme : Lexeme} (proper : lexeme.isProper = true) (later : List Char) :
    lexeme.IsLongest (lexeme.text ++ later) ↔ lexeme.StopsBefore later := by
  constructor
  · intro longest next front
    refine Bool.eq_false_iff.mpr fun goes => ?_
    obtain ⟨longer, longerProper, spelled⟩ := exists_longer proper goes
    obtain ⟨more, rfl⟩ := List.head?_eq_some_iff.mp front
    have short := longest.longest longer longerProper ⟨more, by simp [spelled]⟩
    rw [spelled, List.length_append, List.length_singleton] at short
    omega
  · intro stops
    refine ⟨proper, List.prefix_append _ _, fun other otherProper leads => ?_⟩
    by_contra long
    obtain ⟨more, spelled⟩ := List.prefix_of_prefix_length_le (List.prefix_append lexeme.text later)
      leads (Nat.le_of_not_le long)
    cases more with
    | nil => exact long (Nat.le_of_eq (by rw [← spelled, List.append_nil]))
    | cons next more =>
        have goes := goesOn_of_longer proper otherProper spelled.symm
        rw [← spelled, List.prefix_append_right_inj] at leads
        obtain ⟨behind, rfl⟩ := leads
        rw [stops next rfl] at goes
        cases goes

theorem IsLongest.ne_nil {lexeme : Lexeme} {text : List Char} (longest : lexeme.IsLongest text) :
    text ≠ [] := by
  rintro rfl
  exact text_ne_nil longest.proper (List.prefix_nil.mp longest.leads)

theorem IsLongest.isBlank_head {lexeme : Lexeme} {first : Char} {later : List Char}
    (longest : lexeme.IsLongest (first :: later)) : Text.isBlank first = false := by
  obtain ⟨behind, whole⟩ := longest.leads
  cases spelled : lexeme.text with
  | nil => exact absurd spelled (text_ne_nil longest.proper)
  | cons head tail =>
      rw [spelled] at whole
      cases whole
      exact isBlank_of_mem_text longest.proper (spelled ▸ List.mem_cons_self)

theorem IsLongest.unique {first second : Lexeme} {text : List Char} (longest : first.IsLongest text)
    (longest' : second.IsLongest text) : first = second := by
  have length := Nat.le_antisymm (longest'.longest first longest.proper longest.leads)
    (longest.longest second longest'.proper longest'.leads)
  have leads := List.prefix_of_prefix_length_le longest.leads longest'.leads (Nat.le_of_eq length)
  exact text_injective longest.proper longest'.proper (leads.eq_of_length length)

end Lexeme

/-- What a text consists of. -/
inductive Piece where
  | blank (character : Char)
  | lexeme (content : Lexeme)
  deriving DecidableEq, Repr

namespace Piece

def text : Piece → List Char
  | .blank character => [character]
  | .lexeme content => content.text

def lexeme? : Piece → Option Lexeme
  | .blank _ => none
  | .lexeme content => some content

end Piece

/-- Pieces that make up a text, each lexeme as long as what is left of the text allows. -/
inductive Cuts : List Char → List Piece → Prop where
  | done : Cuts [] []
  | blank {first : Char} {later : List Char} {pieces : List Piece} :
      Text.isBlank first = true → Cuts later pieces → Cuts (first :: later) (.blank first :: pieces)
  | lexeme {lexeme : Lexeme} {text later : List Char} {pieces : List Piece} :
      lexeme.IsLongest text → text = lexeme.text ++ later → Cuts later pieces →
      Cuts text (.lexeme lexeme :: pieces)

namespace Cuts

theorem text {characters : List Char} {pieces : List Piece} (cuts : Cuts characters pieces) :
    pieces.flatMap Piece.text = characters := by
  induction cuts with
  | done => rfl
  | blank _ _ ih => rw [List.flatMap_cons, ih, Piece.text, List.singleton_append]
  | lexeme _ whole _ ih => rw [List.flatMap_cons, ih, Piece.text, whole]

theorem splits {characters : List Char} {pieces : List Piece} (cuts : Cuts characters pieces) :
    Lexeme.Splits characters (pieces.filterMap Piece.lexeme?) := by
  induction cuts with
  | done => exact .done
  | blank blank _ ih => exact .blank blank ih
  | lexeme longest whole _ ih =>
      subst whole
      exact .lexeme longest.proper ((Lexeme.isLongest_iff longest.proper _).mp longest) ih

theorem unique {characters : List Char} {pieces others : List Piece} (cuts : Cuts characters pieces)
    (cuts' : Cuts characters others) : pieces = others := by
  induction cuts generalizing others with
  | done =>
      cases cuts' with
      | done => rfl
      | lexeme longest _ _ => exact absurd rfl longest.ne_nil
  | blank blank _ ih =>
      cases cuts' with
      | blank _ cutsLater => rw [ih cutsLater]
      | lexeme longest _ _ => exact absurd (blank.symm.trans longest.isBlank_head) Bool.noConfusion
  | lexeme longest whole _ ih =>
      cases cuts' with
      | done => exact absurd rfl longest.ne_nil
      | blank blank _ => exact absurd (blank.symm.trans longest.isBlank_head) Bool.noConfusion
      | lexeme longest' whole' cutsLater =>
          cases longest.unique longest'
          rw [whole] at whole'
          cases List.append_cancel_left whole'
          rw [ih cutsLater]

end Cuts

theorem Lexeme.Splits.exists_cuts {characters : List Char} {lexemes : List Lexeme}
    (splits : Splits characters lexemes) : ∃ pieces, Cuts characters pieces := by
  induction splits with
  | done => exact ⟨[], .done⟩
  | @blank first _ _ blank _ ih =>
      obtain ⟨pieces, cuts⟩ := ih
      exact ⟨.blank first :: pieces, .blank blank cuts⟩
  | @lexeme lexeme later _ proper stops _ ih =>
      obtain ⟨pieces, cuts⟩ := ih
      exact ⟨.lexeme lexeme :: pieces, .lexeme ((isLongest_iff proper later).mpr stops) rfl cuts⟩

theorem Cuts.exists_cuts (characters : List Char) : ∃ pieces, Cuts characters pieces :=
  (Lexeme.splits_split characters).exists_cuts

namespace Lexeme

/-- What stands for a lexeme among the tokens: the value of digits, a character that begins nothing
under its tag, or else the text itself. -/
def datum : Lexeme → Datum
  | .digits run => .int (Nat.ofDigitChars 10 run 0)
  | .word run => .text (String.ofList run)
  | .symbol mark => .text mark.text
  | .foreign character => .tuple [.text "illegal", .text (String.singleton character)]

def token (lexeme : Lexeme) : Token :=
  Token.ofDatum lexeme.datum

/-- Whether a lexeme is no number, or one of the language with few enough digits. -/
def isReadable : Lexeme → Bool
  | .digits run =>
      decide (run.length ≤ 4300) && decide (Nat.ofDigitChars 10 run 0 ≤ 2 ^ 31 - 1)
  | .word _ | .symbol _ | .foreign _ => true

end Lexeme

/-- What the lexemes of a text are scanned to. The first number that cannot be read decides the
failure. -/
inductive ScansAs : List Lexeme → Except Failure (List Token) → Prop where
  | tokens {lexemes : List Lexeme} : (∀ lexeme ∈ lexemes, lexeme.isReadable = true) →
      ScansAs lexemes (.ok (lexemes.map Lexeme.token ++ [.endMark]))
  | tooManyDigits {earlier later : List Lexeme} {run : List Char} :
      (∀ lexeme ∈ earlier, lexeme.isReadable = true) → 4300 < run.length →
      ScansAs (earlier ++ .digits run :: later)
        (.error ⟨.unusable,
          "Exceeds the limit (4300 digits) for integer string conversion: value has " ++
            run.length.repr ++
            " digits; use sys.set_int_max_str_digits() to increase the limit"⟩)
  | outOfRange {earlier later : List Lexeme} {run : List Char} :
      (∀ lexeme ∈ earlier, lexeme.isReadable = true) → run.length ≤ 4300 →
      2 ^ 31 - 1 < Nat.ofDigitChars 10 run 0 →
      ScansAs (earlier ++ .digits run :: later)
        (.error ⟨.language .grammar,
          "Integer literal out of range @ _number(): " ++ (Nat.ofDigitChars 10 run 0).repr⟩)

theorem ScansAs.cons {first : Lexeme} {lexemes : List Lexeme} {tokens : List Token}
    (readable : first.isReadable = true) (scans : ScansAs lexemes (.ok tokens)) :
    ScansAs (first :: lexemes) (.ok (first.token :: tokens)) := by
  cases scans with
  | tokens others => exact .tokens (List.forall_mem_cons.mpr ⟨readable, others⟩)

theorem ScansAs.cons_error {first : Lexeme} {lexemes : List Lexeme} {failure : Failure}
    (readable : first.isReadable = true) (scans : ScansAs lexemes (.error failure)) :
    ScansAs (first :: lexemes) (.error failure) := by
  cases scans with
  | @tooManyDigits earlier later run others long =>
      exact @tooManyDigits (first :: earlier) later run
        (List.forall_mem_cons.mpr ⟨readable, others⟩) long
  | @outOfRange earlier later run others short large =>
      exact @outOfRange (first :: earlier) later run
        (List.forall_mem_cons.mpr ⟨readable, others⟩) short large

theorem Keyword.text_of_ofText? {spelling : String} {word : Keyword}
    (found : ofText? spelling = some word) : word.text = spelling := by
  unfold ofText? at found
  split at found <;> cases found
  all_goals rfl

theorem Symbol.token (mark : Symbol) : (Lexeme.symbol mark).token = .symbol mark := by
  cases mark <;> rfl

theorem Symbol.ofText?_of_isWord {run : List Char} (proper : Lexeme.isWord run = true) :
    Symbol.ofText? (String.ofList run) = none := by
  cases run with
  | nil => cases proper
  | cons first later =>
      have start := (Bool.and_eq_true_iff.mp proper).1
      have noMark : ofChar? first = none := by
        by_contra found
        obtain ⟨mark, found⟩ := Option.ne_none_iff_exists'.mp found
        rw [(classes_of_ofChar? found).2.2] at start
        cases start
      unfold ofText?
      rw [String.toList_ofList]
      split
      · next whole =>
          cases whole
          exact noMark
      · next whole =>
          cases whole
          rw [noMark]
          rfl
      · rfl

namespace Token

theorem ofText_ofList_of_isWord {run : List Char} (proper : Lexeme.isWord run = true) :
    ofText (String.ofList run) = ofWord run := by
  unfold ofText ofWord
  rw [Symbol.ofText?_of_isWord proper, String.toList_ofList]
  cases run with
  | nil => cases proper
  | cons first later =>
      have start := (Bool.and_eq_true_iff.mp proper).1
      cases Keyword.ofText? (String.ofList (first :: later)) with
      | some word => rfl
      | none => simp only [start, if_true]

theorem ofLexeme_of_isReadable {lexeme : Lexeme} (proper : lexeme.isProper = true)
    (readable : lexeme.isReadable = true) : ofLexeme lexeme = .ok lexeme.token := by
  cases lexeme with
  | digits run =>
      obtain ⟨few, small⟩ : run.length ≤ 4300 ∧ Nat.ofDigitChars 10 run 0 ≤ 2 ^ 31 - 1 := by
        simpa [Lexeme.isReadable] using readable
      have few' : ¬ ScanError.digitLimit < run.length := Nat.not_lt_of_le few
      have small' : ¬ intMax < (Nat.ofDigitChars 10 run 0 : Int) := by
        unfold intMax
        omega
      simp only [ofLexeme, ofDigits, if_neg few', if_neg small']
      rfl
  | word run => exact congrArg Except.ok (ofText_ofList_of_isWord proper).symm
  | symbol mark => exact congrArg Except.ok (Symbol.token mark).symm
  | foreign character => rfl

theorem exists_fault {lexeme : Lexeme} (later : List Lexeme)
    (unreadable : lexeme.isReadable = false) :
    ∃ fault : ScanError, ofLexeme lexeme = .error fault ∧
      ScansAs (lexeme :: later) (.error fault.failure) := by
  cases lexeme with
  | word | symbol | foreign => cases unreadable
  | digits run =>
      have noneEarlier : ∀ lexeme ∈ ([] : List Lexeme), lexeme.isReadable = true :=
        fun _ among => absurd among List.not_mem_nil
      by_cases long : 4300 < run.length
      · have long' : ScanError.digitLimit < run.length := long
        refine ⟨.tooManyDigits run.length, ?_, .tooManyDigits noneEarlier long⟩
        rw [ofLexeme, ofDigits, if_pos long']
      · have short : ¬ ScanError.digitLimit < run.length := long
        have large : 2 ^ 31 - 1 < Nat.ofDigitChars 10 run 0 := by
          simpa [Lexeme.isReadable, Nat.not_lt.mp long] using unreadable
        have large' : intMax < (Nat.ofDigitChars 10 run 0 : Int) := by
          unfold intMax
          omega
        refine ⟨.outOfRange (Nat.ofDigitChars 10 run 0), ?_,
          .outOfRange noneEarlier (Nat.not_lt.mp long) large⟩
        simp only [ofLexeme, ofDigits, if_neg short, if_pos large']

theorem scansAs_mapM_ofLexeme {lexemes : List Lexeme}
    (proper : ∀ lexeme ∈ lexemes, lexeme.isProper = true) :
    ScansAs lexemes
      (Except.mapError ScanError.failure do return (← lexemes.mapM ofLexeme) ++ [.endMark]) := by
  induction lexemes with
  | nil => exact .tokens fun _ among => nomatch among
  | cons first later ih =>
      obtain ⟨firstProper, laterProper⟩ := List.forall_mem_cons.mp proper
      specialize ih laterProper
      rw [List.mapM_cons]
      cases readable : first.isReadable with
      | true =>
          rw [ofLexeme_of_isReadable firstProper readable]
          cases given : later.mapM ofLexeme with
          | ok tokens =>
              rw [given] at ih
              exact ih.cons readable
          | error fault =>
              rw [given] at ih
              exact ih.cons_error readable
      | false =>
          obtain ⟨fault, failed, scans⟩ := exists_fault later readable
          rw [failed]
          exact scans

theorem toDatum_ofWord (run : List Char) :
    (ofWord run).toDatum = .text (String.ofList run) ∧ ofWord run ≠ .endMark := by
  unfold ofWord
  split
  · next word found =>
      refine ⟨?_, Token.noConfusion⟩
      rw [toDatum, Keyword.text_of_ofText? found]
  · exact ⟨rfl, Token.noConfusion⟩

theorem toDatum_token {lexeme : Lexeme} (proper : lexeme.isProper = true) :
    lexeme.token.toDatum = lexeme.datum ∧ lexeme.token ≠ .endMark := by
  cases lexeme with
  | digits run => exact ⟨rfl, Token.noConfusion⟩
  | word run =>
      have token : (Lexeme.word run).token = ofWord run := ofText_ofList_of_isWord proper
      rw [token]
      exact toDatum_ofWord run
  | symbol mark =>
      rw [mark.token]
      exact ⟨rfl, Token.noConfusion⟩
  | foreign character => exact ⟨rfl, Token.noConfusion⟩

/-- A text is cut into blanks and longest lexemes in one way, which leaves out nothing, and is
scanned to the tokens of the lexemes or to the failure of the first number that cannot be read. -/
theorem ofSource_follows_lexemes (source : String) :
    ∃ pieces, Cuts source.toList pieces ∧
      (∀ others, Cuts source.toList others → others = pieces) ∧
      pieces.flatMap Piece.text = source.toList ∧
      ScansAs (pieces.filterMap Piece.lexeme?) (ofSource source) ∧
      ∀ lexeme ∈ pieces.filterMap Piece.lexeme?,
        lexeme.token.toDatum = lexeme.datum ∧ lexeme.token ≠ .endMark := by
  obtain ⟨pieces, cuts⟩ := Cuts.exists_cuts source.toList
  have lexemes := cuts.splits.eq_split
  refine ⟨pieces, cuts, fun others cuts' => cuts'.unique cuts, cuts.text, ?_, ?_⟩
  · rw [← lexemes]
    exact scansAs_mapM_ofLexeme fun lexeme among => Lexeme.isProper_of_mem_split among
  · intro lexeme among
    rw [← lexemes] at among
    exact toDatum_token (Lexeme.isProper_of_mem_split among)

end Token

end TinyScript
