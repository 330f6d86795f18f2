import TinyScript.Token.Lexeme

/-!
# The classes of characters do not overlap

A lexeme is known by its first character, because no character is at once blank, a digit, the
beginning of a name or a symbol.
-/

set_option autoImplicit false

namespace TinyScript

namespace Text

theorem Ranges.exists_of_contains {ranges : Ranges} {code : Nat}
    (contained : ranges.contains code = true) :
    ∃ range ∈ ranges, range.1 ≤ code ∧ code ≤ range.2 := by
  induction ranges with
  | nil => simp [contains] at contained
  | cons range later ih =>
      obtain ⟨low, high⟩ := range
      simp only [contains] at contained
      split at contained
      · cases contained
      · next beyond =>
          rw [Bool.or_eq_true, decide_eq_true_eq] at contained
          rcases contained with inside | further
          · exact ⟨(low, high), .head _, Nat.le_of_not_lt beyond, inside⟩
          · obtain ⟨found, member, bounds⟩ := ih further
            exact ⟨found, .tail _ member, bounds⟩

/-- Whether no range of one class touches one of the other. -/
def Ranges.apart (left right : Ranges) : Bool :=
  left.all fun first => right.all fun second => first.2 < second.1 || second.2 < first.1

theorem Ranges.not_both_contain {left right : Ranges} (apart : left.apart right = true)
    {code : Nat} (inLeft : left.contains code = true) : right.contains code = false := by
  cases inRight : right.contains code with
  | false => rfl
  | true =>
      obtain ⟨first, firstMember, firstLow, firstHigh⟩ := exists_of_contains inLeft
      obtain ⟨second, secondMember, secondLow, secondHigh⟩ := exists_of_contains inRight
      have disjoint := List.all_eq_true.mp (List.all_eq_true.mp apart first firstMember)
        second secondMember
      simp only [Bool.or_eq_true, decide_eq_true_eq] at disjoint
      omega

def digitRanges : Ranges := [(0x30, 0x39)]

theorem digitRanges_contains {character : Char} (digit : character.isDigit = true) :
    digitRanges.contains character.toNat = true := by
  obtain ⟨low, high⟩ := Char.isDigit_iff_toNat.mp digit
  have low' : ¬ character.toNat < 0x30 := Nat.not_lt_of_le low
  have high' : character.toNat ≤ 0x39 := high
  simp [digitRanges, Ranges.contains, low', high']

theorem isBlank_of_isDigit {character : Char} (digit : character.isDigit = true) :
    isBlank character = false :=
  Ranges.not_both_contain (by decide) (digitRanges_contains digit)

theorem isLetter_of_isDigit {character : Char} (digit : character.isDigit = true) :
    isLetter character = false :=
  Ranges.not_both_contain (by decide +kernel) (digitRanges_contains digit)

theorem isBlank_of_isLetter {character : Char} (letter : isLetter character = true) :
    isBlank character = false :=
  Ranges.not_both_contain (by decide +kernel) letter

theorem isDigit_of_isNameFirst {character : Char} (first : isNameFirst character = true) :
    character.isDigit = false := by
  cases digit : character.isDigit with
  | false => rfl
  | true =>
      rcases Bool.or_eq_true_iff.mp first with letter | underscore
      · rw [isLetter_of_isDigit digit] at letter
        cases letter
      · rw [eq_of_beq underscore] at digit
        cases digit

theorem isBlank_of_isNameFirst {character : Char} (first : isNameFirst character = true) :
    isBlank character = false := by
  rcases Bool.or_eq_true_iff.mp first with letter | underscore
  · exact isBlank_of_isLetter letter
  · rw [eq_of_beq underscore]
    decide

theorem isBlank_of_isNumeral {character : Char} (numeral : isNumeral character = true) :
    isBlank character = false :=
  Ranges.not_both_contain (by decide +kernel) numeral

theorem isBlank_of_isNameRest {character : Char} (rest : isNameRest character = true) :
    isBlank character = false := by
  simp only [isNameRest, Bool.or_eq_true, beq_iff_eq] at rest
  rcases rest with (letter | numeral) | rfl
  · exact isBlank_of_isLetter letter
  · exact isBlank_of_isNumeral numeral
  · decide

end Text

theorem Symbol.classes_of_ofChar? {character : Char} {mark : Symbol}
    (found : Symbol.ofChar? character = some mark) :
    Text.isBlank character = false ∧ character.isDigit = false ∧
      Text.isNameFirst character = false := by
  unfold Symbol.ofChar? at found
  split at found <;> cases found
  all_goals decide

theorem Symbol.text_shape (mark : Symbol) :
    (∃ only, mark.text.toList = [only] ∧ ofChar? only = some mark) ∨
      ∃ first short, mark.text.toList = [first, '='] ∧ ofChar? first = some short ∧
        short.withEquals? = some mark := by
  cases mark with
  | lessOrEqual => exact .inr ⟨'<', .less, rfl, rfl, rfl⟩
  | equal => exact .inr ⟨'=', .assign, rfl, rfl, rfl⟩
  | notEqual => exact .inr ⟨'!', .bang, rfl, rfl, rfl⟩
  | _ => exact .inl ⟨_, rfl, rfl⟩

theorem Symbol.text_of_ofChar? {first : Char} {short : Symbol}
    (found : ofChar? first = some short) : short.text.toList = [first] := by
  unfold ofChar? at found
  split at found <;> cases found
  all_goals rfl

theorem Symbol.text_of_withEquals? {short long : Symbol} (longer : short.withEquals? = some long) :
    long.text.toList = short.text.toList ++ ['='] ∧ long.withEquals? = none := by
  cases short <;> cases longer
  all_goals exact ⟨rfl, rfl⟩

end TinyScript
