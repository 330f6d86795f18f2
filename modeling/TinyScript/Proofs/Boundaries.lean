import TinyScript.Proofs.LongestMatch

/-!
# Boundaries between texts

Two texts, one right behind the other, are scanned as each is by itself, unless the last lexeme of
the first takes in the beginning of the second. Blanks keep lexemes apart whatever they are, so one
gap is as good as another.
-/

set_option autoImplicit false

namespace TinyScript

/-- A text ends in the lexeme, with no blank behind it. -/
def EndsIn (text : List Char) (lexeme : Lexeme) : Prop :=
  ∃ pieces, Cuts text (pieces ++ [.lexeme lexeme])

theorem EndsIn.getLast?_split {text : List Char} {lexeme : Lexeme} (ends : EndsIn text lexeme) :
    lexeme ∈ (Lexeme.split text).getLast? := by
  obtain ⟨pieces, cuts⟩ := ends
  rw [cuts.splits.eq_split, List.filterMap_append]
  exact List.getLast?_concat

/-- The last lexeme of a text does not end where another text begins right behind it. -/
inductive Merges (first second : List Char) : Prop where
  | word {run : List Char} {next : Char} :
      EndsIn first (.word run) → next ∈ second.head? → Text.isNameRest next = true →
      Merges first second
  | digits {run : List Char} {next : Char} :
      EndsIn first (.digits run) → next ∈ second.head? → next.isDigit = true →
      Merges first second
  | symbol {mark : Symbol} :
      EndsIn first (.symbol mark) → mark ∈ [Symbol.assign, .bang, .less] → '=' ∈ second.head? →
      Merges first second

theorem Symbol.withEquals?_isSome_iff (mark : Symbol) :
    mark.withEquals?.isSome = true ↔ mark ∈ [assign, bang, less] := by
  cases mark <;> decide

theorem merges_iff {first second : List Char} :
    Merges first second ↔ ∃ lexeme, EndsIn first lexeme ∧ ¬ lexeme.StopsBefore second := by
  constructor
  · intro merges
    cases merges with
    | @word run next ends front rest =>
        exact ⟨.word run, ends, fun stops => Bool.eq_false_iff.mp (stops next front) rest⟩
    | @digits run next ends front digit =>
        exact ⟨.digits run, ends, fun stops => Bool.eq_false_iff.mp (stops next front) digit⟩
    | @symbol mark ends short front =>
        refine ⟨.symbol mark, ends, fun stops => Bool.eq_false_iff.mp (stops '=' front) ?_⟩
        exact Bool.and_eq_true_iff.mpr ⟨mark.withEquals?_isSome_iff.mpr short, rfl⟩
  · rintro ⟨lexeme, ends, goes⟩
    simp only [Lexeme.StopsBefore, not_forall, Bool.not_eq_false] at goes
    obtain ⟨next, front, goes⟩ := goes
    cases lexeme with
    | digits run => exact .digits ends front goes
    | word run => exact .word ends front goes
    | symbol mark =>
        obtain ⟨longer, equals⟩ := Bool.and_eq_true_iff.mp goes
        rw [eq_of_beq equals] at front
        exact .symbol ends (mark.withEquals?_isSome_iff.mp longer) front
    | foreign character => cases goes

theorem Lexeme.StopsBefore.append {lexeme : Lexeme} {later : List Char}
    (stops : lexeme.StopsBefore later) (nonempty : later ≠ []) (second : List Char) :
    lexeme.StopsBefore (later ++ second) := by
  cases later with
  | nil => exact absurd rfl nonempty
  | cons next further => exact stops

namespace Cuts

variable {first second : List Char} {pieces others : List Piece}

theorem append (cuts : Cuts first pieces) (cutsLater : Cuts second others)
    (apart : ∀ lexeme, EndsIn first lexeme → lexeme.StopsBefore second) :
    Cuts (first ++ second) (pieces ++ others) := by
  induction cuts with
  | done => exact cutsLater
  | @blank head _ _ blank _ ih =>
      refine .blank blank (ih fun lexeme ends => apart lexeme ?_)
      obtain ⟨inner, cuts⟩ := ends
      exact ⟨.blank head :: inner, .blank blank cuts⟩
  | @lexeme lexeme _ later _ longest whole cuts ih =>
      subst whole
      have apartLater (last : Lexeme) (ends : EndsIn later last) : last.StopsBefore second := by
        obtain ⟨inner, cuts⟩ := ends
        exact apart last ⟨.lexeme lexeme :: inner, .lexeme longest rfl cuts⟩
      have stops : lexeme.StopsBefore (later ++ second) := by
        -- Only the last piece of the first text sees the beginning of the second.
        cases later with
        | nil => exact apart lexeme ⟨[], .lexeme longest rfl .done⟩
        | cons next further =>
            have stops := (Lexeme.isLongest_iff longest.proper _).mp longest
            exact stops.append (List.cons_ne_nil next further) second
      rw [List.append_assoc]
      exact .lexeme ((Lexeme.isLongest_iff longest.proper _).mpr stops) rfl (ih apartLater)

theorem ne_nil_of_concat {piece : Piece} (cuts : Cuts first (pieces ++ [piece])) : first ≠ [] := by
  rintro rfl
  exact List.append_ne_nil_of_right_ne_nil pieces (List.cons_ne_nil piece []) (cuts.unique .done)

/-- The lexemes in front of the last one stay what they are whatever follows. -/
theorem split_append_of_last {lexeme : Lexeme} (cuts : Cuts first (pieces ++ [.lexeme lexeme]))
    (second : List Char) : Lexeme.split (first ++ second) =
      pieces.filterMap Piece.lexeme? ++ Lexeme.split (lexeme.text ++ second) := by
  induction pieces generalizing first with
  | nil =>
      cases cuts with
      | lexeme _ whole rest =>
          cases rest
          rw [whole, List.append_nil]
          rfl
  | cons piece pieces ih =>
      cases cuts with
      | blank blank rest =>
          rw [List.cons_append, Lexeme.split_blank blank, ih rest]
          rfl
      | lexeme longest whole rest =>
          subst whole
          have stops := (Lexeme.isLongest_iff longest.proper _).mp longest
          have later := rest.ne_nil_of_concat
          rw [List.append_assoc, Lexeme.split_append longest.proper (stops.append later second),
            ih rest]
          rfl

end Cuts

namespace Lexeme

theorem stopsBefore_of_split {lexeme : Lexeme} {second : List Char} {lexemes : List Lexeme}
    (proper : lexeme.isProper = true) (splits : split (lexeme.text ++ second) = lexeme :: lexemes) :
    lexeme.StopsBefore second := by
  refine (isLongest_iff proper second).mp ?_
  obtain ⟨pieces, cuts⟩ := Cuts.exists_cuts (lexeme.text ++ second)
  rw [cuts.splits.eq_split] at splits
  generalize whole : lexeme.text ++ second = text at cuts ⊢
  cases cuts with
  | done => cases splits
  | blank blank _ =>
      cases spelled : lexeme.text with
      | nil => exact absurd spelled (text_ne_nil proper)
      | cons head tail =>
          rw [spelled] at whole
          cases whole
          rw [isBlank_of_mem_text proper (spelled ▸ List.mem_cons_self)] at blank
          cases blank
  | lexeme longest _ _ =>
      cases splits
      exact longest

/-- The lexemes of two texts are those of the text that they make exactly if none goes from the one
into the other. -/
theorem split_append_iff {first second : List Char} :
    split (first ++ second) = split first ++ split second ↔ ¬ Merges first second := by
  rw [merges_iff]
  constructor
  · rintro additive ⟨lexeme, ⟨pieces, cuts⟩, goes⟩
    have lexemes : split first = pieces.filterMap Piece.lexeme? ++ [lexeme] := by
      rw [cuts.splits.eq_split, List.filterMap_append]
      rfl
    have among : lexeme ∈ split first := by simp [lexemes]
    rw [cuts.split_append_of_last, lexemes, List.append_assoc] at additive
    exact goes (stopsBefore_of_split (isProper_of_mem_split among) (List.append_cancel_left additive))
  · intro apart
    have stops (lexeme : Lexeme) (ends : EndsIn first lexeme) : lexeme.StopsBefore second :=
      by_contra fun goes => apart ⟨lexeme, ends, goes⟩
    obtain ⟨pieces, cuts⟩ := Cuts.exists_cuts first
    obtain ⟨others, cutsLater⟩ := Cuts.exists_cuts second
    rw [(cuts.append cutsLater stops).splits.eq_split, List.filterMap_append,
      cuts.splits.eq_split, cutsLater.splits.eq_split]

theorem split_gap {gap : List Char} (nonempty : gap ≠ []) (blank : gap.all Text.isBlank = true)
    (before after : List Char) : split (before ++ gap ++ after) = split before ++ split after := by
  have apart : ¬ Merges before (gap ++ after) := by
    rw [merges_iff]
    rintro ⟨lexeme, _, goes⟩
    refine goes (StopsBefore.append ?_ nonempty after)
    intro character front
    exact Token.goesOn_of_isBlank (List.all_eq_true.mp blank _ (List.mem_of_mem_head? front)) lexeme
  rw [List.append_assoc, split_append_iff.mpr apart, split_blanks blank]

end Lexeme

namespace Token

theorem ofSource_congr {first second : String}
    (same : Lexeme.split first.toList = Lexeme.split second.toList) :
    ofSource first = ofSource second := by
  unfold ofSource scan
  rw [same]

theorem ofSource_of_split_append {first second whole : String}
    (splits : Lexeme.split whole.toList =
      Lexeme.split first.toList ++ Lexeme.split second.toList) :
    ofSource whole = do
      let earlier ← ofSource first
      let later ← ofSource second
      return earlier.dropLast ++ later := by
  unfold ofSource scan
  rw [splits, List.mapM_append]
  cases (Lexeme.split first.toList).mapM ofLexeme with
  | error fault => rfl
  | ok words =>
      cases (Lexeme.split second.toList).mapM ofLexeme with
      | error fault => rfl
      | ok others =>
          refine congrArg Except.ok ?_
          rw [List.dropLast_concat, List.append_assoc]

/-- Two texts, one behind the other, are scanned to the tokens of both unless a lexeme goes from the
one into the other, and the first failure is that of the whole. One gap is as good as another. -/
theorem ofSource_respects_boundaries :
    (∀ first second : String, ¬ Merges first.toList second.toList →
      ofSource (first ++ second) = do
        let earlier ← ofSource first
        let later ← ofSource second
        return earlier.dropLast ++ later) ∧
    ∀ before gap other after : String, gap ≠ "" → other ≠ "" →
      gap.toList.all Text.isBlank = true → other.toList.all Text.isBlank = true →
      ofSource (before ++ gap ++ after) = ofSource (before ++ other ++ after) := by
  constructor
  · intro first second apart
    refine ofSource_of_split_append ?_
    rw [String.toList_append, Lexeme.split_append_iff.mpr apart]
  · intro before gap other after gapNonempty otherNonempty gapBlank otherBlank
    have gapSplits := Lexeme.split_gap (by simpa using gapNonempty) gapBlank before.toList after.toList
    have otherSplits :=
      Lexeme.split_gap (by simpa using otherNonempty) otherBlank before.toList after.toList
    refine ofSource_congr ?_
    simp only [String.toList_append, gapSplits, otherSplits]

theorem ofSource_respects_boundaries_number_name :
    ¬ Merges "3".toList "x".toList ∧
      ofSource ("3" ++ "x") = .ok [.int 3, .name "x", .endMark] ∧
      ofSource ("fn" ++ " " ++ "x") = ofSource ("fn" ++ "\t\n" ++ "x") := by
  have apart : ¬ Merges "3".toList "x".toList := Lexeme.split_append_iff.mp (by cbv)
  have number : ofSource "3" = .ok [.int 3, .endMark] := by
    set_option maxRecDepth 10000 in cbv
  have name : ofSource "x" = .ok [.name "x", .endMark] := by
    set_option maxRecDepth 10000 in cbv
  refine ⟨apart, ?_, ?_⟩
  · rw [ofSource_respects_boundaries.1 "3" "x" apart, number, name]
    rfl
  · exact ofSource_respects_boundaries.2 "fn" " " "\t\n" "x" (by decide) (by decide) (by decide)
      (by decide)

end Token

end TinyScript
