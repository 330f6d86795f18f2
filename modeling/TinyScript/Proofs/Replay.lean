import TinyScript.Proofs.Braces
import TinyScript.Proofs.LineByLine

/-!
# Replaying what an execution shows

An execution can print each statement before it evaluates it. What it prints is one line for every
statement, which is a program with this statement alone. So a shell takes every such line for source
text that is complete, and the lines do in it what the execution did.
-/

set_option autoImplicit false

namespace TinyScript

namespace Token

/-- Laid out tokens stand on one line: no blank but spaces is among their characters. -/
theorem eq_space_of_mem_layout {tokens : List Token} (plain : tokens.all isPlain = true)
    {character : Char} (among : character ∈ layout tokens)
    (blank : Text.isBlank character = true) : character = ' ' := by
  induction tokens with
  | nil => cases among
  | cons first later ih =>
      obtain ⟨firstPlain, laterPlain⟩ := Bool.and_eq_true_iff.mp plain
      obtain ⟨lexeme, proper, _, text⟩ := exists_lexeme firstPlain
      rw [layout_cons, List.mem_append, List.mem_append, ← text] at among
      rcases among with inFirst | inGap | inLater
      · rw [Lexeme.isBlank_of_mem_text proper inFirst] at blank
        cases blank
      · unfold gap at inGap
        split at inGap
        · cases inGap
        · split at inGap
          · cases inGap
          · exact List.mem_singleton.mp inGap
      · exact ih laterPlain inLater

end Token

namespace Program

/-- A program that is not empty has a semicolon or a closing brace in its text. -/
theorem exists_closing_of_ofSource {source : String} {program : Program}
    (parsed : ofSource source = .ok program) (nonempty : program ≠ []) :
    ∃ character ∈ [';', '\x7d'], character ∈ source.toList := by
  obtain ⟨words, given, ⟨derivation⟩⟩ := ofSource_eq_ok_iff.mp parsed
  have inText {character : Char} {mark : Symbol} (spelled : Symbol.ofChar? character = some mark)
      (alone : mark.withEquals? = none) (last : [.symbol mark] <:+ words) :
      character ∈ source.toList := by
    rw [← List.count_pos_iff, ← (Lexeme.splits_split source.toList).count_symbol spelled alone,
      ← Token.count_symbol_of_mapM given mark]
    exact List.count_pos_iff.mpr (last.mem (.head _))
  rcases derivation.closes (by simp) with empty | ⟨mark, closing, last⟩
  · cases derivation with
    | noStatements => exact absurd rfl nonempty
    | someStatements statement _ =>
        obtain ⟨first, later, rfl, _⟩ := statement.opens
        cases empty
  · simp only [List.mem_cons, List.not_mem_nil, or_false] at closing
    rcases closing with rfl | rfl
    · exact ⟨';', .head _, inText rfl rfl last⟩
    · exact ⟨'\x7d', .tail _ (.head _), inText rfl rfl last⟩

end Program

/-- The program of the line that a statement is printed as is this statement. -/
theorem Node.ofSource_source {statement : Node} {text : String}
    (wellFormed : statement.isWellFormed = true) (printed : statement.source .statement = .ok text) :
    Program.ofSource text = .ok [statement] := by
  obtain ⟨words, spelled, _⟩ := (prints_of_isWellFormed statement wellFormed).2
  cases printed.symm.trans (source_of_spell spelled)
  have alone : areWellFormed [statement] = true := by simp [areWellFormed, wellFormed]
  obtain ⟨text, printedAlone, parsed⟩ := Program.source_of_areWellFormed alone
  cases printedAlone.symm.trans (Program.source_of_spellAll (spellAll_single spelled))
  exact parsed

namespace Shell

/-- A line with a program that is not empty is executed as it is, if nothing is held back. -/
theorem executed?_of_ofSource (machine : Machine) {line : String} {program : Program}
    (parsed : Program.ofSource line = .ok program) (nonempty : program ≠ []) :
    (⟨machine, ""⟩ : Shell).executed? line = some line := by
  obtain ⟨character, closing, among⟩ := Program.exists_closing_of_ofSource parsed nonempty
  have outside (word : String) (apart : ';' ∉ word.toList ∧ '\x7d' ∉ word.toList) :
      character ∉ word.toList := by
    simp only [List.mem_cons, List.not_mem_nil, or_false] at closing
    rcases closing with rfl | rfl
    · exact apart.1
    · exact apart.2
  have noEnd : line ≠ endOfInput := by
    rintro rfl
    exact outside endOfInput (by decide) among
  have noWord : stripped line ∉ ["", "exit", "help"] := by
    have solid : Text.isBlank character = false := by
      simp only [List.mem_cons, List.not_mem_nil, or_false] at closing
      rcases closing with rfl | rfl <;> decide
    have kept := mem_stripped among solid
    intro word
    simp only [List.mem_cons, List.not_mem_nil, or_false] at word
    rcases word with same | same | same
    all_goals
      rw [same] at kept
      exact outside _ (by decide) kept
  have source : (⟨machine, ""⟩ : Shell).isCommand line = false := by
    simp [isCommand, noEnd, List.contains_eq_mem, noWord]
  have complete : isIncomplete line = false := by
    simp [isIncomplete, Program.count_braces_of_ofSource parsed]
  simp [executed?, source, complete]

/-- Lines given to a shell one by one are all executed at once, each as it is. They print and leave
what an execution does, and one of them does not let the session go on only where this does not. -/
structure Replays (mode : ExecutionMode) (shell : Shell) (lines : List String) (limit : Nat)
    (execution : Execution) : Prop where
  executes : ∀ earlier line later, lines = earlier ++ line :: later →
    (shell.takeLines mode earlier limit).executed? line = some line
  prints : (shell.answers mode lines limit).flatMap ShellAnswer.lines = execution.lines
  ends : ∀ ending, ending ≠ .proceed →
    ((∃ answer ∈ shell.answers mode lines limit, answer.ending = ending) ↔
      execution.ending = ending)
  leaves : shell.takeLines mode lines limit = ⟨execution.machine, ""⟩

section

variable {mode : ExecutionMode} {machine : Machine} {line : String} {later : List String}
  {limit : Nat} {first execution : Execution}

theorem Replays.nil : (⟨machine, ""⟩ : Shell).Replays mode [] limit ⟨[], .proceed, machine⟩ where
  executes earlier line later split := by simp at split
  prints := rfl
  ends ending breaks := by simp [answers, breaks.symm]
  leaves := rfl

/-- A line whose execution lets the session go on is replayed in front of others. -/
theorem Replays.cons (executes : (⟨machine, ""⟩ : Shell).executed? line = some line)
    (executed : Execution.ofSource mode machine line limit = first)
    (proceeds : first.ending = .proceed)
    (replays : (⟨first.machine, ""⟩ : Shell).Replays mode later limit execution) :
    (⟨machine, ""⟩ : Shell).Replays mode (line :: later) limit
      { execution with lines := first.lines ++ execution.lines } := by
  have answered := takeLine_of_executed?_eq_some mode limit executes
  rw [executed] at answered
  dsimp only at answered
  have next (lines : List String) : (⟨machine, ""⟩ : Shell).takeLines mode (line :: lines) limit =
      (⟨first.machine, ""⟩ : Shell).takeLines mode lines limit := by
    simp only [takeLines, List.foldl_cons, answered]
  have whole : (⟨machine, ""⟩ : Shell).answers mode (line :: later) limit =
      ⟨first.lines, first.ending, ⟨first.machine, ""⟩⟩ ::
        (⟨first.machine, ""⟩ : Shell).answers mode later limit := by
    rw [answers, answered]
  constructor
  · intro earlier other behind split
    cases earlier with
    | nil =>
        cases split
        exact executes
    | cons _ earlier =>
        cases split
        rw [next]
        exact replays.executes earlier other behind rfl
  · rw [whole, List.flatMap_cons, replays.prints]
  · intro ending breaks
    rw [whole]
    simp [proceeds, breaks.symm, replays.ends ending breaks]
  · rw [next, replays.leaves]

theorem Replays.single (executes : (⟨machine, ""⟩ : Shell).executed? line = some line)
    (executed : Execution.ofSource mode machine line limit = execution) :
    (⟨machine, ""⟩ : Shell).Replays mode [line] limit execution := by
  have answered := takeLine_of_executed?_eq_some mode limit executes
  rw [executed] at answered
  dsimp only at answered
  constructor
  · intro earlier other behind split
    cases earlier with
    | nil =>
        cases split
        exact executes
    | cons _ earlier => simp at split
  · simp [answers, answered]
  · simp [answers, answered]
  · simp [takeLines, answered]

end

end Shell

def Line.traced? : Line → Option String
  | .trace source => some source
  | _ => none

/-- The statements that an execution shows, as they are printed. -/
def Execution.traces (execution : Execution) : List String :=
  execution.lines.filterMap Line.traced?

namespace Execution

theorem ofValue_traces (mode : ExecutionMode) (machine : Machine) (statement : Node) (limit : Nat) :
    (ofValue mode machine statement limit).traces = [] := by
  unfold ofValue
  split
  · rfl
  · next failure after _ =>
      cases report : failure.report? with
      | none => simp [Report.ofFailure, report, traces]
      | some told => simp [Report.ofFailure, Report.announce, report, traces, Line.traced?]

theorem ofProgram_single (mode : ExecutionMode) (machine : Machine) (statement : Node)
    (limit : Nat) :
    ofProgram mode machine [statement] limit = ofStatement mode machine statement limit := by
  simp only [ofProgram]
  split
  · next proceeds => simp [proceeds.symm]
  · rfl

theorem traces_cons (machine : Machine) {first : Node} {text : String}
    (printed : first.source .statement = .ok text) (later : Program) (limit : Nat) :
    (ofProgram ⟨false, true⟩ machine (first :: later) limit).traces =
      text :: if (ofValue ⟨false, false⟩ machine first limit).ending = .proceed then
        (ofProgram ⟨false, true⟩ (ofValue ⟨false, false⟩ machine first limit).machine later
          limit).traces
      else [] := by
  have shown : ofStatement ⟨false, true⟩ machine first limit =
      { ofValue ⟨false, false⟩ machine first limit with
        lines := .trace text :: (ofValue ⟨false, false⟩ machine first limit).lines } := by
    rw [ofStatement, printed]
    rfl
  have silent := ofValue_traces ⟨false, false⟩ machine first limit
  rw [ofProgram, shown]
  unfold traces at silent ⊢
  split <;> simp [Line.traced?, silent]

/-- Every statement that is shown stands on a line of its own. -/
theorem eq_space_of_mem_traces {machine : Machine} {program : Program} {limit : Nat}
    (wellFormed : Node.areWellFormed program = true) {line : String}
    (among : line ∈ (ofProgram ⟨false, true⟩ machine program limit).traces) {character : Char}
    (inside : character ∈ line.toList) (blank : Text.isBlank character = true) :
    character = ' ' := by
  induction program generalizing machine with
  | nil => cases among
  | cons first later ih =>
      obtain ⟨firstFormed, laterFormed⟩ := Bool.and_eq_true_iff.mp wellFormed
      obtain ⟨words, spelled, plain, _⟩ := (Node.prints_of_isWellFormed first firstFormed).2
      rw [traces_cons machine (Node.source_of_spell spelled)] at among
      rcases List.mem_cons.mp among with rfl | further
      · rw [String.toList_ofList] at inside
        exact Token.eq_space_of_mem_layout plain inside blank
      · split at further
        · exact ih laterFormed further
        · cases further

/-- What is shown of statements does in a shell what their execution does. -/
theorem ofProgram_replays (machine : Machine) {program : Program}
    (wellFormed : Node.areWellFormed program = true) (limit : Nat) :
    (⟨machine, ""⟩ : Shell).Replays ⟨false, false⟩
      (ofProgram ⟨false, true⟩ machine program limit).traces limit
      (ofProgram ⟨false, false⟩ machine program limit) := by
  induction program generalizing machine with
  | nil => exact .nil
  | cons first later ih =>
      obtain ⟨firstFormed, laterFormed⟩ := Bool.and_eq_true_iff.mp wellFormed
      obtain ⟨text, printed⟩ := Node.source_of_isWellFormed firstFormed
      have parsed := Node.ofSource_source firstFormed printed
      have executes := Shell.executed?_of_ofSource machine parsed (by simp)
      have executed : ofSource ⟨false, false⟩ machine text limit =
          ofValue ⟨false, false⟩ machine first limit := by
        rw [ofSource, parsed]
        exact ofProgram_single _ machine first limit
      have plain : ofStatement ⟨false, false⟩ machine first limit =
          ofValue ⟨false, false⟩ machine first limit :=
        rfl
      rw [traces_cons machine printed, ofProgram, plain]
      by_cases proceeds : (ofValue ⟨false, false⟩ machine first limit).ending = .proceed
      · rw [if_pos proceeds, if_pos proceeds]
        exact .cons executes executed proceeds (ih _ laterFormed)
      · rw [if_neg proceeds, if_neg proceeds]
        exact .single executes executed

end Execution

/-- The statements that are shown in the execution of a program can be replayed. Each of them is a
single line. In a shell on the same machine the lines are executed one after the other, none of them
being held back or taken for a command. They print the values and reports of the execution in the same
order, and leave the same machine, whatever the limit. -/
theorem Machine.shown_statements_replay (machine : Machine) {source : String} {program : Program}
    (parsed : Program.ofSource source = .ok program) (limit : Nat) :
    let execution := Execution.ofSource ⟨false, true⟩ machine source limit
    (∀ line ∈ execution.traces, ∀ character ∈ line.toList,
      Text.isBlank character = true → character = ' ') ∧
    (⟨machine, ""⟩ : Shell).Replays ⟨false, false⟩ execution.traces limit
      execution.withoutTraces := by
  have wellFormed := Program.areWellFormed_of_ofSource parsed
  simp only [Execution.ofSource, parsed]
  constructor
  · exact fun line among character inside blank =>
      Execution.eq_space_of_mem_traces wellFormed among inside blank
  · rw [Execution.ofProgram_withoutTraces false machine wellFormed limit]
    exact Execution.ofProgram_replays machine wellFormed limit

/-- The second of three statements fails, and the third is replayed nevertheless. -/
theorem Machine.shown_statements_replay_unbound :
    (⟨Machine.fresh, ""⟩ : Shell).Replays ⟨false, false⟩ ["let x = 1;", "missing;", "x - (1 - 2);"]
      callLimit (Execution.ofSource ⟨false, true⟩ Machine.fresh "let x = 1; (missing); x-(1-2);"
        callLimit).withoutTraces := by
  have parsed : Program.ofSource "let x = 1; (missing); x-(1-2);" =
      .ok [.letE "x" (.int 1), .name "missing",
        .binary .sub (.name "x") (.binary .sub (.int 1) (.int 2))] := by
    set_option maxRecDepth 10000 in cbv
  have shown : (Execution.ofSource ⟨false, true⟩ Machine.fresh "let x = 1; (missing); x-(1-2);"
      callLimit).traces = ["let x = 1;", "missing;", "x - (1 - 2);"] := by
    set_option maxRecDepth 10000 in cbv
  have replays := (Machine.fresh.shown_statements_replay parsed callLimit).2
  rwa [shown] at replays

end TinyScript
