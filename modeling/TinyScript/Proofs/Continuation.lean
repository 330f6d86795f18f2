import TinyScript.Proofs.Braces
import TinyScript.Proofs.Reporting

/-!
# What a shell holds back

A terminal remembers which prompt it shows beside the text that it holds back. Both change together,
however a line ends: a terminal is a shell, and shows the secondary prompt exactly while it holds text
back, which then opens more braces than it closes. Counting braces is enough for this. A text that is
held back is no program yet, and a text that is executed never fails for want of a closing brace.
-/

set_option autoImplicit false

namespace TinyScript

theorem Shell.isIncomplete_lineBreak (text : String) :
    isIncomplete (text ++ "\n") = isIncomplete text := by
  simp [isIncomplete, String.toList_append]

/-- An interactive session that keeps its prompt as a part of its state. -/
structure Terminal where
  machine : Machine
  buffer : String
  prompt : String

/-- A terminal without its prompt. -/
def Terminal.shell (terminal : Terminal) : Shell := ⟨terminal.machine, terminal.buffer⟩

/-- What a line given to a terminal printed, how it ended and what it left behind. -/
structure TerminalAnswer where
  lines : List Line
  ending : Ending
  terminal : Terminal

def TerminalAnswer.shellAnswer (answer : TerminalAnswer) : ShellAnswer :=
  ⟨answer.lines, answer.ending, answer.terminal.shell⟩

namespace Terminal

def primaryPrompt : String := ">> "

def secondaryPrompt : String := ".. "

/-- A terminal on which nothing was typed. -/
def start (machine : Machine) : Terminal := ⟨machine, "", primaryPrompt⟩

/-- A line of source text. The prompt changes where the buffer does, which for a text that is executed
is before the execution and so before any failure of it. -/
def takeSource (mode : ExecutionMode) (terminal : Terminal) (line : String) (limit : Nat) :
    TerminalAnswer :=
  let source := terminal.buffer ++ line
  if Shell.isIncomplete source then
    ⟨[], .proceed, { terminal with buffer := source ++ "\n", prompt := secondaryPrompt }⟩
  else
    let cleared := { terminal with buffer := "", prompt := primaryPrompt }
    let execution := Execution.ofSource mode cleared.machine source limit
    ⟨execution.lines, execution.ending, { cleared with machine := execution.machine }⟩

def takeLine (mode : ExecutionMode) (terminal : Terminal) (line : String) (limit : Nat) :
    TerminalAnswer :=
  if line = Shell.endOfInput then
    ⟨[.note ""], .stop, terminal⟩
  else if terminal.buffer = "" then
    match Shell.stripped line with
    | "" => ⟨[], .proceed, terminal⟩
    | "exit" => ⟨[], .stop, terminal⟩
    | "help" => ⟨[.note Shell.helpText], .proceed, terminal⟩
    | _ => takeSource mode terminal line limit
  else
    takeSource mode terminal line limit

/-- A terminal after some lines, each given to it whatever became of the one before. -/
def takeLines (mode : ExecutionMode) (terminal : Terminal) (lines : List String) (limit : Nat) :
    Terminal :=
  lines.foldl (fun current line => (current.takeLine mode line limit).terminal) terminal

/-- The prompt of a terminal is the one that its shell would show, and the text that it holds back
ends a line and has braces open. -/
structure InStep (terminal : Terminal) : Prop where
  prompt : terminal.prompt = terminal.shell.prompt
  lineBreak : terminal.buffer ≠ "" → ∃ held, terminal.buffer = held ++ "\n"
  incomplete : terminal.buffer ≠ "" → Shell.isIncomplete terminal.buffer = true

variable (mode : ExecutionMode) (limit : Nat) {terminal : Terminal}

theorem takeSource_shell (terminal : Terminal) (line : String) :
    terminal.shell.takeSource mode line limit =
      (terminal.takeSource mode line limit).shellAnswer := by
  by_cases opened : Shell.isIncomplete (terminal.buffer ++ line) = true
  · rw [takeSource, if_pos opened]
    exact if_pos opened
  · rw [takeSource, if_neg opened]
    exact if_neg opened

/-- A terminal answers as its shell does. -/
theorem takeLine_shell (terminal : Terminal) (line : String) :
    terminal.shell.takeLine mode line limit = (terminal.takeLine mode line limit).shellAnswer := by
  have source := takeSource_shell mode limit terminal line
  by_cases last : line = Shell.endOfInput
  · rw [takeLine, if_pos last]
    exact if_pos last
  · by_cases fresh : terminal.buffer = ""
    · have unfolded : terminal.takeLine mode line limit = _ := (if_neg last).trans (if_pos fresh)
      refine ((if_neg last).trans (if_pos fresh)).trans ?_
      split
      · next blank =>
          rw [blank] at unfolded
          exact congrArg TerminalAnswer.shellAnswer unfolded.symm
      · next leave =>
          rw [leave] at unfolded
          exact congrArg TerminalAnswer.shellAnswer unfolded.symm
      · next help =>
          rw [help] at unfolded
          exact congrArg TerminalAnswer.shellAnswer unfolded.symm
      · next blank leave help =>
          have other :
              terminal.takeLine mode line limit = terminal.takeSource mode line limit := by
            rw [unfolded]
            split
            · next same => exact absurd same blank
            · next same => exact absurd same leave
            · next same => exact absurd same help
            · rfl
          rw [other]
          exact source
    · rw [takeLine, if_neg last, if_neg fresh, ← source]
      exact (if_neg last).trans (if_neg fresh)

theorem takeLines_shell (terminal : Terminal) (lines : List String) :
    (terminal.takeLines mode lines limit).shell = terminal.shell.takeLines mode lines limit := by
  induction lines generalizing terminal with
  | nil => rfl
  | cons line later ih =>
      have first : (terminal.shell.takeLine mode line limit).shell =
          (terminal.takeLine mode line limit).terminal.shell := by
        rw [takeLine_shell]
        rfl
      exact (ih _).trans (congrArg (Shell.takeLines mode · later limit) first.symm)

theorem start_inStep (machine : Machine) : (start machine).InStep :=
  ⟨rfl, fun some => absurd rfl some, fun some => absurd rfl some⟩

theorem takeSource_inStep (terminal : Terminal) (line : String) :
    (terminal.takeSource mode line limit).terminal.InStep := by
  simp only [takeSource]
  split
  · next opened =>
      have some : terminal.buffer ++ line ++ "\n" ≠ "" := by simp
      refine ⟨(if_neg some).symm, fun _ => ⟨_, rfl⟩, fun _ => ?_⟩
      rw [Shell.isIncomplete_lineBreak]
      exact opened
  · exact ⟨rfl, fun some => absurd rfl some, fun some => absurd rfl some⟩

theorem InStep.takeLine (inStep : terminal.InStep) (line : String) :
    (terminal.takeLine mode line limit).terminal.InStep := by
  have source := takeSource_inStep mode limit terminal line
  unfold Terminal.takeLine
  by_cases last : line = Shell.endOfInput
  · rw [if_pos last]
    exact inStep
  · rw [if_neg last]
    by_cases fresh : terminal.buffer = ""
    · rw [if_pos fresh]
      split
      · exact inStep
      · exact inStep
      · exact inStep
      · exact source
    · rw [if_neg fresh]
      exact source

theorem InStep.takeLines (inStep : terminal.InStep) (lines : List String) :
    (terminal.takeLines mode lines limit).InStep := by
  induction lines generalizing terminal with
  | nil => exact inStep
  | cons line later ih => exact ih (inStep.takeLine mode limit line)

/-- After any lines, whatever the limit, and whether they end in a value, a report, an exit or a failure
that comes through, a terminal shows the secondary prompt exactly if it holds text back, and what it
holds back ends in a line break and opens more braces than it closes. In all this it is the shell of its
machine and buffer. A text that opens more braces than it closes is no program. A text that does not,
and that fails at the end mark, closes as many braces as it opens. -/
theorem continuation_counts_braces (machine : Machine) :
    (∀ lines, let terminal := (start machine).takeLines mode lines limit
      (terminal.prompt = secondaryPrompt ↔ terminal.buffer ≠ "") ∧
      (terminal.prompt = primaryPrompt ↔ terminal.buffer = "") ∧
      (terminal.buffer ≠ "" → ∃ held, terminal.buffer = held ++ "\n") ∧
      (terminal.buffer ≠ "" →
        terminal.buffer.toList.count '\x7d' < terminal.buffer.toList.count '\x7b') ∧
      terminal.shell = (⟨machine, ""⟩ : Shell).takeLines mode lines limit ∧
      terminal.prompt = terminal.shell.prompt) ∧
    (∀ text : String, text.toList.count '\x7d' < text.toList.count '\x7b' →
      ∃ failure, Program.ofSource text = .error failure) ∧
    ∀ text tokens error, Shell.isIncomplete text = false → Token.scan text = .ok tokens →
      Parse.program tokens = .error error → error.rest = [.endMark] →
      text.toList.count '\x7b' = text.toList.count '\x7d' := by
  refine ⟨?_, ?_, ?_⟩
  · intro lines terminal
    have inStep : terminal.InStep := (start_inStep machine).takeLines mode limit lines
    have shown : terminal.prompt = if terminal.buffer = "" then primaryPrompt else secondaryPrompt :=
      inStep.prompt
    refine ⟨?_, ?_, inStep.lineBreak, ?_, takeLines_shell mode limit (start machine) lines,
      inStep.prompt⟩
    · by_cases empty : terminal.buffer = "" <;> simp [shown, empty, primaryPrompt, secondaryPrompt]
    · by_cases empty : terminal.buffer = "" <;> simp [shown, empty, primaryPrompt, secondaryPrompt]
    · intro some
      simpa [Shell.isIncomplete] using inStep.incomplete some
  · intro text opened
    cases parsed : Program.ofSource text with
    | error failure => exact ⟨failure, rfl⟩
    | ok program =>
        rw [Program.count_braces_of_ofSource parsed] at opened
        exact absurd opened (Nat.lt_irrefl _)
  · intro text tokens error complete scanned failed atEnd
    have closes := Parse.count_braces_of_program_error scanned failed atEnd
    have opens : text.toList.count '\x7b' ≤ text.toList.count '\x7d' := by
      simpa [Shell.isIncomplete] using complete
    exact Nat.le_antisymm opens closes

/-- A line with an open brace is held back, and a text with a block in front of an expression that is
not ended fails with its braces closed. -/
theorem continuation_counts_braces_unended_expression :
    ((start Machine.fresh).takeLines ⟨false, false⟩ ["let f = fn(a) \x7b"] callLimit).prompt =
        secondaryPrompt ∧
      (∃ failure, Program.ofSource "let f = fn(a) \x7b\n" = .error failure) ∧
      "\x7b \x7d 1".toList.count '\x7b' = "\x7b \x7d 1".toList.count '\x7d' := by
  obtain ⟨prompts, unclosed, ended⟩ := continuation_counts_braces ⟨false, false⟩ callLimit Machine.fresh
  have waits :
      ((start Machine.fresh).takeLines ⟨false, false⟩ ["let f = fn(a) \x7b"] callLimit).buffer =
      "let f = fn(a) \x7b\n" := by
    set_option maxRecDepth 10000 in cbv
  have scanned : Token.scan "\x7b \x7d 1" =
      .ok [.symbol .leftBrace, .symbol .rightBrace, .int 1, .endMark] := by
    cbv
  have failed : Parse.program [.symbol .leftBrace, .symbol .rightBrace, .int 1, .endMark] =
      .error ⟨.expectedSymbol .semicolon .endMark, [.endMark]⟩ := by
    cbv
  refine ⟨(prompts _).1.mpr (by rw [waits]; simp), unclosed _ (by decide), ?_⟩
  exact ended _ _ _ (by simp [Shell.isIncomplete]) scanned failed rfl

end Terminal

end TinyScript
