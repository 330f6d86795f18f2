import TinyScript.Proofs.Concatenation
import TinyScript.Proofs.Continuation
import TinyScript.Proofs.Executions

/-!
# Typing a program line by line

A shell holds lines back until as many braces are closed as were opened. So it cuts what is typed
into chunks, and executes each of them by itself. If every chunk is a program, the lines print and
leave what they would if they were executed as one text, and a terminal shows its primary prompt
again.
-/

set_option autoImplicit false

namespace TinyScript

namespace Shell

def joined (lines : List String) : String :=
  String.intercalate "\n" lines

/-- Lines as a shell holds them back, with a line break behind each. -/
def terminated (lines : List String) : String :=
  String.join (lines.map (· ++ "\n"))

/-- Some lines that are held back and further ones, cut into chunks as short as they can be such that
no more braces are opened in one than closed. The last chunk takes what is left. -/
def cut (held : List String) : List String → List (List String)
  | [] => if held = [] then [] else [held]
  | line :: later =>
      if isIncomplete (joined (held ++ [line])) then cut (held ++ [line]) later
      else (held ++ [line]) :: cut [] later

theorem flatten_cut (held lines : List String) : (cut held lines).flatten = held ++ lines := by
  induction lines generalizing held with
  | nil =>
      by_cases none : held = []
      · simp [cut, none]
      · simp [cut, none]
  | cons line later ih =>
      rw [cut]
      split
      · rw [ih, List.append_assoc, List.singleton_append]
      · rw [List.flatten_cons, ih, List.nil_append, List.append_assoc, List.singleton_append]

/-- No chunk could be cut off earlier. -/
theorem isIncomplete_of_prefix_cut {held lines chunk front : List String}
    (waits : ∀ earlier, earlier <+: held → earlier ≠ [] → isIncomplete (joined earlier) = true)
    (among : chunk ∈ cut held lines) (shorter : front <+: chunk) (some : front ≠ [])
    (less : front ≠ chunk) : isIncomplete (joined front) = true := by
  induction lines generalizing held with
  | nil =>
      by_cases none : held = []
      · simp [cut, none] at among
      · obtain rfl : chunk = held := by simpa [cut, none] using among
        exact waits front shorter some
  | cons line later ih =>
      rw [cut] at among
      split at among
      · next opened =>
          refine ih (fun earlier inside nonempty => ?_) among
          rcases List.prefix_concat_iff.mp inside with rfl | behind
          · exact opened
          · exact waits earlier behind nonempty
      · rcases List.mem_cons.mp among with rfl | further
        · rcases List.prefix_concat_iff.mp shorter with whole | behind
          · exact absurd whole less
          · exact waits front behind some
        · exact ih (fun earlier inside nonempty => absurd (List.prefix_nil.mp inside) nonempty)
            further

/-- The answers of a shell to some lines, each given to it whatever became of the one before. -/
def answers (mode : ExecutionMode) (shell : Shell) (lines : List String) (limit : Nat) :
    List ShellAnswer :=
  match lines with
  | [] => []
  | line :: later =>
      let answer := shell.takeLine mode line limit
      answer :: answers mode answer.shell later limit

/-- Lines given to a shell print and leave what an execution does, and both the shell and the
execution go on. -/
structure Follows (mode : ExecutionMode) (shell : Shell) (lines : List String) (limit : Nat)
    (execution : Execution) : Prop where
  prints : (shell.answers mode lines limit).flatMap ShellAnswer.lines = execution.lines
  proceeds : ∀ answer ∈ shell.answers mode lines limit, answer.ending = .proceed
  ends : execution.ending = .proceed
  leaves : shell.takeLines mode lines limit = ⟨execution.machine, ""⟩

theorem Follows.cons {mode : ExecutionMode} {shell next : Shell} {line : String}
    {later : List String} {limit : Nat} {printed : List Line} {execution : Execution}
    (answered : shell.takeLine mode line limit = ⟨printed, .proceed, next⟩)
    (follows : next.Follows mode later limit execution) :
    shell.Follows mode (line :: later) limit
      ⟨printed ++ execution.lines, execution.ending, execution.machine⟩ := by
  have whole : shell.answers mode (line :: later) limit =
      ⟨printed, .proceed, next⟩ :: next.answers mode later limit := by
    rw [answers, answered]
  constructor
  · rw [whole, List.flatMap_cons, follows.prints]
  · intro answer member
    rw [whole] at member
    rcases List.mem_cons.mp member with rfl | further
    · rfl
    · exact follows.proceeds answer further
  · exact follows.ends
  · have left := follows.leaves
    simp only [takeLines, List.foldl_cons, answered] at left ⊢
    exact left

section Texts

variable {held lines : List String} {line : String}

theorem terminated_cons (first : String) (later : List String) :
    terminated (first :: later) = first ++ "\n" ++ terminated later := by
  rw [terminated, List.map_cons, String.join_cons]
  rfl

theorem terminated_append (lines others : List String) :
    terminated (lines ++ others) = terminated lines ++ terminated others := by
  rw [terminated, List.map_append, String.join_append]
  rfl

theorem terminated_concat (held : List String) (line : String) :
    terminated (held ++ [line]) = terminated held ++ line ++ "\n" := by
  rw [terminated_append, String.append_assoc]
  simp [terminated]

theorem joined_concat (held : List String) (line : String) :
    joined (held ++ [line]) = terminated held ++ line := by
  induction held with
  | nil => simp [joined, terminated]
  | cons first later ih =>
      have behind : joined (first :: (later ++ [line])) =
          first ++ "\n" ++ joined (later ++ [line]) := by
        cases later <;> exact String.intercalate_cons_cons
      rw [List.cons_append, behind, ih, terminated_cons]
      exact String.append_assoc.symm

theorem terminated_ne_empty (some : held ≠ []) : terminated held ≠ "" := by
  cases held with
  | nil => exact absurd rfl some
  | cons first later =>
      intro same
      have inside : '\n' ∈ (terminated (first :: later)).toList := by
        simp only [terminated_cons, String.toList_append, List.mem_append]
        exact .inl (.inr (.head _))
      rw [same] at inside
      cases inside

theorem split_lineBreak (text : List Char) :
    Lexeme.split (text ++ ['\n']) = Lexeme.split text := by
  have gap := Lexeme.split_gap (List.cons_ne_nil '\n' []) rfl text []
  rwa [Lexeme.split_nil, List.append_nil, List.append_nil] at gap

-- The line break behind the last line separates nothing, and every piece of a terminated text is one
-- by itself, which the pieces of a joined text are not.
theorem ofSource_terminated (lines : List String) :
    Program.ofSource (terminated lines) = Program.ofSource (joined lines) := by
  rcases List.eq_nil_or_concat lines with rfl | ⟨held, line, rfl⟩
  · rfl
  · apply Program.ofSource_congr
    rw [List.concat_eq_append, terminated_concat, joined_concat, String.toList_append]
    exact split_lineBreak _

theorem mem_stripped {text : String} {character : Char} (among : character ∈ text.toList)
    (solid : Text.isBlank character = false) : character ∈ (stripped text).toList := by
  have keeps (characters : List Char) (inside : character ∈ characters) :
      character ∈ characters.dropWhile Text.isBlank := by
    rw [← List.takeWhile_append_dropWhile (p := Text.isBlank) (l := characters)] at inside
    rcases List.mem_append.mp inside with front | behind
    · have blank := List.mem_takeWhile_imp front
      rw [solid] at blank
      cases blank
    · exact behind
  -- Blanks are dropped at the front, and once more at the front of what remains in reverse.
  simp only [stripped, String.toList_ofList, List.mem_reverse]
  exact keeps _ (List.mem_reverse.mpr (keeps _ among))

theorem brace_mem_of_isIncomplete (opened : isIncomplete line = true) :
    '\x7b' ∈ line.toList := by
  have more : line.toList.count '\x7d' < line.toList.count '\x7b' := by
    simpa [isIncomplete] using opened
  exact List.count_pos_iff.mp (Nat.lt_of_le_of_lt (Nat.zero_le _) more)

theorem stripped_not_mem_of_isIncomplete (opened : isIncomplete line = true) :
    stripped line ∉ ["", "exit", "help"] := by
  have brace := mem_stripped (brace_mem_of_isIncomplete opened) (by decide)
  intro word
  simp only [List.mem_cons, List.not_mem_nil, or_false] at word
  rcases word with same | same | same
  all_goals
    rw [same] at brace
    revert brace
    decide

theorem ofSource_empty : Program.ofSource "" = .ok [] :=
  Program.ofSource_eq_ok_iff.mpr ⟨[], by simp [pure, Except.pure], ⟨.noStatements⟩⟩

theorem ofSource_of_stripped_eq_empty (blank : stripped line = "") :
    Program.ofSource line = .ok [] := by
  have all : ∀ character ∈ line.toList, Text.isBlank character = true := by
    intro character among
    by_contra solid
    have kept := mem_stripped among (Bool.eq_false_iff.mpr solid)
    rw [blank] at kept
    cases kept
  have nothing := Lexeme.split_blanks (List.all_eq_true.mpr all) []
  rw [List.append_nil] at nothing
  rw [← ofSource_empty]
  exact Program.ofSource_congr nothing

end Texts

section

variable {mode : ExecutionMode} {machine : Machine} {held : List String} {line : String}
  {limit : Nat}

theorem isCommand_eq_false (noEnd : line ≠ endOfInput)
    (noWord : held = [] → stripped line ∉ ["", "exit", "help"]) :
    (⟨machine, terminated held⟩ : Shell).isCommand line = false := by
  by_cases none : held = []
  · simp [isCommand, noEnd, List.contains_eq_mem, noWord none]
  · simp [isCommand, noEnd, terminated_ne_empty none]

theorem takeLine_waits (noEnd : line ≠ endOfInput)
    (opened : isIncomplete (joined (held ++ [line])) = true) :
    (⟨machine, terminated held⟩ : Shell).takeLine mode line limit =
      ⟨[], .proceed, ⟨machine, terminated (held ++ [line])⟩⟩ := by
  have noWord (none : held = []) : stripped line ∉ ["", "exit", "help"] := by
    rw [none, List.nil_append, joined, String.intercalate_singleton] at opened
    exact stripped_not_mem_of_isIncomplete opened
  rw [joined_concat] at opened
  rw [takeLine_of_not_isCommand mode limit (isCommand_eq_false noEnd noWord), takeSource,
    if_pos opened, terminated_concat]

/-- A line that completes a chunk has it executed. A blank chunk is none, and executes nothing. -/
theorem takeLine_completes {program : Program} (noEnd : line ≠ endOfInput)
    (noCommand : held = [] → stripped line ∉ ["exit", "help"])
    (complete : isIncomplete (joined (held ++ [line])) = false)
    (parsed : Program.ofSource (joined (held ++ [line])) = .ok program) :
    (⟨machine, terminated held⟩ : Shell).takeLine mode line limit =
      ⟨(Execution.ofProgram mode machine program limit).lines,
        (Execution.ofProgram mode machine program limit).ending,
        ⟨(Execution.ofProgram mode machine program limit).machine, ""⟩⟩ := by
  by_cases blank : held = [] ∧ stripped line = ""
  · obtain ⟨rfl, blank⟩ := blank
    rw [List.nil_append, joined, String.intercalate_singleton,
      ofSource_of_stripped_eq_empty blank] at parsed
    cases parsed
    have fresh : (⟨machine, terminated []⟩ : Shell).buffer = "" := rfl
    rw [takeLine, if_neg noEnd, if_pos fresh, blank]
    rfl
  · have noWord (none : held = []) : stripped line ∉ ["", "exit", "help"] := by
      intro word
      rcases List.mem_cons.mp word with empty | other
      · exact blank ⟨none, empty⟩
      · exact noCommand none other
    have source : (⟨machine, terminated held⟩ : Shell).isCommand line = false :=
      isCommand_eq_false noEnd noWord
    rw [joined_concat] at complete parsed
    rw [takeLine_of_not_isCommand mode limit source, takeSource, if_neg (by simp [complete]),
      Execution.ofSource, parsed]

end

/-- Lines behind some that are held back follow the program that they all are. -/
theorem follows_program (showTrees : Bool) (limit : Nat) {machine : Machine}
    {held lines : List String} (familiar : machine.IsKnown) (waits : held ≠ [] → isIncomplete (joined held) = true)
    (noEnd : endOfInput ∉ lines)
    (noCommand : ∀ chunk ∈ cut held lines, ∀ first ∈ chunk.head?, stripped first ∉ ["exit", "help"])
    (complete : ∀ chunk ∈ cut held lines, isIncomplete (joined chunk) = false)
    (parses : ∀ chunk ∈ cut held lines, ∃ program, Program.ofSource (joined chunk) = .ok program) :
    ∃ program, Program.ofSource (terminated (held ++ lines)) = .ok program ∧
      (⟨machine, terminated held⟩ : Shell).Follows ⟨false, showTrees⟩ lines limit
        (Execution.ofProgram ⟨false, showTrees⟩ machine program limit) := by
  -- On the lines to come. What is held back is a chunk that is not complete yet, so nothing can be
  -- held back where the lines end.
  induction lines generalizing machine held with
  | nil =>
      by_cases none : held = []
      · subst none
        exact ⟨[], ofSource_empty, rfl, (fun _ never => nomatch never), rfl, rfl⟩
      · have closed := complete held (by simp [cut, none])
        rw [waits none] at closed
        cases closed
  | cons line later ih =>
      have lineNoEnd : line ≠ endOfInput := by
        rintro rfl
        exact noEnd (.head _)
      have laterNoEnd : endOfInput ∉ later := fun member => noEnd (.tail _ member)
      have whole : held ++ line :: later = (held ++ [line]) ++ later := by simp
      cases opened : isIncomplete (joined (held ++ [line])) with
      | true =>
          have same : cut held (line :: later) = cut (held ++ [line]) later := by
            rw [cut, if_pos opened]
          rw [same] at noCommand complete parses
          obtain ⟨program, parsed, follows⟩ :=
            ih familiar (fun _ => opened) laterNoEnd noCommand complete parses
          rw [whole]
          exact ⟨program, parsed, follows.cons (takeLine_waits lineNoEnd opened)⟩
      | false =>
          have same : cut held (line :: later) = (held ++ [line]) :: cut [] later := by
            rw [cut, if_neg (by simp [opened])]
          rw [same] at noCommand complete parses
          obtain ⟨program, parsed⟩ := parses _ (.head _)
          have wellFormed := Program.areWellFormed_of_ofSource parsed
          obtain ⟨proceeds, accounts⟩ :=
            Execution.ofProgram_accounts showTrees limit familiar wellFormed
          obtain ⟨further, parsedLater, follows⟩ := ih (accounts.isKnown familiar wellFormed)
            (fun some => absurd rfl some) laterNoEnd
            (fun chunk member => noCommand chunk (.tail _ member))
            (fun chunk member => complete chunk (.tail _ member))
            (fun chunk member => parses chunk (.tail _ member))
          have noWord (none : held = []) : stripped line ∉ ["exit", "help"] :=
            noCommand _ (.head _) line (by simp [none])
          have answered :
              (⟨machine, terminated held⟩ : Shell).takeLine ⟨false, showTrees⟩ line limit = _ :=
            takeLine_completes lineNoEnd noWord opened parsed
          rw [proceeds] at answered
          refine ⟨program ++ further, ?_, ?_⟩
          · rw [whole, terminated_append]
            exact Program.ofSource_append ((ofSource_terminated _).trans parsed) parsedLater
          · have both := follows.cons answered
            rw [Execution.ofProgram_append, Execution.andThen, if_pos proceeds]
            exact both

section

variable (showTrees : Bool) (limit : Nat) {machine : Machine} {lines : List String}
variable (noEnd : endOfInput ∉ lines)
  (noCommand : ∀ chunk ∈ cut [] lines, ∀ first ∈ chunk.head?, stripped first ∉ ["exit", "help"])
  (complete : ∀ chunk ∈ cut [] lines, isIncomplete (joined chunk) = false)
  (parses : ∀ chunk ∈ cut [] lines, ∃ program, Program.ofSource (joined chunk) = .ok program)

include noEnd noCommand complete parses

theorem follows_execution (familiar : machine.IsKnown) :
    (⟨machine, ""⟩ : Shell).Follows ⟨false, showTrees⟩ lines limit
      (Execution.ofSource ⟨false, showTrees⟩ machine (joined lines) limit) := by
  obtain ⟨program, parsed, follows⟩ := follows_program showTrees limit familiar
    (fun some => absurd rfl some) noEnd noCommand complete parses
  rw [List.nil_append, ofSource_terminated] at parsed
  rw [Execution.ofSource, parsed]
  exact follows

/-- In a session all closures are made of known trees, so the lines can be typed at any time. -/
theorem follows_execution_of_inSession (session : machine.InSession) :
    (⟨machine, ""⟩ : Shell).Follows ⟨false, showTrees⟩ lines limit
      (Execution.ofSource ⟨false, showTrees⟩ machine (joined lines) limit) :=
  follows_execution showTrees limit noEnd noCommand complete parses session.isProper.isKnown

end

end Shell

namespace Terminal

/-- The answers of a terminal to some lines, each given to it whatever became of the one before. -/
def answers (mode : ExecutionMode) (terminal : Terminal) (lines : List String) (limit : Nat) :
    List TerminalAnswer :=
  match lines with
  | [] => []
  | line :: later =>
      let answer := terminal.takeLine mode line limit
      answer :: answers mode answer.terminal later limit

theorem answers_shell (mode : ExecutionMode) (terminal : Terminal) (lines : List String)
    (limit : Nat) :
    (terminal.answers mode lines limit).map TerminalAnswer.shellAnswer =
      terminal.shell.answers mode lines limit := by
  induction lines generalizing terminal with
  | nil => rfl
  | cons line later ih =>
      rw [answers, Shell.answers, takeLine_shell, List.map_cons, ih]
      rfl

/-- A terminal that holds nothing back is like one on which nothing was typed. -/
theorem InStep.eq_start {terminal : Terminal} (inStep : terminal.InStep) {machine : Machine}
    (idle : terminal.shell = ⟨machine, ""⟩) : terminal = start machine := by
  have prompt := inStep.prompt
  rw [idle] at prompt
  cases terminal
  cases idle
  exact congrArg (Terminal.mk _ _) prompt

/-- Lines that are cut into programs, none of which begins with a command, print and leave what they
do as one text, whichever statements fail and whatever the limit is. This is so wherever closures are
made of known trees, as they are in a session. The terminal goes on after each line, and ends up waiting
for a new program behind its primary prompt. It answers as its shell does. -/
theorem answers_eq_execution (showTrees : Bool) (limit : Nat) {machine : Machine}
    {lines : List String} (familiar : machine.IsKnown) (noEnd : Shell.endOfInput ∉ lines)
    (noCommand : ∀ chunk ∈ Shell.cut [] lines, ∀ first ∈ chunk.head?,
      Shell.stripped first ∉ ["exit", "help"])
    (complete : ∀ chunk ∈ Shell.cut [] lines, Shell.isIncomplete (Shell.joined chunk) = false)
    (parses : ∀ chunk ∈ Shell.cut [] lines,
      ∃ program, Program.ofSource (Shell.joined chunk) = .ok program) :
    let mode : ExecutionMode := ⟨false, showTrees⟩
    let terminal := start machine
    let execution := Execution.ofSource mode machine (Shell.joined lines) limit
    (terminal.answers mode lines limit).flatMap TerminalAnswer.lines = execution.lines ∧
    (∀ answer ∈ terminal.answers mode lines limit, answer.ending = .proceed) ∧
    execution.ending = .proceed ∧
    terminal.takeLines mode lines limit = ⟨execution.machine, "", primaryPrompt⟩ ∧
    (terminal.answers mode lines limit).map TerminalAnswer.shellAnswer =
      (⟨machine, ""⟩ : Shell).answers mode lines limit := by
  intro mode terminal execution
  have follows : (⟨machine, ""⟩ : Shell).Follows mode lines limit execution :=
    Shell.follows_execution showTrees limit noEnd noCommand complete parses familiar
  have same : (terminal.answers mode lines limit).map TerminalAnswer.shellAnswer =
      (⟨machine, ""⟩ : Shell).answers mode lines limit :=
    answers_shell mode terminal lines limit
  refine ⟨?_, ?_, follows.ends, ?_, same⟩
  · rw [← follows.prints, ← same, List.flatMap_map]
    rfl
  · intro answer member
    exact follows.proceeds answer.shellAnswer (same ▸ List.mem_map_of_mem member)
  · have inStep : (terminal.takeLines mode lines limit).InStep :=
      (start_inStep machine).takeLines mode limit lines
    have left : (terminal.takeLines mode lines limit).shell = ⟨execution.machine, ""⟩ :=
      (takeLines_shell mode limit terminal lines).trans follows.leaves
    exact inStep.eq_start left

/-- A block over two lines fails, and the line behind it has a value. -/
theorem answers_eq_execution_failing_block :
    ((start Machine.fresh).answers ⟨false, false⟩ ["\x7b", "x; \x7d", "1;"] callLimit).flatMap
        TerminalAnswer.lines =
      [.error "name" "Undefined variable @ lookup(): x", .value "Integer(1)"] := by
  have first : Shell.joined ["\x7b"] = "\x7b" := String.intercalate_singleton
  have block : Shell.joined ["\x7b", "x; \x7d"] = "\x7b\nx; \x7d" := by
    simp only [Shell.joined, String.intercalate_cons_cons, String.intercalate_singleton]
    rfl
  have last : Shell.joined ["1;"] = "1;" := String.intercalate_singleton
  have blockParsed : Program.ofSource "\x7b\nx; \x7d" = .ok [.block [.name "x"]] := by
    cbv
  have lastParsed : Program.ofSource "1;" = .ok [.int 1] := by
    set_option maxRecDepth 10000 in cbv
  have opened : Shell.isIncomplete (Shell.joined ([] ++ ["\x7b"])) = true := by
    rw [List.nil_append, first]
    simp [Shell.isIncomplete]
  have closed : Shell.isIncomplete (Shell.joined ([] ++ ["\x7b"] ++ ["x; \x7d"])) = false := by
    rw [List.nil_append, List.singleton_append, block]
    simp [Shell.isIncomplete]
  have single : Shell.isIncomplete (Shell.joined ([] ++ ["1;"])) = false := by
    rw [List.nil_append, last]
    simp [Shell.isIncomplete]
  have chunks : Shell.cut [] ["\x7b", "x; \x7d", "1;"] = [["\x7b", "x; \x7d"], ["1;"]] := by
    rw [Shell.cut, if_pos opened, Shell.cut, if_neg (Bool.eq_false_iff.mp closed), Shell.cut,
      if_neg (Bool.eq_false_iff.mp single)]
    rfl
  have typed := @answers_eq_execution false callLimit Machine.fresh ["\x7b", "x; \x7d", "1;"]
    Machine.fresh_isProper.isKnown (by decide) (by rw [chunks]; decide)
    (by simp only [chunks, List.forall_mem_cons, block, last]; decide)
    (by simp [chunks, block, last, blockParsed, lastParsed])
  have whole : Shell.joined ["\x7b", "x; \x7d", "1;"] = "\x7b\nx; \x7d\n1;" := by
    simp only [Shell.joined, String.intercalate_cons_cons, String.intercalate_singleton]
    rfl
  rw [typed.1, whole]
  set_option maxRecDepth 10000 in cbv

end Terminal

end TinyScript
