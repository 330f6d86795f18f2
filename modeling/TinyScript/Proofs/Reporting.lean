import TinyScript.Proofs.KnownTrees
import TinyScript.Proofs.Sessions
import TinyScript.Session.Shell

/-!
# Every failure is reported

Where failures do not end a session, a source text that does not parse is answered by one line, and
each statement of one that does by one line for its value or its failure, after which the next
statement is evaluated. Nothing comes through, but for a number written with more digits than the
scanner takes: that failure is not one of the language, and nobody reports it.
-/

set_option autoImplicit false

namespace TinyScript

/-- A line that tells a result: the value, or the kind and the message of the failure. -/
inductive Line.Tells : Except Failure Value → Line → Prop where
  | value (value : Value) : Tells (.ok value) (.value value.shown)
  | failure {failure : Failure} {label message : String} :
      failure.report? = some (label, message) → Tells (.error failure) (.error label message)

/-- What is printed of a statement in front of its result. -/
inductive Node.Traced (statement : Node) : Bool → List Line → Prop where
  | hidden : Traced statement false []
  | shown {text : String} : statement.source .statement = .ok text →
      Traced statement true [.trace text]

/-- Lines that account for statements, each of which is evaluated in what the ones before it left:
exactly one line tells its result. -/
inductive Accounts (showTrees : Bool) (limit : Nat) :
    Machine → Program → List Line → Machine → Prop where
  | done {machine : Machine} : Accounts showTrees limit machine [] [] machine
  | next {machine last : Machine} {statement : Node} {later : Program} {traces lines : List Line}
      {line : Line} :
      statement.Traced showTrees traces → line.Tells (machine.evaluate statement limit).1 →
      Accounts showTrees limit (machine.evaluate statement limit).2 later lines last →
      Accounts showTrees limit machine (statement :: later) (traces ++ line :: lines) last

theorem Failure.exists_report {failure : Failure} (runs : failure.category ∈ runCategories) :
    ∃ label message, failure.report? = some (label, message) := by
  simp only [runCategories, List.mem_cons, List.not_mem_nil, or_false] at runs
  rcases runs with category | category | category | category | category
  all_goals exact ⟨_, _, by rw [Failure.report?, category]⟩

theorem Machine.IsProper.isKnown {machine : Machine} (proper : machine.IsProper) :
    machine.IsKnown :=
  proper.values.bound.imp fun _ held => held.known

namespace Execution

variable {machine : Machine} {statement : Node} (showTrees : Bool) (limit : Nat)

theorem ofValue_tells (familiar : machine.IsKnown) (known : statement.Known) :
    ∃ line : Line, line.Tells (machine.evaluate statement limit).1 ∧
      ofValue ⟨false, showTrees⟩ machine statement limit =
        ⟨[line], .proceed, (machine.evaluate statement limit).2⟩ := by
  have fails (failure : Failure) (failed : (machine.evaluate statement limit).1 = .error failure) :
      failure.category ∈ runCategories := familiar.category_mem known failed
  unfold ofValue
  cases result : machine.evaluate statement limit with
  | mk outcome after =>
      rw [result] at fails
      cases outcome with
      | ok value => exact ⟨_, .value value, rfl⟩
      | error failure =>
          obtain ⟨label, message, report⟩ := Failure.exists_report (fails failure rfl)
          refine ⟨.error label message, .failure report, ?_⟩
          simp only [Report.ofFailure, report, Report.announce, Bool.false_eq_true, if_false]

theorem exists_traced (wellFormed : statement.isWellFormed = true) :
    ∃ traces, statement.Traced showTrees traces ∧ ∀ fatal machine limit,
      ofStatement ⟨fatal, showTrees⟩ machine statement limit =
        let execution := ofValue ⟨fatal, showTrees⟩ machine statement limit
        { execution with lines := traces ++ execution.lines } := by
  cases showTrees with
  | false => exact ⟨[], .hidden, fun _ _ _ => rfl⟩
  | true =>
      obtain ⟨text, source⟩ := Node.source_of_isWellFormed wellFormed
      refine ⟨[.trace text], .shown source, fun fatal machine limit => ?_⟩
      simp only [ofStatement, if_true, source, List.singleton_append]

theorem ofStatement_tells (familiar : machine.IsKnown) (wellFormed : statement.isWellFormed = true) :
    ∃ traces line, statement.Traced showTrees traces ∧
      Line.Tells (machine.evaluate statement limit).1 line ∧
      ofStatement ⟨false, showTrees⟩ machine statement limit =
        ⟨traces ++ [line], .proceed, (machine.evaluate statement limit).2⟩ := by
  obtain ⟨line, tells, valued⟩ :=
    ofValue_tells showTrees limit familiar (Node.known_of_isWellFormed wellFormed)
  obtain ⟨traces, traced, executed⟩ := exists_traced showTrees wellFormed
  exact ⟨traces, line, traced, tells, by rw [executed, valued]⟩

/-- The statements of a program are all executed, and one line tells the result of each. -/
theorem ofProgram_accounts {program : Program} (familiar : machine.IsKnown)
    (wellFormed : Node.areWellFormed program = true) :
    let execution := ofProgram ⟨false, showTrees⟩ machine program limit
    execution.ending = .proceed ∧
      Accounts showTrees limit machine program execution.lines execution.machine := by
  induction program generalizing machine with
  | nil => exact ⟨rfl, .done⟩
  | cons first later ih =>
      obtain ⟨firstFormed, laterFormed⟩ := Bool.and_eq_true_iff.mp wellFormed
      obtain ⟨traces, line, traced, tells, executed⟩ :=
        ofStatement_tells showTrees limit familiar firstFormed
      obtain ⟨proceeds, accounts⟩ :=
        ih (familiar.evaluate (Node.known_of_isWellFormed firstFormed) limit) laterFormed
      simp only [ofProgram, executed, if_true, List.append_assoc, List.singleton_append]
      exact ⟨proceeds, .next traced tells accounts⟩

end Execution

section

variable {showTrees : Bool} {limit : Nat} {machine last : Machine} {statements : Program}
  {lines : List Line}

theorem Accounts.inSession (accounts : Accounts showTrees limit machine statements lines last)
    (session : machine.InSession) {source : String} {program : Program}
    (parsed : Program.ofSource source = .ok program)
    (among : ∀ statement ∈ statements, statement ∈ program) : last.InSession := by
  induction accounts with
  | done => exact session
  | next _ _ _ ih =>
      apply ih (.evaluated limit session parsed (among _ (.head _)))
      exact fun statement member => among statement (.tail _ member)

theorem Accounts.isKnown (accounts : Accounts showTrees limit machine statements lines last)
    (familiar : machine.IsKnown) (wellFormed : Node.areWellFormed statements = true) :
    last.IsKnown := by
  induction accounts with
  | done => exact familiar
  | next _ _ _ ih =>
      obtain ⟨firstFormed, laterFormed⟩ := Bool.and_eq_true_iff.mp wellFormed
      exact ih (familiar.evaluate (Node.known_of_isWellFormed firstFormed) limit) laterFormed

end

namespace Token

theorem mapM_ofLexeme_error {lexemes : List Lexeme} {fault : ScanError}
    (failed : lexemes.mapM ofLexeme = .error fault) :
    ∃ lexeme ∈ lexemes, ofLexeme lexeme = .error fault := by
  induction lexemes with
  | nil => cases failed
  | cons first later ih =>
      rw [List.mapM_cons] at failed
      cases given : ofLexeme first with
      | error earlier =>
          rw [given] at failed
          cases failed
          exact ⟨first, .head _, given⟩
      | ok token =>
          cases laterGiven : later.mapM ofLexeme with
          | ok tokens => simp [given, laterGiven, bind, Except.bind, pure, Except.pure] at failed
          | error further =>
              simp only [given, laterGiven, bind, Except.bind, Except.error.injEq] at failed
              obtain ⟨lexeme, among, faulty⟩ := ih (failed ▸ laterGiven)
              exact ⟨lexeme, .tail _ among, faulty⟩

theorem ofLexeme_eq_tooManyDigits {lexeme : Lexeme} {count : Nat}
    (failed : ofLexeme lexeme = .error (.tooManyDigits count)) :
    ∃ run, lexeme = .digits run ∧ ScanError.digitLimit < run.length ∧ count = run.length := by
  cases lexeme with
  | digits run =>
      simp only [ofLexeme, ofDigits] at failed
      split at failed
      · next long =>
          cases failed
          exact ⟨run, rfl, long, rfl⟩
      · split at failed <;> cases failed
  | word | symbol | foreign => cases failed

theorem exists_digits_of_scan {source : String} {count : Nat}
    (failed : scan source = .error (.tooManyDigits count)) :
    ∃ run, .digits run ∈ Lexeme.split source.toList ∧ ScanError.digitLimit < run.length ∧
      count = run.length := by
  unfold scan at failed
  cases given : (Lexeme.split source.toList).mapM ofLexeme with
  | ok tokens =>
      rw [given] at failed
      cases failed
  | error fault =>
      rw [given] at failed
      cases failed
      obtain ⟨lexeme, among, faulty⟩ := mapM_ofLexeme_error given
      obtain ⟨run, rfl, long, same⟩ := ofLexeme_eq_tooManyDigits faulty
      exact ⟨run, among, long, same⟩

/-- A text that is one number with too many digits is not scanned. -/
theorem scan_digits {run : List Char} (digits : run.all Char.isDigit = true)
    (long : ScanError.digitLimit < run.length) :
    scan (String.ofList run) = .error (.tooManyDigits run.length) := by
  have nonempty : run.isEmpty = false := by
    cases run with
    | nil => cases long
    | cons first later => rfl
  have proper : (Lexeme.digits run).isProper = true := by
    simp only [Lexeme.isProper, nonempty, digits, Bool.not_false, Bool.and_self]
  have split : Lexeme.split run = [.digits run] := Lexeme.split_text proper
  unfold scan
  rw [String.toList_ofList, split, List.mapM_cons, ofLexeme, ofDigits, if_pos long]
  rfl

end Token

namespace Program

theorem ofSource_of_scan_error {source : String} {fault : ScanError}
    (failed : Token.scan source = .error fault) : ofSource source = .error fault.failure := by
  unfold ofSource Token.ofSource
  rw [failed]
  rfl

theorem ofSource_rejects_tokens {source : String} {tokens : List Token} {failure : Failure}
    (scanned : Token.scan source = .ok tokens) (failed : ofSource source = .error failure) :
    ∃ message, failure = ⟨.language .grammar, message⟩ := by
  obtain ⟨words, rfl, legal⟩ := Token.scan_shape scanned
  rw [ofSource_of_scan scanned] at failed
  refine ofTokens_rejects ?_ failed
  intro member
  rcases List.mem_append.mp member with among | last
  · exact Bool.noConfusion (legal _ among)
  · cases List.mem_singleton.mp last

/-- A text without a program has a number with too many digits, or the grammar rejects it. -/
theorem ofSource_rejects {source : String} {failure : Failure}
    (failed : ofSource source = .error failure) :
    (∃ run, .digits run ∈ Lexeme.split source.toList ∧ ScanError.digitLimit < run.length ∧
      failure = (ScanError.tooManyDigits run.length).failure) ∨
    ∃ message, failure = ⟨.language .grammar, message⟩ := by
  cases result : Token.scan source with
  | error fault =>
      rw [ofSource_of_scan_error result] at failed
      cases failed
      cases fault with
      | outOfRange value => exact .inr ⟨_, rfl⟩
      | tooManyDigits count =>
          obtain ⟨run, among, long, rfl⟩ := Token.exists_digits_of_scan result
          exact .inl ⟨run, among, long, rfl⟩
  | ok tokens => exact .inr (ofSource_rejects_tokens result failed)

theorem ofSource_rejects_readable {source : String} {failure : Failure}
    (readable : ∀ count, Token.scan source ≠ .error (.tooManyDigits count))
    (failed : ofSource source = .error failure) :
    ∃ message, failure = ⟨.language .grammar, message⟩ := by
  cases result : Token.scan source with
  | error fault =>
      rw [ofSource_of_scan_error result] at failed
      cases failed
      cases fault with
      | outOfRange value => exact ⟨_, rfl⟩
      | tooManyDigits count => exact absurd result (readable count)
  | ok tokens => exact ofSource_rejects_tokens result failed

end Program

/-- What comes of a source text where failures do not end the session. -/
inductive Execution.Reports (showTrees : Bool) (limit : Nat) (machine : Machine)
    (source : String) : Execution → Prop where
  | rejected {message : String} :
      Program.ofSource source = .error ⟨.language .grammar, message⟩ →
      Reports showTrees limit machine source ⟨[.error "syntax" message], .proceed, machine⟩
  | executed {program : Program} {lines : List Line} {after : Machine} :
      Program.ofSource source = .ok program →
      Accounts showTrees limit machine program lines after →
      Reports showTrees limit machine source ⟨lines, .proceed, after⟩
  | unreadable {run : List Char} :
      .digits run ∈ Lexeme.split source.toList → ScanError.digitLimit < run.length →
      Reports showTrees limit machine source
        ⟨[], .escape (ScanError.tooManyDigits run.length).failure, machine⟩

namespace Execution

variable {showTrees : Bool} {limit : Nat} {machine : Machine} {source : String}

theorem ofSource_reports (proper : machine.IsProper) :
    Reports showTrees limit machine source (ofSource ⟨false, showTrees⟩ machine source limit) := by
  unfold ofSource
  split
  · next program parsed =>
      obtain ⟨proceeds, accounts⟩ := ofProgram_accounts showTrees limit proper.isKnown
        (Program.areWellFormed_of_ofSource parsed)
      have executed := Reports.executed parsed accounts
      rwa [← proceeds] at executed
  · next failure failed =>
      rcases Program.ofSource_rejects failed with ⟨run, among, long, rfl⟩ | ⟨message, rfl⟩
      · exact .unreadable among long
      · exact .rejected failed

theorem Reports.inSession {execution : Execution}
    (reports : Reports showTrees limit machine source execution) (session : machine.InSession) :
    execution.machine.InSession := by
  cases reports with
  | rejected => exact session
  | executed parsed accounts => exact accounts.inSession session parsed fun _ among => among
  | unreadable => exact session

theorem Reports.ending_cases {execution : Execution}
    (reports : Reports showTrees limit machine source execution) :
    execution.ending = .proceed ∨
      ∃ run, .digits run ∈ Lexeme.split source.toList ∧ ScanError.digitLimit < run.length ∧
        execution.ending = .escape (ScanError.tooManyDigits run.length).failure := by
  cases reports with
  | rejected => exact .inl rfl
  | executed => exact .inl rfl
  | unreadable among long => exact .inr ⟨_, among, long, rfl⟩

end Execution

namespace Shell

/-- Whether a line is a command of the shell and no source text. -/
def isCommand (shell : Shell) (line : String) : Bool :=
  line == endOfInput || (shell.buffer == "" && ["", "exit", "help"].contains (stripped line))

/-- The source text that a line makes a shell execute, if any. -/
def executed? (shell : Shell) (line : String) : Option String :=
  if shell.isCommand line then none
  else if isIncomplete (shell.buffer ++ line) then none
  else some (shell.buffer ++ line)

/-- A shell after some lines, each given to it whatever became of the one before. -/
def takeLines (mode : ExecutionMode) (shell : Shell) (lines : List String) (limit : Nat) : Shell :=
  lines.foldl (fun current line => (current.takeLine mode line limit).shell) shell

/-- An answer that neither reports nor passes on a failure, and leaves the machine alone. -/
structure IsQuiet (shell : Shell) (answer : ShellAnswer) : Prop where
  ending : answer.ending = .proceed ∨ answer.ending = .stop
  lines : ∀ label message, .error label message ∉ answer.lines
  machine : answer.shell.machine = shell.machine

variable {shell : Shell} {line : String} (mode : ExecutionMode) (limit : Nat)

theorem takeLine_of_isCommand (command : shell.isCommand line = true) :
    shell.IsQuiet (shell.takeLine mode line limit) := by
  unfold takeLine
  split
  · exact ⟨.inr rfl, by simp, rfl⟩
  · next noEnd =>
      obtain ⟨fresh, word⟩ : shell.buffer = "" ∧ stripped line ∈ ["", "exit", "help"] := by
        simpa [isCommand, noEnd] using command
      rw [if_pos fresh]
      simp only [List.mem_cons, List.not_mem_nil, or_false] at word
      rcases word with blank | leave | help
      · rw [blank]
        exact ⟨.inl rfl, by simp, rfl⟩
      · rw [leave]
        exact ⟨.inr rfl, by simp, rfl⟩
      · rw [help]
        exact ⟨.inl rfl, by simp, rfl⟩

theorem takeLine_of_not_isCommand (source : shell.isCommand line = false) :
    shell.takeLine mode line limit = shell.takeSource mode line limit := by
  obtain ⟨noEnd, noWord⟩ : line ≠ endOfInput ∧
      (shell.buffer = "" → stripped line ∉ ["", "exit", "help"]) := by
    simpa [isCommand] using source
  unfold takeLine
  rw [if_neg noEnd]
  split
  · next fresh =>
      have others := noWord fresh
      split
      · next blank => simp [blank] at others
      · next leave => simp [leave] at others
      · next help => simp [help] at others
      · rfl
  · rfl

/-- A line that executes nothing does not fail. -/
theorem takeLine_of_executed?_eq_none (idle : shell.executed? line = none) :
    shell.IsQuiet (shell.takeLine mode line limit) := by
  unfold executed? at idle
  split at idle
  · next command => exact takeLine_of_isCommand mode limit command
  · next source =>
      rw [takeLine_of_not_isCommand mode limit (Bool.eq_false_iff.mpr source)]
      split at idle
      · next waits =>
          rw [takeSource, if_pos waits]
          exact ⟨.inl rfl, by simp, rfl⟩
      · cases idle

/-- What a line executes is executed on the machine of the shell, and nothing is kept of it. -/
theorem takeLine_of_executed?_eq_some {source : String}
    (executes : shell.executed? line = some source) :
    shell.takeLine mode line limit =
      let execution := Execution.ofSource mode shell.machine source limit
      ⟨execution.lines, execution.ending, ⟨execution.machine, ""⟩⟩ := by
  unfold executed? at executes
  split at executes
  · cases executes
  · next noCommand =>
      rw [takeLine_of_not_isCommand mode limit (Bool.eq_false_iff.mpr noCommand)]
      split at executes
      · cases executes
      · next complete =>
          cases executes
          rw [takeSource, if_neg complete]

theorem takeLine_inSession (showTrees : Bool) (session : shell.machine.InSession) (line : String)
    (limit : Nat) : (shell.takeLine ⟨false, showTrees⟩ line limit).shell.machine.InSession := by
  cases executes : shell.executed? line with
  | none =>
      rw [(takeLine_of_executed?_eq_none _ limit executes).machine]
      exact session
  | some source =>
      rw [takeLine_of_executed?_eq_some _ limit executes]
      exact (Execution.ofSource_reports session.isProper).inSession session

theorem takeLines_inSession (showTrees : Bool) (lines : List String)
    (session : shell.machine.InSession) (limit : Nat) :
    (shell.takeLines ⟨false, showTrees⟩ lines limit).machine.InSession := by
  induction lines generalizing shell with
  | nil => exact session
  | cons line later ih => exact ih (takeLine_inSession showTrees session line limit)

/-- Whatever the limit is, after any lines, a line given to a shell where failures are not fatal ends no
session with a status, and no failure comes through but that of a number with too many digits. A line
that executes nothing reports nothing. What a line executes is reported, and the shell keeps none of
it. -/
theorem takeLines_reports (showTrees : Bool) (limit : Nat) (lines : List String) (line : String) :
    let shell := fresh.takeLines ⟨false, showTrees⟩ lines limit
    let answer := shell.takeLine ⟨false, showTrees⟩ line limit
    (∀ status, answer.ending ≠ .exit status) ∧
    (∀ failure, answer.ending = .escape failure →
      ∃ source run, shell.executed? line = some source ∧
        .digits run ∈ Lexeme.split source.toList ∧ ScanError.digitLimit < run.length ∧
        failure = (ScanError.tooManyDigits run.length).failure) ∧
    (shell.executed? line = none → shell.IsQuiet answer) ∧
    ∀ source, shell.executed? line = some source →
      answer.shell.buffer = "" ∧
        Execution.Reports showTrees limit shell.machine source
          ⟨answer.lines, answer.ending, answer.shell.machine⟩ := by
  intro shell answer
  have session : shell.machine.InSession := takeLines_inSession showTrees lines .fresh limit
  have quiet (idle : shell.executed? line = none) : shell.IsQuiet answer :=
    takeLine_of_executed?_eq_none _ limit idle
  have reported (source : String) (executes : shell.executed? line = some source) :
      answer.shell.buffer = "" ∧ Execution.Reports showTrees limit shell.machine source
        ⟨answer.lines, answer.ending, answer.shell.machine⟩ := by
    have same : answer = _ := takeLine_of_executed?_eq_some _ limit executes
    rw [same]
    exact ⟨rfl, Execution.ofSource_reports session.isProper⟩
  have endings : answer.ending = .proceed ∨ answer.ending = .stop ∨
      ∃ source run, shell.executed? line = some source ∧
        .digits run ∈ Lexeme.split source.toList ∧ ScanError.digitLimit < run.length ∧
        answer.ending = .escape (ScanError.tooManyDigits run.length).failure := by
    cases executes : shell.executed? line with
    | none =>
        rcases (quiet executes).ending with proceeds | stops
        · exact .inl proceeds
        · exact .inr (.inl stops)
    | some source =>
        rcases (reported source executes).2.ending_cases with proceeds | ⟨run, among, long, escapes⟩
        · exact .inl proceeds
        · exact .inr (.inr ⟨source, run, rfl, among, long, escapes⟩)
  refine ⟨?_, ?_, quiet, reported⟩
  · intro status exits
    rcases endings with other | other | ⟨_, _, _, _, _, other⟩ <;> simp [other] at exits
  · intro failure comes
    rcases endings with other | other | ⟨source, run, executes, among, long, escapes⟩
    · simp [other] at comes
    · simp [other] at comes
    · rw [escapes] at comes
      cases comes
      exact ⟨source, run, executes, among, long, rfl⟩

theorem stripped_eq_self {text : String}
    (solid : ∀ character ∈ text.toList, Text.isBlank character = false) :
    stripped text = text := by
  have keeps (characters : List Char)
      (inside : ∀ character ∈ characters, character ∈ text.toList) :
      characters.dropWhile Text.isBlank = characters := by
    cases characters with
    | nil => rfl
    | cons first later => rw [List.dropWhile_cons_of_neg (by simp [solid _ (inside _ (.head _))])]
  simp only [stripped]
  rw [keeps _ (fun _ among => among), keeps _ (fun _ among => List.mem_reverse.mp among),
    List.reverse_reverse, String.ofList_toList]

theorem executed?_digits (machine : Machine) {run : List Char}
    (digits : run.all Char.isDigit = true) (long : ScanError.digitLimit < run.length) :
    (⟨machine, ""⟩ : Shell).executed? (String.ofList run) = some (String.ofList run) := by
  have inside := List.all_eq_true.mp digits
  have differs (word : String) (short : word.toList.length ≤ 4) : String.ofList run ≠ word := by
    rintro rfl
    rw [String.toList_ofList] at short
    exact absurd (Nat.lt_of_lt_of_le long short) (by decide)
  have whole : stripped (String.ofList run) = String.ofList run := by
    apply stripped_eq_self
    rw [String.toList_ofList]
    exact fun character among => Text.isBlank_of_isDigit (inside character among)
  have noCommand : (⟨machine, ""⟩ : Shell).isCommand (String.ofList run) = false := by
    have blank := differs "" (by decide)
    have leave := differs "exit" (by decide)
    have help := differs "help" (by decide)
    have last := differs endOfInput (by decide)
    simp [isCommand, whole, blank, leave, help, last]
  have complete : isIncomplete (String.ofList run) = false := by
    have noBrace : run.count '\x7b' = 0 :=
      List.count_eq_zero.mpr fun among => absurd (inside _ among) (by decide)
    simp [isIncomplete, noBrace]
  simp [executed?, noCommand, complete]

/-- A number with too many digits comes through on any machine. -/
theorem takeLine_digits (machine : Machine) {run : List Char}
    (digits : run.all Char.isDigit = true) (long : ScanError.digitLimit < run.length)
    (mode : ExecutionMode) (limit : Nat) :
    (⟨machine, ""⟩ : Shell).takeLine mode (String.ofList run) limit =
      ⟨[], .escape (ScanError.tooManyDigits run.length).failure, ⟨machine, ""⟩⟩ := by
  have unread := Program.ofSource_of_scan_error (Token.scan_digits digits long)
  rw [takeLine_of_executed?_eq_some mode limit (executed?_digits machine digits long),
    Execution.ofSource, unread]
  rfl

/-- Nobody reports the failure of a number with one digit more than the limit. -/
theorem takeLine_nines :
    (fresh.takeLine ⟨false, false⟩ (String.ofList (List.replicate 4301 '9')) callLimit).ending =
      .escape (ScanError.tooManyDigits 4301).failure := by
  rw [fresh, takeLine_digits _ _ (by rw [List.length_replicate]; decide), List.length_replicate]
  exact List.all_replicate ..

end Shell

end TinyScript
