import TinyScript.Proofs.Reporting

/-!
# Running and executing

A source text is run for its values or executed for what it prints, and then failures are fatal or
not. Whatever machine it is, all three do the same up to the first failure. There the run and the
fatal execution end, and the other execution goes on with the next statement.
-/

set_option autoImplicit false

namespace TinyScript

/-- Lines that show the values of statements, in order. -/
inductive Shows (showTrees : Bool) : Program → List Value → List Line → Prop where
  | done : Shows showTrees [] [] []
  | next {statement : Node} {later : Program} {value : Value} {values : List Value}
      {traces lines : List Line} :
      statement.Traced showTrees traces → Shows showTrees later values lines →
      Shows showTrees (statement :: later) (value :: values)
        (traces ++ .value value.shown :: lines)

def Line.isTrace : Line → Bool
  | .trace _ => true
  | _ => false

/-- A program fails at a statement, and leaves a machine there. The execution that ends with the
failure printed the values until then and the failure. The one that goes on printed as much, and gives
account of the statements that follow. -/
inductive Execution.FailAt (showTrees : Bool) (limit : Nat) (machine : Machine)
    (failure : Failure) (after : Machine) : Program → Execution → Execution → Prop where
  | statement {earlier later : Program} {statement : Node} {values : List Value}
      {between last : Machine} {label message : String} {told traces rest : List Line} :
      machine.perform (earlier.evaluate limit) = (.ok values, between) →
      between.evaluate statement limit = (.error failure, after) →
      failure.report? = some (label, message) →
      Shows showTrees earlier values told → statement.Traced showTrees traces →
      Accounts showTrees limit after later rest last →
      FailAt showTrees limit machine failure after (earlier ++ statement :: later)
        ⟨told ++ traces ++ [.error label message], .exit 1, after⟩
        ⟨told ++ traces ++ .error label message :: rest, .proceed, last⟩

namespace Execution

def withoutTraces (execution : Execution) : Execution :=
  { execution with lines := execution.lines.filter (!·.isTrace) }

/-- One execution after another, if the first lets the session go on. -/
def andThen (first : Execution) (next : Machine → Execution) : Execution :=
  if first.ending = .proceed then
    let following := next first.machine
    { following with lines := first.lines ++ following.lines }
  else
    first

theorem andThen_of_proceed (lines : List Line) (machine : Machine) (next : Machine → Execution) :
    andThen ⟨lines, .proceed, machine⟩ next =
      ⟨lines ++ (next machine).lines, (next machine).ending, (next machine).machine⟩ :=
  rfl

theorem andThen_assoc (first : Execution) (second third : Machine → Execution) :
    (first.andThen second).andThen third = first.andThen fun machine =>
      (second machine).andThen third := by
  unfold andThen
  by_cases firstEnds : first.ending = .proceed
  · by_cases secondEnds : (second first.machine).ending = .proceed
    · simp only [firstEnds, secondEnds, if_true, List.append_assoc]
    · simp only [firstEnds, secondEnds, if_true, if_false]
  · simp only [firstEnds, if_false]

theorem ofProgram_append (mode : ExecutionMode) (machine : Machine) (earlier later : Program)
    (limit : Nat) :
    ofProgram mode machine (earlier ++ later) limit =
      (ofProgram mode machine earlier limit).andThen fun between =>
        ofProgram mode between later limit := by
  induction earlier generalizing machine with
  | nil => rfl
  | cons first earlier ih =>
      have step (program : Program) : ofProgram mode machine (first :: program) limit =
          (ofStatement mode machine first limit).andThen fun between =>
            ofProgram mode between program limit :=
        rfl
      rw [List.cons_append, step, step, andThen_assoc]
      simp only [ih]

theorem withoutTraces_andThen (first : Execution) (next : Machine → Execution) :
    (first.andThen next).withoutTraces =
      first.withoutTraces.andThen fun machine => (next machine).withoutTraces := by
  unfold andThen withoutTraces
  by_cases ends : first.ending = .proceed
  · simp only [ends, if_true, List.filter_append]
  · simp only [ends, if_false]

theorem ofValue_withoutTraces (fatal showTrees : Bool) (machine : Machine) (statement : Node)
    (limit : Nat) :
    (ofValue ⟨fatal, showTrees⟩ machine statement limit).withoutTraces =
      ofValue ⟨fatal, false⟩ machine statement limit := by
  unfold ofValue
  split
  · rfl
  · next failure after _ =>
      cases report : failure.report? with
      | none => simp [Report.ofFailure, report, withoutTraces]
      | some told => simp [Report.ofFailure, Report.announce, report, withoutTraces, Line.isTrace]

theorem ofStatement_withoutTraces (fatal : Bool) (machine : Machine) {statement : Node}
    (wellFormed : statement.isWellFormed = true) (limit : Nat) :
    (ofStatement ⟨fatal, true⟩ machine statement limit).withoutTraces =
      ofStatement ⟨fatal, false⟩ machine statement limit := by
  obtain ⟨text, source⟩ := Node.source_of_isWellFormed wellFormed
  have valued := ofValue_withoutTraces fatal true machine statement limit
  simpa [ofStatement, source, withoutTraces, Line.isTrace] using valued

theorem ofProgram_withoutTraces (fatal : Bool) (machine : Machine) {program : Program}
    (wellFormed : Node.areWellFormed program = true) (limit : Nat) :
    (ofProgram ⟨fatal, true⟩ machine program limit).withoutTraces =
      ofProgram ⟨fatal, false⟩ machine program limit := by
  induction program generalizing machine with
  | nil => rfl
  | cons first later ih =>
      obtain ⟨firstFormed, laterFormed⟩ := Bool.and_eq_true_iff.mp wellFormed
      have step (showTrees : Bool) : ofProgram ⟨fatal, showTrees⟩ machine (first :: later) limit =
          (ofStatement ⟨fatal, showTrees⟩ machine first limit).andThen fun between =>
            ofProgram ⟨fatal, showTrees⟩ between later limit :=
        rfl
      rw [step, step, withoutTraces_andThen, ofStatement_withoutTraces fatal machine firstFormed]
      simp only [fun between => ih between laterFormed]

end Execution

namespace Machine

variable {machine between after : Machine} {first : Node} {later program : Program} {limit : Nat}

theorem perform_evaluate_of_error {failure : Failure}
    (failed : machine.evaluate first limit = (.error failure, after)) :
    machine.perform (Program.evaluate (first :: later) limit) = (.error failure, after) :=
  perform_bind_of_error failed

theorem perform_evaluate_of_ok {value : Value}
    (given : machine.evaluate first limit = (.ok value, between)) :
    machine.perform (Program.evaluate (first :: later) limit) =
      ((between.perform (Program.evaluate later limit)).1.map (value :: ·),
        (between.perform (Program.evaluate later limit)).2) := by
  have step : machine.perform (Program.evaluate (first :: later) limit) =
      between.perform (Program.evaluate later limit >>= fun values => pure (value :: values)) :=
    perform_bind_of_ok given
  rw [step]
  cases outcome : between.perform (Program.evaluate later limit) with
  | mk result last =>
      cases result with
      | ok values => rw [perform_bind_of_ok outcome]; rfl
      | error failure => rw [perform_bind_of_error outcome]; rfl

/-- A run that fails does so at one statement, in what the ones before it left. -/
theorem exists_statement_of_error {failure : Failure}
    (failed : machine.perform (program.evaluate limit) = (.error failure, after)) :
    ∃ earlier statement later values between, program = earlier ++ statement :: later ∧
      machine.perform (Program.evaluate earlier limit) = (.ok values, between) ∧
      between.evaluate statement limit = (.error failure, after) := by
  induction program generalizing machine with
  | nil => cases failed
  | cons first later ih =>
      cases result : machine.evaluate first limit with
      | mk outcome next =>
          cases outcome with
          | error earlier =>
              rw [perform_evaluate_of_error result] at failed
              cases failed
              exact ⟨[], first, later, [], machine, rfl, rfl, result⟩
          | ok value =>
              rw [perform_evaluate_of_ok result] at failed
              have failedLater :
                  next.perform (Program.evaluate later limit) = (.error failure, after) := by
                cases outcome : next.perform (Program.evaluate later limit) with
                | mk result last =>
                    rw [outcome] at failed
                    cases result with
                    | ok values => cases failed
                    | error other => cases failed; rfl
              obtain ⟨earlier, statement, rest, values, between, rfl, given, fails⟩ :=
                ih failedLater
              refine ⟨first :: earlier, statement, rest, value :: values, between, rfl, ?_, fails⟩
              rw [perform_evaluate_of_ok result, given]
              rfl

end Machine

namespace Execution

variable {machine between after : Machine} {program : Program} {limit : Nat}

theorem ofProgram_shows (showTrees : Bool) (wellFormed : Node.areWellFormed program = true)
    {values : List Value} (given : machine.perform (program.evaluate limit) = (.ok values, after)) :
    ∃ lines, Shows showTrees program values lines ∧
      ∀ fatal, ofProgram ⟨fatal, showTrees⟩ machine program limit = ⟨lines, .proceed, after⟩ := by
  induction program generalizing machine values with
  | nil =>
      cases given
      exact ⟨[], .done, fun _ => rfl⟩
  | cons first later ih =>
      obtain ⟨firstFormed, laterFormed⟩ := Bool.and_eq_true_iff.mp wellFormed
      cases result : machine.evaluate first limit with
      | mk outcome next =>
          cases outcome with
          | error failure =>
              rw [Machine.perform_evaluate_of_error result] at given
              cases given
          | ok value =>
              rw [Machine.perform_evaluate_of_ok result] at given
              cases further : next.perform (Program.evaluate later limit) with
              | mk outcome last =>
                  rw [further] at given
                  cases outcome with
                  | error failure => cases given
                  | ok others =>
                      cases given
                      obtain ⟨traces, traced, executed⟩ := exists_traced showTrees firstFormed
                      obtain ⟨lines, shows, executedLater⟩ := ih laterFormed further
                      refine ⟨_, .next traced shows, fun fatal => ?_⟩
                      simp only [ofProgram, executed, ofValue, result, executedLater, if_true,
                        List.append_assoc, List.singleton_append]

theorem ofStatement_fails (showTrees : Bool) {statement : Node}
    (wellFormed : statement.isWellFormed = true) {failure : Failure} {label message : String}
    (failed : between.evaluate statement limit = (.error failure, after))
    (report : failure.report? = some (label, message)) :
    ∃ traces, statement.Traced showTrees traces ∧ ∀ fatal,
      ofStatement ⟨fatal, showTrees⟩ between statement limit =
        ⟨traces ++ [.error label message], if fatal then .exit 1 else .proceed, after⟩ := by
  obtain ⟨traces, traced, executed⟩ := exists_traced showTrees wellFormed
  refine ⟨traces, traced, fun fatal => ?_⟩
  simp only [executed, ofValue, failed, Report.ofFailure, report, Report.announce]

theorem areWellFormed_of_append {earlier later : List Node}
    (wellFormed : Node.areWellFormed (earlier ++ later) = true) :
    Node.areWellFormed earlier = true ∧ Node.areWellFormed later = true := by
  have all := Node.areWellFormed_iff.mp wellFormed
  constructor
  · exact Node.areWellFormed_iff.mpr fun node member => all node (List.mem_append_left _ member)
  · exact Node.areWellFormed_iff.mpr fun node member => all node (List.mem_append_right _ member)

theorem ofProgram_failAt (showTrees : Bool) (familiar : machine.IsKnown)
    (wellFormed : Node.areWellFormed program = true) {failure : Failure}
    (failed : machine.perform (program.evaluate limit) = (.error failure, after)) :
    FailAt showTrees limit machine failure after program
      (ofProgram ⟨true, showTrees⟩ machine program limit)
      (ofProgram ⟨false, showTrees⟩ machine program limit) := by
  obtain ⟨earlier, statement, later, values, between, rfl, given, fails⟩ :=
    Machine.exists_statement_of_error failed
  obtain ⟨earlierFormed, restFormed⟩ := areWellFormed_of_append wellFormed
  obtain ⟨statementFormed, laterFormed⟩ := Bool.and_eq_true_iff.mp restFormed
  have betweenKnown : between.IsKnown := by
    have kept := familiar.perform_evaluate (Node.known_of_areWellFormed earlierFormed) limit
    rwa [given] at kept
  have known := Node.known_of_isWellFormed statementFormed
  have afterKnown : after.IsKnown := by
    have kept := betweenKnown.evaluate known limit
    rwa [fails] at kept
  -- The closures that statements made until here are known, so the failure has a report.
  obtain ⟨label, message, report⟩ :=
    Failure.exists_report (betweenKnown.category_mem known (congrArg Prod.fst fails))
  obtain ⟨told, shows, executed⟩ := ofProgram_shows showTrees earlierFormed given
  obtain ⟨traces, traced, stopped⟩ := ofStatement_fails showTrees statementFormed fails report
  obtain ⟨proceeds, accounts⟩ := ofProgram_accounts showTrees limit afterKnown laterFormed
  have whole := FailAt.statement given fails report shows traced accounts
  have ends : ofProgram ⟨true, showTrees⟩ machine (earlier ++ statement :: later) limit =
      ⟨told ++ traces ++ [.error label message], .exit 1, after⟩ := by
    rw [ofProgram_append, executed, andThen_of_proceed, ofProgram, stopped]
    simp
  have goesOn : ofProgram ⟨false, showTrees⟩ machine (earlier ++ statement :: later) limit =
      ⟨told ++ traces ++ .error label message ::
        (ofProgram ⟨false, showTrees⟩ after later limit).lines, .proceed,
        (ofProgram ⟨false, showTrees⟩ after later limit).machine⟩ := by
    rw [ofProgram_append, executed, andThen_of_proceed, ofProgram, stopped]
    simp [proceeds]
  rwa [← ends, ← goesOn] at whole

theorem ofSource_failAt (showTrees : Bool) (familiar : machine.IsKnown) {source : String}
    (parsed : Program.ofSource source = .ok program) {failure : Failure}
    (ran : machine.run source limit = (.error failure, after)) :
    FailAt showTrees limit machine failure after program
      (ofSource ⟨true, showTrees⟩ machine source limit)
      (ofSource ⟨false, showTrees⟩ machine source limit) := by
  rw [Machine.run, parsed] at ran
  simp only [ofSource, parsed]
  exact ofProgram_failAt showTrees familiar (Program.areWellFormed_of_ofSource parsed) ran

/-- In a session all closures are made of known trees, so whenever a run fails there the executions of
the same text fail with it. -/
theorem ofSource_failAt_of_inSession (showTrees : Bool) (session : machine.InSession)
    {source : String} (parsed : Program.ofSource source = .ok program) {failure : Failure}
    (ran : machine.run source limit = (.error failure, after)) :
    FailAt showTrees limit machine failure after program
      (ofSource ⟨true, showTrees⟩ machine source limit)
      (ofSource ⟨false, showTrees⟩ machine source limit) :=
  ofSource_failAt showTrees session.isProper.isKnown parsed ran

end Execution

/-- The run of a source text and its executions agree on any machine and with any limit, unless a number
in the text has too many digits. A text that the grammar rejects leaves the machine alone and costs one
line. Values are printed in order, and all three leave the same machine. A run that fails leaves what the
fatal execution leaves, which ends with that failure, and the other execution goes on from there; for
this, closures have to be made of known trees, as they are in a session, since nobody reports that a
tree is none. Lines that show statements come on top of all. -/
theorem Machine.run_agrees_with_executions (machine : Machine) (showTrees : Bool) (limit : Nat)
    {source : String} (readable : ∀ count, Token.scan source ≠ .error (.tooManyDigits count)) :
    (∀ failure, Program.ofSource source = .error failure →
      machine.run source limit = (.error failure, machine) ∧
      ∃ message, failure = ⟨.language .grammar, message⟩ ∧
        ∀ fatal, Execution.ofSource ⟨fatal, showTrees⟩ machine source limit =
          ⟨[.error "syntax" message], if fatal then .exit 1 else .proceed, machine⟩) ∧
    (∀ program values after, Program.ofSource source = .ok program →
      machine.run source limit = (.ok values, after) →
      ∃ lines, Shows showTrees program values lines ∧
        ∀ fatal, Execution.ofSource ⟨fatal, showTrees⟩ machine source limit =
          ⟨lines, .proceed, after⟩) ∧
    (machine.IsKnown → ∀ program failure after, Program.ofSource source = .ok program →
      machine.run source limit = (.error failure, after) →
      Execution.FailAt showTrees limit machine failure after program
        (Execution.ofSource ⟨true, showTrees⟩ machine source limit)
        (Execution.ofSource ⟨false, showTrees⟩ machine source limit)) ∧
    ∀ fatal, (Execution.ofSource ⟨fatal, true⟩ machine source limit).withoutTraces =
      Execution.ofSource ⟨fatal, false⟩ machine source limit := by
  refine ⟨?_, ?_, ?_, ?_⟩
  · intro failure failed
    obtain ⟨message, rfl⟩ := Program.ofSource_rejects_readable readable failed
    refine ⟨by rw [Machine.run, failed], message, rfl, fun fatal => ?_⟩
    rw [Execution.ofSource, failed]
    rfl
  · intro program values after parsed ran
    rw [Machine.run, parsed] at ran
    simp only [Execution.ofSource, parsed]
    exact Execution.ofProgram_shows showTrees (Program.areWellFormed_of_ofSource parsed) ran
  · intro familiar program failure after parsed ran
    exact Execution.ofSource_failAt showTrees familiar parsed ran
  · intro fatal
    cases parsed : Program.ofSource source with
    | ok program =>
        simp only [Execution.ofSource, parsed]
        exact Execution.ofProgram_withoutTraces fatal machine
          (Program.areWellFormed_of_ofSource parsed) limit
    | error failure =>
        obtain ⟨message, rfl⟩ := Program.ofSource_rejects_readable readable parsed
        simp only [Execution.ofSource, parsed]
        rfl

/-- The second of three statements fails. -/
theorem Machine.run_agrees_with_executions_unbound :
    Execution.FailAt false callLimit Machine.fresh
      ⟨.language .name, "Undefined variable @ lookup(): missing"⟩ Machine.fresh
      [.int 1, .name "missing", .int 2]
      (Execution.ofSource ⟨true, false⟩ Machine.fresh "1; missing; 2;" callLimit)
      (Execution.ofSource ⟨false, false⟩ Machine.fresh "1; missing; 2;" callLimit) := by
  have parsed : Program.ofSource "1; missing; 2;" = .ok [.int 1, .name "missing", .int 2] := by
    cbv
  have ran : Machine.fresh.run "1; missing; 2;" callLimit =
      (.error ⟨.language .name, "Undefined variable @ lookup(): missing"⟩, Machine.fresh) := by
    set_option maxRecDepth 10000 in cbv
  have readable (count : Nat) : Token.scan "1; missing; 2;" ≠ .error (.tooManyDigits count) := by
    intro failed
    rw [Program.ofSource_of_scan_error failed] at parsed
    cases parsed
  exact (Machine.fresh.run_agrees_with_executions false callLimit readable).2.2.1
    fresh_isProper.isKnown _ _ _ parsed ran

end TinyScript
