import TinyScript.Proofs.Evaluations

/-!
# The calls of an evaluation

A call goes through a name to the function that the name has in the scope of the call, with the values
of the arguments. Whatever an evaluation leads to, nothing that was logged there is ever taken back, so
the final log tells of every call.
-/

set_option autoImplicit false

namespace TinyScript

/-- What one machine has logged stands at the front of the log of another. -/
def Machine.Logged (before after : Machine) : Prop :=
  ∃ written, after.log = before.log ++ written

namespace Machine

variable {α β : Type} {before between after machine : Machine}

theorem Logged.refl (machine : Machine) : machine.Logged machine :=
  ⟨#[], (Array.append_empty).symm⟩

theorem Logged.trans (first : before.Logged between) (second : between.Logged after) :
    before.Logged after := by
  obtain ⟨written, log⟩ := first
  obtain ⟨more, further⟩ := second
  exact ⟨written ++ more, by rw [further, log, Array.append_assoc]⟩

theorem Logged.mem (logged : before.Logged after) {record : Record} (among : record ∈ before.log) :
    record ∈ after.log := by
  obtain ⟨written, log⟩ := logged
  rw [log]
  exact Array.mem_append_left _ among

theorem Logged.of_bind {step : Eval α} {next : α → Eval β}
    (grows : ∀ value between, Machine.Logged between (between.perform (next value)).2) :
    (machine.perform step).2.Logged (machine.perform (step >>= next)).2 := by
  cases done : machine.perform step with
  | mk outcome between =>
      cases outcome with
      | ok value =>
          rw [perform_bind_of_ok done]
          exact grows value between
      | error failure =>
          rw [perform_bind_of_error done]
          exact .refl between

end Machine

/-- Evaluations only ever add to the log. -/
def logging : Invariant where
  sound _ := True
  follows before after := before.Logged after
  admits _ _ := True
  allows _ _ _ := True

theorem logging_kept : logging.Kept where
  refl := Machine.Logged.refl
  trans := Machine.Logged.trans
  admits_later _ _ := trivial
  allows_later _ _ := trivial
  part _ _ := trivial
  null _ := trivial
  bool _ _ := trivial
  int _ := trivial
  onValues _ _ _ := trivial
  func _ := trivial
  strayFunc _ := trivial
  lookup _ _ := trivial
  define _ _ _ := ⟨trivial, .refl _⟩
  openCall _ _ _ _ _ := ⟨trivial, ⟨_, rfl⟩, fun _ _ => trivial⟩

namespace Node

variable {enter : Enter} {machine between after : Machine} {scope depth : Nat}

theorem evaluate_logged (depth scope : Nat) (node : Node) (machine : Machine) :
    machine.Logged (machine.perform (node.evaluate (enterWithin depth) scope)).2 :=
  (Invariant.evaluate_safe logging_kept (Invariant.enterWithin_kept logging_kept depth) trivial scope
    node trivial).2.1

theorem evaluateAll_logged (depth scope : Nat) (nodes : List Node) (machine : Machine) :
    machine.Logged (machine.perform (evaluateAll (enterWithin depth) scope nodes)).2 :=
  (Invariant.evaluateAll_safe logging_kept (Invariant.enterWithin_kept logging_kept depth) trivial
    scope nodes fun _ _ => trivial).2.1

theorem enterWithin_logged (depth scope : Nat) (body : List Node) (machine : Machine) :
    machine.Logged (machine.perform (enterWithin depth scope body)).2 :=
  (Invariant.enterWithin_kept logging_kept depth trivial fun _ _ => trivial).2.1

theorem callNamed_logged (depth scope : Nat) (callee : String) (values : List Value)
    (machine : Machine) :
    machine.Logged (machine.perform (callNamed (enterWithin depth) scope callee values)).2 :=
  (Invariant.callNamed_safe logging_kept (Invariant.enterWithin_kept logging_kept depth) trivial scope
    callee fun _ _ => trivial).2.1

/-- What is left to do for a tree when its operands have given values. -/
def finish (enter : Enter) (scope : Nat) : Node → List Value → Eval Value
  | .int value, _ => return .int value
  | .bool value, _ => return .bool value
  | .name spelling, _ => readName scope spelling
  | .binary op _ _, [left, right] =>
      match op.onValues left right with
      | .ok value => return value
      | .error fault => throw fault
  | .letE target _, [bound] => do
      modifyStore fun store => store.define scope target bound
      return bound
  | .returnE _, [value] | .shownAs _ _, [value] => return value
  | .block _, values => return lastValue values
  | .ifThen _ consequence, [tested] =>
      if tested.isTruthy then evaluate enter scope consequence else return .null
  | .ifElse _ consequence alternative, [tested] =>
      if tested.isTruthy then evaluate enter scope consequence
      else evaluate enter scope alternative
  | .call callee _, values => callNamed enter scope callee values
  | .func parameters body, _ => return .closure parameters body scope
  | .strayFunc parameters body _, _ => return .strayClosure parameters body scope
  | node, _ => throw (.unexpectedNode node)

/-- The operands of a tree come first, and after them what is left to do. -/
theorem evaluate_eq_operands (enter : Enter) (scope : Nat) (node : Node) :
    node.evaluate enter scope =
      evaluateAll enter scope node.operands >>= node.finish enter scope := by
  cases node with
  | block | call => rfl
  | binary op left right =>
      simp only [evaluate, evaluateAll, operands, bind_assoc, pure_bind]
      rfl
  | shownAs content meaning =>
      cases inert : meaning.isEvaluable <;> simp [evaluate, evaluateAll, operands, finish, inert]
  | _ => simp [evaluate, evaluateAll, operands, finish]

theorem finish_logged (depth scope : Nat) (node : Node) (values : List Value) (machine : Machine) :
    machine.Logged (machine.perform (node.finish (enterWithin depth) scope values)).2 := by
  unfold finish
  split
  · exact .refl machine
  · exact .refl machine
  · exact (Invariant.readName_safe logging_kept trivial scope _).2.1
  · split
    · exact .refl machine
    · exact .refl machine
  · exact ⟨#[], (Array.append_empty).symm⟩
  · exact .refl machine
  · exact .refl machine
  · exact .refl machine
  · split
    · exact evaluate_logged depth scope _ machine
    · exact .refl machine
  · split
    · exact evaluate_logged depth scope _ machine
    · exact evaluate_logged depth scope _ machine
  · exact callNamed_logged depth scope _ _ machine
  · exact .refl machine
  · exact .refl machine
  · exact .refl machine

theorem Turn.head {node : Node} {later : List Node} :
    Turn enter scope machine (node :: later) node machine :=
  @Turn.comes enter scope machine [] later node [] machine rfl

theorem Turn.tail {first node : Node} {later : List Node} {value : Value}
    (given : machine.perform (first.evaluate enter scope) = (.ok value, between))
    (turn : Turn enter scope between later node after) :
    Turn enter scope machine (first :: later) node after := by
  cases turn with
  | @comes earlier rest _ values _ givenLater =>
      have both : machine.perform (evaluateAll enter scope (first :: earlier)) =
          (.ok (value :: values), after) := by
        rw [evaluateAll, Machine.perform_bind_of_ok given, Machine.perform_bind_of_ok givenLater]
        rfl
      exact .comes both

theorem evaluateAll_append (enter : Enter) (scope : Nat) (earlier later : List Node) :
    evaluateAll enter scope (earlier ++ later) =
      evaluateAll enter scope earlier >>= fun values =>
        evaluateAll enter scope later >>= fun others => pure (values ++ others) := by
  induction earlier with
  | nil => simp [evaluateAll]
  | cons first earlier ih => simp [evaluateAll, ih]

theorem Turn.append {nodes : List Node} {node : Node} (turn : Turn enter scope machine nodes node after)
    (later : List Node) : Turn enter scope machine (nodes ++ later) node after := by
  cases turn with
  | @comes earlier rest _ _ _ given =>
      rw [List.append_assoc, List.cons_append]
      exact .comes given

theorem Turn.behind {earlier later : List Node} {node : Node} {values : List Value}
    (given : machine.perform (evaluateAll enter scope earlier) = (.ok values, between))
    (turn : Turn enter scope between later node after) :
    Turn enter scope machine (earlier ++ later) node after := by
  cases turn with
  | @comes front rest _ others _ givenLater =>
      have both : machine.perform (evaluateAll enter scope (earlier ++ front)) =
          (.ok (values ++ others), after) := by
        rw [evaluateAll_append, Machine.perform_bind_of_ok given,
          Machine.perform_bind_of_ok givenLater]
        rfl
      rw [← List.append_assoc]
      exact .comes both

theorem Turn.logged {nodes : List Node} {node : Node}
    (turn : Turn (enterWithin depth) scope machine nodes node after) :
    (after.perform (node.evaluate (enterWithin depth) scope)).2.Logged
      (machine.perform (evaluateAll (enterWithin depth) scope nodes)).2 := by
  cases turn with
  | @comes earlier later _ values _ given =>
      have further (value : Value) (between : Machine) (nodes : List Node) : between.Logged
          (between.perform (evaluateAll (enterWithin depth) scope nodes >>= fun values =>
            pure (value :: values))).2 :=
        (evaluateAll_logged depth scope nodes between).trans
          (.of_bind fun _ _ => .refl _)
      induction earlier generalizing machine values with
      | nil =>
          cases given
          rw [List.nil_append, evaluateAll]
          exact .of_bind fun value between => further value between later
      | cons first earlier ih =>
          rw [evaluateAll] at given
          rw [List.cons_append, evaluateAll]
          obtain ⟨value, between, firstGiven, rest⟩ :=
            Machine.perform_bind_eq_ok (congrArg Prod.fst given)
          rw [given] at rest
          obtain ⟨others, last, laterGiven, ends⟩ :=
            Machine.perform_bind_eq_ok (congrArg Prod.fst rest.symm)
          rw [← rest, Machine.perform_pure] at ends
          cases ends
          rw [Machine.perform_bind_of_ok firstGiven]
          exact (ih laterGiven).trans (.of_bind fun _ _ => .refl _)

end Node

namespace Evaluation

variable {evaluation other : Evaluation}

theorem Opens.outcome_eq {function : Value} {callable : Callable} {inner : Nat} {opened : Machine}
    (opens : evaluation.Opens function callable inner opened) :
    evaluation.outcome =
      opened.perform (enterWithin evaluation.depth inner callable.body) := by
  cases opens with
  | call given found calls =>
      rw [outcome, Node.evaluate, Machine.perform_bind_of_ok given,
        Machine.perform_callNamed _ found calls]

/-- What was logged in an evaluation when another one of it ends is still there when it ends. -/
theorem Begins.logged (begins : evaluation.Begins other) :
    other.outcome.2.Logged evaluation.outcome.2 := by
  cases begins with
  | operand turn =>
      refine turn.logged.trans ?_
      rw [outcome, Node.evaluate_eq_operands]
      exact .of_bind (Node.finish_logged _ _ _)
  | onlyConsequence given truthy | consequence given truthy =>
      rw [outcome, outcome, Node.evaluate, Machine.perform_bind_of_ok given, if_pos truthy]
      exact .refl _
  | alternative given falsy =>
      rw [outcome, outcome, Node.evaluate, Machine.perform_bind_of_ok given,
        if_neg (Bool.eq_false_iff.mp falsy)]
      exact .refl _
  | statement opens turn =>
      rw [opens.outcome_eq]
      exact turn.logged.trans (.of_bind fun _ _ => .refl _)

theorem LeadsTo.logged (leads : evaluation.LeadsTo other) :
    other.outcome.2.Logged evaluation.outcome.2 := by
  induction leads with
  | refl => exact .refl _
  | tail _ begins ih => exact begins.logged.trans ih

/-- An evaluation calls a function, through a name and with the values of the arguments. -/
inductive Calls : Evaluation → String → Value → List Value → Prop where
  | call {machine between : Machine} {depth scope : Nat} {callee : String} {arguments : List Node}
      {values : List Value} {function : Value} {callable : Callable} :
      machine.perform (Node.evaluateAll (enterWithin depth) scope arguments) =
        (.ok values, between) →
      between.store.lookup? scope callee = some function →
      function.callable? = some callable →
      Calls ⟨machine, depth, scope, .call callee arguments⟩ callee function values

/-- All calls that an evaluation leads to are as permitted. -/
def CallsOnly (permits : String → Value → List Value → Prop) (evaluation : Evaluation) : Prop :=
  ∀ reached, evaluation.LeadsTo reached → ∀ callee function values,
    reached.Calls callee function values → permits callee function values

/-- The final log has the records of every call that an evaluation leads to. -/
theorem LeadsTo.mem_log (leads : evaluation.LeadsTo other) {callee : String} {function : Value}
    {values : List Value} {callable : Callable} (calls : other.Calls callee function values)
    (called : function.callable? = some callable) {record : Record}
    (among : record ∈ Machine.callRecords callee callable.expected values) :
    record ∈ evaluation.outcome.2.log := by
  refine leads.logged.mem ?_
  cases calls with
  | call given found callableThere =>
      rw [called] at callableThere
      cases callableThere
      rw [(Opens.call given found called).outcome_eq]
      exact (Node.enterWithin_logged _ _ _ _).mem (Array.mem_append_right _ among)

/-- Where no warning was logged, every function that was called got as many arguments as it takes. -/
theorem callsOnly_of_quiet
    (quiet : ∀ record ∈ evaluation.outcome.2.log, record.isWarning = false) :
    evaluation.CallsOnly fun _ function values =>
      ∀ callable, function.callable? = some callable → callable.expected = values.length := by
  intro reached leads callee function values calls callable called
  refine Decidable.byContradiction fun different => ?_
  have warned : Record.arity callee callable.expected values.length ∈ evaluation.outcome.2.log := by
    refine leads.mem_log calls called ?_
    simp [Machine.callRecords, different]
  exact Bool.noConfusion (quiet _ warned)

theorem callsOnly_any (evaluation : Evaluation) : evaluation.CallsOnly fun _ _ _ => True :=
  fun _ _ _ _ _ _ => trivial

section

variable {permitted : String → Value → List Value → Prop}

theorem CallsOnly.begins (only : evaluation.CallsOnly permitted) (begins : evaluation.Begins other) :
    other.CallsOnly permitted :=
  fun reached leads => only reached (leads.head begins)

theorem CallsOnly.permits {callee : String} {function : Value} {values : List Value}
    (only : evaluation.CallsOnly permitted) (calls : evaluation.Calls callee function values) :
    permitted callee function values :=
  only evaluation .refl callee function values calls

end

end Evaluation

end TinyScript
