import TinyScript.Proofs.Performing

/-!
# Invariants of evaluation

An invariant says which machines are sound, which values a machine may meet, and which trees may be
evaluated where. If the elementary steps keep it, so does the evaluation of every tree, however it
ends: in it, nothing else ever touches a machine. Where an evaluation fails, it does so at an
elementary step, on values and trees that the invariant speaks about.
-/

set_option autoImplicit false

namespace TinyScript

/-- The trees that are evaluated in the scope of a tree, as parts of it. -/
def Node.parts : Node → List Node
  | .int _ | .bool _ | .name _ | .func .. | .strayLet .. | .strayCall .. | .strayFunc .. | .stray _ =>
      []
  | .binary _ left right => [left, right]
  | .letE _ value | .returnE value | .shownAs _ value => [value]
  | .block statements => statements
  | .ifThen condition consequence => [condition, consequence]
  | .ifElse condition consequence alternative => [condition, consequence, alternative]
  | .call _ arguments => arguments

/-- Whether a tree has a form that evaluation knows nothing to do with. -/
def Node.isUnexpected : Node → Bool
  | .strayLet .. | .strayCall .. | .stray _ => true
  | .shownAs _ meaning => !meaning.isEvaluable
  | _ => false

/-- Sound machines, what may follow on a machine, the values that a machine may meet, and the trees
that may be evaluated in a scope of it. -/
structure Invariant where
  sound : Machine → Prop
  follows : Machine → Machine → Prop
  admits : Machine → Value → Prop
  allows : Machine → Nat → Node → Prop

namespace Invariant

/-- The faults of elementary steps, on values and trees that an invariant lets through. -/
inductive Raises (invariant : Invariant) (machine : Machine) : EvalError → Prop where
  | undefinedVariable (name : String) : Raises invariant machine (.undefinedVariable name)
  | undefinedFunction (name : String) : Raises invariant machine (.undefinedFunction name)
  | notAFunction (name : String) {value : Value} :
      invariant.admits machine value → value.callable? = none →
      Raises invariant machine (.notAFunction name value)
  | operands {op : BinaryOp} {left right : Value} {fault : EvalError} :
      invariant.admits machine left → invariant.admits machine right →
      op.onValues left right = .error fault → Raises invariant machine fault
  | depthExceeded : Raises invariant machine .depthExceeded
  | unexpectedNode {scope : Nat} {node : Node} :
      invariant.allows machine scope node → node.isUnexpected = true →
      Raises invariant machine (.unexpectedNode node)

/-- A step ends in a sound machine that follows on the first one, gives only what holds, and fails
only as elementary steps do. -/
def Safe (invariant : Invariant) {α : Type} (gives : Machine → α → Prop) (machine : Machine)
    (step : Eval α) : Prop :=
  invariant.sound (machine.perform step).2 ∧ invariant.follows machine (machine.perform step).2 ∧
    (∀ value, (machine.perform step).1 = .ok value → gives (machine.perform step).2 value) ∧
    ∀ failure, (machine.perform step).1 = .error failure →
      ∃ fault, invariant.Raises (machine.perform step).2 fault ∧ failure = fault.failure

/-- The elementary steps of evaluation keep an invariant. -/
structure Kept (invariant : Invariant) : Prop where
  refl : ∀ machine, invariant.follows machine machine
  trans : ∀ {before between after}, invariant.follows before between →
    invariant.follows between after → invariant.follows before after
  admits_later : ∀ {before after value}, invariant.follows before after →
    invariant.admits before value → invariant.admits after value
  allows_later : ∀ {before after scope node}, invariant.follows before after →
    invariant.allows before scope node → invariant.allows after scope node
  part : ∀ {machine scope node part}, invariant.allows machine scope node → part ∈ node.parts →
    invariant.allows machine scope part
  null : ∀ machine, invariant.admits machine .null
  bool : ∀ machine value, invariant.admits machine (.bool value)
  int : ∀ {machine scope value}, invariant.allows machine scope (.int value) →
    invariant.admits machine (.int value)
  onValues : ∀ {machine op left right value}, invariant.admits machine left →
    invariant.admits machine right → BinaryOp.onValues op left right = .ok value →
    invariant.admits machine value
  func : ∀ {machine scope parameters body},
    invariant.allows machine scope (.func parameters body) →
    invariant.admits machine (.closure parameters body scope)
  strayFunc : ∀ {machine scope parameters body statements},
    invariant.allows machine scope (.strayFunc parameters body statements) →
    invariant.admits machine (.strayClosure parameters body scope)
  lookup : ∀ {machine scope name value}, invariant.sound machine →
    machine.store.lookup? scope name = some value → invariant.admits machine value
  define : ∀ {machine scope target value bound}, invariant.sound machine →
    invariant.allows machine scope (.letE target value) → invariant.admits machine bound →
    invariant.sound { machine with store := machine.store.define scope target bound } ∧
      invariant.follows machine { machine with store := machine.store.define scope target bound }
  openCall : ∀ {machine function callable arguments} callee, invariant.sound machine →
    invariant.admits machine function → function.callable? = some callable →
    (∀ argument ∈ arguments, invariant.admits machine argument) →
    let opened : Machine :=
      ⟨machine.store.openCall callable.home (callable.bound arguments) callee function,
        machine.log ++ Machine.callRecords callee callable.expected arguments⟩
    invariant.sound opened ∧ invariant.follows machine opened ∧
      ∀ node ∈ callable.body, invariant.allows opened machine.store.nextId node

section

variable {invariant : Invariant} {α β : Type} {machine : Machine}

theorem Safe.bind {gives : Machine → α → Prop} {givesNext : Machine → β → Prop} {step : Eval α}
    {next : α → Eval β} (kept : invariant.Kept) (first : invariant.Safe gives machine step)
    (later : ∀ value after, invariant.sound after → invariant.follows machine after →
      gives after value → invariant.Safe givesNext after (next value)) :
    invariant.Safe givesNext machine (step >>= next) := by
  obtain ⟨sound, follows, given, raised⟩ := first
  cases result : machine.perform step with
  | mk outcome after =>
      rw [result] at sound follows given raised
      unfold Safe
      cases outcome with
      | ok value =>
          rw [Machine.perform_bind_of_ok result]
          obtain ⟨nextSound, nextFollows, nextOutcome⟩ :=
            later value after sound follows (given value rfl)
          exact ⟨nextSound, kept.trans follows nextFollows, nextOutcome⟩
      | error failure =>
          rw [Machine.perform_bind_of_error result]
          refine ⟨sound, follows, (fun _ never => nomatch never), ?_⟩
          intro same raisedFailure
          cases raisedFailure
          exact raised failure rfl

theorem Safe.pure {gives : Machine → α → Prop} (kept : invariant.Kept)
    (sound : invariant.sound machine) {value : α} (given : gives machine value) :
    invariant.Safe gives machine (Pure.pure value) := by
  refine ⟨sound, kept.refl machine, ?_, fun _ never => nomatch never⟩
  intro other same
  cases same
  exact given

theorem Safe.throw {gives : Machine → α → Prop} (kept : invariant.Kept)
    (sound : invariant.sound machine) {fault : EvalError}
    (raised : invariant.Raises machine fault) :
    invariant.Safe gives machine (MonadExcept.throw fault) := by
  refine ⟨sound, kept.refl machine, (fun _ never => nomatch never), ?_⟩
  intro failure same
  cases same
  exact ⟨fault, raised, rfl⟩

theorem readName_safe (kept : invariant.Kept) (sound : invariant.sound machine) (scope : Nat)
    (name : String) : invariant.Safe invariant.admits machine (readName scope name) := by
  unfold readName Safe
  rw [Machine.perform_get_bind]
  split
  · next value found => exact Safe.pure kept sound (kept.lookup sound found)
  · exact Safe.throw kept sound (.undefinedVariable name)

/-- Whatever runs allowed trees does so safely. -/
def KeptBy (invariant : Invariant) (enter : Enter) : Prop :=
  ∀ {machine scope body}, invariant.sound machine →
    (∀ node ∈ body, invariant.allows machine scope node) →
    invariant.Safe invariant.admits machine (enter scope body)

variable {enter : Enter}

theorem callNamed_safe (kept : invariant.Kept) (entered : invariant.KeptBy enter)
    (sound : invariant.sound machine) (scope : Nat) (callee : String) {arguments : List Value}
    (admitted : ∀ argument ∈ arguments, invariant.admits machine argument) :
    invariant.Safe invariant.admits machine (callNamed enter scope callee arguments) := by
  cases found : machine.store.lookup? scope callee with
  | none =>
      unfold Safe
      rw [Machine.perform_callNamed_undefined arguments found]
      exact Safe.throw kept sound (.undefinedFunction callee)
  | some function =>
      cases calls : function.callable? with
      | none =>
          unfold Safe
          rw [Machine.perform_callNamed_notAFunction arguments found calls]
          exact Safe.throw kept sound (.notAFunction callee (kept.lookup sound found) calls)
      | some callable =>
          obtain ⟨openSound, opens, allowed⟩ :=
            kept.openCall callee sound (kept.lookup sound found) calls admitted
          obtain ⟨afterSound, follows, outcome⟩ := entered openSound allowed
          unfold Safe
          rw [Machine.perform_callNamed arguments found calls]
          exact ⟨afterSound, kept.trans opens follows, outcome⟩

theorem lastValue_admitted (kept : invariant.Kept) {values : List Value}
    (admitted : ∀ value ∈ values, invariant.admits machine value) :
    invariant.admits machine (lastValue values) := by
  unfold lastValue
  rw [List.getLastD_eq_getLast?]
  cases last : values.getLast? with
  | none => exact kept.null machine
  | some value => exact admitted value (List.mem_of_getLast? last)

theorem Safe.last (kept : invariant.Kept) {step : Eval (List Value)}
    (all : invariant.Safe (fun after values => ∀ value ∈ values, invariant.admits after value)
      machine step) :
    invariant.Safe invariant.admits machine
      (step >>= fun values => Pure.pure (lastValue values)) :=
  all.bind kept fun _ _ sound _ admitted =>
    Safe.pure kept sound (lastValue_admitted kept admitted)

mutual

/-- Evaluation of a tree keeps an invariant that its elementary steps keep. -/
theorem evaluate_safe (kept : invariant.Kept) (entered : invariant.KeptBy enter)
    {machine : Machine} (sound : invariant.sound machine) (scope : Nat) (node : Node)
    (allowed : invariant.allows machine scope node) :
    invariant.Safe invariant.admits machine (node.evaluate enter scope) := by
  cases node with
  | int value => exact Safe.pure kept sound (kept.int allowed)
  | bool value => exact Safe.pure kept sound (kept.bool machine value)
  | func parameters body => exact Safe.pure kept sound (kept.func allowed)
  | strayFunc parameters body statements => exact Safe.pure kept sound (kept.strayFunc allowed)
  | strayLet | strayCall | stray => exact Safe.throw kept sound (.unexpectedNode allowed rfl)
  | name spelling => exact readName_safe kept sound scope spelling
  | binary op left right =>
      rw [Node.evaluate]
      have leftAllowed := kept.part allowed (.head _)
      have rightAllowed := kept.part allowed (.tail _ (.head _))
      refine (evaluate_safe kept entered sound scope left leftAllowed).bind kept ?_
      intro leftValue between betweenSound follows leftAdmitted
      refine (evaluate_safe kept entered betweenSound scope right
        (kept.allows_later follows rightAllowed)).bind kept ?_
      intro rightValue after afterSound further rightAdmitted
      split
      · next result =>
          exact Safe.pure kept afterSound
            (kept.onValues (kept.admits_later further leftAdmitted) rightAdmitted result)
      · next result =>
          exact Safe.throw kept afterSound
            (.operands (kept.admits_later further leftAdmitted) rightAdmitted result)
  | letE target value =>
      rw [Node.evaluate]
      refine (evaluate_safe kept entered sound scope value
        (kept.part allowed (.head _))).bind kept ?_
      intro bound between betweenSound follows admitted
      obtain ⟨afterSound, further⟩ :=
        kept.define betweenSound (kept.allows_later follows allowed) admitted
      refine ⟨afterSound, further, ?_, fun _ never => nomatch never⟩
      intro other given
      cases given
      exact kept.admits_later further admitted
  | returnE value => exact evaluate_safe kept entered sound scope value (kept.part allowed (.head _))
  | block statements =>
      rw [Node.evaluate]
      exact (evaluateAll_safe kept entered sound scope statements
        fun _ member => kept.part allowed member).last kept
  | ifThen condition consequence =>
      rw [Node.evaluate]
      have conditionAllowed := kept.part allowed (.head _)
      have consequenceAllowed := kept.part allowed (.tail _ (.head _))
      refine (evaluate_safe kept entered sound scope condition conditionAllowed).bind kept ?_
      intro tested between betweenSound follows _
      split
      · exact evaluate_safe kept entered betweenSound scope consequence
          (kept.allows_later follows consequenceAllowed)
      · exact Safe.pure kept betweenSound (kept.null between)
  | ifElse condition consequence alternative =>
      rw [Node.evaluate]
      have conditionAllowed := kept.part allowed (.head _)
      have consequenceAllowed := kept.part allowed (.tail _ (.head _))
      have alternativeAllowed := kept.part allowed (.tail _ (.tail _ (.head _)))
      refine (evaluate_safe kept entered sound scope condition conditionAllowed).bind kept ?_
      intro tested between betweenSound follows _
      split
      · exact evaluate_safe kept entered betweenSound scope consequence
          (kept.allows_later follows consequenceAllowed)
      · exact evaluate_safe kept entered betweenSound scope alternative
          (kept.allows_later follows alternativeAllowed)
  | call callee arguments =>
      rw [Node.evaluate]
      refine (evaluateAll_safe kept entered sound scope arguments
        fun _ member => kept.part allowed member).bind kept ?_
      intro values between betweenSound _ admitted
      exact callNamed_safe kept entered betweenSound scope callee admitted
  | shownAs content meaning =>
      rw [Node.evaluate]
      split
      · exact evaluate_safe kept entered sound scope meaning (kept.part allowed (.head _))
      · next inert =>
          have unexpected : (Node.shownAs content meaning).isUnexpected = true := by
            simpa [Node.isUnexpected] using inert
          exact Safe.throw kept sound (.unexpectedNode allowed unexpected)

theorem evaluateAll_safe (kept : invariant.Kept) (entered : invariant.KeptBy enter)
    {machine : Machine} (sound : invariant.sound machine) (scope : Nat) (nodes : List Node)
    (allowed : ∀ node ∈ nodes, invariant.allows machine scope node) :
    invariant.Safe (fun after values => ∀ value ∈ values, invariant.admits after value) machine
      (Node.evaluateAll enter scope nodes) := by
  cases nodes with
  | nil => exact Safe.pure kept sound fun _ never => nomatch never
  | cons first later =>
      rw [Node.evaluateAll]
      refine (evaluate_safe kept entered sound scope first (allowed first (.head _))).bind kept ?_
      intro value between betweenSound follows admitted
      refine (evaluateAll_safe kept entered betweenSound scope later fun node member =>
        kept.allows_later follows (allowed node (.tail _ member))).bind kept ?_
      intro values after afterSound further others
      refine Safe.pure kept afterSound ?_
      intro other member
      rcases List.mem_cons.mp member with rfl | among
      · exact kept.admits_later further admitted
      · exact others other among

end

theorem enterWithin_kept (kept : invariant.Kept) (depth : Nat) :
    invariant.KeptBy (enterWithin depth) := by
  induction depth with
  | zero => exact fun sound _ => Safe.throw kept sound .depthExceeded
  | succ depth ih =>
      exact fun sound allowed => (evaluateAll_safe kept ih sound _ _ allowed).last kept

/-- The run of a source text keeps an invariant that allows the statements in it. -/
theorem run_kept (kept : invariant.Kept) (sound : invariant.sound machine) {source : String}
    (allowed : ∀ program, Program.ofSource source = .ok program →
      ∀ statement ∈ program, invariant.allows machine globalScope statement) (limit : Nat) :
    invariant.sound (machine.run source limit).2 ∧
      invariant.follows machine (machine.run source limit).2 := by
  cases parsed : Program.ofSource source with
  | ok program =>
      obtain ⟨after, follows, _⟩ := evaluateAll_safe kept (enterWithin_kept kept limit) sound
        globalScope program (allowed program parsed)
      simp only [Machine.run, parsed]
      exact ⟨after, follows⟩
  | error failure =>
      simp only [Machine.run, parsed]
      exact ⟨sound, kept.refl machine⟩

end

end Invariant

end TinyScript
