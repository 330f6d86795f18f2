import TinyScript.Interpreter

/-!
# Steps on a machine

A step is known by its result and the machine it leaves, and a composed step by those of its parts.
What all parts of a step do to a machine, the whole step does. A call is told apart into its cases
once and for all: nothing has the name, what has it cannot be called, or a body is entered.
-/

set_option autoImplicit false

namespace TinyScript

/-- What is run when a value is called: how many arguments it expects, what these are bound to, the
body, and the scope of the function literal. -/
structure Callable where
  expected : Nat
  bound : List Value → Bindings
  body : List Node
  home : Nat

/-- What is run when a value is called, if it can be called. -/
def Value.callable? : Value → Option Callable
  | .closure parameters body home => some ⟨parameters.length, parameters.zip, body, home⟩
  | .strayClosure parameters body home =>
      some ⟨parameters.items.length, bindTexts parameters.items, Node.ofData body.items, home⟩
  | .null | .bool _ | .int _ => none

/-- The store in which the body of a function runs: with a new scope that binds the arguments, and
the function itself under the name of the call. -/
def Store.openCall (store : Store) (home : Nat) (bound : Bindings) (callee : String)
    (function : Value) : Store :=
  ((store.addScope (some home)).defineAll store.nextId bound).define store.nextId callee function

theorem BinaryOp.bounded_eq_ok {op : BinaryOp} {left right number : Int} {value : Value}
    (result : onInts.bounded op left right number = .ok value) :
    fitsInt number = true ∧ value = .int number := by
  unfold onInts.bounded at result
  split at result
  · next fits =>
      cases result
      exact ⟨fits, rfl⟩
  · cases result

/-- Operators give numbers and truth values only. -/
theorem BinaryOp.onValues_plain {op : BinaryOp} {left right value : Value}
    (result : op.onValues left right = .ok value) :
    (∃ number, value = .int number) ∨ ∃ truth, value = .bool truth := by
  unfold onValues at result
  split at result
  · cases op with
    | add | sub | mul => exact .inl ⟨_, (bounded_eq_ok result).2⟩
    | less | lessOrEqual =>
        cases result
        exact .inr ⟨_, rfl⟩
  · cases result

theorem BinaryOp.onValues_unsupported {op : BinaryOp} {left right : Value}
    (unfit : ¬ ∃ first second, left = .int first ∧ right = .int second) :
    op.onValues left right = .error (.unsupportedOperands op left right) := by
  unfold onValues
  split
  · exact absurd ⟨_, _, rfl, rfl⟩ unfit
  · rfl

/-- Two values that are the same, or that are both closures. -/
inductive Value.Resembles : Value → Value → Prop where
  | plain {value : Value} : value.callable? = none → Resembles value value
  | closure {function other : Value} {callable otherCallable : Callable} :
      function.callable? = some callable → other.callable? = some otherCallable →
      Resembles function other

theorem Value.Resembles.isTruthy {value other : Value} (resembles : value.Resembles other) :
    other.isTruthy = value.isTruthy := by
  cases resembles with
  | plain => rfl
  | closure calls otherCalls =>
      cases value <;> cases calls <;> cases other <;> cases otherCalls <;> rfl

theorem Value.Resembles.eq_int_iff {value other : Value} (resembles : value.Resembles other)
    (number : Int) : other = .int number ↔ value = .int number := by
  cases resembles with
  | plain => exact Iff.rfl
  | closure calls otherCalls =>
      constructor
      · rintro rfl
        cases otherCalls
      · rintro rfl
        cases calls

theorem BinaryOp.callable?_of_onValues {op : BinaryOp} {left right value : Value}
    (result : op.onValues left right = .ok value) : value.callable? = none := by
  rcases onValues_plain result with ⟨_, rfl⟩ | ⟨_, rfl⟩
  · rfl
  · rfl

/-- An operator does the same to values that are the same or closures, or it supports neither. -/
theorem BinaryOp.onValues_of_resembles (op : BinaryOp) {left right otherLeft otherRight : Value}
    (leftSame : left.Resembles otherLeft) (rightSame : right.Resembles otherRight) :
    op.onValues otherLeft otherRight = op.onValues left right ∨
      op.onValues left right = .error (.unsupportedOperands op left right) ∧
      op.onValues otherLeft otherRight = .error (.unsupportedOperands op otherLeft otherRight) := by
  by_cases fit : ∃ number another, left = .int number ∧ right = .int another
  · obtain ⟨number, another, rfl, rfl⟩ := fit
    rw [(leftSame.eq_int_iff number).mpr rfl, (rightSame.eq_int_iff another).mpr rfl]
    exact .inl rfl
  · have otherUnfit : ¬ ∃ number another, otherLeft = .int number ∧ otherRight = .int another := by
      intro ⟨number, another, leftIs, rightIs⟩
      exact fit ⟨number, another, (leftSame.eq_int_iff number).mp leftIs,
        (rightSame.eq_int_iff another).mp rightIs⟩
    exact .inr ⟨onValues_unsupported fit, onValues_unsupported otherUnfit⟩

namespace Machine

variable {α β : Type}

@[simp] theorem perform_pure (machine : Machine) (value : α) :
    machine.perform (pure value) = (.ok value, machine) :=
  rfl

@[simp] theorem perform_throw (machine : Machine) (fault : EvalError) :
    machine.perform (throw fault : Eval α) = (.error fault.failure, machine) :=
  rfl

@[simp] theorem perform_get_bind (machine : Machine) (next : Machine → Eval α) :
    machine.perform (get >>= next) = machine.perform (next machine) :=
  rfl

@[simp] theorem perform_modifyStore (machine : Machine) (change : Store → Store) :
    machine.perform (modifyStore change) = (.ok (), { machine with store := change machine.store }) :=
  rfl

theorem perform_bind_of_ok {machine after : Machine} {step : Eval α} {next : α → Eval β}
    {value : α} (first : machine.perform step = (.ok value, after)) :
    machine.perform (step >>= next) = after.perform (next value) := by
  unfold perform at first ⊢
  rw [EStateM.run_bind]
  cases result : step.run machine with
  | ok given left =>
      rw [result] at first
      cases first
      rfl
  | error fault left =>
      rw [result] at first
      cases first

theorem perform_bind_of_error {machine after : Machine} {step : Eval α} {next : α → Eval β}
    {failure : Failure} (first : machine.perform step = (.error failure, after)) :
    machine.perform (step >>= next) = (.error failure, after) := by
  unfold perform at first ⊢
  rw [EStateM.run_bind]
  cases result : step.run machine with
  | ok given left =>
      rw [result] at first
      cases first
  | error fault left =>
      rw [result] at first
      cases first
      rfl

theorem perform_bind_eq_ok {machine : Machine} {step : Eval α} {next : α → Eval β} {value : β}
    (result : (machine.perform (step >>= next)).1 = .ok value) :
    ∃ given after, machine.perform step = (.ok given, after) ∧
      machine.perform (step >>= next) = after.perform (next given) := by
  cases first : machine.perform step with
  | mk outcome after =>
      cases outcome with
      | ok given => exact ⟨given, after, rfl, perform_bind_of_ok first⟩
      | error failure =>
          rw [perform_bind_of_error first] at result
          cases result

theorem perform_readName_of_some {machine : Machine} {scope : Nat} {name : String} {value : Value}
    (bound : machine.store.lookup? scope name = some value) :
    machine.perform (readName scope name) = (.ok value, machine) := by
  unfold readName
  rw [perform_get_bind, bound]
  rfl

theorem perform_readName_of_none {machine : Machine} {scope : Nat} {name : String}
    (unbound : machine.store.lookup? scope name = none) :
    machine.perform (readName scope name) =
      (.error (EvalError.undefinedVariable name).failure, machine) := by
  unfold readName
  rw [perform_get_bind, unbound]
  rfl

/-- What a name reads as depends on what it is bound to alone. -/
theorem perform_readName_congr {first second : Machine} {scope : Nat} {name : String}
    (same : first.store.lookup? scope name = second.store.lookup? scope name) :
    (first.perform (readName scope name)).1 = (second.perform (readName scope name)).1 := by
  cases found : second.store.lookup? scope name with
  | some value =>
      rw [perform_readName_of_some (same.trans found), perform_readName_of_some found]
  | none => rw [perform_readName_of_none (same.trans found), perform_readName_of_none found]

def callRecords (callee : String) (expected : Nat) (arguments : List Value) : Array Record :=
  if expected = arguments.length then #[.call callee arguments]
  else #[.arity callee expected arguments.length, .call callee arguments]

theorem perform_logCall (machine : Machine) (callee : String) (expected : Nat)
    (arguments : List Value) :
    machine.perform (logCall callee expected arguments) =
      (.ok (), { machine with log := machine.log ++ callRecords callee expected arguments }) := by
  unfold logCall callRecords
  by_cases same : expected = arguments.length
  · rw [if_neg (not_not_intro same), if_pos same]
    rfl
  · rw [if_pos same, if_neg same]
    rfl

section

variable {enter : Enter} {scope : Nat} {callee : String} {machine : Machine}

theorem perform_callNamed_undefined (arguments : List Value)
    (unbound : machine.store.lookup? scope callee = none) :
    machine.perform (callNamed enter scope callee arguments) =
      (.error (EvalError.undefinedFunction callee).failure, machine) := by
  unfold callNamed
  rw [perform_get_bind, unbound]
  rfl

theorem perform_callNamed_notAFunction {value : Value} (arguments : List Value)
    (bound : machine.store.lookup? scope callee = some value) (inert : value.callable? = none) :
    machine.perform (callNamed enter scope callee arguments) =
      (.error (EvalError.notAFunction callee value).failure, machine) := by
  unfold callNamed
  rw [perform_get_bind, bound]
  cases value with
  | closure | strayClosure => cases inert
  | null | bool | int => rfl

theorem perform_callNamed {function : Value} {callable : Callable} (arguments : List Value)
    (bound : machine.store.lookup? scope callee = some function)
    (calls : function.callable? = some callable) :
    machine.perform (callNamed enter scope callee arguments) =
      perform
        ⟨machine.store.openCall callable.home (callable.bound arguments) callee function,
          machine.log ++ callRecords callee callable.expected arguments⟩
        (enter machine.store.nextId callable.body) := by
  unfold callNamed
  rw [perform_get_bind, bound]
  cases function with
  | null | bool | int => cases calls
  | closure parameters body home =>
      cases calls
      exact perform_bind_of_ok (perform_logCall machine callee parameters.length arguments)
  | strayClosure parameters body home =>
      cases calls
      exact perform_bind_of_ok (perform_logCall machine callee parameters.items.length arguments)

end

end Machine

/-- Whatever a step gives, the machine it leaves is related to the one it found. -/
def Eval.Keeps {α : Type} (relation : Machine → Machine → Prop) (step : Eval α) : Prop :=
  ∀ machine, relation machine (machine.perform step).2

namespace Eval

variable {α β : Type} {relation : Machine → Machine → Prop}

theorem Keeps.imp {other : Machine → Machine → Prop} {step : Eval α} (keeps : Keeps relation step)
    (weaker : ∀ before after, relation before after → other before after) : Keeps other step :=
  fun machine => weaker machine _ (keeps machine)

theorem Keeps.pure (reflexive : ∀ machine, relation machine machine) (value : α) :
    Keeps relation (Pure.pure value : Eval α) :=
  reflexive

theorem Keeps.throw (reflexive : ∀ machine, relation machine machine) (fault : EvalError) :
    Keeps relation (MonadExcept.throw fault : Eval α) :=
  reflexive

theorem Keeps.bind {step : Eval α} {next : α → Eval β}
    (transitive : ∀ before between after,
      relation before between → relation between after → relation before after)
    (keeps : Keeps relation step) (later : ∀ value, Keeps relation (next value)) :
    Keeps relation (step >>= next) := by
  intro machine
  have first := keeps machine
  cases result : machine.perform step with
  | mk outcome after =>
      rw [result] at first
      cases outcome with
      | ok value =>
          rw [Machine.perform_bind_of_ok result]
          exact transitive _ _ _ first (later value after)
      | error failure =>
          rw [Machine.perform_bind_of_error result]
          exact first

end Eval

end TinyScript
