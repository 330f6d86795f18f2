import TinyScript.Proofs.Renumbering

/-!
# Evaluation does not see the numbers of scopes

On machines whose stores mirror each other, a tree is evaluated in step: both evaluations give the
same value up to the numbers, or fail in the same way, write the same records, and leave machines
whose stores mirror each other again.
-/

set_option autoImplicit false

namespace TinyScript

/-- Two results are related values or the same failure. -/
inductive Agree {α β : Type} (gives : α → β → Prop) : Except Failure α → Except Failure β → Prop where
  | ok {value : α} {other : β} : gives value other → Agree gives (.ok value) (.ok other)
  | error (failure : Failure) : Agree gives (.error failure) (.error failure)

/-- Two steps do the same to two machines, up to the numbers of scopes. -/
structure Mirrors (numbers : Nat → Nat) {α β : Type} (gives : α → β → Prop)
    (first second : Machine) (step : Eval α) (other : Eval β) : Prop where
  results : Agree gives (first.perform step).1 (second.perform other).1
  stores : (first.perform step).2.store.Mirrored numbers (second.perform other).2.store
  logs : ∃ written, (first.perform step).2.log = first.log ++ written ∧
    (second.perform other).2.log = second.log ++ written.map (Record.renumber numbers)

namespace Mirrors

variable {numbers : Nat → Nat} {α β γ δ : Type} {first second : Machine}

theorem give {gives : α → β → Prop} {step : Eval α} {other : Eval β} {value : α} {otherValue : β}
    (mirrored : first.store.Mirrored numbers second.store)
    (done : first.perform step = (.ok value, first))
    (otherDone : second.perform other = (.ok otherValue, second)) (given : gives value otherValue) :
    Mirrors numbers gives first second step other := by
  constructor
  · rw [done, otherDone]
    exact .ok given
  · rw [done, otherDone]
    exact mirrored
  · rw [done, otherDone]
    exact ⟨#[], by simp, by simp⟩

theorem fail {gives : α → β → Prop} {step : Eval α} {other : Eval β} {failure : Failure}
    (mirrored : first.store.Mirrored numbers second.store)
    (done : first.perform step = (.error failure, first))
    (otherDone : second.perform other = (.error failure, second)) :
    Mirrors numbers gives first second step other := by
  constructor
  · rw [done, otherDone]
    exact .error failure
  · rw [done, otherDone]
    exact mirrored
  · rw [done, otherDone]
    exact ⟨#[], by simp, by simp⟩

theorem pure {gives : α → β → Prop} {value : α} {other : β}
    (mirrored : first.store.Mirrored numbers second.store) (given : gives value other) :
    Mirrors numbers gives first second (Pure.pure value) (Pure.pure other) :=
  give mirrored rfl rfl given

theorem throw {gives : α → β → Prop} {fault other : EvalError}
    (mirrored : first.store.Mirrored numbers second.store) (same : other.failure = fault.failure) :
    Mirrors numbers gives first second (MonadExcept.throw fault) (MonadExcept.throw other) :=
  fail mirrored rfl (by rw [Machine.perform_throw, same])

theorem modifyStore {change otherChange : Store → Store}
    (changed : (change first.store).Mirrored numbers (otherChange second.store)) :
    Mirrors numbers (fun _ _ => True) first second (TinyScript.modifyStore change)
      (TinyScript.modifyStore otherChange) := by
  constructor
  · exact .ok trivial
  · exact changed
  · rw [Machine.perform_modifyStore, Machine.perform_modifyStore]
    exact ⟨#[], by simp, by simp⟩

/-- Two steps may begin with the same records, written to machines that mirror each other then. -/
theorem afterRecords {gives : α → β → Prop} {step : Eval α} {other : Eval β} {next : Eval α}
    {otherNext : Eval β} {store otherStore : Store} {written : Array Record}
    (done : first.perform step = Machine.perform ⟨store, first.log ++ written⟩ next)
    (otherDone : second.perform other =
      Machine.perform ⟨otherStore, second.log ++ written.map (Record.renumber numbers)⟩ otherNext)
    (later : Mirrors numbers gives ⟨store, first.log ++ written⟩
      ⟨otherStore, second.log ++ written.map (Record.renumber numbers)⟩ next otherNext) :
    Mirrors numbers gives first second step other := by
  obtain ⟨results, stores, more, log, otherLog⟩ := later
  constructor
  · rw [done, otherDone]
    exact results
  · rw [done, otherDone]
    exact stores
  · rw [done, otherDone]
    refine ⟨written ++ more, ?_, ?_⟩
    · rw [log, Array.append_assoc]
    · rw [otherLog, Array.map_append, Array.append_assoc]

theorem bind {gives : α → β → Prop} {givesNext : γ → δ → Prop} {step : Eval α} {other : Eval β}
    {next : α → Eval γ} {otherNext : β → Eval δ}
    (early : Mirrors numbers gives first second step other)
    (later : ∀ value otherValue firstAfter secondAfter,
      firstAfter.store.Mirrored numbers secondAfter.store → gives value otherValue →
      Mirrors numbers givesNext firstAfter secondAfter (next value) (otherNext otherValue)) :
    Mirrors numbers givesNext first second (step >>= next) (other >>= otherNext) := by
  obtain ⟨results, stores, written, log, otherLog⟩ := early
  cases done : first.perform step with
  | mk result firstAfter =>
      cases otherDone : second.perform other with
      | mk otherResult secondAfter =>
          rw [done, otherDone] at results stores
          rw [done] at log
          rw [otherDone] at otherLog
          cases results with
          | @ok value otherValue given =>
              obtain ⟨nextResults, nextStores, more, moreLog, moreOtherLog⟩ :=
                later value otherValue firstAfter secondAfter stores given
              constructor
              · rw [Machine.perform_bind_of_ok done, Machine.perform_bind_of_ok otherDone]
                exact nextResults
              · rw [Machine.perform_bind_of_ok done, Machine.perform_bind_of_ok otherDone]
                exact nextStores
              · rw [Machine.perform_bind_of_ok done, Machine.perform_bind_of_ok otherDone]
                refine ⟨written ++ more, ?_, ?_⟩
                · rw [moreLog, log, Array.append_assoc]
                · rw [moreOtherLog, otherLog, Array.map_append, Array.append_assoc]
          | error failure =>
              constructor
              · rw [Machine.perform_bind_of_error done, Machine.perform_bind_of_error otherDone]
                exact .error failure
              · rw [Machine.perform_bind_of_error done, Machine.perform_bind_of_error otherDone]
                exact stores
              · rw [Machine.perform_bind_of_error done, Machine.perform_bind_of_error otherDone]
                exact ⟨written, log, otherLog⟩

end Mirrors

/-- The same value up to the numbers of scopes. -/
def SameValue (numbers : Nat → Nat) (value other : Value) : Prop :=
  other = value.renumber numbers

def SameValues (numbers : Nat → Nat) (values others : List Value) : Prop :=
  others = values.map (Value.renumber numbers)

/-- What runs in a scope does not see the numbers of scopes. -/
def Enter.Mirrored (numbers : Nat → Nat) (enter : Enter) : Prop :=
  ∀ {first second : Machine} (scope : Nat) (body : List Node),
    first.store.Mirrored numbers second.store →
    Mirrors numbers (SameValue numbers) first second (enter scope body) (enter (numbers scope) body)

section

variable {numbers : Nat → Nat} {enter : Enter} {first second : Machine}

theorem readName_mirrors (mirrored : first.store.Mirrored numbers second.store) (scope : Nat)
    (name : String) :
    Mirrors numbers (SameValue numbers) first second (readName scope name)
      (readName (numbers scope) name) := by
  have same := mirrored.lookup? scope name
  cases found : first.store.lookup? scope name with
  | none =>
      rw [found] at same
      exact .fail mirrored (Machine.perform_readName_of_none found)
        (Machine.perform_readName_of_none same)
  | some value =>
      rw [found] at same
      exact .give mirrored (Machine.perform_readName_of_some found)
        (Machine.perform_readName_of_some same) rfl

theorem callNamed_mirrors (entered : enter.Mirrored numbers)
    (mirrored : first.store.Mirrored numbers second.store) (scope : Nat) (callee : String)
    (arguments : List Value) :
    Mirrors numbers (SameValue numbers) first second (callNamed enter scope callee arguments)
      (callNamed enter (numbers scope) callee (arguments.map (Value.renumber numbers))) := by
  have same := mirrored.lookup? scope callee
  cases found : first.store.lookup? scope callee with
  | none =>
      rw [found] at same
      exact .fail mirrored (Machine.perform_callNamed_undefined _ found)
        (Machine.perform_callNamed_undefined _ same)
  | some function =>
      rw [found] at same
      have sameCalls := function.callable?_renumber numbers
      cases calls : function.callable? with
      | none =>
          rw [calls] at sameCalls
          refine .fail mirrored (Machine.perform_callNamed_notAFunction _ found calls) ?_
          rw [Machine.perform_callNamed_notAFunction _ same sameCalls]
          simp [EvalError.failure]
      | some callable =>
          rw [calls] at sameCalls
          have otherDone : second.perform (callNamed enter (numbers scope) callee
                (arguments.map (Value.renumber numbers))) =
              Machine.perform
                ⟨second.store.openCall (numbers callable.home)
                    ((callable.bound arguments).renumber numbers) callee
                    (function.renumber numbers),
                  second.log ++
                    (Machine.callRecords callee callable.expected arguments).map
                      (Record.renumber numbers)⟩
                (enter (numbers first.store.nextId) callable.body) := by
            rw [Machine.perform_callNamed _ same sameCalls, mirrored.numbers_nextId,
              ← Machine.callRecords_renumber, ← Value.bound_renumber numbers calls]
            rfl
          exact .afterRecords (Machine.perform_callNamed arguments found calls) otherDone
            (entered _ _ (mirrored.openCall callable.home (callable.bound arguments) callee
              function))

theorem lastValue_renumber (values : List Value) :
    lastValue (values.map (Value.renumber numbers)) = (lastValue values).renumber numbers := by
  unfold lastValue
  rw [List.getLastD_eq_getLast?, List.getLastD_eq_getLast?, List.getLast?_map]
  cases values.getLast? <;> rfl

namespace Node

mutual

/-- A tree is evaluated in step on machines whose stores mirror each other. -/
theorem evaluate_mirrors (entered : enter.Mirrored numbers) {first second : Machine}
    (mirrored : first.store.Mirrored numbers second.store) (scope : Nat) (node : Node) :
    Mirrors numbers (SameValue numbers) first second (node.evaluate enter scope)
      (node.evaluate enter (numbers scope)) := by
  cases node with
  | int | bool | func | strayFunc => exact .pure mirrored rfl
  | strayLet | strayCall | stray => exact .throw mirrored rfl
  | name spelling => exact readName_mirrors mirrored scope spelling
  | binary op left right =>
      rw [evaluate, evaluate]
      refine (evaluate_mirrors entered mirrored scope left).bind ?_
      intro leftValue _ _ _ betweenMirrored leftSame
      refine (evaluate_mirrors entered betweenMirrored scope right).bind ?_
      intro rightValue _ _ _ afterMirrored rightSame
      cases leftSame
      cases rightSame
      rcases op.onValues_renumber numbers leftValue rightValue with
        ⟨value, result, otherResult⟩ | ⟨fault, other, result, otherResult, sameFailure⟩
      · rw [result, otherResult]
        exact .pure afterMirrored rfl
      · rw [result, otherResult]
        exact .throw afterMirrored sameFailure
  | letE target value =>
      rw [evaluate, evaluate]
      refine (evaluate_mirrors entered mirrored scope value).bind ?_
      intro bound _ _ _ betweenMirrored same
      cases same
      refine (Mirrors.modifyStore (betweenMirrored.define scope target bound)).bind ?_
      exact fun _ _ _ _ afterMirrored _ => .pure afterMirrored rfl
  | returnE value => exact evaluate_mirrors entered mirrored scope value
  | block statements =>
      rw [evaluate, evaluate]
      refine (evaluateAll_mirrors entered mirrored scope statements).bind ?_
      intro values _ _ _ afterMirrored same
      cases same
      exact .pure afterMirrored (lastValue_renumber values)
  | ifThen condition consequence =>
      rw [evaluate, evaluate]
      refine (evaluate_mirrors entered mirrored scope condition).bind ?_
      intro tested _ _ _ betweenMirrored same
      cases same
      rw [Value.isTruthy_renumber]
      split
      · exact evaluate_mirrors entered betweenMirrored scope consequence
      · exact .pure betweenMirrored rfl
  | ifElse condition consequence alternative =>
      rw [evaluate, evaluate]
      refine (evaluate_mirrors entered mirrored scope condition).bind ?_
      intro tested _ _ _ betweenMirrored same
      cases same
      rw [Value.isTruthy_renumber]
      split
      · exact evaluate_mirrors entered betweenMirrored scope consequence
      · exact evaluate_mirrors entered betweenMirrored scope alternative
  | call callee arguments =>
      rw [evaluate, evaluate]
      refine (evaluateAll_mirrors entered mirrored scope arguments).bind ?_
      intro values _ _ _ betweenMirrored same
      cases same
      exact callNamed_mirrors entered betweenMirrored scope callee values
  | shownAs content meaning =>
      rw [evaluate, evaluate]
      split
      · exact evaluate_mirrors entered mirrored scope meaning
      · exact .throw mirrored rfl

theorem evaluateAll_mirrors (entered : enter.Mirrored numbers) {first second : Machine}
    (mirrored : first.store.Mirrored numbers second.store) (scope : Nat) (nodes : List Node) :
    Mirrors numbers (SameValues numbers) first second (evaluateAll enter scope nodes)
      (evaluateAll enter (numbers scope) nodes) := by
  cases nodes with
  | nil => exact .pure mirrored rfl
  | cons node later =>
      rw [evaluateAll, evaluateAll]
      refine (evaluate_mirrors entered mirrored scope node).bind ?_
      intro value _ _ _ betweenMirrored same
      refine (evaluateAll_mirrors entered betweenMirrored scope later).bind ?_
      intro values _ _ _ afterMirrored others
      cases same
      cases others
      exact .pure afterMirrored rfl

end

end Node

theorem enterWithin_mirrored (numbers : Nat → Nat) (depth : Nat) :
    (enterWithin depth).Mirrored numbers := by
  induction depth with
  | zero => exact fun _ _ mirrored => .throw mirrored rfl
  | succ depth ih =>
      intro first second scope body mirrored
      refine (Node.evaluateAll_mirrors ih mirrored scope body).bind ?_
      intro values _ _ _ afterMirrored same
      cases same
      exact .pure afterMirrored (lastValue_renumber values)

end

end TinyScript
