import Mathlib
import TinyScript.Proofs.Independence.ArgumentOrder

/-!
# Expressions do not depend on each other

On every machine that runs of programs lead to, an expression that was evaluated before, whether it
gave a value or failed, makes no difference to what is evaluated next. So an expression gives the
same twice in a row, operands of sums and products can change places, and so can arguments.
-/

set_option autoImplicit false

namespace TinyScript

/-- After an expression, any tree evaluates as it would have done without the expression, and so
does the expression itself. A sum or product that has a value has it in either order of its
operands. A call whose arguments are evaluated in some other order fails as the first of them in
that order that would fail on its own; if none would, then the call comes to the same, and lines of
the log have changed places. -/
theorem Machine.Reached.expressions_independent {machine : Machine} (reached : machine.Reached)
    {scope : Nat} (inside : scope < machine.store.nextId) (depth : Nat) :
    let evaluated (node : Node) (machine : Machine) :=
      machine.perform (node.evaluate (enterWithin depth) scope)
    let ordered (callee : String) (order : List (Node × Nat)) :=
      machine.perform (callInOrder (enterWithin depth) scope callee order)
    (∀ first second : Node, first.IsParsedExpression →
      Alike machine.store.nextId (evaluated second machine)
        (evaluated second (evaluated first machine).2)) ∧
    (∀ node : Node, node.IsParsedExpression →
      Alike machine.store.nextId (evaluated node machine)
        (evaluated node (evaluated node machine).2)) ∧
    (∀ (op : BinaryOp) (left right : Node) (value : Value), op = .add ∨ op = .mul →
      left.IsParsedExpression → right.IsParsedExpression →
      ((evaluated (.binary op left right) machine).1 = .ok value ↔
        (evaluated (.binary op right left) machine).1 = .ok value)) ∧
    (∀ (callee : String) (arguments : List Node),
      ordered callee arguments.zipIdx = evaluated (.call callee arguments) machine) ∧
    (∀ (callee : String) (arguments : List Node) (order : List (Node × Nat)),
      (∀ argument ∈ arguments, argument.IsParsedExpression) → order.Perm arguments.zipIdx →
      (∀ failure, (order.findSome? fun entry =>
          machine.failure? (entry.1.evaluate (enterWithin depth) scope)) = some failure →
        (ordered callee order).1 = .error failure) ∧
      ((∀ argument ∈ arguments,
          machine.failure? (argument.evaluate (enterWithin depth) scope) = none) →
        Alike machine.store.nextId (evaluated (.call callee arguments) machine)
          (ordered callee order) ∧
        (ordered callee order).2.lines.Perm (evaluated (.call callee arguments) machine).2.lines)) := by
  intro evaluated ordered
  have closed := reached.isClosed.1
  have independent (first second : Node) (parsed : first.IsParsedExpression) :
      Alike machine.store.nextId (evaluated second machine)
        (evaluated second (evaluated first machine).2) := by
    have grown := Node.evaluate_grown closed inside depth parsed.letTargets
    exact (grown.evaluate_mirrors inside depth second).alike fun _ =>
      machine.numbersIn_of_lt (evaluated first machine).2
  refine ⟨independent, fun node => independent node node, ?_,
    callInOrder_zipIdx (enterWithin depth) machine scope, ?_⟩
  · intro op left right value symmetric leftParsed rightParsed
    constructor
    · exact Node.evaluate_binary_comm closed inside symmetric leftParsed.letTargets
        rightParsed.letTargets
    · exact Node.evaluate_binary_comm closed inside symmetric rightParsed.letTargets
        leftParsed.letTargets
  · intro callee arguments order parsed perm
    constructor
    · intro failure fails
      refine callInOrder_error closed inside ?_ fails
      exact fun entry member =>
        (parsed entry.1 (List.fst_mem_of_mem_zipIdx (perm.mem_iff.mp member))).letTargets
    · intro succeeds
      exact callInOrder_alike closed inside (fun argument member => (parsed argument member).letTargets)
        perm succeeds

/-- A function that gives closures is called twice. -/
theorem Machine.Reached.expressions_independent_closure :
    let machine := (Machine.fresh.run "let adder = fn(a) { fn(b) { a + b; }; };" callLimit).2
    let step := (Node.call "adder" [.int 1]).evaluate (enterWithin 5) globalScope
    Alike machine.store.nextId (machine.perform step) ((machine.perform step).2.perform step) := by
  intro machine step
  have reached : machine.Reached := .run _ _ .fresh
  have parsed : (Node.call "adder" [.int 1]).IsParsedExpression :=
    ⟨[.name "adder", .symbol .leftParen, .int 1, .symbol .rightParen, .endMark], by cbv⟩
  exact (Machine.Reached.expressions_independent reached reached.isClosed.2 5).2.1 _ parsed

end TinyScript
