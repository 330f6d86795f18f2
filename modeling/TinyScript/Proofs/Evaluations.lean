import Mathlib.Logic.Relation
import TinyScript.Proofs.Invariant

/-!
# The evaluations of a run

The evaluation of a tree begins that of other trees: of its parts in the same scope, each on the
machine that the parts in front of it leave, and of the statements of a function that it calls, in
the scope of the call. What elementary steps keep holds wherever a run gets to in this way, be it
stopped there by a failure or not.
-/

set_option autoImplicit false

namespace TinyScript

namespace Node

/-- The parts of a tree that are evaluated one after the other, whatever values they give. -/
def operands : Node → List Node
  | .int _ | .bool _ | .name _ | .func .. | .strayLet .. | .strayCall .. | .strayFunc .. | .stray _ =>
      []
  | .binary _ left right => [left, right]
  | .letE _ value | .returnE value => [value]
  | .block statements => statements
  | .ifThen condition _ | .ifElse condition _ _ => [condition]
  | .call _ arguments => arguments
  | .shownAs _ meaning => if meaning.isEvaluable then [meaning] else []

theorem mem_parts_of_mem_operands {node part : Node} (among : part ∈ node.operands) :
    part ∈ node.parts := by
  cases node with
  | ifThen | ifElse =>
      cases List.mem_singleton.mp among
      exact .head _
  | shownAs content meaning =>
      simp only [operands] at among
      split at among
      · exact among
      · cases among
  | _ => exact among

/-- Of several trees, the turn of one comes on the machine that those in front of it leave, if all
of them give values. -/
inductive Turn (enter : Enter) (scope : Nat) (machine : Machine) : List Node → Node → Machine → Prop
    where
  | comes {earlier later : List Node} {node : Node} {values : List Value} {after : Machine} :
      machine.perform (evaluateAll enter scope earlier) = (.ok values, after) →
      Turn enter scope machine (earlier ++ node :: later) node after

end Node

/-- A tree with the scope that it is evaluated in, the machine that this begins on, and how deeply
calls may nest in it. -/
structure Evaluation where
  machine : Machine
  depth : Nat
  scope : Nat
  node : Node

namespace Evaluation

/-- What an evaluation comes to, and the machine that it leaves. -/
def outcome (evaluation : Evaluation) : Except Failure Value × Machine :=
  evaluation.machine.perform
    (evaluation.node.evaluate (enterWithin evaluation.depth) evaluation.scope)

/-- A call gets as far as opening a scope for the function: the function, what of it is run, the new
scope, and the machine with it. -/
inductive Opens : Evaluation → Value → Callable → Nat → Machine → Prop where
  | call {machine between : Machine} {depth scope : Nat} {callee : String} {arguments : List Node}
      {values : List Value} {function : Value} {callable : Callable} :
      machine.perform (Node.evaluateAll (enterWithin depth) scope arguments) =
        (.ok values, between) →
      between.store.lookup? scope callee = some function →
      function.callable? = some callable →
      Opens ⟨machine, depth, scope, .call callee arguments⟩ function callable between.store.nextId
        ⟨between.store.openCall callable.home (callable.bound values) callee function,
          between.log ++ Machine.callRecords callee callable.expected values⟩

/-- The evaluations that an evaluation begins, each as a step of its own. -/
inductive Begins : Evaluation → Evaluation → Prop where
  | operand {machine after : Machine} {depth scope : Nat} {node part : Node} :
      Node.Turn (enterWithin depth) scope machine node.operands part after →
      Begins ⟨machine, depth, scope, node⟩ ⟨after, depth, scope, part⟩
  | onlyConsequence {machine after : Machine} {depth scope : Nat} {condition consequence : Node}
      {tested : Value} :
      machine.perform (condition.evaluate (enterWithin depth) scope) = (.ok tested, after) →
      tested.isTruthy = true →
      Begins ⟨machine, depth, scope, .ifThen condition consequence⟩
        ⟨after, depth, scope, consequence⟩
  | consequence {machine after : Machine} {depth scope : Nat}
      {condition consequence alternative : Node} {tested : Value} :
      machine.perform (condition.evaluate (enterWithin depth) scope) = (.ok tested, after) →
      tested.isTruthy = true →
      Begins ⟨machine, depth, scope, .ifElse condition consequence alternative⟩
        ⟨after, depth, scope, consequence⟩
  | alternative {machine after : Machine} {depth scope : Nat}
      {condition consequence alternative : Node} {tested : Value} :
      machine.perform (condition.evaluate (enterWithin depth) scope) = (.ok tested, after) →
      tested.isTruthy = false →
      Begins ⟨machine, depth, scope, .ifElse condition consequence alternative⟩
        ⟨after, depth, scope, alternative⟩
  /-- A call takes up one of the calls that may nest. -/
  | statement {machine opened after : Machine} {depth scope inner : Nat} {node statement : Node}
      {function : Value} {callable : Callable} :
      Opens ⟨machine, depth + 1, scope, node⟩ function callable inner opened →
      Node.Turn (enterWithin depth) inner opened callable.body statement after →
      Begins ⟨machine, depth + 1, scope, node⟩ ⟨after, depth, inner, statement⟩

/-- The evaluations that an evaluation leads to: itself, those it begins, those these begin, and so
on. -/
abbrev LeadsTo : Evaluation → Evaluation → Prop := Relation.ReflTransGen Begins

end Evaluation

namespace Invariant

/-- An evaluation begins on a sound machine, with a tree that may be evaluated in its scope. -/
structure Covers (invariant : Invariant) (evaluation : Evaluation) : Prop where
  sound : invariant.sound evaluation.machine
  allowed : invariant.allows evaluation.machine evaluation.scope evaluation.node

section

variable {invariant : Invariant} {evaluation other : Evaluation}

theorem Covers.safe (kept : invariant.Kept) (covers : invariant.Covers evaluation) :
    invariant.Safe invariant.admits evaluation.machine
      (evaluation.node.evaluate (enterWithin evaluation.depth) evaluation.scope) :=
  evaluate_safe kept (enterWithin_kept kept evaluation.depth) covers.sound evaluation.scope
    evaluation.node covers.allowed

theorem turn_kept (kept : invariant.Kept) {machine after : Machine} {depth scope : Nat}
    {nodes : List Node} {node : Node} (sound : invariant.sound machine)
    (allowed : ∀ other ∈ nodes, invariant.allows machine scope other)
    (turn : Node.Turn (enterWithin depth) scope machine nodes node after) :
    invariant.sound after ∧ invariant.follows machine after ∧ invariant.allows after scope node := by
  cases turn with
  | @comes earlier later _ values _ given =>
      obtain ⟨afterSound, follows, _⟩ := evaluateAll_safe kept (enterWithin_kept kept depth) sound
        scope earlier fun other among => allowed other (List.mem_append_left _ among)
      rw [given] at afterSound follows
      exact ⟨afterSound, follows, kept.allows_later follows (allowed node (by simp))⟩

theorem Covers.opens (kept : invariant.Kept) (covers : invariant.Covers evaluation)
    {function : Value} {callable : Callable} {inner : Nat} {opened : Machine}
    (opens : evaluation.Opens function callable inner opened) :
    invariant.sound opened ∧ invariant.follows evaluation.machine opened ∧
      invariant.admits opened function ∧
      ∀ node ∈ callable.body, invariant.allows opened inner node := by
  obtain ⟨sound, allowed⟩ := covers
  cases opens with
  | @call machine between depth scope callee arguments values _ _ given found calls =>
      obtain ⟨betweenSound, follows, gives, _⟩ := evaluateAll_safe kept (enterWithin_kept kept depth)
        sound scope arguments fun _ among => kept.part allowed among
      rw [given] at betweenSound follows gives
      have admitted := kept.lookup betweenSound found
      obtain ⟨openedSound, further, bodyAllowed⟩ :=
        kept.openCall callee betweenSound admitted calls (gives values rfl)
      exact ⟨openedSound, kept.trans follows further, kept.admits_later further admitted,
        bodyAllowed⟩

theorem Covers.tested (kept : invariant.Kept) {machine after : Machine} {depth scope : Nat}
    {node condition branch : Node} {tested : Value}
    (covers : invariant.Covers ⟨machine, depth, scope, node⟩) (conditionPart : condition ∈ node.parts)
    (branchPart : branch ∈ node.parts)
    (given : machine.perform (condition.evaluate (enterWithin depth) scope) = (.ok tested, after)) :
    invariant.Covers ⟨after, depth, scope, branch⟩ := by
  obtain ⟨afterSound, follows, _⟩ := evaluate_safe kept (enterWithin_kept kept depth) covers.sound
    scope condition (kept.part covers.allowed conditionPart)
  rw [given] at afterSound follows
  exact ⟨afterSound, kept.allows_later follows (kept.part covers.allowed branchPart)⟩

theorem Covers.begins (kept : invariant.Kept) (covers : invariant.Covers evaluation)
    (begins : evaluation.Begins other) : invariant.Covers other := by
  cases begins with
  | operand turn =>
      obtain ⟨sound, _, allowed⟩ := turn_kept kept covers.sound
        (fun _ among => kept.part covers.allowed (Node.mem_parts_of_mem_operands among)) turn
      exact ⟨sound, allowed⟩
  | onlyConsequence given _ => exact covers.tested kept (.head _) (.tail _ (.head _)) given
  | consequence given _ => exact covers.tested kept (.head _) (.tail _ (.head _)) given
  | alternative given _ => exact covers.tested kept (.head _) (.tail _ (.tail _ (.head _))) given
  | statement opens turn =>
      obtain ⟨openedSound, _, _, bodyAllowed⟩ := covers.opens kept opens
      obtain ⟨sound, _, allowed⟩ := turn_kept kept openedSound bodyAllowed turn
      exact ⟨sound, allowed⟩

theorem Covers.leadsTo (kept : invariant.Kept) (covers : invariant.Covers evaluation)
    (leads : evaluation.LeadsTo other) : invariant.Covers other := by
  induction leads with
  | refl => exact covers
  | tail _ begins ih => exact ih.begins kept begins

end

end Invariant

end TinyScript
