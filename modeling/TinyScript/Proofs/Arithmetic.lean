import TinyScript.Proofs.NumberRange

/-!
# Exact arithmetic

Sums, differences and products of numbers have the values that they have in mathematics, or they fail:
as soon as an operator has a result that does not fit into 32 bits, the whole expression overflows there,
even where its own value would fit again.
-/

set_option autoImplicit false

namespace TinyScript

inductive ArithmeticOp where
  | add
  | sub
  | mul
  deriving DecidableEq, Repr

namespace ArithmeticOp

def toBinaryOp : ArithmeticOp → BinaryOp
  | .add => .add
  | .sub => .sub
  | .mul => .mul

/-- The result in mathematics. -/
def apply : ArithmeticOp → Int → Int → Int
  | .add, left, right => left + right
  | .sub, left, right => left - right
  | .mul, left, right => left * right

theorem onValues_of_isInt32 (op : ArithmeticOp) {left right : Int}
    (inRange : IsInt32 (op.apply left right)) :
    op.toBinaryOp.onValues (.int left) (.int right) = .ok (.int (op.apply left right)) := by
  have fits := fitsInt_eq_true_iff.mpr inRange
  cases op <;> exact if_pos fits

theorem onValues_of_not_isInt32 (op : ArithmeticOp) {left right : Int}
    (outside : ¬ IsInt32 (op.apply left right)) :
    op.toBinaryOp.onValues (.int left) (.int right) = .error (.overflow op.toBinaryOp left right) := by
  have unfit := mt fitsInt_eq_true_iff.mp outside
  cases op <;> exact if_neg unfit

end ArithmeticOp

/-- An expression of numbers that fit, with the operators of arithmetic. -/
inductive Arithmetic where
  | number (value : Int) (inRange : IsInt32 value)
  | binary (op : ArithmeticOp) (left right : Arithmetic)

namespace Arithmetic

def toNode : Arithmetic → Node
  | .number value _ => .int value
  | .binary op left right => .binary op.toBinaryOp left.toNode right.toNode

/-- The value in mathematics. -/
def exact : Arithmetic → Int
  | .number value _ => value
  | .binary op left right => op.apply left.exact right.exact

/-- The expressions that an expression is made of, itself included: operands from left to right, and an
operation behind its operands. -/
def postorder : Arithmetic → List Arithmetic
  | .number value inRange => [.number value inRange]
  | .binary op left right => left.postorder ++ right.postorder ++ [.binary op left right]

/-- Every part of an expression has a value that fits. -/
def Fits (tree : Arithmetic) : Prop :=
  ∀ part ∈ tree.postorder, IsInt32 part.exact

theorem fits_number {value : Int} (inRange : IsInt32 value) : (number value inRange).Fits := by
  intro part among
  cases List.mem_singleton.mp among
  exact inRange

theorem fits_binary_iff {op : ArithmeticOp} {left right : Arithmetic} :
    (binary op left right).Fits ↔
      left.Fits ∧ right.Fits ∧ IsInt32 (op.apply left.exact right.exact) := by
  simp only [Fits, postorder, List.forall_mem_append, List.forall_mem_singleton, and_assoc, exact]

/-- The first part of an expression whose value does not fit is the operation. -/
def FirstUnfit (tree : Arithmetic) (op : ArithmeticOp) (left right : Arithmetic) : Prop :=
  ∃ earlier later, tree.postorder = earlier ++ .binary op left right :: later ∧
    (∀ part ∈ earlier, IsInt32 part.exact) ∧ ¬ IsInt32 (op.apply left.exact right.exact)

section

variable {op other : ArithmeticOp} {left right first second : Arithmetic}

theorem FirstUnfit.inLeft (unfit : left.FirstUnfit op first second) :
    (binary other left right).FirstUnfit op first second := by
  obtain ⟨earlier, later, split, fit, outside⟩ := unfit
  refine ⟨earlier, later ++ right.postorder ++ [.binary other left right], ?_, fit, outside⟩
  simp [postorder, split]

theorem FirstUnfit.inRight (leftFits : left.Fits) (unfit : right.FirstUnfit op first second) :
    (binary other left right).FirstUnfit op first second := by
  obtain ⟨earlier, later, split, fit, outside⟩ := unfit
  refine ⟨left.postorder ++ earlier, later ++ [.binary other left right], ?_, ?_, outside⟩
  · simp [postorder, split]
  · exact List.forall_mem_append.mpr ⟨leftFits, fit⟩

theorem FirstUnfit.here (leftFits : left.Fits) (rightFits : right.Fits)
    (outside : ¬ IsInt32 (op.apply left.exact right.exact)) :
    (binary op left right).FirstUnfit op left right :=
  ⟨left.postorder ++ right.postorder, [], rfl, List.forall_mem_append.mpr ⟨leftFits, rightFits⟩,
    outside⟩

end

end Arithmetic

/-- An operator is applied to the values of its operands, of which the left one is evaluated first. -/
theorem Machine.perform_evaluate_binary {enter : Enter} {scope : Nat} {machine between after : Machine}
    {op : BinaryOp} {left right : Node} {leftValue rightValue : Value}
    (leftGiven : machine.perform (left.evaluate enter scope) = (.ok leftValue, between))
    (rightGiven : between.perform (right.evaluate enter scope) = (.ok rightValue, after)) :
    machine.perform ((Node.binary op left right).evaluate enter scope) =
      ((op.onValues leftValue rightValue).mapError EvalError.failure, after) := by
  rw [Node.evaluate, Machine.perform_bind_of_ok leftGiven, Machine.perform_bind_of_ok rightGiven]
  cases op.onValues leftValue rightValue <;> rfl

section

variable (enter : Enter) (scope : Nat) (machine : Machine)

namespace Arithmetic

/-- An expression whose parts all fit evaluates to its value. -/
theorem evaluate_of_fits {tree : Arithmetic} (fits : tree.Fits) :
    machine.perform (tree.toNode.evaluate enter scope) = (.ok (.int tree.exact), machine) := by
  induction tree with
  | number value inRange => exact Machine.perform_pure machine (Value.int value)
  | binary op left right leftIH rightIH =>
      obtain ⟨leftFits, rightFits, inRange⟩ := fits_binary_iff.mp fits
      rw [toNode, Machine.perform_evaluate_binary (leftIH leftFits) (rightIH rightFits),
        op.onValues_of_isInt32 inRange]
      rfl

/-- Any other expression overflows at the first of its parts that does not fit. -/
theorem evaluate_of_not_fits {tree : Arithmetic} (unfit : ¬ tree.Fits) :
    ∃ op left right, tree.FirstUnfit op left right ∧
      machine.perform (tree.toNode.evaluate enter scope) =
        (.error (EvalError.overflow op.toBinaryOp left.exact right.exact).failure, machine) := by
  induction tree with
  | number value inRange => exact absurd (fits_number inRange) unfit
  | binary op left right leftIH rightIH =>
      by_cases leftFits : left.Fits
      · have leftGiven := evaluate_of_fits enter scope machine leftFits
        by_cases rightFits : right.Fits
        · have outside : ¬ IsInt32 (op.apply left.exact right.exact) := fun inRange =>
            unfit (fits_binary_iff.mpr ⟨leftFits, rightFits, inRange⟩)
          refine ⟨op, left, right, .here leftFits rightFits outside, ?_⟩
          rw [toNode, Machine.perform_evaluate_binary leftGiven (evaluate_of_fits enter scope machine rightFits),
            op.onValues_of_not_isInt32 outside]
          rfl
        · obtain ⟨inner, first, second, firstUnfit, fails⟩ := rightIH rightFits
          refine ⟨inner, first, second, firstUnfit.inRight leftFits, ?_⟩
          rw [toNode, Node.evaluate, Machine.perform_bind_of_ok leftGiven,
            Machine.perform_bind_of_error fails]
      · obtain ⟨inner, first, second, firstUnfit, fails⟩ := leftIH leftFits
        refine ⟨inner, first, second, firstUnfit.inLeft, ?_⟩
        rw [toNode, Node.evaluate, Machine.perform_bind_of_error fails]

end Arithmetic

end

namespace Arithmetic

/-- An expression of arithmetic evaluates to its value if all of its parts fit, and otherwise overflows
at the first of its parts that does not. Comparisons of expressions whose parts fit are exact. -/
theorem evaluate_exact_or_overflow (tree : Arithmetic) (enter : Enter) (scope : Nat)
    (machine : Machine) :
    (∀ value, (machine.perform (tree.toNode.evaluate enter scope)).1 = .ok value ↔
      tree.Fits ∧ value = .int tree.exact) ∧
    (¬ tree.Fits → ∃ op left right, tree.FirstUnfit op left right ∧
      machine.perform (tree.toNode.evaluate enter scope) =
        (.error ⟨.language .overflow, "Integer overflow @ " ++ op.toBinaryOp.tag ++ ": " ++
          left.exact.repr ++ ", " ++ right.exact.repr⟩, machine)) ∧
    ∀ other : Arithmetic, tree.Fits → other.Fits →
      machine.perform ((Node.binary .less tree.toNode other.toNode).evaluate enter scope) =
        (.ok (.bool (tree.exact < other.exact)), machine) ∧
      machine.perform ((Node.binary .lessOrEqual tree.toNode other.toNode).evaluate enter scope) =
        (.ok (.bool (tree.exact ≤ other.exact)), machine) := by
  refine ⟨fun value => ?_, evaluate_of_not_fits enter scope machine, fun other fits otherFits => ?_⟩
  · by_cases fits : tree.Fits
    · rw [evaluate_of_fits enter scope machine fits]
      constructor
      · intro same
        exact ⟨fits, (Except.ok.inj same).symm⟩
      · rintro ⟨_, rfl⟩
        rfl
    · obtain ⟨op, left, right, _, fails⟩ :=
        evaluate_of_not_fits enter scope machine fits
      rw [fails]
      constructor
      · intro same
        cases same
      · intro ⟨allFit, _⟩
        exact absurd allFit fits
  · have given := evaluate_of_fits enter scope machine fits
    have otherGiven := evaluate_of_fits enter scope machine otherFits
    constructor
    · rw [Machine.perform_evaluate_binary given otherGiven]
      rfl
    · rw [Machine.perform_evaluate_binary given otherGiven]
      rfl

/-- A sum that is too large is not saved by what is subtracted from it. -/
theorem evaluate_exact_or_overflow_midway :
    let one : Arithmetic := .number 1 ⟨by decide, by decide⟩
    let sum : Arithmetic := .binary .add (.number 2147483647 ⟨by decide, by decide⟩) one
    ¬ (binary .sub sum one).Fits ∧ IsInt32 (binary .sub sum one).exact ∧
      ∃ op left right, (binary .sub sum one).FirstUnfit op left right ∧
        Machine.fresh.perform ((binary .sub sum one).toNode.evaluate (enterWithin callLimit)
            globalScope) =
          (.error ⟨.language .overflow, "Integer overflow @ " ++ op.toBinaryOp.tag ++ ": " ++
            left.exact.repr ++ ", " ++ right.exact.repr⟩, Machine.fresh) := by
  intro one sum
  have unfit : ¬ (binary .sub sum one).Fits := by
    intro fits
    obtain ⟨_, _, inRange⟩ := fits_binary_iff.mp (fits_binary_iff.mp fits).1
    exact absurd inRange.2 (by decide)
  refine ⟨unfit, ⟨by decide, by decide⟩, ?_⟩
  exact (evaluate_exact_or_overflow (.binary .sub sum one) _ _ _).2.1 unfit

end Arithmetic

end TinyScript
