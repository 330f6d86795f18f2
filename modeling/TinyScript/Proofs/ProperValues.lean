import TinyScript.Proofs.Reachable
import TinyScript.Proofs.WellFormed

/-!
# Proper values

What well-formed trees evaluate to is proper: nothing, a truth value, a number of the language, or a
closure with names for parameters, a well-formed body and a scope that exists. A machine that holds
only proper values goes on to do so, and such trees fail on it in the ordinary ways only.
-/

set_option autoImplicit false

namespace TinyScript

/-- A value that programs can come to in a store of so many scopes. -/
def Value.IsProper (count : Nat) : Value → Prop
  | .null | .bool _ => True
  | .int value => fitsInt value = true
  | .closure parameters body home =>
      parameters.all isName = true ∧ Node.areWellFormed body = true ∧ home < count
  | .strayClosure .. => False

/-- A fault that programs can come to, about values with a property. -/
def EvalError.IsOrdinary (property : Value → Prop) : EvalError → Prop
  | .undefinedVariable _ | .undefinedFunction _ | .overflow .. | .depthExceeded => True
  | .notAFunction _ value => property value
  | .unsupportedOperands _ left right => property left ∧ property right
  | .unexpectedNode _ => False

/-- The categories of the failures that programs can come to when they run. -/
def runCategories : List FailureCategory :=
  [.language .name, .language .type, .language .call, .language .overflow, .depth]

theorem EvalError.IsOrdinary.category_mem {property : Value → Prop} {fault : EvalError}
    (ordinary : fault.IsOrdinary property) : fault.failure.category ∈ runCategories := by
  cases fault with
  | unexpectedNode => cases ordinary
  | _ => simp [EvalError.failure, runCategories]

namespace Value

theorem IsProper.later {value : Value} {count more : Nat} (proper : value.IsProper count)
    (grows : count ≤ more) : value.IsProper more := by
  cases value with
  | closure => exact ⟨proper.1, proper.2.1, Nat.lt_of_lt_of_le proper.2.2 grows⟩
  | null | bool | int | strayClosure => exact proper

theorem IsProper.body {function : Value} {callable : Callable} {count : Nat}
    (proper : function.IsProper count) (calls : function.callable? = some callable) :
    Node.areWellFormed callable.body = true := by
  cases function with
  | closure =>
      cases calls
      exact proper.2.1
  | strayClosure => cases proper
  | null | bool | int => cases calls

end Value

theorem fitsInt_of_isLiteral {value : Int} (literal : Token.isLiteral value = true) :
    fitsInt value = true := by
  simp only [Token.isLiteral, Bool.and_eq_true, decide_eq_true_eq] at literal
  simp only [fitsInt, Bool.and_eq_true, decide_eq_true_eq]
  exact ⟨Int.le_trans (by decide) literal.1, literal.2⟩

namespace BinaryOp

theorem isProper_of_onValues {op : BinaryOp} {left right value : Value} (count : Nat)
    (result : op.onValues left right = .ok value) : value.IsProper count := by
  unfold onValues at result
  split at result
  · cases op with
    | add | sub | mul =>
        obtain ⟨fits, rfl⟩ := bounded_eq_ok result
        exact fits
    | less | lessOrEqual =>
        cases result
        trivial
  · cases result

theorem isOrdinary_of_onValues {property : Value → Prop} {op : BinaryOp} {left right : Value}
    {fault : EvalError} (leftHas : property left) (rightHas : property right)
    (result : op.onValues left right = .error fault) : fault.IsOrdinary property := by
  unfold onValues at result
  split at result
  · cases op with
    | add | sub | mul =>
        simp only [onInts, onInts.bounded] at result
        split at result <;> cases result
        trivial
    | less | lessOrEqual => cases result
  · cases result
    exact ⟨leftHas, rightHas⟩

end BinaryOp

namespace Node

theorem areWellFormed_iff {nodes : List Node} :
    areWellFormed nodes = true ↔ ∀ node ∈ nodes, node.isWellFormed = true := by
  induction nodes with
  | nil => simp [areWellFormed]
  | cons first later ih => simp [areWellFormed, ih]

theorem isWellFormed_of_mem_parts {node part : Node} (wellFormed : node.isWellFormed = true)
    (among : part ∈ node.parts) : part.isWellFormed = true := by
  cases node with
  | int | bool | name | func | strayLet | strayCall | strayFunc | stray => cases among
  | shownAs => cases wellFormed
  | block => exact areWellFormed_iff.mp wellFormed part among
  | call =>
      simp only [isWellFormed, Bool.and_eq_true] at wellFormed
      exact areWellFormed_iff.mp wellFormed.2 part among
  | binary | letE | returnE | ifThen | ifElse =>
      simp only [isWellFormed, Bool.and_eq_true] at wellFormed
      simp only [parts, List.mem_cons, List.not_mem_nil, or_false] at among
      grind

end Node

/-- Machines that hold proper values, with well-formed trees in scopes of them. -/
def propriety : Invariant where
  sound machine := machine.Holds (Value.IsProper machine.store.nextId)
  follows before after := before.store.nextId ≤ after.store.nextId
  admits machine value := value.IsProper machine.store.nextId
  allows machine scope node := node.isWellFormed = true ∧ scope < machine.store.nextId

theorem propriety_kept : propriety.Kept where
  refl _ := Nat.le_refl _
  trans := Nat.le_trans
  admits_later follows proper := proper.later follows
  allows_later follows allowed := ⟨allowed.1, Nat.lt_of_lt_of_le allowed.2 follows⟩
  part allowed among := ⟨Node.isWellFormed_of_mem_parts allowed.1 among, allowed.2⟩
  null _ := trivial
  bool _ _ := trivial
  int allowed := fitsInt_of_isLiteral allowed.1
  onValues _ _ result := BinaryOp.isProper_of_onValues _ result
  func allowed := by
    obtain ⟨wellFormed, inside⟩ := allowed
    simp only [Node.isWellFormed, Bool.and_eq_true] at wellFormed
    exact ⟨wellFormed.1, wellFormed.2, inside⟩
  strayFunc allowed := nomatch allowed.1
  lookup holds found := holds.bound.lookup? found
  define {machine scope target value bound} holds _ proper := by
    have count := Store.nextId_define machine.store scope target bound
    refine ⟨⟨?_, ?_⟩, Nat.le_of_eq count.symm⟩
    · rw [count]
      exact holds.bound.define scope target proper
    · rw [count]
      exact holds.logged
  openCall {machine function callable arguments} callee holds proper calls admitted := by
    have count := Store.nextId_openCall machine.store callable.home (callable.bound arguments)
      callee function
    have grows : machine.store.nextId ≤ (machine.store.openCall callable.home
        (callable.bound arguments) callee function).nextId :=
      Nat.le_of_lt (Nat.lt_of_lt_of_eq (Nat.lt_succ_self _) count.symm)
    refine ⟨?_, grows, ?_⟩
    · have opened := holds.openCall callee callable.expected callable.home admitted
        (fun entry member => Value.mem_bound calls member) proper
      exact opened.imp fun value held => held.later grows
    · intro node member
      exact ⟨Node.areWellFormed_iff.mp (proper.body calls) node member,
        Nat.lt_of_lt_of_eq (Nat.lt_succ_self _) count.symm⟩

theorem Node.not_isUnexpected_of_isWellFormed {node : Node}
    (wellFormed : node.isWellFormed = true) :
    node.isUnexpected = false := by
  cases node <;> first
    | rfl
    | cases wellFormed

theorem propriety_raises {machine : Machine} {fault : EvalError}
    (raised : propriety.Raises machine fault) :
    fault.IsOrdinary (Value.IsProper machine.store.nextId) := by
  cases raised with
  | undefinedVariable | undefinedFunction | depthExceeded => trivial
  | notAFunction _ proper => exact proper
  | operands left right result => exact BinaryOp.isOrdinary_of_onValues left right result
  | unexpectedNode allowed unexpected =>
      rw [Node.not_isUnexpected_of_isWellFormed allowed.1] at unexpected
      cases unexpected

end TinyScript
