import TinyScript.Proofs.Mapping

/-!
# Stores up to the numbers of their scopes

The numbers of scopes are arbitrary. A store mirrors another one if it holds the same scopes under
other numbers, and if both are about to number new scopes in step. What is bound or added on both
sides keeps them so, and every name has the same value on both sides.
-/

set_option autoImplicit false

namespace TinyScript

/-- A value under other numbers of scopes. -/
def Value.renumber (numbers : Nat → Nat) : Value → Value
  | .closure parameters body home => .closure parameters body (numbers home)
  | .strayClosure parameters body home => .strayClosure parameters body (numbers home)
  | .null => .null
  | .bool value => .bool value
  | .int value => .int value

def Bindings.renumber (numbers : Nat → Nat) (bindings : Bindings) : Bindings :=
  bindings.map fun entry => (entry.1, entry.2.renumber numbers)

def Scope.renumber (numbers : Nat → Nat) (scope : Scope) : Scope :=
  ⟨scope.parent.map numbers, scope.bindings.renumber numbers⟩

def Record.renumber (numbers : Nat → Nat) : Record → Record
  | .arity callee expected given => .arity callee expected given
  | .call callee arguments => .call callee (arguments.map (Value.renumber numbers))

section

variable (numbers : Nat → Nat)

@[simp] theorem Value.shown_renumber (value : Value) :
    (value.renumber numbers).shown = value.shown := by
  cases value <;> rfl

@[simp] theorem Value.isTruthy_renumber (value : Value) :
    (value.renumber numbers).isTruthy = value.isTruthy := by
  cases value <;> rfl

theorem Bindings.find?_renumber (bindings : Bindings) (name : String) :
    (bindings.renumber numbers).find? name =
      (bindings.find? name).map (Value.renumber numbers) :=
  bindings.find?_mapValues (Value.renumber numbers) name

theorem Bindings.set_renumber (bindings : Bindings) (name : String) (value : Value) :
    (bindings.set name value).renumber numbers =
      (bindings.renumber numbers).set name (value.renumber numbers) :=
  bindings.set_mapValues (Value.renumber numbers) name value

theorem Record.renumber_eq_mapValues :
    Record.renumber numbers = Record.mapValues (Value.renumber numbers) := by
  funext record
  cases record <;> rfl

theorem Record.message_renumber (record : Record) :
    (record.renumber numbers).message = record.message := by
  rw [renumber_eq_mapValues]
  exact record.message_mapValues _ (Value.shown_renumber numbers)

theorem Record.level_renumber (record : Record) :
    (record.renumber numbers).level = record.level := by
  rw [renumber_eq_mapValues]
  exact record.level_mapValues _

theorem Machine.callRecords_renumber (callee : String) (expected : Nat) (arguments : List Value) :
    callRecords callee expected (arguments.map (Value.renumber numbers)) =
      (callRecords callee expected arguments).map (Record.renumber numbers) := by
  rw [Record.renumber_eq_mapValues]
  exact callRecords_mapValues _ callee expected arguments

theorem Value.resembles_renumber (value : Value) : value.Resembles (value.renumber numbers) := by
  cases value with
  | null | bool | int => exact .plain rfl
  | closure | strayClosure => exact .closure rfl rfl

theorem Value.renumber_eq_int {value : Value} {number : Int}
    (same : value.renumber numbers = .int number) : value = .int number :=
  ((value.resembles_renumber numbers).eq_int_iff number).mp same

/-- Operators do the same to numbers and truth values, and fail in the same words. -/
theorem BinaryOp.onValues_renumber (op : BinaryOp) (left right : Value) :
    (∃ value, op.onValues left right = .ok value ∧
      op.onValues (left.renumber numbers) (right.renumber numbers) =
        .ok (value.renumber numbers)) ∨
    ∃ fault other, op.onValues left right = .error fault ∧
      op.onValues (left.renumber numbers) (right.renumber numbers) = .error other ∧
      other.failure = fault.failure := by
  rcases op.onValues_of_resembles (left.resembles_renumber numbers)
      (right.resembles_renumber numbers) with same | ⟨fails, otherFails⟩
  · cases result : op.onValues left right with
    | ok value =>
        have unchanged : value.renumber numbers = value := by
          rcases onValues_plain result with ⟨_, rfl⟩ | ⟨_, rfl⟩
          · rfl
          · rfl
        exact .inl ⟨value, rfl, same.trans (result.trans (congrArg Except.ok unchanged.symm))⟩
    | error fault => exact .inr ⟨fault, fault, rfl, same.trans result, rfl⟩
  · refine .inr ⟨_, _, fails, otherFails, ?_⟩
    simp [EvalError.failure]

end

namespace Store

/-- One store holds the scopes of another one under other numbers, and new scopes get numbers in
step. -/
structure Mirrored (numbers : Nat → Nat) (first second : Store) : Prop where
  injective : ∀ {scope other}, numbers scope = numbers other → scope = other
  beyond : ∀ {scope}, first.nextId ≤ scope → numbers scope + first.nextId = scope + second.nextId
  inside : ∀ {scope}, scope < first.nextId →
    second.scopes[numbers scope]? = first.scopes[scope]?.map (Scope.renumber numbers)
  parents : ∀ {scope : Nat} {record : Scope} {parent : Nat}, first.scopes[scope]? = some record →
    record.parent = some parent → (numbers parent < numbers scope ↔ parent < scope)

section

variable {numbers : Nat → Nat} {first second : Store}

theorem Mirrored.numbers_nextId (mirrored : Mirrored numbers first second) :
    numbers first.nextId = second.nextId := by
  have step := mirrored.beyond (Nat.le_refl first.nextId)
  omega

theorem Mirrored.scopes (mirrored : Mirrored numbers first second) (scope : Nat) :
    second.scopes[numbers scope]? = first.scopes[scope]?.map (Scope.renumber numbers) := by
  by_cases old : scope < first.nextId
  · exact mirrored.inside old
  · have step := mirrored.beyond (Nat.le_of_not_lt old)
    have firstNone : first.scopes[scope]? = none :=
      Array.getElem?_eq_none (Nat.le_of_not_lt old)
    have secondNone : second.scopes[numbers scope]? = none := by
      refine Array.getElem?_eq_none ?_
      unfold nextId at step old
      omega
    rw [firstNone, secondNone]
    rfl

theorem Mirrored.bindings (mirrored : Mirrored numbers first second) (scope : Nat) :
    second.bindings (numbers scope) = (first.bindings scope).renumber numbers := by
  unfold Store.bindings
  rw [mirrored.scopes]
  cases first.scopes[scope]? <;> rfl

theorem Mirrored.parent? (mirrored : Mirrored numbers first second) (scope : Nat) :
    second.parent? (numbers scope) = (first.parent? scope).map numbers := by
  unfold Store.parent?
  rw [mirrored.scopes]
  cases found : first.scopes[scope]? with
  | none => rfl
  | some record =>
      cases parent : record.parent with
      | none => simp [Scope.renumber, parent]
      | some above =>
          have same := mirrored.parents found parent
          by_cases older : above < scope
          · simp [Scope.renumber, parent, Option.filter_some, older, same.mpr older]
          · have notOlder : ¬ numbers above < numbers scope := fun less => older (same.mp less)
            simp [Scope.renumber, parent, Option.filter_some, older, notOlder]

theorem Mirrored.chain (mirrored : Mirrored numbers first second) (scope : Nat) :
    second.chain (numbers scope) = (first.chain scope).map numbers := by
  induction scope using Nat.strongRecOn with
  | ind scope ih =>
      have same := mirrored.parent? scope
      cases above : first.parent? scope with
      | none =>
          rw [above] at same
          rw [chain_of_none same, chain_of_none above]
          rfl
      | some parent =>
          rw [above] at same
          rw [chain_of_some same, chain_of_some above, List.map_cons,
            ih parent (parent?_lt above)]

theorem Mirrored.lookup? (mirrored : Mirrored numbers first second) (scope : Nat) (name : String) :
    second.lookup? (numbers scope) name =
      (first.lookup? scope name).map (Value.renumber numbers) := by
  unfold Store.lookup?
  rw [mirrored.chain, List.findSome?_map, List.map_findSome?]
  congr 1
  funext link
  simp only [Function.comp_apply, mirrored.bindings, Bindings.find?_renumber]

theorem Mirrored.numbers_lt_iff (mirrored : Mirrored numbers first second) (scope : Nat) :
    numbers scope < second.nextId ↔ scope < first.nextId := by
  constructor
  · intro small
    refine Nat.lt_of_not_le fun new => ?_
    have step := mirrored.beyond new
    omega
  · intro old
    have there := mirrored.inside old
    have found : first.scopes[scope]? = some first.scopes[scope] := Array.getElem?_eq_getElem old
    rw [found] at there
    exact (Array.getElem?_eq_some_iff.mp there).1

theorem Mirrored.define (mirrored : Mirrored numbers first second) (scope : Nat) (name : String)
    (value : Value) :
    Mirrored numbers (first.define scope name value)
      (second.define (numbers scope) name (value.renumber numbers)) where
  injective := mirrored.injective
  beyond new := by
    rw [nextId_define] at new
    rw [nextId_define, nextId_define]
    exact mirrored.beyond new
  inside {other} _ := by
    rw [scopes_define, scopes_define, mirrored.scopes]
    by_cases same : scope = other
    · rw [if_pos same, if_pos (congrArg numbers same), Option.map_map, Option.map_map]
      congr 1
      funext found
      simp [Scope.renumber, Bindings.set_renumber]
    · rw [if_neg same, if_neg fun equal => same (mirrored.injective equal)]
  parents {other record parent} found above := by
    rw [scopes_define] at found
    split at found
    · obtain ⟨before, there, rfl⟩ := Option.map_eq_some_iff.mp found
      exact mirrored.parents there above
    · exact mirrored.parents found above

theorem Mirrored.defineAll (mirrored : Mirrored numbers first second) (scope : Nat)
    (entries : Bindings) :
    Mirrored numbers (first.defineAll scope entries)
      (second.defineAll (numbers scope) (entries.renumber numbers)) := by
  induction entries generalizing first second with
  | nil => exact mirrored
  | cons entry later ih => exact ih (mirrored.define scope entry.1 entry.2)

theorem Mirrored.addScope (mirrored : Mirrored numbers first second) (parent : Option Nat) :
    Mirrored numbers (first.addScope parent) (second.addScope (parent.map numbers)) where
  injective := mirrored.injective
  beyond new := by
    rw [nextId_addScope] at new
    rw [nextId_addScope, nextId_addScope]
    have step := mirrored.beyond (Nat.le_of_succ_le new)
    omega
  inside {scope} old := by
    rw [nextId_addScope] at old
    rw [scopes_addScope, scopes_addScope]
    by_cases last : scope = first.nextId
    · rw [if_pos last, last, mirrored.numbers_nextId, if_pos rfl]
      rfl
    · have before : scope < first.nextId := by omega
      have beforeSecond := (mirrored.numbers_lt_iff scope).mpr before
      rw [if_neg last, if_neg (Nat.ne_of_lt beforeSecond), mirrored.scopes]
  parents {scope record above} found same := by
    rw [scopes_addScope] at found
    split at found
    · next last =>
        rw [last, mirrored.numbers_nextId]
        exact mirrored.numbers_lt_iff above
    · exact mirrored.parents found same

theorem Mirrored.openCall (mirrored : Mirrored numbers first second) (home : Nat)
    (bound : Bindings) (callee : String) (function : Value) :
    Mirrored numbers (first.openCall home bound callee function)
      (second.openCall (numbers home) (bound.renumber numbers) callee
        (function.renumber numbers)) := by
  unfold Store.openCall
  rw [← mirrored.numbers_nextId]
  exact ((mirrored.addScope (some home)).defineAll first.nextId bound).define first.nextId callee
    function

end

end Store

def Callable.renumber (numbers : Nat → Nat) (callable : Callable) : Callable :=
  { callable with home := numbers callable.home }

section

variable (numbers : Nat → Nat)

theorem Value.callable?_renumber (function : Value) :
    (function.renumber numbers).callable? = function.callable?.map (Callable.renumber numbers) := by
  cases function <;> rfl

theorem zip_renumber (parameters : List String) (arguments : List Value) :
    parameters.zip (arguments.map (Value.renumber numbers)) =
      Bindings.renumber numbers (parameters.zip arguments) :=
  (Bindings.zip_mapValues (Value.renumber numbers) parameters arguments).symm

theorem bindTexts_renumber (parameters : List Datum) (arguments : List Value) :
    bindTexts parameters (arguments.map (Value.renumber numbers)) =
      Bindings.renumber numbers (bindTexts parameters arguments) := by
  unfold bindTexts Bindings.renumber
  rw [List.zip_map_right, List.filterMap_map, List.map_filterMap]
  congr 1
  funext pair
  obtain ⟨parameter, argument⟩ := pair
  simp [Option.map_map, Function.comp_def]

theorem Value.bound_renumber {function : Value} {callable : Callable}
    (calls : function.callable? = some callable) (arguments : List Value) :
    callable.bound (arguments.map (Value.renumber numbers)) =
      (callable.bound arguments).renumber numbers := by
  cases function with
  | closure parameters body home =>
      cases calls
      exact zip_renumber numbers parameters arguments
  | strayClosure parameters body home =>
      cases calls
      exact bindTexts_renumber numbers parameters.items arguments
  | null | bool | int => cases calls

end

end TinyScript
