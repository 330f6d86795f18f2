import TinyScript.Proofs.Performing
import TinyScript.Proofs.Scopes

/-!
# Machines with changed values

A change of values can be made in all places of a machine at once, in scopes and in the log. Nothing
that evaluation does to stores depends on what the values are, so it comes to the same before and after
the change.
-/

set_option autoImplicit false

namespace TinyScript

def Bindings.mapValues (change : Value → Value) (bindings : Bindings) : Bindings :=
  bindings.map fun entry => (entry.1, change entry.2)

def Scope.mapValues (change : Value → Value) (scope : Scope) : Scope :=
  { scope with bindings := scope.bindings.mapValues change }

def Store.mapValues (change : Value → Value) (store : Store) : Store :=
  ⟨store.scopes.map (Scope.mapValues change)⟩

def Record.mapValues (change : Value → Value) : Record → Record
  | .arity callee expected given => .arity callee expected given
  | .call callee arguments => .call callee (arguments.map change)

/-- A machine with all values changed, those that are bound and those that were logged. -/
def Machine.mapValues (change : Value → Value) (machine : Machine) : Machine :=
  ⟨machine.store.mapValues change, machine.log.map (Record.mapValues change)⟩

section

variable (change : Value → Value)

namespace Bindings

@[simp] theorem names_mapValues (bindings : Bindings) :
    (bindings.mapValues change).names = bindings.names := by
  simp [names, mapValues]

theorem find?_mapValues (bindings : Bindings) (name : String) :
    (bindings.mapValues change).find? name = (bindings.find? name).map change := by
  induction bindings with
  | nil => rfl
  | cons entry later ih =>
      by_cases same : entry.1 = name
      · simp [mapValues, find?, same]
      · simp only [mapValues, List.map_cons, find?, if_neg same]
        exact ih

theorem set_mapValues (bindings : Bindings) (name : String) (value : Value) :
    (bindings.set name value).mapValues change =
      (bindings.mapValues change).set name (change value) := by
  induction bindings with
  | nil => rfl
  | cons entry later ih =>
      by_cases same : entry.1 = name
      · simp [mapValues, set, same]
      · simp only [mapValues, List.map_cons, set, if_neg same, List.cons.injEq, true_and]
        exact ih

theorem zip_mapValues (parameters : List String) (arguments : List Value) :
    mapValues change (parameters.zip arguments) = parameters.zip (arguments.map change) := by
  rw [List.zip_map_right]
  rfl

end Bindings

namespace Store

variable (store : Store) (scope : Nat)

@[simp] theorem nextId_mapValues : (store.mapValues change).nextId = store.nextId :=
  Array.size_map

theorem scopes_mapValues :
    (store.mapValues change).scopes[scope]? = store.scopes[scope]?.map (Scope.mapValues change) :=
  Array.getElem?_map

theorem bindings_mapValues :
    (store.mapValues change).bindings scope = (store.bindings scope).mapValues change := by
  unfold bindings
  rw [scopes_mapValues]
  cases store.scopes[scope]? <;> rfl

theorem parent?_mapValues : (store.mapValues change).parent? scope = store.parent? scope := by
  unfold parent?
  rw [scopes_mapValues]
  cases store.scopes[scope]? <;> rfl

theorem chain_mapValues : (store.mapValues change).chain scope = store.chain scope := by
  induction scope using Nat.strongRecOn with
  | ind scope ih =>
      have same := store.parent?_mapValues change scope
      cases above : store.parent? scope with
      | none =>
          rw [above] at same
          rw [chain_of_none same, chain_of_none above]
      | some parent =>
          rw [above] at same
          rw [chain_of_some same, chain_of_some above, ih parent (parent?_lt above)]

theorem lookup?_mapValues (name : String) :
    (store.mapValues change).lookup? scope name = (store.lookup? scope name).map change := by
  unfold lookup?
  rw [chain_mapValues, List.map_findSome?]
  congr 1
  funext link
  simp only [Function.comp_apply, bindings_mapValues, Bindings.find?_mapValues]

theorem ext_scopes {first second : Store}
    (same : ∀ scope : Nat, first.scopes[scope]? = second.scopes[scope]?) : first = second :=
  congrArg Store.mk (Array.ext_getElem? same)

theorem addScope_mapValues (parent : Option Nat) :
    (store.addScope parent).mapValues change = (store.mapValues change).addScope parent :=
  congrArg Store.mk Array.map_push

theorem define_mapValues (name : String) (value : Value) :
    (store.define scope name value).mapValues change =
      (store.mapValues change).define scope name (change value) := by
  refine ext_scopes fun other => ?_
  rw [scopes_mapValues, scopes_define, scopes_define, scopes_mapValues]
  split
  · rw [Option.map_map, Option.map_map]
    congr 1
    funext found
    simp [Scope.mapValues, Bindings.set_mapValues]
  · rfl

theorem defineAll_mapValues (entries : Bindings) :
    (store.defineAll scope entries).mapValues change =
      (store.mapValues change).defineAll scope (entries.mapValues change) := by
  induction entries generalizing store with
  | nil => rfl
  | cons entry later ih =>
      refine (ih (store.define scope entry.1 entry.2)).trans ?_
      rw [define_mapValues]
      rfl

theorem openCall_mapValues (home : Nat) (bound : Bindings) (callee : String) (function : Value) :
    (store.openCall home bound callee function).mapValues change =
      (store.mapValues change).openCall home (bound.mapValues change) callee (change function) := by
  unfold openCall
  rw [define_mapValues, defineAll_mapValues, addScope_mapValues, nextId_mapValues]

end Store

theorem Record.level_mapValues (record : Record) :
    (record.mapValues change).level = record.level := by
  cases record <;> rfl

/-- The log reads the same if values are shown as before. -/
theorem Record.message_mapValues (shown : ∀ value, (change value).shown = value.shown)
    (record : Record) : (record.mapValues change).message = record.message := by
  cases record with
  | arity => rfl
  | call callee arguments =>
      have same : (arguments.map change).map Value.shown = arguments.map Value.shown := by
        rw [List.map_map]
        exact List.map_congr_left fun value _ => shown value
      simp only [mapValues, message, same]

theorem Machine.callRecords_mapValues (callee : String) (expected : Nat) (arguments : List Value) :
    callRecords callee expected (arguments.map change) =
      (callRecords callee expected arguments).map (Record.mapValues change) := by
  unfold callRecords
  rw [List.length_map]
  split
  · simp [Record.mapValues]
  · simp [Record.mapValues]

end

end TinyScript
