import TinyScript.Proofs.Aliases.Stores
import TinyScript.Proofs.Mapping

/-!
# Stores without a binding

To leave one binding out of a store changes neither scopes nor parents, nor what any other name is bound
to. It makes no difference whether this is done before or after other names are bound and calls are
opened, and it undoes the binding of that name in that scope.
-/

set_option autoImplicit false

namespace TinyScript

namespace Bindings

/-- The bindings of all other names, in their order. -/
def without (name : String) (bindings : Bindings) : Bindings :=
  bindings.filter fun entry => entry.1 ≠ name

variable {name target : String}

theorem without_cons_self (value : Value) (later : Bindings) :
    without name ((name, value) :: later) = later.without name :=
  List.filter_cons_of_neg (by simp)

theorem without_cons_of_ne (other : target ≠ name) (value : Value) (later : Bindings) :
    without name ((target, value) :: later) = (target, value) :: later.without name :=
  List.filter_cons_of_pos (by simpa using other)

theorem find?_without (other : target ≠ name) (bindings : Bindings) :
    (bindings.without name).find? target = bindings.find? target := by
  induction bindings with
  | nil => rfl
  | cons entry later ih =>
      obtain ⟨bound, value⟩ := entry
      by_cases left : bound = name
      · subst left
        rw [without_cons_self, ih, find?, if_neg (Ne.symm other)]
      · rw [without_cons_of_ne left, find?, find?, ih]

theorem without_set (other : target ≠ name) (bindings : Bindings) (value : Value) :
    (bindings.set target value).without name = (bindings.without name).set target value := by
  induction bindings with
  | nil => exact without_cons_of_ne other value []
  | cons entry later ih =>
      obtain ⟨bound, old⟩ := entry
      by_cases same : bound = target
      · subst same
        rw [set, if_pos rfl, without_cons_of_ne other, without_cons_of_ne other, set, if_pos rfl]
      · rw [set, if_neg same]
        by_cases left : bound = name
        · subst left
          rw [without_cons_self, without_cons_self, ih]
        · rw [without_cons_of_ne left, without_cons_of_ne left, set, if_neg same, ih]

theorem without_set_self (bindings : Bindings) (value : Value) :
    (bindings.set name value).without name = bindings.without name := by
  induction bindings with
  | nil => exact without_cons_self value []
  | cons entry later ih =>
      obtain ⟨bound, old⟩ := entry
      by_cases same : bound = name
      · subst same
        rw [set, if_pos rfl, without_cons_self, without_cons_self]
      · rw [set, if_neg same, without_cons_of_ne same, without_cons_of_ne same, ih]

end Bindings

namespace Store

/-- The store in which a scope does not bind a name. -/
def without (store : Store) (scope : Nat) (name : String) : Store :=
  ⟨store.scopes.modify scope fun found => { found with bindings := found.bindings.without name }⟩

variable {name target : String} (store : Store) (scope : Nat)

theorem nextId_without : (store.without scope name).nextId = store.nextId := by
  simp [nextId, without]

theorem scopes_without (other : Nat) :
    (store.without scope name).scopes[other]? =
      if scope = other then
        store.scopes[other]?.map fun found =>
          { found with bindings := found.bindings.without name }
      else store.scopes[other]? := by
  simp [without, Array.getElem?_modify]

theorem parent?_without (other : Nat) :
    (store.without scope name).parent? other = store.parent? other := by
  by_cases same : scope = other
  · simp only [parent?, scopes_without, if_pos same]
    cases store.scopes[other]? <;> rfl
  · exact parent?_congr (by rw [scopes_without, if_neg same])

theorem find?_bindings_without (different : target ≠ name) (other : Nat) :
    ((store.without scope name).bindings other).find? target =
      (store.bindings other).find? target := by
  by_cases same : scope = other
  · simp only [bindings, scopes_without, if_pos same]
    cases store.scopes[other]? with
    | none => rfl
    | some found => exact Bindings.find?_without different found.bindings
  · have kept : (store.without scope name).scopes[other]? = store.scopes[other]? := by
      rw [scopes_without, if_neg same]
    rw [bindings_congr kept]

/-- All other names have the values that they had. -/
theorem lookup?_without (different : target ≠ name) (other : Nat) :
    (store.without scope name).lookup? other target = store.lookup? other target :=
  lookup?_congr (fun _ => True) (fun link _ => store.find?_bindings_without scope different link)
    (fun link _ => store.parent?_without scope link) (fun _ _ _ _ => trivial) trivial

theorem without_define (different : target ≠ name) (other : Nat) (value : Value) :
    (store.define other target value).without scope name =
      (store.without scope name).define other target value := by
  refine ext_scopes fun link => ?_
  rw [scopes_without, scopes_define, scopes_define, scopes_without]
  split <;> split
  · cases store.scopes[link]? with
    | none => rfl
    | some found =>
        simp only [Option.map_some, Bindings.without_set different]
  · rfl
  · rfl
  · rfl

/-- A binding that is left out may as well not have been made. -/
theorem without_define_self (value : Value) :
    (store.define scope name value).without scope name = store.without scope name := by
  refine ext_scopes fun link => ?_
  rw [scopes_without, scopes_define, scopes_without]
  split
  · cases store.scopes[link]? with
    | none => rfl
    | some found => simp only [Option.map_some, Bindings.without_set_self]
  · rfl

theorem without_defineAll {entries : Bindings} (different : name ∉ entries.names) (other : Nat) :
    (store.defineAll other entries).without scope name =
      (store.without scope name).defineAll other entries := by
  induction entries generalizing store with
  | nil => rfl
  | cons entry later ih =>
      obtain ⟨first, others⟩ : name ≠ entry.1 ∧ name ∉ Bindings.names later := by
        simpa [Bindings.names] using different
      have defined := ih (store.define other entry.1 entry.2) others
      rw [without_define store scope first.symm] at defined
      exact defined

theorem without_addScope (parent : Option Nat) :
    (store.addScope parent).without scope name = (store.without scope name).addScope parent := by
  refine ext_scopes fun link => ?_
  rw [scopes_without, scopes_addScope, scopes_addScope, scopes_without, nextId_without]
  split
  · split <;> rfl
  · rfl

theorem without_openCall {callee : String} {bound : Bindings} (different : callee ≠ name)
    (others : name ∉ bound.names) (home : Nat) (function : Value) :
    (store.openCall home bound callee function).without scope name =
      (store.without scope name).openCall home bound callee function := by
  unfold openCall
  rw [without_define _ _ different, without_defineAll _ _ others, without_addScope, nextId_without]

end Store

end TinyScript
