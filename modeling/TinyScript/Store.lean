import TinyScript.Value

/-!
# Scopes

A scope binds names to values and has at most one parent, in which the search for a name goes on.
All scopes live in a store and are known by their numbers there; a new scope gets the next number,
so a parent is always older than its children. A scope keeps its names in the order in which they
were first bound.
-/

set_option autoImplicit false

namespace TinyScript

/-- Names with their values, in the order in which the names were first bound. -/
abbrev Bindings : Type := List (String × Value)

namespace Bindings

def find? (name : String) : Bindings → Option Value
  | [] => none
  | (bound, value) :: later => if bound = name then some value else find? name later

/-- Binds a name. A name that is bound already keeps its place. -/
def set (name : String) (value : Value) : Bindings → Bindings
  | [] => [(name, value)]
  | (bound, old) :: later =>
      if bound = name then (bound, value) :: later else (bound, old) :: set name value later

def names (bindings : Bindings) : List String :=
  bindings.map Prod.fst

theorem find?_set (bindings : Bindings) (bound name : String) (value : Value) :
    (bindings.set bound value).find? name =
      if bound = name then some value else bindings.find? name := by
  induction bindings with
  | nil => rfl
  | cons entry later ih =>
      obtain ⟨first, old⟩ := entry
      by_cases same : first = bound
      · subst same
        by_cases asked : first = name <;> simp [set, find?, asked]
      · by_cases asked : first = name
        · have other : ¬ name = bound := fun equal => same (asked.trans equal)
          have other' : ¬ bound = name := fun equal => other equal.symm
          simp [set, find?, asked, other, other']
        · simp [set, find?, same, asked, ih]

/-- Binding a name keeps all names in their places, and appends the name if it is new. -/
theorem names_set (bindings : Bindings) (bound : String) (value : Value) :
    (bindings.set bound value).names =
      if bound ∈ bindings.names then bindings.names else bindings.names ++ [bound] := by
  induction bindings with
  | nil => simp [set, names]
  | cons entry later ih =>
      obtain ⟨first, old⟩ := entry
      by_cases same : first = bound
      · simp [set, names, same]
      · have different : ¬ bound = first := fun equal => same equal.symm
        simp only [names] at ih
        by_cases member : bound ∈ List.map Prod.fst later <;>
          simp [set, names, same, different, member, ih]

end Bindings

/-- A scope: its parent, if there is one, and its bindings. -/
structure Scope where
  parent : Option Nat
  bindings : Bindings
  deriving DecidableEq

structure Store where
  scopes : Array Scope
  deriving DecidableEq

namespace Store

def empty : Store := ⟨#[]⟩

/-- The number that the next new scope gets. -/
def nextId (store : Store) : Nat := store.scopes.size

def addScope (store : Store) (parent : Option Nat) : Store :=
  ⟨store.scopes.push ⟨parent, []⟩⟩

/-- The bindings of a scope. A number without a scope has none. -/
def bindings (store : Store) (scope : Nat) : Bindings :=
  match store.scopes[scope]? with
  | some found => found.bindings
  | none => []

/-- The parent of a scope. Only an older scope counts as one. -/
def parent? (store : Store) (scope : Nat) : Option Nat :=
  match store.scopes[scope]? with
  | some found => found.parent.filter fun parent => decide (parent < scope)
  | none => none

theorem parent?_lt {store : Store} {scope parent : Nat}
    (found : store.parent? scope = some parent) : parent < scope := by
  unfold parent? at found
  split at found
  · simpa using (Option.filter_eq_some_iff.mp found).2
  · cases found

/-- A scope with its parent, the parent of that, and so on up to a scope without one. -/
def chain (store : Store) (scope : Nat) : List Nat :=
  match _found : store.parent? scope with
  | none => [scope]
  | some parent => scope :: store.chain parent
termination_by scope
decreasing_by exact parent?_lt _found

def define (store : Store) (scope : Nat) (name : String) (value : Value) : Store :=
  ⟨store.scopes.modify scope fun found =>
    { found with bindings := Bindings.set name value found.bindings }⟩

/-- Binds several names in a scope, one after the other. -/
def defineAll (store : Store) (scope : Nat) (entries : Bindings) : Store :=
  entries.foldl (fun current entry => current.define scope entry.1 entry.2) store

/-- The value of a name: that of the nearest scope of the chain which binds it. -/
def lookup? (store : Store) (scope : Nat) (name : String) : Option Value :=
  (store.chain scope).findSome? fun link => (store.bindings link).find? name

/-- A scope as messages show it: the names along its chain. -/
def shown (store : Store) (scope : Nat) : String :=
  String.intercalate " < " ((store.chain scope).map fun link =>
    "[" ++ String.intercalate ", " (store.bindings link).names ++ "]")

end Store

end TinyScript
