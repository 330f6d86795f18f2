import TinyScript.Store

/-!
# Bindings and scopes after a change

What is bound where after names are bound and scopes are added, and how far the search for a name
goes.
-/

set_option autoImplicit false

namespace TinyScript

namespace Bindings

def setAll (bindings entries : Bindings) : Bindings :=
  entries.foldl (fun current entry => current.set entry.1 entry.2) bindings

theorem names_setAll (bindings entries : Bindings) :
    ∃ added, (bindings.setAll entries).names = bindings.names ++ added ∧
      ∀ name ∈ added, name ∈ entries.names := by
  induction entries generalizing bindings with
  | nil => exact ⟨[], (List.append_nil _).symm, fun _ member => member⟩
  | cons entry later ih =>
      obtain ⟨added, names, among⟩ := ih (bindings.set entry.1 entry.2)
      have setNames := names_set bindings entry.1 entry.2
      split at setNames
      · exact ⟨added, names.trans (congrArg (· ++ added) setNames),
          fun name member => .tail _ (among name member)⟩
      · refine ⟨entry.1 :: added, ?_, ?_⟩
        · refine names.trans ?_
          rw [setNames, List.append_assoc, List.singleton_append]
        · intro name member
          rcases List.mem_cons.mp member with rfl | further
          · exact .head _
          · exact .tail _ (among name further)

theorem find?_setAll {entries : Bindings} {name : String} (other : name ∉ entries.names)
    (bindings : Bindings) : (bindings.setAll entries).find? name = bindings.find? name := by
  induction entries generalizing bindings with
  | nil => rfl
  | cons entry later ih =>
      have different : entry.1 ≠ name := fun same => other (same ▸ .head _)
      refine (ih (fun among => other (.tail _ among)) _).trans ?_
      rw [find?_set, if_neg different]

theorem mem_set {name : String} {value : Value} {bindings : Bindings} {entry : String × Value}
    (member : entry ∈ bindings.set name value) : entry ∈ bindings ∨ entry.2 = value := by
  induction bindings with
  | nil =>
      cases List.mem_singleton.mp member
      exact .inr rfl
  | cons first later ih =>
      simp only [set] at member
      split at member
      · rcases List.mem_cons.mp member with rfl | among
        · exact .inr rfl
        · exact .inl (.tail _ among)
      · rcases List.mem_cons.mp member with rfl | among
        · exact .inl (.head _)
        · exact (ih among).imp (.tail _) id

theorem mem_of_find? {name : String} {value : Value} {bindings : Bindings}
    (found : bindings.find? name = some value) : (name, value) ∈ bindings := by
  induction bindings with
  | nil => cases found
  | cons first later ih =>
      simp only [find?] at found
      split at found
      · next same =>
          cases found
          exact same ▸ .head _
      · exact .tail _ (ih found)

end Bindings

namespace Store

theorem nextId_define (store : Store) (scope : Nat) (name : String) (value : Value) :
    (store.define scope name value).nextId = store.nextId := by
  simp [nextId, define]

theorem nextId_defineAll (store : Store) (scope : Nat) (entries : Bindings) :
    (store.defineAll scope entries).nextId = store.nextId := by
  induction entries generalizing store with
  | nil => rfl
  | cons entry later ih => exact (ih _).trans (nextId_define store scope entry.1 entry.2)

theorem scopes_addScope (store : Store) (parent : Option Nat) (scope : Nat) :
    (store.addScope parent).scopes[scope]? =
      if scope = store.nextId then some ⟨parent, []⟩ else store.scopes[scope]? :=
  Array.getElem?_push

theorem scopes_define (store : Store) (scope other : Nat) (name : String) (value : Value) :
    (store.define scope name value).scopes[other]? =
      if scope = other then
        store.scopes[other]?.map fun found =>
          { found with bindings := found.bindings.set name value }
      else store.scopes[other]? := by
  simp [define, Array.getElem?_modify]

/-- A binding leaves parents as they are, and brings no value into a store but its own. -/
theorem exists_of_scopes_define {store : Store} {scope other : Nat} {name : String} {value : Value}
    {record : Scope} (found : (store.define scope name value).scopes[other]? = some record) :
    ∃ before, store.scopes[other]? = some before ∧ record.parent = before.parent ∧
      ∀ entry ∈ record.bindings, entry ∈ before.bindings ∨ entry.2 = value := by
  rw [scopes_define] at found
  split at found
  · obtain ⟨before, there, rfl⟩ := Option.map_eq_some_iff.mp found
    exact ⟨before, there, rfl, fun entry member => Bindings.mem_set member⟩
  · exact ⟨record, found, rfl, fun entry member => .inl member⟩

/-- Bindings in a scope change the bindings of that scope and nothing else. -/
theorem scopes_defineAll (store : Store) (scope other : Nat) (entries : Bindings) :
    (store.defineAll scope entries).scopes[other]? =
      if scope = other then
        store.scopes[other]?.map fun found =>
          { found with bindings := found.bindings.setAll entries }
      else store.scopes[other]? := by
  induction entries generalizing store with
  | nil =>
      split
      · exact Option.map_id'.symm
      · rfl
  | cons entry later ih =>
      refine (ih (store.define scope entry.1 entry.2)).trans ?_
      rw [scopes_define]
      split
      · rw [Option.map_map]
        rfl
      · rfl

theorem lookup?_eq_some {store : Store} {scope : Nat} {name : String} {value : Value}
    (found : store.lookup? scope name = some value) :
    ∃ (link : Nat) (record : Scope), store.scopes[link]? = some record ∧
      (name, value) ∈ record.bindings := by
  obtain ⟨link, _, bound⟩ := List.exists_of_findSome?_eq_some found
  have member := Bindings.mem_of_find? bound
  unfold bindings at member
  split at member
  · next record there => exact ⟨link, record, there, member⟩
  · cases member

theorem nextId_addScope (store : Store) (parent : Option Nat) :
    (store.addScope parent).nextId = store.nextId + 1 := by
  simp [nextId, addScope]

theorem chain_of_none {store : Store} {scope : Nat} (root : store.parent? scope = none) :
    store.chain scope = [scope] := by
  rw [chain]
  split
  · rfl
  · next parent found =>
      rw [root] at found
      cases found

theorem chain_of_some {store : Store} {scope parent : Nat}
    (above : store.parent? scope = some parent) :
    store.chain scope = scope :: store.chain parent := by
  rw [chain]
  split
  · next none =>
      rw [above] at none
      cases none
  · next other found =>
      rw [above] at found
      cases found
      rfl

end Store

end TinyScript
