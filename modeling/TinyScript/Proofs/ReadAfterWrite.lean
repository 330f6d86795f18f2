import TinyScript.Proofs.Nesting
import TinyScript.Proofs.Renaming.Stores

/-!
# Reading after writing

Scopes are added below older ones and names are bound in them, in any order. To bind a name changes what
a scope reads if and only if the name is asked for and the scope sees the binding, and a scope lists its
names in the order in which they were first bound.
-/

set_option autoImplicit false

namespace TinyScript

/-- What is done to a store: a scope is added, or a name is bound in one. -/
inductive StoreStep where
  | addScope (parent : Option Nat)
  | define (scope : Nat) (name : String) (value : Value)

/-- The name that a step binds in a scope, if it binds one there. -/
def StoreStep.definedIn? (scope : Nat) : StoreStep → Option String
  | .addScope _ => none
  | .define target name _ => if target = scope then some name else none

/-- The names that steps bind in a scope, one after the other. -/
def definedNames (steps : List StoreStep) (scope : Nat) : List String :=
  steps.filterMap (StoreStep.definedIn? scope)

theorem definedNames_concat (steps : List StoreStep) (step : StoreStep) (scope : Nat) :
    definedNames (steps ++ [step]) scope =
      definedNames steps scope ++ (step.definedIn? scope).toList := by
  unfold definedNames
  rw [List.filterMap_append]
  cases given : step.definedIn? scope <;> simp [given]

theorem Bindings.find?_eq_none_iff {bindings : Bindings} {name : String} :
    bindings.find? name = none ↔ name ∉ bindings.names := by
  induction bindings with
  | nil => simp [find?, names]
  | cons entry later ih =>
      obtain ⟨bound, value⟩ := entry
      by_cases same : bound = name
      · simp [find?, names, same]
      · have other : name ≠ bound := fun equal => same equal.symm
        simpa [find?, names, same, other] using ih

namespace Store

/-- The store that steps lead to, beginning without scopes. A parent is a scope that is there already,
and so is the scope in which a name is bound. -/
inductive BuiltBy : List StoreStep → Store → Prop where
  | empty : BuiltBy [] Store.empty
  | addScope {steps : List StoreStep} {store : Store} {parent : Option Nat} :
      BuiltBy steps store → (∀ above ∈ parent, above < store.nextId) →
      BuiltBy (steps ++ [.addScope parent]) (store.addScope parent)
  | define {steps : List StoreStep} {store : Store} {scope : Nat} {name : String} {value : Value} :
      BuiltBy steps store → scope < store.nextId →
      BuiltBy (steps ++ [.define scope name value]) (store.define scope name value)

/-- A scope sees what a name is bound to in the target: it is the target or lies below it, and binds the
name neither itself nor in a scope on the way up. -/
inductive Sees (store : Store) (target : Nat) (name : String) : Nat → Prop where
  | own : Sees store target name target
  | inherited {scope parent : Nat} {record : Scope} :
      store.scopes[scope]? = some record → name ∉ record.bindings.names →
      record.parent = some parent → Sees store target name parent →
      Sees store target name scope

section

variable {steps : List StoreStep} {store : Store}

theorem BuiltBy.hasOlderParents (built : BuiltBy steps store) : store.HasOlderParents := by
  induction built with
  | empty =>
      intro scope record parent found
      simp [Store.empty] at found
  | @addScope _ store _ _ old ih =>
      intro scope record parent found above
      rw [scopes_addScope] at found
      split at found
      · next fresh =>
          cases found
          exact fresh ▸ old parent above
      · exact ih found above
  | define _ _ ih =>
      intro scope record parent found above
      obtain ⟨before, there, same, _⟩ := exists_of_scopes_define found
      exact ih there (same ▸ above)

theorem bindings_of_found {scope : Nat} {record : Scope} (found : store.scopes[scope]? = some record) :
    store.bindings scope = record.bindings := by
  rw [bindings, found]

theorem parent?_of_found (older : store.HasOlderParents) {scope : Nat} {record : Scope}
    (found : store.scopes[scope]? = some record) : store.parent? scope = record.parent := by
  simp only [parent?, found]
  cases above : record.parent with
  | none => rfl
  | some parent => simp [older found above]

theorem exists_of_parent? {scope parent : Nat} (above : store.parent? scope = some parent) :
    ∃ record, store.scopes[scope]? = some record ∧ record.parent = some parent := by
  unfold parent? at above
  split at above
  · next record found => exact ⟨record, found, (Option.filter_eq_some_iff.mp above).1⟩
  · cases above

/-- A new scope binds nothing, as if it was not there yet. -/
theorem bindings_addScope (store : Store) (parent : Option Nat) (scope : Nat) :
    (store.addScope parent).bindings scope = store.bindings scope := by
  by_cases fresh : scope = store.nextId
  · have missing : store.scopes[scope]? = none := Array.getElem?_eq_none (Nat.le_of_eq fresh.symm)
    simp only [bindings, scopes_addScope, if_pos fresh, missing]
  · exact bindings_congr (by rw [scopes_addScope, if_neg fresh])

theorem bindings_define_self {scope : Nat} (inside : scope < store.nextId) (name : String)
    (value : Value) :
    (store.define scope name value).bindings scope = (store.bindings scope).set name value := by
  have found : store.scopes[scope]? = some store.scopes[scope] := Array.getElem?_eq_getElem inside
  simp only [bindings, scopes_define, if_true, found, Option.map_some]

/-- The links of every scope end in one without a parent. -/
theorem HasOlderParents.exists_ascends (older : store.HasOlderParents) {scope : Nat}
    (inside : scope < store.nextId) : ∃ links, store.Ascends scope links := by
  induction scope using Nat.strongRecOn with
  | ind scope ih =>
      have found : store.scopes[scope]? = some store.scopes[scope] := Array.getElem?_eq_getElem inside
      cases above : store.scopes[scope].parent with
      | none => exact ⟨[scope], .root found above⟩
      | some parent =>
          have lower := older found above
          obtain ⟨links, ascends⟩ := ih parent lower (Nat.lt_trans lower inside)
          exact ⟨scope :: links, .step found above ascends⟩

/-- A scope keeps its names in the order in which they were first bound. -/
theorem BuiltBy.names_bindings (built : BuiltBy steps store) (scope : Nat) :
    (store.bindings scope).names = (definedNames steps scope).eraseDups := by
  induction built with
  | empty => rfl
  | @addScope steps store parent _ _ ih =>
      rw [definedNames_concat, StoreStep.definedIn?, Option.toList_none, List.append_nil, ← ih,
        bindings_addScope]
  | @define steps store target name value _ inside ih =>
      rw [definedNames_concat, StoreStep.definedIn?]
      by_cases same : target = scope
      · subst same
        rw [bindings_define_self inside, Bindings.names_set, ih, if_pos rfl, Option.toList_some,
          List.eraseDups_append]
        by_cases again : name ∈ definedNames steps target
        · simp [again, List.removeAll]
        · simp [again, List.removeAll, List.eraseDups_cons]
      · have kept : (store.define target name value).scopes[scope]? = store.scopes[scope]? := by
          rw [scopes_define, if_neg same]
        rw [if_neg same, Option.toList_none, List.append_nil, ← ih, bindings_congr kept]

/-- A name that is bound in a scope has its value wherever the binding is seen. -/
theorem lookup?_define_of_sees (older : store.HasOlderParents) {target : Nat} {name : String}
    (value : Value) (inside : target < store.nextId) {scope : Nat}
    (sees : store.Sees target name scope) :
    (store.define target name value).lookup? scope name = some value := by
  induction sees with
  | own =>
      refine lookup?_of_bound ?_
      rw [find?_bindings_define inside, if_pos ⟨rfl, rfl⟩]
  | @inherited scope parent record found unbound above _ ih =>
      by_cases own : target = scope
      · refine lookup?_of_bound ?_
        rw [find?_bindings_define inside, if_pos ⟨own, rfl⟩]
      · have passed : ((store.define target name value).bindings scope).find? name = none := by
          rw [find?_bindings_define inside, if_neg fun both => own both.1, bindings_of_found found]
          exact Bindings.find?_eq_none_iff.mpr unbound
        rw [lookup?_of_unbound passed, parent?_define, parent?_of_found older found, above]
        exact ih

/-- A binding changes nothing for other names, nor for scopes that do not see it. -/
theorem lookup?_define_of_not_sees {target : Nat} {name asked : String} (value : Value)
    (inside : target < store.nextId) {scope : Nat}
    (hidden : ¬ (asked = name ∧ store.Sees target name scope)) :
    (store.define target name value).lookup? scope asked = store.lookup? scope asked := by
  induction scope using Nat.strongRecOn with
  | ind scope ih =>
      have here : ((store.define target name value).bindings scope).find? asked =
          (store.bindings scope).find? asked := by
        rw [find?_bindings_define inside, if_neg]
        rintro ⟨rfl, rfl⟩
        exact hidden ⟨rfl, .own⟩
      cases found : (store.bindings scope).find? asked with
      | some value => rw [lookup?_of_bound found, lookup?_of_bound (here.trans found)]
      | none =>
          rw [lookup?_of_unbound found, lookup?_of_unbound (here.trans found), parent?_define]
          cases above : store.parent? scope with
          | none => rfl
          | some parent =>
              refine ih parent (parent?_lt above) fun ⟨same, sees⟩ => hidden ⟨same, ?_⟩
              subst same
              obtain ⟨record, there, linked⟩ := exists_of_parent? above
              rw [bindings_of_found there] at found
              exact .inherited there (Bindings.find?_eq_none_iff.mp found) linked sees

/-- In every store that is built from nothing, the links of a scope end, and it lists the names of each
in the order in which they were first bound there. A name that is bound then has the new value in the
scopes that see the binding, and all else that is read, or cannot be read, is as it was. -/
theorem BuiltBy.reads_after_define (built : BuiltBy steps store) :
    (∀ scope < store.nextId, ∃ links, store.Ascends scope links ∧ links.Nodup ∧
      store.shown scope = String.intercalate " < " (links.map fun link =>
        "[" ++ String.intercalate ", " (definedNames steps link).eraseDups ++ "]")) ∧
    ∀ target < store.nextId, ∀ name value scope asked log,
      (asked = name ∧ store.Sees target name scope →
        (Machine.perform ⟨store.define target name value, log⟩ (readName scope asked)).1 =
          .ok value) ∧
      (¬ (asked = name ∧ store.Sees target name scope) →
        (Machine.perform ⟨store.define target name value, log⟩ (readName scope asked)).1 =
          (Machine.perform ⟨store, log⟩ (readName scope asked)).1) := by
  have older : store.HasOlderParents := built.hasOlderParents
  constructor
  · intro scope inside
    obtain ⟨links, ascends⟩ := older.exists_ascends inside
    refine ⟨links, ascends, ascends.nodup older, ?_⟩
    simp only [shown, ascends.chain older, built.names_bindings]
  · intro target inside name value scope asked log
    constructor
    · rintro ⟨rfl, sees⟩
      have bound : (⟨store.define target asked value, log⟩ : Machine).store.lookup? scope asked =
          some value :=
        lookup?_define_of_sees older value inside sees
      rw [Machine.perform_readName_of_some bound]
    · intro hidden
      exact Machine.perform_readName_congr (lookup?_define_of_not_sees value inside hidden)

/-- A name that a scope binds itself is not changed by a binding in its parent. -/
theorem BuiltBy.reads_after_define_shadowed :
    let both := (Store.empty.addScope none).addScope (some 0)
    let store := (both.define 0 "x" (.int 1)).define 1 "x" (.int 2)
    BuiltBy [.addScope none, .addScope (some 0), .define 0 "x" (.int 1), .define 1 "x" (.int 2)]
        store ∧
      (Machine.perform ⟨store.define 0 "x" .null, #[]⟩ (readName 0 "x")).1 = .ok .null ∧
      (Machine.perform ⟨store.define 0 "x" .null, #[]⟩ (readName 1 "x")).1 =
        (Machine.perform ⟨store, #[]⟩ (readName 1 "x")).1 := by
  intro both store
  have root : BuiltBy [.addScope none] (Store.empty.addScope none) :=
    BuiltBy.addScope .empty (by simp)
  have child : BuiltBy [.addScope none, .addScope (some 0)] both :=
    BuiltBy.addScope root (by simp [nextId_addScope])
  have outer : BuiltBy _ (both.define 0 "x" (.int 1)) := child.define (by decide)
  have built : BuiltBy _ store := outer.define (by decide)
  have hidden : ¬ ("x" = "x" ∧ store.Sees 0 "x" 1) := by
    rintro ⟨_, sees⟩
    cases sees with
    | inherited found unbound _ _ =>
        rw [← bindings_of_found found] at unbound
        exact unbound (by decide)
  obtain ⟨_, reads⟩ := built.reads_after_define
  have reading := reads 0 (by decide) "x" .null
  exact ⟨built, (reading 0 "x" #[]).1 ⟨rfl, .own⟩, (reading 1 "x" #[]).2 hidden⟩

end

end Store

end TinyScript
