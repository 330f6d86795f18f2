import TinyScript.Proofs.Performing
import TinyScript.Proofs.Scopes

/-!
# What an evaluation leaves alone

A store grows while a tree is evaluated, but of the scopes that were there before, only the one of
the evaluation changes: names that the tree binds outside of functions are bound in it. A call works
in a new scope and leaves all older ones as they were.
-/

set_option autoImplicit false

namespace TinyScript

namespace Store

/-- A store has all scopes of an earlier one, unchanged, and possibly more. -/
structure Extends (before after : Store) : Prop where
  grows : before.nextId ≤ after.nextId
  same : ∀ scope < before.nextId, after.scopes[scope]? = before.scopes[scope]?

theorem Extends.refl (store : Store) : store.Extends store :=
  ⟨Nat.le_refl _, fun _ _ => rfl⟩

theorem Extends.trans {before between after : Store} (first : before.Extends between)
    (second : between.Extends after) : before.Extends after := by
  refine ⟨Nat.le_trans first.grows second.grows, ?_⟩
  intro scope old
  rw [second.same scope (Nat.lt_of_lt_of_le old first.grows), first.same scope old]

theorem Extends.addScope (store : Store) (parent : Option Nat) :
    store.Extends (store.addScope parent) := by
  refine ⟨by rw [nextId_addScope]; exact Nat.le_succ _, ?_⟩
  intro scope old
  rw [scopes_addScope, if_neg (Nat.ne_of_lt old)]

/-- Bindings in a new scope leave the older scopes alone. -/
theorem Extends.defineAllNew {before after : Store} {scope : Nat} (extension : before.Extends after)
    (new : before.nextId ≤ scope) (entries : Bindings) :
    before.Extends (after.defineAll scope entries) := by
  refine ⟨?_, ?_⟩
  · rw [nextId_defineAll]
    exact extension.grows
  · intro other old
    have different : scope ≠ other := (Nat.ne_of_lt (Nat.lt_of_lt_of_le old new)).symm
    rw [scopes_defineAll, if_neg different, extension.same other old]

theorem Extends.defineAll {before after : Store} (extension : before.Extends after) (scope : Nat)
    (entries : Bindings) :
    (before.defineAll scope entries).Extends (after.defineAll scope entries) := by
  refine ⟨?_, ?_⟩
  · rw [nextId_defineAll, nextId_defineAll]
    exact extension.grows
  · intro other old
    rw [nextId_defineAll] at old
    rw [scopes_defineAll, scopes_defineAll, extension.same other old]

/-- Nothing but bindings of the given names in the given scope was changed in a store, though it may
have grown. -/
def Framed (scope : Nat) (targets : List String) (before after : Store) : Prop :=
  ∃ entries : Bindings, (∀ name ∈ entries.names, name ∈ targets) ∧
    (before.defineAll scope entries).Extends after

section

variable {scope : Nat} {targets : List String} {before between after : Store}

theorem Extends.framed (extension : before.Extends after) : Framed scope targets before after :=
  ⟨[], fun _ member => absurd member List.not_mem_nil, extension⟩

theorem Framed.refl (store : Store) : Framed scope targets store store :=
  (Extends.refl store).framed

theorem Framed.trans (first : Framed scope targets before between)
    (second : Framed scope targets between after) : Framed scope targets before after := by
  obtain ⟨entries, among, extension⟩ := first
  obtain ⟨later, laterAmong, further⟩ := second
  refine ⟨entries ++ later, ?_, ?_⟩
  · intro name member
    rw [Bindings.names, List.map_append] at member
    rcases List.mem_append.mp member with early | late
    · exact among name early
    · exact laterAmong name late
  · have both : before.defineAll scope (entries ++ later) =
        (before.defineAll scope entries).defineAll scope later := List.foldl_append
    rw [both]
    exact (extension.defineAll scope later).trans further

theorem Framed.widen {fewer : List String} (framed : Framed scope fewer before after)
    (among : ∀ name ∈ fewer, name ∈ targets) : Framed scope targets before after := by
  obtain ⟨entries, names, extension⟩ := framed
  exact ⟨entries, fun name member => among name (names name member), extension⟩

theorem Framed.define (store : Store) (scope : Nat) (name : String) (value : Value) :
    Framed scope [name] store (store.define scope name value) :=
  ⟨[(name, value)], fun _ member => member, .refl _⟩

/-- Without bindings, nothing is changed at all. -/
theorem Framed.extends_of_none (framed : Framed scope [] before after) : before.Extends after := by
  obtain ⟨entries, among, extension⟩ := framed
  cases entries with
  | nil => exact extension
  | cons entry later => exact absurd (among entry.1 (.head _)) List.not_mem_nil

/-- What is done in a new scope leaves the older scopes alone. -/
theorem Framed.extends_of_new (framed : Framed scope targets between after)
    (extension : before.Extends between) (new : before.nextId ≤ scope) : before.Extends after := by
  obtain ⟨entries, _, further⟩ := framed
  exact (extension.defineAllNew new entries).trans further

theorem Framed.others (framed : Framed scope targets before after) {other : Nat}
    (old : other < before.nextId) (different : other ≠ scope) :
    after.scopes[other]? = before.scopes[other]? := by
  obtain ⟨entries, _, extension⟩ := framed
  rw [extension.same other (by rw [nextId_defineAll]; exact old), scopes_defineAll,
    if_neg different.symm]

theorem Framed.own (framed : Framed scope targets before after) {record : Scope}
    (found : before.scopes[scope]? = some record) :
    ∃ bindings added, after.scopes[scope]? = some ⟨record.parent, bindings⟩ ∧
      bindings.names = record.bindings.names ++ added ∧ (∀ name ∈ added, name ∈ targets) ∧
      ∀ name, name ∉ targets → bindings.find? name = record.bindings.find? name := by
  obtain ⟨entries, among, extension⟩ := framed
  have old : scope < before.nextId := (Array.getElem?_eq_some_iff.mp found).1
  obtain ⟨added, names, addedAmong⟩ := Bindings.names_setAll record.bindings entries
  refine ⟨record.bindings.setAll entries, added, ?_, ?_, ?_, ?_⟩
  · rw [extension.same scope (by rw [nextId_defineAll]; exact old), scopes_defineAll, if_pos rfl,
      found]
    rfl
  · exact names
  · exact fun name member => among name (addedAmong name member)
  · exact fun name other =>
      Bindings.find?_setAll (fun member => other (among name member)) record.bindings

end

end Store

namespace Node

mutual

/-- The names that a tree binds outside of function literals. -/
def letTargets : Node → List String
  | .int _ | .bool _ | .name _ | .func .. | .strayFunc .. | .stray _ => []
  | .binary _ left right => letTargets left ++ letTargets right
  | .letE target value => target :: letTargets value
  | .returnE value | .strayLet _ value => letTargets value
  | .block statements => letTargetsAll statements
  | .ifThen condition consequence => letTargets condition ++ letTargets consequence
  | .ifElse condition consequence alternative =>
      letTargets condition ++ letTargets consequence ++ letTargets alternative
  | .call _ arguments | .strayCall _ arguments => letTargetsAll arguments
  | .shownAs _ meaning => letTargets meaning

def letTargetsAll : List Node → List String
  | [] => []
  | first :: later => letTargets first ++ letTargetsAll later

end

end Node

/-- Only the given names are bound in the given scope, among the scopes that a machine had. -/
def Machine.Framed (scope : Nat) (targets : List String) (before after : Machine) : Prop :=
  before.store.Framed scope targets after.store

/-- All scopes that a machine had are unchanged. -/
def Machine.Extends (before after : Machine) : Prop :=
  before.store.Extends after.store

/-- Whatever runs in a scope binds names in that scope only, among the older ones. -/
def Enter.Contained (enter : Enter) : Prop :=
  ∀ scope body, (enter scope body).Keeps fun before after =>
    ∃ targets, before.Framed scope targets after

section

variable {scope : Nat} {targets : List String}

theorem Eval.Keeps.framed_bind {α β : Type} {fewer more : List String} {step : Eval α}
    {next : α → Eval β} (first : step.Keeps (Machine.Framed scope fewer))
    (later : ∀ value, (next value).Keeps (Machine.Framed scope more)) :
    (step >>= next).Keeps (Machine.Framed scope (fewer ++ more)) :=
  Keeps.bind (fun _ _ _ => Store.Framed.trans)
    (first.imp fun _ _ framed => framed.widen fun _ => List.mem_append_left more)
    fun value => (later value).imp fun _ _ framed => framed.widen fun _ => List.mem_append_right fewer

theorem Eval.Keeps.framed_then {α β : Type} {step : Eval α} {next : α → Eval β}
    (first : step.Keeps (Machine.Framed scope targets))
    (later : ∀ value, (next value).Keeps (Machine.Framed scope targets)) :
    (step >>= next).Keeps (Machine.Framed scope targets) :=
  Keeps.bind (fun _ _ _ => Store.Framed.trans) first later

theorem Eval.Keeps.framed_pure {α : Type} (value : α) :
    (Pure.pure value : Eval α).Keeps (Machine.Framed scope targets) :=
  .pure (fun _ => Store.Framed.refl _) value

theorem Eval.Keeps.framed_throw {α : Type} (fault : EvalError) :
    (MonadExcept.throw fault : Eval α).Keeps (Machine.Framed scope targets) :=
  .throw (fun _ => Store.Framed.refl _) fault

theorem readName_framed (name : String) :
    (readName scope name).Keeps (Machine.Framed scope targets) := by
  intro machine
  unfold readName
  rw [Machine.perform_get_bind]
  split
  · exact Store.Framed.refl _
  · exact Store.Framed.refl _

theorem Store.extends_openCall (store : Store) (home : Nat) (bound : Bindings) (callee : String)
    (function : Value) : store.Extends (store.openCall home bound callee function) :=
  ((Store.Extends.addScope store (some home)).defineAllNew (Nat.le_refl _) bound).defineAllNew
    (Nat.le_refl _) [(callee, function)]

theorem callNamed_extends {enter : Enter} (contained : enter.Contained) (callee : String)
    (arguments : List Value) :
    (callNamed enter scope callee arguments).Keeps Machine.Extends := by
  intro machine
  cases found : machine.store.lookup? scope callee with
  | none =>
      rw [Machine.perform_callNamed_undefined arguments found]
      exact Store.Extends.refl _
  | some function =>
      cases calls : function.callable? with
      | none =>
          rw [Machine.perform_callNamed_notAFunction arguments found calls]
          exact Store.Extends.refl _
      | some callable =>
          rw [Machine.perform_callNamed arguments found calls]
          obtain ⟨targets, framed⟩ := contained machine.store.nextId callable.body
            ⟨machine.store.openCall callable.home (callable.bound arguments) callee function,
              machine.log ++ Machine.callRecords callee callable.expected arguments⟩
          exact Store.Framed.extends_of_new framed (Store.extends_openCall _ _ _ _ _) (Nat.le_refl _)

namespace Node

variable {enter : Enter}

mutual

/-- Evaluating a tree changes no older scope but its own, and there only names that it binds. -/
theorem evaluate_framed (contained : enter.Contained) (scope : Nat) (node : Node) :
    (node.evaluate enter scope).Keeps (Machine.Framed scope node.letTargets) := by
  cases node with
  | int | bool | func | strayFunc => exact .framed_pure _
  | strayLet | strayCall | stray => exact .framed_throw _
  | name spelling => exact readName_framed spelling
  | binary op left right =>
      rw [evaluate, letTargets]
      refine (evaluate_framed contained scope left).framed_bind fun leftValue => ?_
      refine (evaluate_framed contained scope right).framed_then fun rightValue => ?_
      split
      · exact .framed_pure _
      · exact .framed_throw _
  | letE target value =>
      have widen : ∀ name ∈ letTargets value ++ [target], name ∈ target :: letTargets value := by
        simp [or_comm]
      have keeps : ((letE target value).evaluate enter scope).Keeps
          (Machine.Framed scope (letTargets value ++ [target])) := by
        rw [evaluate]
        refine (evaluate_framed contained scope value).framed_bind fun bound => ?_
        intro machine
        exact Store.Framed.define machine.store scope target bound
      exact keeps.imp fun _ _ framed => framed.widen widen
  | returnE value => exact evaluate_framed contained scope value
  | block statements =>
      rw [evaluate, letTargets]
      exact (evaluateAll_framed contained scope statements).framed_then fun _ => .framed_pure _
  | ifThen condition consequence =>
      rw [evaluate, letTargets]
      refine (evaluate_framed contained scope condition).framed_bind fun tested => ?_
      split
      · exact evaluate_framed contained scope consequence
      · exact .framed_pure _
  | ifElse condition consequence alternative =>
      rw [evaluate, letTargets, List.append_assoc]
      refine (evaluate_framed contained scope condition).framed_bind fun tested => ?_
      split
      · exact (evaluate_framed contained scope consequence).imp fun _ _ framed =>
          framed.widen fun _ => List.mem_append_left _
      · exact (evaluate_framed contained scope alternative).imp fun _ _ framed =>
          framed.widen fun _ => List.mem_append_right _
  | call callee arguments =>
      rw [evaluate, letTargets]
      refine (evaluateAll_framed contained scope arguments).framed_then fun values => ?_
      exact (callNamed_extends contained callee values).imp fun _ _ extension => extension.framed
  | shownAs content meaning =>
      rw [evaluate, letTargets]
      split
      · exact evaluate_framed contained scope meaning
      · exact .framed_throw _

theorem evaluateAll_framed (contained : enter.Contained) (scope : Nat) (nodes : List Node) :
    (evaluateAll enter scope nodes).Keeps (Machine.Framed scope (letTargetsAll nodes)) := by
  cases nodes with
  | nil => exact .framed_pure _
  | cons first later =>
      rw [evaluateAll, letTargetsAll]
      refine (evaluate_framed contained scope first).framed_bind fun value => ?_
      exact (evaluateAll_framed contained scope later).framed_then fun _ => .framed_pure _

end

end Node

end

theorem enterWithin_contained (depth : Nat) : (enterWithin depth).Contained := by
  induction depth with
  | zero => exact fun scope body machine => ⟨[], Store.Framed.refl machine.store⟩
  | succ depth ih =>
      intro scope body machine
      refine ⟨Node.letTargetsAll body, ?_⟩
      exact (Node.evaluateAll_framed ih scope body).framed_then (fun _ => .framed_pure _) machine

/-- Whether it gives a value or fails, and at whatever depth of calls it may give up, evaluating a
tree in a scope changes no other scope that was there before. In its own scope it only binds names
that the tree binds outside of functions, and new names stand behind the older ones. A call changes
no scope that was there before, and neither does a tree without such bindings. -/
theorem Node.evaluate_changes_only (depth scope : Nat) (node : Node) (machine : Machine) :
    let after := (machine.perform (node.evaluate (enterWithin depth) scope)).2.store
    (∀ other < machine.store.nextId, other ≠ scope →
      after.scopes[other]? = machine.store.scopes[other]?) ∧
    (∀ record, machine.store.scopes[scope]? = some record →
      ∃ bindings added, after.scopes[scope]? = some ⟨record.parent, bindings⟩ ∧
        bindings.names = record.bindings.names ++ added ∧
        (∀ name ∈ added, name ∈ node.letTargets) ∧
        ∀ name, name ∉ node.letTargets → bindings.find? name = record.bindings.find? name) ∧
    (node.letTargets = [] → ∀ other < machine.store.nextId,
      after.scopes[other]? = machine.store.scopes[other]?) ∧
    (∀ callee arguments, ∀ other < machine.store.nextId,
      (machine.perform (callNamed (enterWithin depth) scope callee arguments)).2.store.scopes[other]?
        = machine.store.scopes[other]?) := by
  have contained := enterWithin_contained depth
  have framed := evaluate_framed contained scope node machine
  refine ⟨fun other old different => framed.others old different, fun record => framed.own, ?_, ?_⟩
  · intro none other old
    rw [none] at framed
    exact framed.extends_of_none.same other old
  · intro callee arguments
    exact (callNamed_extends contained callee arguments machine).same

/-- A failing block in an inner scope does not touch the outer one. -/
theorem Node.evaluate_changes_only_failing :
    (Machine.perform ⟨⟨#[⟨none, [("a", .int 1)]⟩, ⟨some 0, [("b", .null)]⟩]⟩, #[]⟩
      ((Node.block [.letE "a" (.int 2), .name "missing"]).evaluate
        (enterWithin 3) 1)).2.store.scopes[0]? = some ⟨none, [("a", .int 1)]⟩ :=
  (Node.evaluate_changes_only 3 1 (.block [.letE "a" (.int 2), .name "missing"])
    ⟨⟨#[⟨none, [("a", .int 1)]⟩, ⟨some 0, [("b", .null)]⟩]⟩, #[]⟩).1 0 (by decide) (by decide)

end TinyScript
