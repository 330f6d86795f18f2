import Mathlib
import TinyScript.Proofs.Contents
import TinyScript.Proofs.Invariant
import TinyScript.Proofs.Reachable
import TinyScript.Proofs.Unmentioned.Stores

/-!
# Names that nothing mentions

Where neither a tree nor any closure of a store mentions a name, no search for it ever begins. So it
makes no difference to the evaluation of the tree what the name is bound to in whichever scope, or
whether it is bound there at all.
-/

set_option autoImplicit false

namespace TinyScript

/-- A name occurs nowhere in a tree, function literals included. Of raw data, only what a call binds and
runs counts: parameters, and the body read as trees. -/
inductive Node.Omits (name : String) : Node → Prop where
  | int {value : Int} : Omits name (.int value)
  | bool {value : Bool} : Omits name (.bool value)
  | name {spelling : String} : spelling ≠ name → Omits name (.name spelling)
  | binary {op : BinaryOp} {left right : Node} :
      Omits name left → Omits name right → Omits name (.binary op left right)
  | letE {target : String} {value : Node} :
      target ≠ name → Omits name value → Omits name (.letE target value)
  | returnE {value : Node} : Omits name value → Omits name (.returnE value)
  | block {statements : List Node} :
      (∀ statement ∈ statements, Omits name statement) → Omits name (.block statements)
  | ifThen {condition consequence : Node} :
      Omits name condition → Omits name consequence → Omits name (.ifThen condition consequence)
  | ifElse {condition consequence alternative : Node} :
      Omits name condition → Omits name consequence → Omits name alternative →
      Omits name (.ifElse condition consequence alternative)
  | call {callee : String} {arguments : List Node} :
      callee ≠ name → (∀ argument ∈ arguments, Omits name argument) →
      Omits name (.call callee arguments)
  | func {parameters : List String} {body : List Node} :
      name ∉ parameters → (∀ statement ∈ body, Omits name statement) →
      Omits name (.func parameters body)
  | strayLet {target : Datum} {value : Node} : Omits name value → Omits name (.strayLet target value)
  | strayCall {callee : Datum} {arguments : List Node} :
      (∀ argument ∈ arguments, Omits name argument) → Omits name (.strayCall callee arguments)
  | strayFunc {parameters body : Datum} {statements : List Node} :
      .text name ∉ parameters.items → (∀ statement ∈ Node.ofData body.items, Omits name statement) →
      Omits name (.strayFunc parameters body statements)
  | shownAs {content : Datum} {meaning : Node} :
      Omits name meaning → Omits name (.shownAs content meaning)
  | stray {content : Datum} : Omits name (.stray content)

/-- A name occurs neither in the parameters nor in the body of a value, if the value is a closure. -/
inductive Value.Omits (name : String) : Value → Prop where
  | plain {value : Value} : value.callable? = none → Omits name value
  | closure {parameters : List String} {body : List Node} {home : Nat} :
      name ∉ parameters → (∀ statement ∈ body, statement.Omits name) →
      Omits name (.closure parameters body home)
  | strayClosure {parameters body : Datum} {home : Nat} :
      .text name ∉ parameters.items →
      (∀ statement ∈ Node.ofData body.items, statement.Omits name) →
      Omits name (.strayClosure parameters body home)

section

variable {name : String}

namespace Node

theorem Omits.part {node part : Node} (omits : node.Omits name) (among : part ∈ node.parts) :
    part.Omits name := by
  cases omits with
  | int | bool | name | func | strayLet | strayCall | strayFunc | stray => cases among
  | block all => exact all part among
  | call _ all => exact all part among
  | letE _ value | returnE value | shownAs value =>
      cases List.mem_singleton.mp among
      exact value
  | binary | ifThen | ifElse =>
      simp only [parts, List.mem_cons, List.not_mem_nil, or_false] at among
      grind

/-- A tree of the forms that programs parse to omits the names that are not among its own. -/
theorem Known.omits_iff {node : Node} (known : node.Known) :
    node.Omits name ↔ name ∉ node.names := by
  have all {nodes : List Node}
      (each : ∀ node ∈ nodes, node.Omits name ↔ name ∉ node.names) :
      (∀ node ∈ nodes, node.Omits name) ↔ name ∉ namesAll nodes := by
    rw [mem_namesAll, not_exists]
    exact forall_congr' fun node => by
      rw [not_and]
      exact forall_congr' fun among => each node among
  induction known with
  | int => exact ⟨fun _ => List.not_mem_nil, fun _ => .int⟩
  | bool => exact ⟨fun _ => List.not_mem_nil, fun _ => .bool⟩
  | name =>
      rw [names, List.mem_singleton]
      exact ⟨fun (.name other) => other.symm, fun other => .name (Ne.symm other)⟩
  | binary _ _ left right =>
      rw [names, List.mem_append, not_or]
      exact ⟨fun (.binary first second) => ⟨left.mp first, right.mp second⟩,
        fun ⟨first, second⟩ => .binary (left.mpr first) (right.mpr second)⟩
  | letE _ value =>
      rw [names, List.mem_cons, not_or]
      exact ⟨fun (.letE other bound) => ⟨other.symm, value.mp bound⟩,
        fun ⟨other, bound⟩ => .letE (Ne.symm other) (value.mpr bound)⟩
  | returnE _ value =>
      rw [names]
      exact ⟨fun (.returnE given) => value.mp given, fun given => .returnE (value.mpr given)⟩
  | block _ each =>
      rw [names, ← all each]
      exact ⟨fun (.block statements) => statements, .block⟩
  | ifThen _ _ condition consequence =>
      rw [names, List.mem_append, not_or]
      exact ⟨fun (.ifThen first second) => ⟨condition.mp first, consequence.mp second⟩,
        fun ⟨first, second⟩ => .ifThen (condition.mpr first) (consequence.mpr second)⟩
  | ifElse _ _ _ condition consequence alternative =>
      rw [names, List.mem_append, List.mem_append, not_or, not_or]
      exact ⟨fun (.ifElse first second third) =>
          ⟨⟨condition.mp first, consequence.mp second⟩, alternative.mp third⟩,
        fun ⟨⟨first, second⟩, third⟩ =>
          .ifElse (condition.mpr first) (consequence.mpr second) (alternative.mpr third)⟩
  | call _ each =>
      rw [names, List.mem_cons, not_or, ← all each]
      exact ⟨fun (.call other arguments) => ⟨other.symm, arguments⟩,
        fun ⟨other, arguments⟩ => .call (Ne.symm other) arguments⟩
  | func _ each =>
      rw [names, List.mem_append, not_or, ← all each]
      exact ⟨fun (.func parameters body) => ⟨parameters, body⟩,
        fun ⟨parameters, body⟩ => .func parameters body⟩

end Node

theorem Bindings.not_mem_names_zip {parameters : List String} (absent : name ∉ parameters)
    (arguments : List Value) : name ∉ Bindings.names (parameters.zip arguments) := by
  intro member
  obtain ⟨entry, paired, rfl⟩ := List.mem_map.mp member
  exact absent (List.of_mem_zip paired).1

theorem not_mem_names_bindTexts {parameters : List Datum} (absent : .text name ∉ parameters)
    (arguments : List Value) : name ∉ (bindTexts parameters arguments).names := by
  intro member
  obtain ⟨entry, bound, rfl⟩ := List.mem_map.mp member
  obtain ⟨⟨parameter, argument⟩, paired, kept⟩ := List.mem_filterMap.mp bound
  obtain ⟨spelling, read, rfl⟩ := Option.map_eq_some_iff.mp kept
  cases parameter with
  | text content =>
      cases read
      exact absent (List.of_mem_zip paired).1
  | null | bool | int | sequence => cases read

namespace Value.Omits

variable {function : Value} {callable : Callable}

theorem body (omits : function.Omits name) (calls : function.callable? = some callable) :
    ∀ node ∈ callable.body, node.Omits name := by
  cases omits with
  | plain inert =>
      rw [inert] at calls
      cases calls
  | closure _ statements =>
      cases calls
      exact statements
  | strayClosure _ statements =>
      cases calls
      exact statements

/-- A call binds the name to no argument. -/
theorem not_mem_names_bound (omits : function.Omits name)
    (calls : function.callable? = some callable) (arguments : List Value) :
    name ∉ (callable.bound arguments).names := by
  cases omits with
  | plain inert =>
      rw [inert] at calls
      cases calls
  | closure absent _ =>
      cases calls
      exact Bindings.not_mem_names_zip absent arguments
  | strayClosure absent _ =>
      cases calls
      exact not_mem_names_bindTexts absent arguments

end Value.Omits

end

/-- Machines on which no closure mentions a name, with values and trees that do not either. -/
def omission (name : String) : Invariant where
  sound machine := machine.store.Holds (Value.Omits name)
  follows _ _ := True
  admits _ value := value.Omits name
  allows _ _ node := node.Omits name

theorem omission_kept (name : String) : (omission name).Kept where
  refl _ := trivial
  trans _ _ := trivial
  admits_later _ omits := omits
  allows_later _ omits := omits
  part omits among := omits.part among
  null _ := .plain rfl
  bool _ _ := .plain rfl
  int _ := .plain rfl
  onValues _ _ result := .plain (BinaryOp.callable?_of_onValues result)
  func := fun (.func absent body) => .closure absent body
  strayFunc := fun (.strayFunc absent body) => .strayClosure absent body
  lookup holds found := holds.lookup? found
  define holds _ omits := ⟨holds.define _ _ omits, trivial⟩
  openCall callee holds omits calls argumentsOmit :=
    ⟨holds.openCall _ callee (fun _ member => argumentsOmit _ (Value.mem_bound calls member)) omits,
      trivial, omits.body calls⟩

/-- Two machines are the same but for what a scope binds a name to. -/
structure Machine.AlikeBut (origin : Nat) (name : String) (first second : Machine) : Prop where
  stores : second.store.without origin name = first.store.without origin name
  logs : second.log = first.log

namespace Machine.AlikeBut

variable {origin : Nat} {name : String} {first second : Machine}

theorem nextId (alike : AlikeBut origin name first second) :
    second.store.nextId = first.store.nextId := by
  rw [← second.store.nextId_without origin, alike.stores, Store.nextId_without]

theorem lookup? (alike : AlikeBut origin name first second) {target : String}
    (different : target ≠ name) (scope : Nat) :
    second.store.lookup? scope target = first.store.lookup? scope target := by
  rw [← second.store.lookup?_without origin different, alike.stores,
    Store.lookup?_without _ _ different]

theorem define (alike : AlikeBut origin name first second) {target : String}
    (different : target ≠ name) (scope : Nat) (value : Value) :
    AlikeBut origin name { first with store := first.store.define scope target value }
      { second with store := second.store.define scope target value } := by
  refine ⟨?_, alike.logs⟩
  rw [Store.without_define _ _ different, Store.without_define _ _ different, alike.stores]

theorem openCall (alike : AlikeBut origin name first second) {callee : String} {bound : Bindings}
    (different : callee ≠ name) (others : name ∉ bound.names) (home : Nat) (function : Value)
    (records : Array Record) :
    AlikeBut origin name ⟨first.store.openCall home bound callee function, first.log ++ records⟩
      ⟨second.store.openCall home bound callee function, second.log ++ records⟩ := by
  constructor
  · rw [Store.without_openCall _ _ different others, Store.without_openCall _ _ different others,
      alike.stores]
  · rw [alike.logs]

end Machine.AlikeBut

/-- A step has the same result on two machines, and leaves machines that are the same but for what a
scope binds a name to. -/
structure Eval.Disregards (origin : Nat) (name : String) {α : Type} (first second : Machine)
    (step : Eval α) : Prop where
  results : (second.perform step).1 = (first.perform step).1
  machines : Machine.AlikeBut origin name (first.perform step).2 (second.perform step).2

/-- Whatever runs trees that do not mention a name disregards what it is bound to. -/
def Enter.Disregards (origin : Nat) (name : String) (enter : Enter) : Prop :=
  ∀ {first second : Machine} {scope : Nat} {body : List Node},
    Machine.AlikeBut origin name first second → first.store.Holds (Value.Omits name) →
    (∀ node ∈ body, node.Omits name) → Eval.Disregards origin name first second (enter scope body)

section

variable {origin : Nat} {name : String} {first second : Machine} {α β : Type} {enter : Enter}

namespace Eval.Disregards

theorem same {step : Eval α} {result : Except Failure α}
    (alike : Machine.AlikeBut origin name first second) (done : first.perform step = (result, first))
    (otherDone : second.perform step = (result, second)) :
    Disregards origin name first second step := by
  constructor
  · rw [done, otherDone]
  · rw [done, otherDone]
    exact alike

theorem bind {gives : Machine → α → Prop} {step : Eval α} {next : α → Eval β}
    (early : Disregards origin name first second step)
    (safe : (omission name).Safe gives first step)
    (later : ∀ {value firstAfter secondAfter}, Machine.AlikeBut origin name firstAfter secondAfter →
      firstAfter.store.Holds (Value.Omits name) → gives firstAfter value →
      Disregards origin name firstAfter secondAfter (next value)) :
    Disregards origin name first second (step >>= next) := by
  obtain ⟨results, machines⟩ := early
  obtain ⟨sound, _, given, _⟩ := safe
  cases done : first.perform step with
  | mk outcome firstAfter =>
      cases otherDone : second.perform step with
      | mk otherOutcome secondAfter =>
          rw [done, otherDone] at results machines
          rw [done] at sound given
          cases results
          cases outcome with
          | ok value =>
              obtain ⟨nextResults, nextMachines⟩ := later machines sound (given value rfl)
              constructor
              · rw [Machine.perform_bind_of_ok done, Machine.perform_bind_of_ok otherDone]
                exact nextResults
              · rw [Machine.perform_bind_of_ok done, Machine.perform_bind_of_ok otherDone]
                exact nextMachines
          | error failure =>
              exact ⟨by rw [Machine.perform_bind_of_error done,
                Machine.perform_bind_of_error otherDone],
                by rwa [Machine.perform_bind_of_error done, Machine.perform_bind_of_error otherDone]⟩

theorem readName {target : String} (alike : Machine.AlikeBut origin name first second)
    (different : target ≠ name) (scope : Nat) :
    Disregards origin name first second (TinyScript.readName scope target) := by
  have there := alike.lookup? different scope
  cases found : first.store.lookup? scope target with
  | none =>
      exact .same alike (Machine.perform_readName_of_none found)
        (Machine.perform_readName_of_none (there.trans found))
  | some value =>
      exact .same alike (Machine.perform_readName_of_some found)
        (Machine.perform_readName_of_some (there.trans found))

theorem callNamed {callee : String} (entered : enter.Disregards origin name)
    (alike : Machine.AlikeBut origin name first second)
    (holds : first.store.Holds (Value.Omits name)) (different : callee ≠ name) (scope : Nat)
    {arguments : List Value} (argumentsOmit : ∀ argument ∈ arguments, argument.Omits name) :
    Disregards origin name first second (TinyScript.callNamed enter scope callee arguments) := by
  have there := alike.lookup? different scope
  cases found : first.store.lookup? scope callee with
  | none =>
      exact .same alike (Machine.perform_callNamed_undefined _ found)
        (Machine.perform_callNamed_undefined _ (there.trans found))
  | some function =>
      have omits := holds.lookup? found
      cases calls : function.callable? with
      | none =>
          exact .same alike (Machine.perform_callNamed_notAFunction _ found calls)
            (Machine.perform_callNamed_notAFunction _ (there.trans found) calls)
      | some callable =>
          obtain ⟨openedHolds, _, bodies⟩ :=
            (omission_kept name).openCall callee holds omits calls argumentsOmit
          have opened := alike.openCall different (omits.not_mem_names_bound calls arguments)
            callable.home function (Machine.callRecords callee callable.expected arguments)
          obtain ⟨results, machines⟩ := entered opened openedHolds bodies
          constructor
          · rw [Machine.perform_callNamed _ found calls,
              Machine.perform_callNamed _ (there.trans found) calls, alike.nextId]
            exact results
          · rw [Machine.perform_callNamed _ found calls,
              Machine.perform_callNamed _ (there.trans found) calls, alike.nextId]
            exact machines

end Eval.Disregards

theorem Node.Omits.evaluate_safe {scope : Nat} {node : Node} (omits : node.Omits name)
    (safe : (omission name).KeptBy enter) (holds : first.store.Holds (Value.Omits name)) :
    (omission name).Safe (fun _ value => value.Omits name) first (node.evaluate enter scope) :=
  Invariant.evaluate_safe (omission_kept name) safe holds scope node omits

theorem Node.evaluateAll_safe_of_omits {scope : Nat} {nodes : List Node}
    (allOmit : ∀ node ∈ nodes, node.Omits name) (safe : (omission name).KeptBy enter)
    (holds : first.store.Holds (Value.Omits name)) :
    (omission name).Safe (fun _ values => ∀ value ∈ values, value.Omits name) first
      (evaluateAll enter scope nodes) :=
  Invariant.evaluateAll_safe (omission_kept name) safe holds scope nodes allOmit

namespace Node

mutual

/-- The evaluation of a tree that does not mention a name disregards what it is bound to. -/
theorem evaluate_disregards (safe : (omission name).KeptBy enter)
    (entered : enter.Disregards origin name) {first second : Machine}
    (alike : Machine.AlikeBut origin name first second)
    (holds : first.store.Holds (Value.Omits name)) (scope : Nat) (node : Node)
    (omits : node.Omits name) :
    Eval.Disregards origin name first second (node.evaluate enter scope) := by
  cases node with
  | int | bool | func | strayFunc | strayLet | strayCall | stray => exact .same alike rfl rfl
  | name spelling =>
      cases omits with
      | name different => exact .readName alike different scope
  | binary op left right =>
      obtain ⟨leftOmits, rightOmits⟩ : left.Omits name ∧ right.Omits name := by
        cases omits with
        | binary first second => exact ⟨first, second⟩
      rw [evaluate]
      refine (evaluate_disregards safe entered alike holds scope left leftOmits).bind
        (leftOmits.evaluate_safe safe holds) ?_
      intro leftValue _ _ betweenAlike betweenHolds _
      refine (evaluate_disregards safe entered betweenAlike betweenHolds scope right
        rightOmits).bind (rightOmits.evaluate_safe safe betweenHolds) ?_
      intro rightValue _ _ afterAlike _ _
      split
      · exact .same afterAlike rfl rfl
      · exact .same afterAlike rfl rfl
  | letE target value =>
      obtain ⟨different, valueOmits⟩ : target ≠ name ∧ value.Omits name := by
        cases omits with
        | letE other bound => exact ⟨other, bound⟩
      rw [evaluate]
      refine (evaluate_disregards safe entered alike holds scope value valueOmits).bind
        (valueOmits.evaluate_safe safe holds) ?_
      exact fun afterAlike _ _ => ⟨rfl, afterAlike.define different scope _⟩
  | returnE value =>
      cases omits with
      | returnE given => exact evaluate_disregards safe entered alike holds scope value given
  | block statements =>
      cases omits with
      | block all =>
          rw [evaluate]
          refine (evaluateAll_disregards safe entered alike holds scope statements all).bind
            (evaluateAll_safe_of_omits all safe holds) ?_
          exact fun afterAlike _ _ => .same afterAlike rfl rfl
  | ifThen condition consequence =>
      obtain ⟨conditionOmits, consequenceOmits⟩ :
          condition.Omits name ∧ consequence.Omits name := by
        cases omits with
        | ifThen first second => exact ⟨first, second⟩
      rw [evaluate]
      refine (evaluate_disregards safe entered alike holds scope condition conditionOmits).bind
        (conditionOmits.evaluate_safe safe holds) ?_
      intro tested _ _ betweenAlike betweenHolds _
      split
      · exact evaluate_disregards safe entered betweenAlike betweenHolds scope consequence
          consequenceOmits
      · exact .same betweenAlike rfl rfl
  | ifElse condition consequence alternative =>
      obtain ⟨conditionOmits, consequenceOmits, alternativeOmits⟩ :
          condition.Omits name ∧ consequence.Omits name ∧ alternative.Omits name := by
        cases omits with
        | ifElse first second third => exact ⟨first, second, third⟩
      rw [evaluate]
      refine (evaluate_disregards safe entered alike holds scope condition conditionOmits).bind
        (conditionOmits.evaluate_safe safe holds) ?_
      intro tested _ _ betweenAlike betweenHolds _
      split
      · exact evaluate_disregards safe entered betweenAlike betweenHolds scope consequence
          consequenceOmits
      · exact evaluate_disregards safe entered betweenAlike betweenHolds scope alternative
          alternativeOmits
  | call callee arguments =>
      obtain ⟨different, all⟩ :
          callee ≠ name ∧ ∀ argument ∈ arguments, argument.Omits name := by
        cases omits with
        | call other each => exact ⟨other, each⟩
      rw [evaluate]
      refine (evaluateAll_disregards safe entered alike holds scope arguments all).bind
        (evaluateAll_safe_of_omits all safe holds) ?_
      exact fun betweenAlike betweenHolds valuesOmit =>
        .callNamed entered betweenAlike betweenHolds different scope valuesOmit
  | shownAs content meaning =>
      cases omits with
      | shownAs meant =>
          rw [evaluate]
          split
          · exact evaluate_disregards safe entered alike holds scope meaning meant
          · exact .same alike rfl rfl

theorem evaluateAll_disregards (safe : (omission name).KeptBy enter)
    (entered : enter.Disregards origin name) {first second : Machine}
    (alike : Machine.AlikeBut origin name first second)
    (holds : first.store.Holds (Value.Omits name)) (scope : Nat) (nodes : List Node)
    (allOmit : ∀ node ∈ nodes, node.Omits name) :
    Eval.Disregards origin name first second (evaluateAll enter scope nodes) := by
  cases nodes with
  | nil => exact .same alike rfl rfl
  | cons node later =>
      obtain ⟨nodeOmits, laterOmit⟩ := List.forall_mem_cons.mp allOmit
      rw [evaluateAll]
      refine (evaluate_disregards safe entered alike holds scope node nodeOmits).bind
        (nodeOmits.evaluate_safe safe holds) ?_
      intro value _ _ betweenAlike betweenHolds _
      refine (evaluateAll_disregards safe entered betweenAlike betweenHolds scope later
        laterOmit).bind (evaluateAll_safe_of_omits laterOmit safe betweenHolds) ?_
      exact fun afterAlike _ _ => .same afterAlike rfl rfl

end

end Node

end

theorem enterWithin_disregards (origin : Nat) (name : String) (depth : Nat) :
    (enterWithin depth).Disregards origin name := by
  induction depth with
  | zero => exact fun alike _ _ => .same alike rfl rfl
  | succ depth ih =>
      intro first second scope body alike holds bodyOmits
      have safe : (omission name).KeptBy (enterWithin depth) :=
        Invariant.enterWithin_kept (omission_kept name) depth
      refine (Node.evaluateAll_disregards safe ih alike holds scope body bodyOmits).bind
        (Node.evaluateAll_safe_of_omits bodyOmits safe holds) ?_
      exact fun afterAlike _ _ => .same afterAlike rfl rfl

/-- Where neither a tree nor any closure of a store mentions a name, the tree has the same result,
the same records are written and the same store is left, whether or not the name is bound
beforehand, to whatever value and in whichever scope; only that binding is different. -/
theorem Node.Omits.evaluate_defined {name : String} {node : Node} (omits : node.Omits name)
    {machine : Machine} (closures : machine.store.Holds (Value.Omits name)) (origin : Nat)
    (value : Value) (depth scope : Nat) :
    let defined : Machine := { machine with store := machine.store.define origin name value }
    let plain := machine.perform (node.evaluate (enterWithin depth) scope)
    let other := defined.perform (node.evaluate (enterWithin depth) scope)
    other.1 = plain.1 ∧ other.2.log = plain.2.log ∧
      other.2.store.without origin name = plain.2.store.without origin name := by
  intro defined plain other
  have alike : Machine.AlikeBut origin name machine defined :=
    ⟨machine.store.without_define_self origin value, rfl⟩
  have safe : (omission name).KeptBy (enterWithin depth) :=
    Invariant.enterWithin_kept (omission_kept name) depth
  obtain ⟨results, machines⟩ := evaluate_disregards safe (enterWithin_disregards origin name depth)
    alike closures scope node omits
  exact ⟨results, machines.logs, machines.stores⟩

/-- A function that gives functions is called where a function is bound to a name that nothing
mentions. -/
theorem Node.Omits.evaluate_defined_closure :
    let adder : Value := .closure ["n"] [.func ["k"] [.binary .add (.name "n") (.name "k")]] 0
    let store := ((Machine.fresh.store.define 0 "adder" adder).addScope (some 0)).define 1 "y" (.int 5)
    let node : Node := .block [.letE "add" (.call "adder" [.int 2]), .call "add" [.name "y"]]
    let defined : Machine := ⟨store.define 1 "x" (.closure ["x"] [.name "x"] 1), #[]⟩
    node.Omits "x" ∧ store.Holds (Value.Omits "x") ∧
      (defined.perform (node.evaluate (enterWithin 3) 1)).1 = .ok (.int 7) := by
  intro adder store node defined
  have omits (tree : Node) (wellFormed : tree.isWellFormed = true) (absent : "x" ∉ tree.names) :
      tree.Omits "x" :=
    (known_of_isWellFormed wellFormed).omits_iff.mpr absent
  have adderOmits : adder.Omits "x" :=
    match omits (.func ["n"] [.func ["k"] [.binary .add (.name "n") (.name "k")]])
      (by decide +kernel) (by decide) with
    | .func absent body => .closure absent body
  have nodeOmits : node.Omits "x" := omits node (by decide +kernel) (by decide)
  have empty : Store.empty.Holds (Value.Omits "x") :=
    fun _ _ found => absurd found (by simp [Store.empty])
  have closures : (Machine.mk store #[]).store.Holds (Value.Omits "x") :=
    (((empty.addScope none).define 0 "adder" adderOmits).addScope (some 0)).define 1 "y" (.plain rfl)
  have plain : (Machine.perform ⟨store, #[]⟩ (node.evaluate (enterWithin 3) 1)).1 = .ok (.int 7) := by
    simp only [store, adder, node]
    cbv
  have same := Node.Omits.evaluate_defined nodeOmits closures 1 (.closure ["x"] [.name "x"] 1) 3 1
  exact ⟨nodeOmits, closures, same.1.trans plain⟩

end TinyScript
