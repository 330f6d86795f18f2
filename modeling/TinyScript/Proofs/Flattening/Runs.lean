import TinyScript.Proofs.Flattening
import TinyScript.Proofs.Independence.ArgumentOrder
import TinyScript.Proofs.Mapping
import TinyScript.Proofs.Pairing
import TinyScript.Proofs.Sequencing

/-!
# Running flattened programs

A return does not leave a function, and a block opens no scope. So a program does the same when it is
flattened, statement by statement, and where it is stopped by a failure this happens at the same place.
Only the functions that it comes by are flattened as well, wherever they are kept.
-/

set_option autoImplicit false

namespace TinyScript

/-- A value in a run of a flattened program: a closure has a flattened body there. -/
def Value.flat : Value → Value
  | .closure parameters body home => .closure parameters (Node.flatBody body) home
  | .strayClosure parameters body home => .strayClosure parameters body home
  | .null => .null
  | .bool value => .bool value
  | .int value => .int value

/-- A machine in a run of a flattened program: all closures have flattened bodies. -/
def Machine.flat (machine : Machine) : Machine :=
  machine.mapValues Value.flat

/-- A tree of known forms beside the same tree when it is flattened. -/
def Node.Flattens (node other : Node) : Prop :=
  node.Known ∧ other = node.flat

/-- A value made of known trees beside the same value in a run of a flattened program. -/
def Value.Flattens (value other : Value) : Prop :=
  value.Known ∧ other = value.flat

@[simp] theorem Value.shown_flat (value : Value) : value.flat.shown = value.shown := by
  cases value <;> rfl

theorem Value.flat_of_plain {value : Value} (inert : value.callable? = none) :
    value.Flattens value := by
  cases value with
  | null => exact ⟨.null, rfl⟩
  | bool => exact ⟨.bool, rfl⟩
  | int => exact ⟨.int, rfl⟩
  | closure | strayClosure => cases inert

theorem Value.Flattens.resembles {value other : Value} (flattens : value.Flattens other) :
    value.Resembles other := by
  obtain ⟨known, rfl⟩ := flattens
  cases known with
  | null | bool | int => exact .plain rfl
  | closure => exact .closure rfl rfl

theorem Value.flattens_all {values others : List Value}
    (all : List.Forall₂ Value.Flattens values others) :
    (∀ value ∈ values, value.Known) ∧ others = values.map Value.flat := by
  induction all with
  | nil => exact ⟨List.forall_mem_nil _, rfl⟩
  | cons first _ ih =>
      obtain ⟨known, rfl⟩ := first
      obtain ⟨laterKnown, rfl⟩ := ih
      exact ⟨List.forall_mem_cons.mpr ⟨known, laterKnown⟩, rfl⟩

namespace Node

theorem flattens_all {nodes : List Node} (known : ∀ node ∈ nodes, node.Known) :
    List.Forall₂ Flattens nodes (flatAll nodes) := by
  induction nodes with
  | nil => exact .nil
  | cons first later ih =>
      obtain ⟨firstKnown, laterKnown⟩ := List.forall_mem_cons.mp known
      exact .cons ⟨firstKnown, rfl⟩ (ih laterKnown)

theorem abreast_flatBody {statements : List Node} (known : ∀ statement ∈ statements, statement.Known) :
    Abreast Flattens statements (flatBody statements) := by
  induction statements with
  | nil => exact .nil
  | cons first later ih =>
      obtain ⟨firstKnown, laterKnown⟩ := List.forall_mem_cons.mp known
      rw [flatBody_cons]
      unfold spliced
      split
      · next begin inner same => exact .spliced ⟨firstKnown, same.symm⟩ (ih laterKnown)
      · exact .cons ⟨firstKnown, rfl⟩ (ih laterKnown)

theorem Known.alongside_flat {node : Node} (known : node.Known) : node.Alongside Flattens node.flat := by
  cases known with
  | int => exact .int _
  | bool => exact .bool _
  | name => exact .name _ _
  | binary left right => exact .binary _ ⟨left, rfl⟩ ⟨right, rfl⟩
  | letE value => exact .letE _ _ ⟨value, rfl⟩
  | returnE value => exact .returned ⟨value, rfl⟩
  | block statements => exact .block (abreast_flatBody statements)
  | ifThen condition consequence => exact .ifThen ⟨condition, rfl⟩ ⟨consequence, rfl⟩
  | ifElse condition consequence alternative =>
      exact .ifElse ⟨condition, rfl⟩ ⟨consequence, rfl⟩ ⟨alternative, rfl⟩
  | call arguments => exact .call _ _ (flattens_all arguments)
  | func => exact .func _ _ _ _

end Node

/-- Two runs, the second one of what is flattened. -/
def flattening : Pairing where
  World := Unit
  follows _ _ := True
  refl _ := trivial
  trans _ _ := trivial
  machines _ first second := first.IsKnown ∧ second = first.flat
  values _ value other := value.Flattens other
  failures failure other := other = failure

theorem Machine.IsKnown.lookup?_flat {machine : Machine} (familiar : machine.IsKnown) (scope : Nat)
    (name : String) :
    Option.Rel Value.Flattens (machine.store.lookup? scope name)
      (machine.flat.store.lookup? scope name) := by
  have mapped := machine.store.lookup?_mapValues Value.flat scope name
  cases found : machine.store.lookup? scope name with
  | none =>
      rw [found] at mapped
      exact mapped ▸ .none
  | some value =>
      rw [found] at mapped
      exact mapped ▸ .some ⟨familiar.lookup? found, rfl⟩

theorem flattening_kept :
    flattening.Kept (fun _ _ => Node.Flattens) (fun _ _ _ => True) (fun _ _ _ => True) where
  values_later _ same := same
  trees_later _ flattens := flattens
  form := by
    rintro _ _ node _ ⟨known, rfl⟩
    exact known.alongside_flat
  nextId := by
    rintro _ first _ ⟨_, rfl⟩
    exact first.store.nextId_mapValues Value.flat
  plain inert := Value.flat_of_plain inert
  resembles same := same.resembles
  func := by
    rintro _ _ _ _ _ _ ⟨known, flat⟩
    cases known with
    | func body =>
        cases flat
        exact ⟨.closure body, rfl⟩
  read := by
    rintro _ first _ scope name other ⟨familiar, rfl⟩ ⟨_, flat⟩
    cases flat
    exact familiar.lookup?_flat scope name
  called := by
    rintro _ first _ scope callee other arguments others ⟨familiar, rfl⟩ ⟨_, flat⟩
    cases flat
    exact familiar.lookup?_flat scope callee
  define := by
    rintro _ first _ scope target other node otherNode value _ ⟨familiar, rfl⟩ ⟨_, flat⟩ ⟨known, rfl⟩
    cases flat
    refine ⟨familiar.define scope target known, ?_⟩
    simp only [Machine.flat, Machine.mapValues, Store.define_mapValues]
  openCall := by
    rintro _ first _ scope callee other arguments others function _ callable otherCallable values
      otherValues ⟨familiar, rfl⟩ ⟨_, flat⟩ ⟨known, rfl⟩ calls otherCalls same - -
    cases flat
    obtain ⟨valuesKnown, rfl⟩ := Value.flattens_all same
    have functionKnown := known
    cases known with
    | null | bool | int => cases calls
    | @closure parameters body home bodyKnown =>
        cases calls
        cases otherCalls
        refine ⟨(), trivial, ⟨?_, ?_⟩, Node.abreast_flatBody bodyKnown⟩
        · exact Store.Holds.openCall familiar home callee
            (fun entry member => valuesKnown _ (List.of_mem_zip member).2) functionKnown
        · simp only [Machine.flat, Machine.mapValues, Store.openCall_mapValues, Array.map_append,
            Bindings.zip_mapValues, Machine.callRecords_mapValues]
  same _ := rfl
  undefinedVariable := by
    rintro _ _ name other ⟨_, flat⟩
    cases flat
    rfl
  undefinedFunction := by
    rintro _ _ callee other arguments others ⟨_, flat⟩
    cases flat
    rfl
  notAFunction := by
    rintro _ _ callee other arguments others value ⟨_, flat⟩ _
    cases flat
    rfl
  unsupportedOperands := by
    rintro _ left right _ _ op ⟨_, rfl⟩ ⟨_, rfl⟩
    change (EvalError.unsupportedOperands op left.flat right.flat).failure =
      (EvalError.unsupportedOperands op left right).failure
    simp only [EvalError.failure, Value.shown_flat]

/-- Results that go together when a change of values does, and all failures are the same. -/
theorem Agreement.eq_map {α β : Type} {gives : α → β → Prop} {change : α → β}
    {result : Except Failure α} {other : Except Failure β}
    (agreement : Agreement gives (fun failure other => other = failure) result other)
    (changed : ∀ value other, gives value other → other = change value) :
    other = result.map change := by
  cases agreement with
  | ok given => exact congrArg Except.ok (changed _ _ given)
  | error same => exact congrArg Except.error same

namespace Machine

variable {machine : Machine}

theorem IsKnown.evaluate_flat (familiar : machine.IsKnown) {node : Node} (known : node.Known)
    (limit : Nat) :
    machine.flat.evaluate node.flat limit =
      ((machine.evaluate node limit).1.map Value.flat, (machine.evaluate node limit).2.flat) := by
  have machines : flattening.machines () machine machine.flat := ⟨familiar, rfl⟩
  have together : node.Flattens node.flat := ⟨known, rfl⟩
  obtain ⟨_, _, ⟨_, after⟩, agreement⟩ := flattening_kept.evaluate_inStep limit node machines
    together (Evaluation.callsOnly_any _) (Evaluation.callsOnly_any _)
  exact Prod.ext (agreement.eq_map fun _ _ flattens => flattens.2) after

theorem IsKnown.perform_evaluate_flat (familiar : machine.IsKnown) {program : Program}
    (known : ∀ statement ∈ program, statement.Known) (limit : Nat) :
    machine.flat.perform (Program.evaluate (Node.flatAll program) limit) =
      ((machine.perform (program.evaluate limit)).1.map (List.map Value.flat),
        (machine.perform (program.evaluate limit)).2.flat) := by
  have machines : flattening.machines () machine machine.flat := ⟨familiar, rfl⟩
  obtain ⟨_, _, ⟨_, after⟩, agreement⟩ := flattening_kept.evaluateAll_inStep
    (fun node _ => flattening_kept.evaluate_inStep limit node) machines
    (Node.flattens_all known) (fun _ _ _ => Evaluation.callsOnly_any _)
    fun _ _ _ => Evaluation.callsOnly_any _
  exact Prod.ext (agreement.eq_map fun _ _ flattens => (Value.flattens_all flattens).2) after

theorem IsKnown.outcomes_flat (familiar : machine.IsKnown) {program : Program}
    (known : ∀ statement ∈ program, statement.Known) (limit : Nat) :
    machine.flat.outcomes (Node.flatAll program) limit =
      (machine.outcomes program limit).map (Except.map Value.flat) := by
  induction program generalizing machine with
  | nil => rfl
  | cons statement later ih =>
      obtain ⟨firstKnown, laterKnown⟩ := List.forall_mem_cons.mp known
      simp only [Node.flatAll, outcomes, List.map_cons, familiar.evaluate_flat firstKnown,
        ih (familiar.evaluate firstKnown limit) laterKnown]

theorem lines_flat (machine : Machine) : machine.flat.lines = machine.lines := by
  have line (record : Record) : (record.mapValues Value.flat).line = record.line := by
    unfold Record.line
    rw [record.level_mapValues, record.message_mapValues Value.flat Value.shown_flat]
  simp only [lines, flat, mapValues, Array.toList_map, List.map_map]
  exact List.map_congr_left fun record _ => line record

theorem names_flat (machine : Machine) (scope : Nat) :
    (machine.flat.store.bindings scope).names = (machine.store.bindings scope).names := by
  simp only [flat, mapValues, Store.bindings_mapValues, Bindings.names_mapValues]

theorem flat_fresh : fresh.flat = fresh := by
  have store : (Store.empty.addScope none).mapValues Value.flat = Store.empty.addScope none := by
    rw [Store.addScope_mapValues, Store.mapValues, Store.empty, Array.map_empty]
  simp only [flat, mapValues, fresh, store, Array.map_empty]

/-- To replace every return by the tree in it, and every block with statements that stands in another
block or in a function by these, comes to one end in whatever order it is done. What results is run like
the program itself, whatever the limit: to the same values and bindings up to the bodies of functions,
which are rewritten as well, or into the same failure at the same statement, and with the same lines in
the log. -/
theorem run_flat {source : String} {program : Program}
    (parsed : Program.ofSource source = .ok program) (limit : Nat) :
    (∀ rewritten, Node.RewritesFully Node.Unwraps program rewritten ↔
      rewritten = Node.flatAll program) ∧
    let before := fresh.run source limit
    let after := fresh.perform (Program.evaluate (Node.flatAll program) limit)
    after = (before.1.map (List.map Value.flat), before.2.flat) ∧
    fresh.outcomes (Node.flatAll program) limit =
      (fresh.outcomes program limit).map (Except.map Value.flat) ∧
    (after.2.store.bindings globalScope).names = (before.2.store.bindings globalScope).names ∧
    after.2.lines = before.2.lines := by
  have known := Node.known_of_areWellFormed (Program.areWellFormed_of_ofSource parsed)
  have familiar : fresh.IsKnown := fresh_isProper.isKnown
  have ran : fresh.run source limit = fresh.perform (program.evaluate limit) := by rw [run, parsed]
  have same := familiar.perform_evaluate_flat known limit
  have outcomes := familiar.outcomes_flat known limit
  rw [flat_fresh] at same outcomes
  rw [← ran] at same
  refine ⟨fun _ => Node.rewritesFully_unwraps_iff, same, outcomes, ?_, ?_⟩
  · exact (congrArg (fun result => (result.2.store.bindings globalScope).names) same).trans
      (names_flat _ _)
  · exact (congrArg (fun result => result.2.lines) same).trans (lines_flat _)

/-- A function with a block in its body that ends in a return, and a call of it in a block with one. -/
theorem run_flat_nested :
    let source := "let twice = fn(x) \x7b \x7b let y = x; return y + y; \x7d \x7d; \x7b return twice(21); \x7d"
    let bound : Node := .letE "y" (.name "x")
    let sum : Node := .binary .add (.name "y") (.name "y")
    let program : Program := [.letE "twice" (.func ["x"] [.block [bound, .returnE sum]]),
      .block [.returnE (.call "twice" [.int 21])]]
    let rewritten : Program := [.letE "twice" (.func ["x"] [bound, sum]),
      .block [.call "twice" [.int 21]]]
    Program.ofSource source = .ok program ∧
      Node.RewritesFully Node.Unwraps program rewritten ∧
      (fresh.perform (Program.evaluate rewritten callLimit)).1 =
        .ok [.closure ["x"] [bound, sum] globalScope, .int 42] := by
  intro source bound sum program rewritten
  have parsed : Program.ofSource source = .ok program := by
    subst source bound sum program
    set_option maxRecDepth 10000 in cbv
  have ran : (fresh.run source callLimit).1 =
      .ok [.closure ["x"] [.block [bound, .returnE sum]] globalScope, .int 42] := by
    subst source bound sum
    set_option maxRecDepth 10000 in cbv
  obtain ⟨rewrites, same, -⟩ := run_flat parsed callLimit
  refine ⟨parsed, (rewrites rewritten).mpr rfl, (congrArg Prod.fst same).trans ?_⟩
  rw [ran]
  rfl

end Machine

end TinyScript
