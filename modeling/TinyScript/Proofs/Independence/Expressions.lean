import TinyScript.Proofs.Grammar.Soundness
import TinyScript.Proofs.Renumbering.Growth
import TinyScript.Proofs.Renumbering.Simulation

/-!
# Expressions on grown machines

No expression that was read binds a name outside of functions, so its evaluation only adds scopes to
those that were there. On a machine that has grown in this way, whatever is evaluated comes to the
same as before.
-/

set_option autoImplicit false

namespace TinyScript

/-- The trees that the reader of expressions gives. -/
def Node.IsParsedExpression (node : Node) : Prop :=
  ∃ tokens, (Parse.expression tokens).map (fun parsed => parsed.value) = .ok node

/-- The expressions in a phrase bind no name outside of functions. -/
def Phrase.BindsNothing : Phrase → Prop
  | .statements _ | .statement _ => True
  | .expression node | .operand _ node => node.letTargets = []
  | .arguments nodes | .moreArguments nodes => Node.letTargetsAll nodes = []

theorem Derivation.bindsNothing {phrase : Phrase} {words : List Token} {next : Token}
    (derivation : Derivation phrase words next) : phrase.BindsNothing := by
  induction derivation with
  | noStatements | someStatements | letE | returnE | block | ifThen | ifElse | expressionE =>
      trivial
  | func | int | bool | givenBool | name | noArguments | lastArgument =>
      simp only [Phrase.BindsNothing, Node.letTargets, Node.letTargetsAll]
  | comparison _ ih | tighter _ _ ih | paren _ ih => exact ih
  | binary _ _ leftIH rightIH =>
      simp only [Phrase.BindsNothing, Node.letTargets]
      exact List.append_eq_nil_iff.mpr ⟨leftIH, rightIH⟩
  | call _ ih =>
      simp only [Phrase.BindsNothing, Node.letTargets]
      exact ih
  | someArguments _ _ firstIH laterIH | nextArgument _ _ firstIH laterIH =>
      simp only [Phrase.BindsNothing, Node.letTargetsAll]
      exact List.append_eq_nil_iff.mpr ⟨firstIH, laterIH⟩

theorem Node.IsParsedExpression.exists_derivation {node : Node} (parsed : node.IsParsedExpression) :
    ∃ words next, Nonempty (Derivation (.expression node) words next) := by
  obtain ⟨tokens, result⟩ := parsed
  have reads := (Parse.readers_spell tokens).expression
  cases read : Parse.expression tokens with
  | error error =>
      rw [read] at result
      cases result
  | ok parsed =>
      rw [read] at reads result
      cases result
      obtain ⟨words, _, derivation⟩ := reads
      exact ⟨words, _, derivation⟩

theorem Node.IsParsedExpression.letTargets {node : Node} (parsed : node.IsParsedExpression) :
    node.letTargets = [] := by
  obtain ⟨_, _, ⟨derivation⟩⟩ := parsed.exists_derivation
  exact derivation.bindsNothing

namespace Machine

/-- A machine has all scopes of an earlier one, unchanged, and the stores of both are closed. -/
structure Grown (before after : Machine) : Prop where
  origin : before.store.IsClosed
  closed : after.store.IsClosed
  extension : before.store.Extends after.store

theorem Grown.refl {machine : Machine} (closed : machine.store.IsClosed) :
    machine.Grown machine :=
  ⟨closed, closed, .refl _⟩

theorem Grown.trans {before between after : Machine} (first : before.Grown between)
    (second : between.Grown after) : before.Grown after :=
  ⟨first.origin, second.closed, first.extension.trans second.extension⟩

/-- The numbers of the scopes of a machine in a later one. -/
def numbersIn (before after : Machine) : Nat → Nat :=
  moveUp before.store.nextId (after.store.nextId - before.store.nextId)

theorem Grown.mirrored {before after : Machine} (grown : before.Grown after) :
    Store.Mirrored (before.numbersIn after) before.store after.store :=
  grown.extension.mirrored grown.origin grown.closed

theorem numbersIn_of_lt (before after : Machine) {scope : Nat}
    (inside : scope < before.store.nextId) : before.numbersIn after scope = scope :=
  moveUp_of_lt inside

end Machine

section

variable {machine later : Machine} {scope : Nat}

theorem Node.evaluate_grown (closed : machine.store.IsClosed) (inside : scope < machine.store.nextId)
    (depth : Nat) {node : Node} (letless : node.letTargets = []) :
    machine.Grown (machine.perform (node.evaluate (enterWithin depth) scope)).2 := by
  obtain ⟨afterClosed, _, _⟩ := Invariant.evaluate_safe closedness_kept
    (Invariant.enterWithin_kept closedness_kept depth) closed scope node inside
  have framed := Node.evaluate_framed (enterWithin_contained depth) scope node machine
  rw [letless] at framed
  exact ⟨closed, afterClosed, framed.extends_of_none⟩

theorem Node.evaluate_ok_grown (closed : machine.store.IsClosed)
    (inside : scope < machine.store.nextId) {depth : Nat} {node : Node}
    (letless : node.letTargets = []) {value : Value} {after : Machine}
    (result : machine.perform (node.evaluate (enterWithin depth) scope) = (.ok value, after)) :
    machine.Grown after ∧ value.IsWithin after.store.nextId := by
  have grown := evaluate_grown closed inside depth letless
  obtain ⟨_, _, within, _⟩ := Invariant.evaluate_safe closedness_kept
    (Invariant.enterWithin_kept closedness_kept depth) closed scope node inside
  rw [result] at grown within
  exact ⟨grown, within value rfl⟩

theorem Machine.Grown.inside (grown : machine.Grown later) (inside : scope < machine.store.nextId) :
    scope < later.store.nextId :=
  Nat.lt_of_lt_of_le inside grown.extension.grows

/-- Whatever is evaluated on a grown machine comes to the same as on the earlier one. -/
theorem Machine.Grown.evaluate_mirrors (grown : machine.Grown later)
    (inside : scope < machine.store.nextId) (depth : Nat) (node : Node) :
    Mirrors (machine.numbersIn later) (SameValue (machine.numbersIn later)) machine later
      (node.evaluate (enterWithin depth) scope) (node.evaluate (enterWithin depth) scope) := by
  have mirrors := Node.evaluate_mirrors (enterWithin_mirrored _ depth) grown.mirrored scope node
  rw [machine.numbersIn_of_lt later inside] at mirrors
  exact mirrors

end

/-- Two results of evaluations are the same, up to other numbers of scopes from the given count on:
the same failure, or the same value; and the scopes of the first machine are found again, with the
same contents, in the second one. -/
def Alike (count : Nat) (first second : Except Failure Value × Machine) : Prop :=
  ∃ numbers : Nat → Nat, (∀ scope other, numbers scope = numbers other → scope = other) ∧
    (∀ scope < count, numbers scope = scope) ∧ Agree (SameValue numbers) first.1 second.1 ∧
    ∀ scope < first.2.store.nextId,
      second.2.store.scopes[numbers scope]? =
        first.2.store.scopes[scope]?.map (Scope.renumber numbers)

theorem Mirrors.alike {numbers : Nat → Nat} {count : Nat} {first second : Machine}
    {step other : Eval Value} (mirrors : Mirrors numbers (SameValue numbers) first second step other)
    (fixed : ∀ scope < count, numbers scope = scope) :
    Alike count (first.perform step) (second.perform other) :=
  ⟨numbers, fun _ _ => mirrors.stores.injective, fixed, mirrors.results,
    fun _ => mirrors.stores.inside⟩

/-- Sums and products do not depend on the order of their operands. -/
theorem BinaryOp.onValues_comm {op : BinaryOp} (symmetric : op = .add ∨ op = .mul)
    {left right value : Value} (result : op.onValues left right = .ok value) :
    ∃ first second, left = .int first ∧ right = .int second ∧
      op.onValues (.int second) (.int first) = .ok value := by
  by_cases fit : ∃ first second, left = .int first ∧ right = .int second
  · obtain ⟨first, second, rfl, rfl⟩ := fit
    refine ⟨first, second, rfl, rfl, ?_⟩
    rcases symmetric with rfl | rfl
    · obtain ⟨fits, rfl⟩ := bounded_eq_ok result
      rw [Int.add_comm] at fits ⊢
      exact if_pos fits
    · obtain ⟨fits, rfl⟩ := bounded_eq_ok result
      rw [Int.mul_comm] at fits ⊢
      exact if_pos fits
  · rw [onValues_unsupported fit] at result
    cases result

section

variable {machine : Machine} {scope depth : Nat}

theorem Machine.Grown.evaluate_int_iff {later : Machine} (grown : machine.Grown later)
    (inside : scope < machine.store.nextId) (node : Node) (number : Int) :
    (later.perform (node.evaluate (enterWithin depth) scope)).1 = .ok (.int number) ↔
      (machine.perform (node.evaluate (enterWithin depth) scope)).1 = .ok (.int number) := by
  have results := (grown.evaluate_mirrors inside depth node).results
  generalize (machine.perform (node.evaluate (enterWithin depth) scope)).1 = early at results ⊢
  generalize (later.perform (node.evaluate (enterWithin depth) scope)).1 = late at results ⊢
  cases results with
  | ok same =>
      cases same
      constructor
      · intro equal
        rw [Value.renumber_eq_int _ (Except.ok.inj equal)]
      · intro equal
        rw [Except.ok.inj equal]
        rfl
  | error failure => exact Iff.rfl

/-- A sum or product that has a value has it in either order of the operands. -/
theorem Node.evaluate_binary_comm (closed : machine.store.IsClosed)
    (inside : scope < machine.store.nextId) {op : BinaryOp} (symmetric : op = .add ∨ op = .mul)
    {left right : Node} (leftLetless : left.letTargets = []) (rightLetless : right.letTargets = [])
    {value : Value}
    (result : (machine.perform ((Node.binary op left right).evaluate (enterWithin depth) scope)).1 =
      .ok value) :
    (machine.perform ((Node.binary op right left).evaluate (enterWithin depth) scope)).1 =
      .ok value := by
  rw [evaluate] at result ⊢
  obtain ⟨leftValue, between, leftDone, leftSame⟩ := Machine.perform_bind_eq_ok result
  rw [leftSame] at result
  obtain ⟨rightValue, after, rightDone, rightSame⟩ := Machine.perform_bind_eq_ok result
  rw [rightSame] at result
  have applied : op.onValues leftValue rightValue = .ok value := by
    split at result
    · next given => rw [given, Except.ok.inj result]
    · cases result
  obtain ⟨first, second, rfl, rfl, swapped⟩ := BinaryOp.onValues_comm symmetric applied
  -- the right operand has its number at once, and the left one still has it afterwards
  have leftGrown := (evaluate_ok_grown closed inside leftLetless leftDone).1
  have rightAlone := (leftGrown.evaluate_int_iff inside right second).mp
    (congrArg Prod.fst rightDone)
  have rightGrown := evaluate_grown closed inside depth rightLetless
  have leftLater := (rightGrown.evaluate_int_iff inside left first).mpr (congrArg Prod.fst leftDone)
  cases rightFirst : machine.perform (right.evaluate (enterWithin depth) scope) with
  | mk outcome rightAfter =>
      rw [rightFirst] at rightAlone leftLater
      cases rightAlone
      rw [Machine.perform_bind_of_ok rightFirst]
      cases leftSecond : rightAfter.perform (left.evaluate (enterWithin depth) scope) with
      | mk outcome leftAfter =>
          rw [leftSecond] at leftLater
          cases leftLater
          rw [Machine.perform_bind_of_ok leftSecond, swapped]
          rfl

end

end TinyScript
