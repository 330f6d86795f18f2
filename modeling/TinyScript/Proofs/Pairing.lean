import Mathlib.Data.List.Forall2
import TinyScript.Proofs.Calls

/-!
# Two runs in step

Two runs are compared by a pairing, which says when machines, values and failures of one go together
with those of the other. What goes together is judged in a world, and worlds may grow while scopes are
added. Where the trees of both runs have the same form and the elementary steps keep a pairing, so does
evaluation. In the second run there may be fewer returns, and fewer blocks around statements. Calls may
be restricted on either side to those for which the opening of a scope keeps the pairing.
-/

set_option autoImplicit false

namespace TinyScript

/-- Two results that are values in one relation, or failures in another one. -/
inductive Agreement {α β : Type} (gives : α → β → Prop) (fails : Failure → Failure → Prop) :
    Except Failure α → Except Failure β → Prop where
  | ok {value : α} {other : β} : gives value other → Agreement gives fails (.ok value) (.ok other)
  | error {failure other : Failure} :
      fails failure other → Agreement gives fails (.error failure) (.error other)

theorem Agreement.imp {α β : Type} {gives weaker : α → β → Prop}
    {fails weakerFails : Failure → Failure → Prop} {result : Except Failure α}
    {other : Except Failure β} (agreement : Agreement gives fails result other)
    (more : ∀ value other, gives value other → weaker value other)
    (moreFails : ∀ failure other, fails failure other → weakerFails failure other) :
    Agreement weaker weakerFails result other := by
  cases agreement with
  | ok given => exact .ok (more _ _ given)
  | error failed => exact .error (moreFails _ _ failed)

/-- Which machines, values and failures of two runs go together. -/
structure Pairing where
  World : Type
  follows : World → World → Prop
  refl : ∀ world, follows world world
  trans : ∀ {before between after}, follows before between → follows between after →
    follows before after
  machines : World → Machine → Machine → Prop
  values : World → Value → Value → Prop
  failures : Failure → Failure → Prop

namespace Pairing

/-- Two steps give results that go together, and leave such machines, in a world that follows. -/
def InStep (pairing : Pairing) {α β : Type} (gives : pairing.World → α → β → Prop)
    (world : pairing.World) (first second : Machine) (step : Eval α) (other : Eval β) : Prop :=
  ∃ after, pairing.follows world after ∧
    pairing.machines after (first.perform step).2 (second.perform other).2 ∧
    Agreement (gives after) pairing.failures (first.perform step).1 (second.perform other).1

section

variable {pairing : Pairing} {α β γ δ : Type} {gives : pairing.World → α → β → Prop}
  {world after : pairing.World} {first second firstAfter secondAfter : Machine} {step : Eval α}
  {other : Eval β}

theorem InStep.give {value : α} {otherValue : β}
    (done : first.perform step = (.ok value, firstAfter))
    (otherDone : second.perform other = (.ok otherValue, secondAfter))
    (follows : pairing.follows world after) (machines : pairing.machines after firstAfter secondAfter)
    (given : gives after value otherValue) :
    pairing.InStep gives world first second step other := by
  refine ⟨after, follows, ?_⟩
  rw [done, otherDone]
  exact ⟨machines, .ok given⟩

theorem InStep.fail {failure otherFailure : Failure} (machines : pairing.machines world first second)
    (done : first.perform step = (.error failure, first))
    (otherDone : second.perform other = (.error otherFailure, second))
    (fails : pairing.failures failure otherFailure) :
    pairing.InStep gives world first second step other := by
  refine ⟨world, pairing.refl world, ?_⟩
  rw [done, otherDone]
  exact ⟨machines, .error fails⟩

theorem InStep.pure {value : α} {otherValue : β} (machines : pairing.machines world first second)
    (given : gives world value otherValue) :
    pairing.InStep gives world first second (Pure.pure value) (Pure.pure otherValue) :=
  .give rfl rfl (pairing.refl world) machines given

theorem InStep.throw {fault otherFault : EvalError} (machines : pairing.machines world first second)
    (fails : pairing.failures fault.failure otherFault.failure) :
    pairing.InStep gives world first second (MonadExcept.throw fault)
      (MonadExcept.throw otherFault) :=
  .fail machines rfl rfl fails

theorem InStep.bind {givesNext : pairing.World → γ → δ → Prop} {next : α → Eval γ}
    {otherNext : β → Eval δ} (early : pairing.InStep gives world first second step other)
    (later : ∀ {value otherValue firstAfter secondAfter between},
      first.perform step = (.ok value, firstAfter) →
      second.perform other = (.ok otherValue, secondAfter) →
      pairing.follows world between → pairing.machines between firstAfter secondAfter →
      gives between value otherValue →
      pairing.InStep givesNext between firstAfter secondAfter (next value) (otherNext otherValue)) :
    pairing.InStep givesNext world first second (step >>= next) (other >>= otherNext) := by
  obtain ⟨between, follows, machines, agreement⟩ := early
  cases done : first.perform step with
  | mk outcome firstAfter =>
      cases otherDone : second.perform other with
      | mk otherOutcome secondAfter =>
          rw [done, otherDone] at machines agreement
          cases agreement with
          | ok given =>
              obtain ⟨last, further, ends⟩ := later done otherDone follows machines given
              refine ⟨last, pairing.trans follows further, ?_⟩
              rw [Machine.perform_bind_of_ok done, Machine.perform_bind_of_ok otherDone]
              exact ends
          | error fails =>
              refine ⟨between, follows, ?_⟩
              rw [Machine.perform_bind_of_error done, Machine.perform_bind_of_error otherDone]
              exact ⟨machines, .error fails⟩

end

end Pairing

namespace Node

section

variable (enter : Enter) (scope : Nat)

/-- The value of the last one of several statements, or one from before if there are none. -/
def evaluateLast (earlier : Value) : List Node → Eval Value
  | [] => return earlier
  | first :: later => do
      let value ← evaluate enter scope first
      evaluateLast value later

theorem evaluateAll_last (earlier : Value) (statements : List Node) :
    (do
      let values ← evaluateAll enter scope statements
      return values.getLastD earlier) = evaluateLast enter scope earlier statements := by
  induction statements generalizing earlier with
  | nil => rfl
  | cons first later ih =>
      simp only [evaluateAll, evaluateLast, bind_assoc, pure_bind, List.getLastD_cons, ih]

theorem evaluate_block (statements : List Node) :
    evaluate enter scope (.block statements) = evaluateLast enter scope .null statements := by
  rw [evaluate]
  exact evaluateAll_last enter scope .null statements

theorem evaluateLast_append (earlier : Value) (front back : List Node) :
    evaluateLast enter scope earlier (front ++ back) =
      evaluateLast enter scope earlier front >>= fun value =>
        evaluateLast enter scope value back := by
  induction front generalizing earlier with
  | nil => rfl
  | cons first front ih => simp [evaluateLast, ih]

/-- The statements of a block do the same without the block, if there are any. -/
theorem evaluateLast_spliced (earlier : Value) (first : Node) (inner later : List Node) :
    evaluateLast enter scope earlier (first :: inner ++ later) =
      evaluate enter scope (.block (first :: inner)) >>= fun value =>
        evaluateLast enter scope value later := by
  rw [evaluateLast_append, evaluate_block]
  rfl

end

end Node

theorem enterWithin_succ (depth scope : Nat) (body : List Node) :
    enterWithin (depth + 1) scope body =
      Node.evaluateLast (enterWithin depth) scope .null body :=
  Node.evaluateAll_last (enterWithin depth) scope .null body

namespace Node

/-- Two lists of statements that do the same one after the other. Beside a statement stands one that is
in a relation with it, or the statements of a block that is. -/
inductive Abreast (part : Node → Node → Prop) : List Node → List Node → Prop where
  | nil : Abreast part [] []
  | cons {statement other : Node} {later others : List Node} :
      part statement other → Abreast part later others →
      Abreast part (statement :: later) (other :: others)
  | spliced {statement first : Node} {inner later others : List Node} :
      part statement (.block (first :: inner)) → Abreast part later others →
      Abreast part (statement :: later) (first :: inner ++ others)

theorem Abreast.imp {part weaker : Node → Node → Prop} {statements others : List Node}
    (abreast : Abreast part statements others) (more : ∀ node other, part node other → weaker node other) :
    Abreast weaker statements others := by
  induction abreast with
  | nil => exact .nil
  | cons first _ ih => exact .cons (more _ _ first) ih
  | spliced first _ ih => exact .spliced (more _ _ first) ih

theorem Abreast.of_forall₂ {part : Node → Node → Prop} {statements others : List Node}
    (together : List.Forall₂ part statements others) : Abreast part statements others := by
  induction together with
  | nil => exact .nil
  | cons first _ ih => exact .cons first ih

end Node

/-- Two trees of the same form, the parts of which are in a relation. Names, and all of a function,
are left open, and a return may stand on the first side only. -/
inductive Node.Alongside (part : Node → Node → Prop) : Node → Node → Prop where
  | int (value : Int) : Alongside part (.int value) (.int value)
  | bool (value : Bool) : Alongside part (.bool value) (.bool value)
  | name (spelling other : String) : Alongside part (.name spelling) (.name other)
  | binary (op : BinaryOp) {left right otherLeft otherRight : Node} :
      part left otherLeft → part right otherRight →
      Alongside part (.binary op left right) (.binary op otherLeft otherRight)
  | letE (target other : String) {value otherValue : Node} :
      part value otherValue → Alongside part (.letE target value) (.letE other otherValue)
  | returnE {value otherValue : Node} :
      part value otherValue → Alongside part (.returnE value) (.returnE otherValue)
  | returned {value other : Node} : part value other → Alongside part (.returnE value) other
  | block {statements others : List Node} :
      Abreast part statements others → Alongside part (.block statements) (.block others)
  | ifThen {condition consequence otherCondition otherConsequence : Node} :
      part condition otherCondition → part consequence otherConsequence →
      Alongside part (.ifThen condition consequence) (.ifThen otherCondition otherConsequence)
  | ifElse {condition consequence alternative otherCondition otherConsequence
      otherAlternative : Node} :
      part condition otherCondition → part consequence otherConsequence →
      part alternative otherAlternative →
      Alongside part (.ifElse condition consequence alternative)
        (.ifElse otherCondition otherConsequence otherAlternative)
  | call (callee other : String) {arguments others : List Node} :
      List.Forall₂ part arguments others →
      Alongside part (.call callee arguments) (.call other others)
  | func (parameters others : List String) (body otherBody : List Node) :
      Alongside part (.func parameters body) (.func others otherBody)

theorem Node.Alongside.imp {part weaker : Node → Node → Prop} {node other : Node}
    (alongside : node.Alongside part other) (more : ∀ node other, part node other → weaker node other) :
    node.Alongside weaker other := by
  cases alongside with
  | int => exact .int _
  | bool => exact .bool _
  | name => exact .name _ _
  | binary _ left right => exact .binary _ (more _ _ left) (more _ _ right)
  | letE _ _ value => exact .letE _ _ (more _ _ value)
  | returnE value => exact .returnE (more _ _ value)
  | returned value => exact .returned (more _ _ value)
  | block statements => exact .block (statements.imp more)
  | ifThen condition consequence => exact .ifThen (more _ _ condition) (more _ _ consequence)
  | ifElse condition consequence alternative =>
      exact .ifElse (more _ _ condition) (more _ _ consequence) (more _ _ alternative)
  | call _ _ arguments => exact .call _ _ (arguments.imp more)
  | func => exact .func _ _ _ _

namespace Pairing

/-- The elementary steps of evaluation keep a pairing, for trees that go together in a scope and calls
as permitted in the first and the second run. -/
structure Kept (pairing : Pairing) (trees : pairing.World → Nat → Node → Node → Prop)
    (permits otherPermits : String → Value → List Value → Prop) : Prop where
  values_later : ∀ {world after value other}, pairing.follows world after →
    pairing.values world value other → pairing.values after value other
  trees_later : ∀ {world after scope node other}, pairing.follows world after →
    trees world scope node other → trees after scope node other
  form : ∀ {world scope node other}, trees world scope node other →
    node.Alongside (trees world scope) other
  nextId : ∀ {world first second}, pairing.machines world first second →
    second.store.nextId = first.store.nextId
  plain : ∀ {world value}, value.callable? = none → pairing.values world value value
  resembles : ∀ {world value other}, pairing.values world value other → value.Resembles other
  func : ∀ {world scope parameters body others otherBody},
    trees world scope (.func parameters body) (.func others otherBody) →
    pairing.values world (.closure parameters body scope) (.closure others otherBody scope)
  read : ∀ {world first second scope name other}, pairing.machines world first second →
    trees world scope (.name name) (.name other) →
    Option.Rel (pairing.values world) (first.store.lookup? scope name)
      (second.store.lookup? scope other)
  called : ∀ {world first second scope callee other arguments others},
    pairing.machines world first second →
    trees world scope (.call callee arguments) (.call other others) →
    Option.Rel (pairing.values world) (first.store.lookup? scope callee)
      (second.store.lookup? scope other)
  define : ∀ {world first second scope target other node otherNode value otherValue},
    pairing.machines world first second →
    trees world scope (.letE target node) (.letE other otherNode) →
    pairing.values world value otherValue →
    pairing.machines world { first with store := first.store.define scope target value }
      { second with store := second.store.define scope other otherValue }
  openCall : ∀ {world first second scope callee other arguments others function otherFunction
      callable otherCallable values otherValues},
    pairing.machines world first second →
    trees world scope (.call callee arguments) (.call other others) →
    pairing.values world function otherFunction → function.callable? = some callable →
    otherFunction.callable? = some otherCallable →
    List.Forall₂ (pairing.values world) values otherValues → permits callee function values →
    otherPermits other otherFunction otherValues →
    ∃ after, pairing.follows world after ∧
      pairing.machines after
        ⟨first.store.openCall callable.home (callable.bound values) callee function,
          first.log ++ Machine.callRecords callee callable.expected values⟩
        ⟨second.store.openCall otherCallable.home (otherCallable.bound otherValues) other
            otherFunction,
          second.log ++ Machine.callRecords other otherCallable.expected otherValues⟩ ∧
      Node.Abreast (trees after first.store.nextId) callable.body otherCallable.body
  same : ∀ failure, pairing.failures failure failure
  undefinedVariable : ∀ {world scope name other}, trees world scope (.name name) (.name other) →
    pairing.failures (EvalError.undefinedVariable name).failure
      (EvalError.undefinedVariable other).failure
  undefinedFunction : ∀ {world scope callee other arguments others},
    trees world scope (.call callee arguments) (.call other others) →
    pairing.failures (EvalError.undefinedFunction callee).failure
      (EvalError.undefinedFunction other).failure
  notAFunction : ∀ {world scope callee other arguments others value},
    trees world scope (.call callee arguments) (.call other others) → value.callable? = none →
    pairing.failures (EvalError.notAFunction callee value).failure
      (EvalError.notAFunction other value).failure
  unsupportedOperands : ∀ {world left right otherLeft otherRight} (op : BinaryOp),
    pairing.values world left otherLeft → pairing.values world right otherRight →
    pairing.failures (EvalError.unsupportedOperands op left right).failure
      (EvalError.unsupportedOperands op otherLeft otherRight).failure

section

variable {pairing : Pairing} {trees : pairing.World → Nat → Node → Node → Prop}
  {permits otherPermits : String → Value → List Value → Prop} {world : pairing.World}
  {first second : Machine} {depth scope : Nat}

/-- An operator does the same to values that go together, or fails in ways that do. -/
theorem Kept.onValues (kept : pairing.Kept trees permits otherPermits) (op : BinaryOp)
    {left right otherLeft otherRight : Value} (leftSame : pairing.values world left otherLeft)
    (rightSame : pairing.values world right otherRight) :
    (∃ value, value.callable? = none ∧ op.onValues left right = .ok value ∧
      op.onValues otherLeft otherRight = .ok value) ∨
    ∃ fault other, op.onValues left right = .error fault ∧
      op.onValues otherLeft otherRight = .error other ∧
      pairing.failures fault.failure other.failure := by
  rcases op.onValues_of_resembles (kept.resembles leftSame) (kept.resembles rightSame) with
    same | ⟨fails, otherFails⟩
  · cases result : op.onValues left right with
    | ok value =>
        exact .inl ⟨value, BinaryOp.callable?_of_onValues result, rfl, same.trans result⟩
    | error fault => exact .inr ⟨fault, fault, rfl, same.trans result, kept.same _⟩
  · exact .inr ⟨_, _, fails, otherFails, kept.unsupportedOperands op leftSame rightSame⟩

theorem Kept.readName_inStep (kept : pairing.Kept trees permits otherPermits) {name other : String}
    (machines : pairing.machines world first second)
    (together : trees world scope (.name name) (.name other)) :
    pairing.InStep pairing.values world first second (readName scope name)
      (readName scope other) := by
  have found := kept.read machines together
  cases here : first.store.lookup? scope name with
  | none =>
      cases there : second.store.lookup? scope other with
      | some value =>
          rw [here, there] at found
          cases found
      | none =>
          exact .fail machines (Machine.perform_readName_of_none here)
            (Machine.perform_readName_of_none there) (kept.undefinedVariable together)
  | some value =>
      cases there : second.store.lookup? scope other with
      | none =>
          rw [here, there] at found
          cases found
      | some otherValue =>
          rw [here, there] at found
          cases found with
          | some same =>
              exact .give (Machine.perform_readName_of_some here)
                (Machine.perform_readName_of_some there) (pairing.refl world) machines same

/-- What it means that a tree is evaluated in step: beside every tree that goes together with it. -/
def EvaluatedInStep (pairing : Pairing) (trees : pairing.World → Nat → Node → Node → Prop)
    (permits otherPermits : String → Value → List Value → Prop) (depth : Nat) (node : Node) : Prop :=
  ∀ {world : pairing.World} {first second : Machine} {scope : Nat} {other : Node},
    pairing.machines world first second → trees world scope node other →
    Evaluation.CallsOnly permits ⟨first, depth, scope, node⟩ →
    Evaluation.CallsOnly otherPermits ⟨second, depth, scope, other⟩ →
    pairing.InStep pairing.values world first second (node.evaluate (enterWithin depth) scope)
      (other.evaluate (enterWithin depth) scope)

/-- Among trees that are evaluated one after the other, all calls are as permitted. -/
def TurnsCallOnly (permits : String → Value → List Value → Prop) (machine : Machine)
    (depth scope : Nat) (nodes : List Node) : Prop :=
  ∀ node after, Node.Turn (enterWithin depth) scope machine nodes node after →
    Evaluation.CallsOnly permits ⟨after, depth, scope, node⟩

theorem TurnsCallOnly.tail {node : Node} {later : List Node} {value : Value} {between : Machine}
    (turns : TurnsCallOnly permits first depth scope (node :: later))
    (given : first.perform (node.evaluate (enterWithin depth) scope) = (.ok value, between)) :
    TurnsCallOnly permits between depth scope later :=
  fun other after turn => turns other after (turn.tail given)

theorem TurnsCallOnly.block {statements later : List Node}
    (turns : TurnsCallOnly permits first depth scope (statements ++ later)) :
    Evaluation.CallsOnly permits ⟨first, depth, scope, .block statements⟩ := by
  intro reached leads callee function values calls
  rcases leads.cases_head with rfl | ⟨begun, begins, rest⟩
  · cases calls
  · cases begins with
    | operand turn => exact turns _ _ (turn.append later) reached rest callee function values calls
    | statement opens => cases opens

theorem TurnsCallOnly.behind {statements later : List Node} {value : Value} {between : Machine}
    (turns : TurnsCallOnly permits first depth scope (statements ++ later))
    (given : first.perform ((Node.block statements).evaluate (enterWithin depth) scope) =
      (.ok value, between)) :
    TurnsCallOnly permits between depth scope later := by
  intro node after turn
  rw [Node.evaluate] at given
  obtain ⟨values, last, statementsGiven, ends⟩ :=
    Machine.perform_bind_eq_ok (congrArg Prod.fst given)
  rw [given, Machine.perform_pure] at ends
  cases ends
  exact turns node after (turn.behind statementsGiven)

theorem turnsCallOnly_operands {node : Node}
    (only : Evaluation.CallsOnly permits ⟨first, depth, scope, node⟩) :
    TurnsCallOnly permits first depth scope node.operands :=
  fun _ _ turn => only.begins (.operand turn)

theorem Kept.evaluateAll_inStep (kept : pairing.Kept trees permits otherPermits)
    {nodes others : List Node}
    (each : ∀ node ∈ nodes, EvaluatedInStep pairing trees permits otherPermits depth node)
    (machines : pairing.machines world first second)
    (together : List.Forall₂ (trees world scope) nodes others)
    (turns : TurnsCallOnly permits first depth scope nodes)
    (otherTurns : TurnsCallOnly otherPermits second depth scope others) :
    pairing.InStep (fun after => List.Forall₂ (pairing.values after)) world first second
      (Node.evaluateAll (enterWithin depth) scope nodes)
      (Node.evaluateAll (enterWithin depth) scope others) := by
  induction nodes generalizing world first second others with
  | nil =>
      cases together
      exact .pure machines .nil
  | cons node later ih =>
      cases together with
      | @cons _ other _ rest nodeTogether laterTogether =>
          rw [Node.evaluateAll, Node.evaluateAll]
          refine (each node (.head _) machines nodeTogether (turns _ _ .head)
            (otherTurns _ _ .head)).bind ?_
          intro value otherValue firstAfter secondAfter between given otherGiven follows machines same
          refine (ih (fun other among => each other (.tail _ among)) machines
            (laterTogether.imp fun _ _ => kept.trees_later follows) (turns.tail given)
            (otherTurns.tail otherGiven)).bind ?_
          intro values otherValues _ _ after _ _ further machines others
          exact .pure machines (.cons (kept.values_later further same) others)

/-- Statements that do the same come to values that go together. -/
theorem Kept.evaluateLast_inStep (kept : pairing.Kept trees permits otherPermits)
    {statements others : List Node} {earlier otherEarlier : Value}
    (each : ∀ node ∈ statements, EvaluatedInStep pairing trees permits otherPermits depth node)
    (machines : pairing.machines world first second)
    (together : Node.Abreast (trees world scope) statements others)
    (earlierSame : pairing.values world earlier otherEarlier)
    (turns : TurnsCallOnly permits first depth scope statements)
    (otherTurns : TurnsCallOnly otherPermits second depth scope others) :
    pairing.InStep pairing.values world first second
      (Node.evaluateLast (enterWithin depth) scope earlier statements)
      (Node.evaluateLast (enterWithin depth) scope otherEarlier others) := by
  induction statements generalizing world first second others earlier otherEarlier with
  | nil =>
      cases together
      exact .pure machines earlierSame
  | cons statement later ih =>
      have next {between : pairing.World} {rest : List Node} (follows : pairing.follows world between)
          (laterTogether : Node.Abreast (trees world scope) later rest) :
          Node.Abreast (trees between scope) later rest :=
        laterTogether.imp fun _ _ => kept.trees_later follows
      have eachLater (node : Node) (among : node ∈ later) :
          EvaluatedInStep pairing trees permits otherPermits depth node := each node (.tail _ among)
      cases together with
      | @cons _ other _ rest statementTogether laterTogether =>
          rw [Node.evaluateLast, Node.evaluateLast]
          refine (each statement (.head _) machines statementTogether (turns _ _ .head)
            (otherTurns _ _ .head)).bind ?_
          intro value otherValue _ _ between given otherGiven follows machines same
          exact ih eachLater machines (next follows laterTogether) same (turns.tail given)
            (otherTurns.tail otherGiven)
      | @spliced _ begin inner _ rest statementTogether laterTogether =>
          -- The statements in the second run are taken together as the block that they were in.
          rw [Node.evaluateLast, Node.evaluateLast_spliced]
          refine (each statement (.head _) machines statementTogether (turns _ _ .head)
            otherTurns.block).bind ?_
          intro value otherValue _ _ between given otherGiven follows machines same
          exact ih eachLater machines (next follows laterTogether) same (turns.tail given)
            (otherTurns.behind otherGiven)

/-- What is entered in a call is evaluated in step, if calls may nest deeper. -/
theorem Kept.enterWithin_inStep (kept : pairing.Kept trees permits otherPermits)
    (deeper : ∀ less, depth = less + 1 → ∀ node,
      EvaluatedInStep pairing trees permits otherPermits less node)
    {body otherBody : List Node} (machines : pairing.machines world first second)
    (together : Node.Abreast (trees world scope) body otherBody)
    (turns : ∀ less, depth = less + 1 → TurnsCallOnly permits first less scope body)
    (otherTurns : ∀ less, depth = less + 1 → TurnsCallOnly otherPermits second less scope otherBody) :
    pairing.InStep pairing.values world first second (enterWithin depth scope body)
      (enterWithin depth scope otherBody) := by
  cases depth with
  | zero => exact .throw machines (kept.same _)
  | succ less =>
      rw [enterWithin_succ, enterWithin_succ]
      exact kept.evaluateLast_inStep (fun node _ => deeper less rfl node) machines together
        (kept.plain rfl) (turns less rfl) (otherTurns less rfl)

theorem Kept.callNamed_inStep (kept : pairing.Kept trees permits otherPermits)
    (deeper : ∀ less, depth = less + 1 → ∀ node,
      EvaluatedInStep pairing trees permits otherPermits less node)
    {firstAfter secondAfter : Machine} {callee other : String} {arguments others : List Node}
    {values otherValues : List Value}
    (given : first.perform (Node.evaluateAll (enterWithin depth) scope arguments) =
      (.ok values, firstAfter))
    (otherGiven : second.perform (Node.evaluateAll (enterWithin depth) scope others) =
      (.ok otherValues, secondAfter))
    (machines : pairing.machines world firstAfter secondAfter)
    (together : trees world scope (.call callee arguments) (.call other others))
    (same : List.Forall₂ (pairing.values world) values otherValues)
    (only : Evaluation.CallsOnly permits ⟨first, depth, scope, .call callee arguments⟩)
    (otherOnly : Evaluation.CallsOnly otherPermits ⟨second, depth, scope, .call other others⟩) :
    pairing.InStep pairing.values world firstAfter secondAfter
      (callNamed (enterWithin depth) scope callee values)
      (callNamed (enterWithin depth) scope other otherValues) := by
  have found := kept.called machines together
  cases here : firstAfter.store.lookup? scope callee with
  | none =>
      cases there : secondAfter.store.lookup? scope other with
      | some value =>
          rw [here, there] at found
          cases found
      | none =>
          exact .fail machines (Machine.perform_callNamed_undefined _ here)
            (Machine.perform_callNamed_undefined _ there) (kept.undefinedFunction together)
  | some function =>
      cases there : secondAfter.store.lookup? scope other with
      | none =>
          rw [here, there] at found
          cases found
      | some otherFunction =>
          rw [here, there] at found
          cases found with
          | some functionSame =>
              cases kept.resembles functionSame with
              | plain inert =>
                  exact .fail machines (Machine.perform_callNamed_notAFunction _ here inert)
                    (Machine.perform_callNamed_notAFunction _ there inert)
                    (kept.notAFunction together inert)
              | closure calls otherCalls =>
                  obtain ⟨after, follows, opened, bodies⟩ := kept.openCall machines together
                    functionSame calls otherCalls same (only.permits (.call given here calls))
                    (otherOnly.permits (.call otherGiven there otherCalls))
                  obtain ⟨last, further, ends⟩ := kept.enterWithin_inStep deeper opened bodies
                    (by
                      rintro less rfl node after turn
                      exact only.begins (.statement (.call given here calls) turn))
                    (by
                      rintro less rfl node after turn
                      rw [← kept.nextId machines] at turn ⊢
                      exact otherOnly.begins (.statement (.call otherGiven there otherCalls) turn))
                  refine ⟨last, pairing.trans follows further, ?_⟩
                  rw [Machine.perform_callNamed values here calls,
                    Machine.perform_callNamed otherValues there otherCalls, kept.nextId machines]
                  exact ends

/-- The evaluation of a tree keeps a pairing that its elementary steps keep. -/
theorem Kept.evaluate_inStep_of_deeper (kept : pairing.Kept trees permits otherPermits)
    (deeper : ∀ less, depth = less + 1 → ∀ node,
      EvaluatedInStep pairing trees permits otherPermits less node)
    (node : Node) : EvaluatedInStep pairing trees permits otherPermits depth node := by
  intro world first second scope other machines together only otherOnly
  have turns := turnsCallOnly_operands only
  have otherTurns := turnsCallOnly_operands otherOnly
  cases kept.form together with
  | int | bool => exact .pure machines (kept.plain rfl)
  | name spelling other => exact kept.readName_inStep machines together
  | @binary op left right otherLeft otherRight leftTogether rightTogether =>
      rw [Node.evaluate, Node.evaluate]
      refine (kept.evaluate_inStep_of_deeper deeper left machines leftTogether (turns _ _ .head)
        (otherTurns _ _ .head)).bind ?_
      intro leftValue otherLeftValue _ _ between given otherGiven follows machines leftSame
      refine (kept.evaluate_inStep_of_deeper deeper right machines
        (kept.trees_later follows rightTogether) ((turns.tail given) _ _ .head)
        ((otherTurns.tail otherGiven) _ _ .head)).bind ?_
      intro rightValue otherRightValue _ _ after _ _ further machines rightSame
      rcases kept.onValues op (kept.values_later further leftSame) rightSame with
        ⟨value, inert, result, otherResult⟩ | ⟨fault, other, result, otherResult, fails⟩
      · rw [result, otherResult]
        exact .pure machines (kept.plain inert)
      · rw [result, otherResult]
        exact .throw machines fails
  | @letE target other value otherValue valueTogether =>
      rw [Node.evaluate, Node.evaluate]
      refine (kept.evaluate_inStep_of_deeper deeper value machines valueTogether (turns _ _ .head)
        (otherTurns _ _ .head)).bind ?_
      intro bound otherBound _ _ between _ _ follows machines same
      exact .give rfl rfl (pairing.refl between)
        (kept.define machines (kept.trees_later follows together) same) same
  | @returnE value otherValue valueTogether =>
      rw [Node.evaluate, Node.evaluate]
      exact kept.evaluate_inStep_of_deeper deeper value machines valueTogether (turns _ _ .head)
        (otherTurns _ _ .head)
  | @returned value _ valueTogether =>
      rw [Node.evaluate]
      exact kept.evaluate_inStep_of_deeper deeper value machines valueTogether (turns _ _ .head)
        otherOnly
  | @block statements others statementsTogether =>
      rw [Node.evaluate_block, Node.evaluate_block]
      exact kept.evaluateLast_inStep
        (fun node _ => kept.evaluate_inStep_of_deeper deeper node) machines statementsTogether
        (kept.plain rfl) turns otherTurns
  | @ifThen condition consequence otherCondition otherConsequence conditionTogether
      consequenceTogether =>
      rw [Node.evaluate, Node.evaluate]
      refine (kept.evaluate_inStep_of_deeper deeper condition machines conditionTogether
        (turns _ _ .head) (otherTurns _ _ .head)).bind ?_
      intro tested otherTested _ _ between given otherGiven follows machines same
      have truth := (kept.resembles same).isTruthy
      rw [truth]
      split
      · next truthy =>
          exact kept.evaluate_inStep_of_deeper deeper consequence machines
            (kept.trees_later follows consequenceTogether)
            (only.begins (.onlyConsequence given truthy))
            (otherOnly.begins (.onlyConsequence otherGiven (truth.trans truthy)))
      · exact .pure machines (kept.plain rfl)
  | @ifElse condition consequence alternative otherCondition otherConsequence otherAlternative
      conditionTogether consequenceTogether alternativeTogether =>
      rw [Node.evaluate, Node.evaluate]
      refine (kept.evaluate_inStep_of_deeper deeper condition machines conditionTogether
        (turns _ _ .head) (otherTurns _ _ .head)).bind ?_
      intro tested otherTested _ _ between given otherGiven follows machines same
      have truth := (kept.resembles same).isTruthy
      rw [truth]
      split
      · next truthy =>
          exact kept.evaluate_inStep_of_deeper deeper consequence machines
            (kept.trees_later follows consequenceTogether)
            (only.begins (.consequence given truthy))
            (otherOnly.begins (.consequence otherGiven (truth.trans truthy)))
      · next falsy =>
          have falsy := Bool.eq_false_iff.mpr falsy
          exact kept.evaluate_inStep_of_deeper deeper alternative machines
            (kept.trees_later follows alternativeTogether)
            (only.begins (.alternative given falsy))
            (otherOnly.begins (.alternative otherGiven (truth.trans falsy)))
  | @call callee other arguments others argumentsTogether =>
      rw [Node.evaluate, Node.evaluate]
      refine (kept.evaluateAll_inStep
        (fun node _ => kept.evaluate_inStep_of_deeper deeper node) machines argumentsTogether turns
        otherTurns).bind ?_
      intro values otherValues _ _ between given otherGiven follows machines same
      exact kept.callNamed_inStep deeper given otherGiven machines
        (kept.trees_later follows together) same only otherOnly
  | func parameters others body otherBody => exact .pure machines (kept.func together)

theorem Kept.evaluate_inStep (kept : pairing.Kept trees permits otherPermits) (depth : Nat)
    (node : Node) : EvaluatedInStep pairing trees permits otherPermits depth node := by
  induction depth generalizing node with
  | zero => exact kept.evaluate_inStep_of_deeper (fun _ never => absurd never (by simp)) node
  | succ depth ih =>
      refine kept.evaluate_inStep_of_deeper ?_ node
      rintro less same other
      cases same
      exact ih other

end

end Pairing

end TinyScript
