import Mathlib
import TinyScript.Proofs.Calls

/-!
# The limit on nested calls

A limit on how deeply calls may nest does nothing but cut off. An evaluation that the limit does not
touch comes to the same with every higher one. A call at the limit fails at once, nothing that is
evaluated around it makes something else of the failure, and what was logged until then is what a
higher limit logs first.
-/

set_option autoImplicit false

namespace TinyScript

namespace Node

theorem sizeOf_lt_of_mem_parts {node part : Node} (among : part ∈ node.parts) :
    sizeOf part < sizeOf node := by
  cases node with
  | int | bool | name | func | strayLet | strayCall | strayFunc | stray => cases among
  | block statements =>
      have smaller := List.sizeOf_lt_of_mem (show part ∈ statements from among)
      simp only [block.sizeOf_spec]
      omega
  | call callee arguments =>
      have smaller := List.sizeOf_lt_of_mem (show part ∈ arguments from among)
      simp only [call.sizeOf_spec]
      omega
  | _ =>
      simp only [parts, List.mem_cons, List.not_mem_nil, or_false] at among
      rcases among with rfl | rfl | rfl <;> simp <;> omega

/-- What holds of a tree if it holds of its parts holds of all trees. -/
theorem induction_on_parts {motive : Node → Prop}
    (step : ∀ node, (∀ part ∈ node.parts, motive part) → motive node) (node : Node) : motive node :=
  step node fun part _ => induction_on_parts step part
termination_by sizeOf node
decreasing_by exact sizeOf_lt_of_mem_parts ‹_›

end Node

/-- The failure of a call that nests too deeply. -/
def tooDeep : Failure := EvalError.depthExceeded.failure

/-- On every machine a step does the same as another one, unless it fails because calls nest too
deeply. Then the other one logs whatever was logged until then, and perhaps more. -/
def Eval.CutsOff {α : Type} (step other : Eval α) : Prop :=
  ∀ machine : Machine, machine.perform step = machine.perform other ∨
    (machine.perform step).1 = .error tooDeep ∧
      (machine.perform step).2.Logged (machine.perform other).2

namespace Eval.CutsOff

variable {α β : Type} {step other : Eval α} {next otherNext : α → Eval β}

theorem refl (step : Eval α) : step.CutsOff step :=
  fun _ => .inl rfl

theorem bind (first : step.CutsOff other) (later : ∀ value, (next value).CutsOff (otherNext value))
    (grows : ∀ value machine, Machine.Logged machine (machine.perform (otherNext value)).2) :
    (step >>= next).CutsOff (other >>= otherNext) := by
  intro machine
  rcases first machine with same | ⟨cut, logged⟩
  · cases done : machine.perform step with
    | mk outcome between =>
        rw [done] at same
        cases outcome with
        | ok value =>
            rw [Machine.perform_bind_of_ok done, Machine.perform_bind_of_ok same.symm]
            exact later value between
        | error failure =>
            rw [Machine.perform_bind_of_error done, Machine.perform_bind_of_error same.symm]
            exact .inl rfl
  · cases done : machine.perform step with
    | mk outcome between =>
        rw [done] at cut logged
        cases cut
        rw [Machine.perform_bind_of_error done]
        exact .inr ⟨rfl, logged.trans (.of_bind grows)⟩

end Eval.CutsOff

namespace Node

variable {less more : Nat}

theorem evaluateAll_cutsOff_of_each {scope : Nat} {nodes : List Node}
    (each : ∀ node ∈ nodes, (node.evaluate (enterWithin less) scope).CutsOff
      (node.evaluate (enterWithin more) scope)) :
    (evaluateAll (enterWithin less) scope nodes).CutsOff
      (evaluateAll (enterWithin more) scope nodes) := by
  induction nodes with
  | nil => exact .refl _
  | cons first later ih =>
      rw [evaluateAll, evaluateAll]
      refine (each first (.head _)).bind (fun value => ?_) fun value machine => ?_
      · exact (ih fun node among => each node (.tail _ among)).bind (fun _ => .refl _)
          fun _ machine => .refl machine
      · exact (evaluateAll_logged more scope later machine).trans (.of_bind fun _ _ => .refl _)

section

variable (cuts : ∀ scope body, (enterWithin less scope body).CutsOff (enterWithin more scope body))

include cuts

theorem callNamed_cutsOff (scope : Nat) (callee : String) (values : List Value) :
    (callNamed (enterWithin less) scope callee values).CutsOff
      (callNamed (enterWithin more) scope callee values) := by
  intro machine
  cases found : machine.store.lookup? scope callee with
  | none =>
      rw [Machine.perform_callNamed_undefined _ found, Machine.perform_callNamed_undefined _ found]
      exact .inl rfl
  | some function =>
      cases called : function.callable? with
      | none =>
          rw [Machine.perform_callNamed_notAFunction _ found called,
            Machine.perform_callNamed_notAFunction _ found called]
          exact .inl rfl
      | some callable =>
          rw [Machine.perform_callNamed _ found called, Machine.perform_callNamed _ found called]
          exact cuts _ _ _

theorem finish_cutsOff {scope : Nat} (node : Node)
    (each : ∀ part ∈ node.parts, (part.evaluate (enterWithin less) scope).CutsOff
      (part.evaluate (enterWithin more) scope)) (values : List Value) :
    (node.finish (enterWithin less) scope values).CutsOff
      (node.finish (enterWithin more) scope values) := by
  unfold finish
  split
  any_goals exact .refl _
  · split
    · exact each _ (.tail _ (.head _))
    · exact .refl _
  · split
    · exact each _ (.tail _ (.head _))
    · exact each _ (.tail _ (.tail _ (.head _)))
  · exact callNamed_cutsOff cuts _ _ _

theorem evaluate_cutsOff_of_enter (scope : Nat) (node : Node) :
    (node.evaluate (enterWithin less) scope).CutsOff (node.evaluate (enterWithin more) scope) := by
  induction node using induction_on_parts with
  | step node each =>
      rw [evaluate_eq_operands, evaluate_eq_operands]
      exact (evaluateAll_cutsOff_of_each fun operand among =>
        each operand (mem_parts_of_mem_operands among)).bind (finish_cutsOff cuts node each)
        (finish_logged more scope node)

end

/-- A body that is run with fewer calls to nest is cut off at most. -/
theorem enterWithin_cutsOff (fewer : less ≤ more) (scope : Nat) (body : List Node) :
    (enterWithin less scope body).CutsOff (enterWithin more scope body) := by
  induction less generalizing more scope body with
  | zero => exact fun machine => .inr ⟨rfl, enterWithin_logged more scope body machine⟩
  | succ less ih =>
      obtain ⟨more, rfl⟩ := Nat.exists_eq_add_of_lt fewer
      have within := ih (Nat.le_add_right less more)
      have each (node : Node) (_ : node ∈ body) := evaluate_cutsOff_of_enter within scope node
      exact (evaluateAll_cutsOff_of_each each).bind (fun _ => .refl _) fun _ machine => .refl machine

end Node

namespace Machine

theorem perform_bind_eq_error {α β : Type} {machine last : Machine} {step : Eval α}
    {next : α → Eval β} {failure : Failure}
    (fails : machine.perform (step >>= next) = (.error failure, last)) :
    machine.perform step = (.error failure, last) ∨
      ∃ value between, machine.perform step = (.ok value, between) ∧
        between.perform (next value) = (.error failure, last) := by
  cases done : machine.perform step with
  | mk outcome between =>
      cases outcome with
      | ok value =>
          rw [perform_bind_of_ok done] at fails
          exact .inr ⟨value, between, rfl, fails⟩
      | error other =>
          rw [perform_bind_of_error done] at fails
          cases fails
          exact .inl rfl

end Machine

namespace Node

variable {enter : Enter} {machine after last : Machine} {scope : Nat} {nodes : List Node}
  {node : Node} {failure : Failure}

theorem Turn.mem (turn : Turn enter scope machine nodes node after) : node ∈ nodes := by
  cases turn with
  | comes => simp

theorem Turn.fails (turn : Turn enter scope machine nodes node after)
    (fails : after.perform (node.evaluate enter scope) = (.error failure, last)) :
    machine.perform (evaluateAll enter scope nodes) = (.error failure, last) := by
  cases turn with
  | comes given =>
      rw [evaluateAll_append, Machine.perform_bind_of_ok given, evaluateAll]
      exact Machine.perform_bind_of_error (Machine.perform_bind_of_error fails)

/-- If trees fail one after the other, one of them does in its turn. -/
theorem exists_turn_of_error
    (fails : machine.perform (evaluateAll enter scope nodes) = (.error failure, last)) :
    ∃ node after, Turn enter scope machine nodes node after ∧
      after.perform (node.evaluate enter scope) = (.error failure, last) := by
  induction nodes generalizing machine with
  | nil => cases fails
  | cons first later ih =>
      rw [evaluateAll] at fails
      rcases Machine.perform_bind_eq_error fails with fails | ⟨value, between, given, fails⟩
      · exact ⟨first, machine, .head, fails⟩
      · rcases Machine.perform_bind_eq_error fails with fails | ⟨values, _, _, ends⟩
        · obtain ⟨node, after, turn, fails⟩ := ih fails
          exact ⟨node, after, turn.tail given, fails⟩
        · cases ends

end Node

namespace Evaluation

variable {evaluation other : Evaluation} {failure : Failure} {after : Machine}

/-- Where an evaluation fails, the one that began it fails in the same way. -/
theorem Begins.fails (begins : evaluation.Begins other)
    (fails : other.outcome = (.error failure, after)) :
    evaluation.outcome = (.error failure, after) := by
  cases begins with
  | operand turn =>
      rw [outcome, Node.evaluate_eq_operands]
      exact Machine.perform_bind_of_error (turn.fails fails)
  | onlyConsequence given truthy | consequence given truthy =>
      rw [outcome, Node.evaluate, Machine.perform_bind_of_ok given, if_pos truthy]
      exact fails
  | alternative given falsy =>
      rw [outcome, Node.evaluate, Machine.perform_bind_of_ok given,
        if_neg (Bool.eq_false_iff.mp falsy)]
      exact fails
  | statement opens turn =>
      rw [opens.outcome_eq]
      exact Machine.perform_bind_of_error (turn.fails fails)

theorem LeadsTo.fails (leads : evaluation.LeadsTo other)
    (fails : other.outcome = (.error failure, after)) :
    evaluation.outcome = (.error failure, after) := by
  induction leads with
  | refl => exact fails
  | tail _ begins ih => exact ih (begins.fails fails)

/-- An evaluation gets to a call that nests too deeply: the scope for its function is open, but no
further call may nest. -/
def ReachesLimit (evaluation : Evaluation) : Prop :=
  ∃ reached function callable inner opened, evaluation.LeadsTo reached ∧ reached.depth = 0 ∧
    reached.Opens function callable inner opened

theorem ReachesLimit.head (begins : evaluation.Begins other) (reaches : other.ReachesLimit) :
    evaluation.ReachesLimit := by
  obtain ⟨reached, function, callable, inner, opened, leads, bottom, opens⟩ := reaches
  exact ⟨reached, function, callable, inner, opened, leads.head begins, bottom, opens⟩

theorem ReachesLimit.outcome_eq (reaches : evaluation.ReachesLimit) :
    evaluation.outcome.1 = .error tooDeep := by
  obtain ⟨reached, function, callable, inner, opened, leads, bottom, opens⟩ := reaches
  have cut : reached.outcome = (.error tooDeep, opened) := by
    rw [opens.outcome_eq, bottom]
    rfl
  rw [leads.fails cut]

theorem throw_ne_tooDeep {α : Type} {machine : Machine} {fault : EvalError}
    (other : fault ≠ .depthExceeded) :
    machine.perform (throw fault : Eval α) ≠ (.error tooDeep, after) := by
  intro cut
  have same : fault.failure = tooDeep := Except.error.inj (congrArg Prod.fst cut)
  cases fault with
  | depthExceeded => exact other rfl
  | _ => cases congrArg Failure.category same

/-- No operation on values and names fails for the depth of calls. -/
theorem readName_ne_tooDeep {machine : Machine} {scope : Nat} {name : String} :
    machine.perform (readName scope name) ≠ (.error tooDeep, after) := by
  cases found : machine.store.lookup? scope name with
  | none =>
      rw [Machine.perform_readName_of_none found]
      exact throw_ne_tooDeep (by simp)
  | some value =>
      rw [Machine.perform_readName_of_some found]
      simp

theorem onValues_ne_tooDeep {machine : Machine} {op : BinaryOp} {left right : Value}
    {fault : EvalError} (unfit : op.onValues left right = .error fault) :
    machine.perform (throw fault : Eval Value) ≠ (.error tooDeep, after) := by
  refine throw_ne_tooDeep ?_
  unfold BinaryOp.onValues BinaryOp.onInts BinaryOp.onInts.bounded at unfit
  rintro rfl
  split at unfit
  · split at unfit
    any_goals split at unfit
    all_goals cases unfit
  · cases unfit

/-- The limit is exceeded in a function that is called, if it is exceeded after a call. -/
theorem reachesLimit_of_call {machine between : Machine} {depth scope : Nat} {callee : String}
    {arguments : List Node} {values : List Value}
    (deeper : ∀ less, depth = less + 1 → ∀ machine scope node,
      outcome ⟨machine, less, scope, node⟩ = (.error tooDeep, after) →
        ReachesLimit ⟨machine, less, scope, node⟩)
    (given : machine.perform (Node.evaluateAll (enterWithin depth) scope arguments) =
      (.ok values, between))
    (cut : between.perform (callNamed (enterWithin depth) scope callee values) =
      (.error tooDeep, after)) :
    ReachesLimit ⟨machine, depth, scope, .call callee arguments⟩ := by
  cases found : between.store.lookup? scope callee with
  | none =>
      rw [Machine.perform_callNamed_undefined _ found] at cut
      exact absurd cut (throw_ne_tooDeep (by simp))
  | some function =>
      cases called : function.callable? with
      | none =>
          rw [Machine.perform_callNamed_notAFunction _ found called] at cut
          exact absurd cut (throw_ne_tooDeep (by simp))
      | some callable =>
          have opens := Opens.call given found called
          rw [Machine.perform_callNamed _ found called] at cut
          cases depth with
          | zero => exact ⟨_, _, _, _, _, .refl, rfl, opens⟩
          | succ less =>
              rcases Machine.perform_bind_eq_error cut with cut | ⟨_, _, _, ends⟩
              · obtain ⟨statement, middle, turn, cut⟩ := Node.exists_turn_of_error cut
                exact .head (.statement opens turn) (deeper less rfl _ _ _ cut)
              · cases ends

/-- The limit is exceeded in a part of a tree or in a function that is called, if it is exceeded. -/
theorem reachesLimit_of_parts {machine : Machine} {depth scope : Nat} {node : Node}
    (deeper : ∀ less, depth = less + 1 → ∀ machine scope node,
      outcome ⟨machine, less, scope, node⟩ = (.error tooDeep, after) →
        ReachesLimit ⟨machine, less, scope, node⟩)
    (parts : ∀ part ∈ node.parts, ∀ machine,
      outcome ⟨machine, depth, scope, part⟩ = (.error tooDeep, after) →
        ReachesLimit ⟨machine, depth, scope, part⟩)
    (cut : outcome ⟨machine, depth, scope, node⟩ = (.error tooDeep, after)) :
    ReachesLimit ⟨machine, depth, scope, node⟩ := by
  rw [outcome] at cut
  cases node with
  | int | bool | func | strayFunc => cases cut
  | strayLet | strayCall | stray => exact absurd cut (throw_ne_tooDeep (by simp))
  | name spelling => exact absurd cut readName_ne_tooDeep
  | binary op left right =>
      rw [Node.evaluate] at cut
      rcases Machine.perform_bind_eq_error cut with cut | ⟨leftValue, between, given, cut⟩
      · exact .head (.operand .head) (parts left (.head _) _ cut)
      · rcases Machine.perform_bind_eq_error cut with cut | ⟨rightValue, _, _, cut⟩
        · exact .head (.operand (.tail given .head)) (parts right (.tail _ (.head _)) _ cut)
        · split at cut
          · cases cut
          · next unfit => exact absurd cut (onValues_ne_tooDeep unfit)
  | letE target value =>
      rw [Node.evaluate] at cut
      rcases Machine.perform_bind_eq_error cut with cut | ⟨_, _, _, ends⟩
      · exact .head (.operand .head) (parts value (.head _) _ cut)
      · cases ends
  | returnE value => exact .head (.operand .head) (parts value (.head _) _ cut)
  | block statements =>
      rw [Node.evaluate] at cut
      rcases Machine.perform_bind_eq_error cut with cut | ⟨_, _, _, ends⟩
      · obtain ⟨statement, middle, turn, cut⟩ := Node.exists_turn_of_error cut
        exact .head (.operand turn) (parts statement turn.mem _ cut)
      · cases ends
  | ifThen condition consequence =>
      rw [Node.evaluate] at cut
      rcases Machine.perform_bind_eq_error cut with cut | ⟨tested, between, given, cut⟩
      · exact .head (.operand .head) (parts condition (.head _) _ cut)
      · split at cut
        · next truthy =>
            exact .head (.onlyConsequence given truthy)
              (parts consequence (.tail _ (.head _)) _ cut)
        · cases cut
  | ifElse condition consequence alternative =>
      rw [Node.evaluate] at cut
      rcases Machine.perform_bind_eq_error cut with cut | ⟨tested, between, given, cut⟩
      · exact .head (.operand .head) (parts condition (.head _) _ cut)
      · split at cut
        · next truthy =>
            exact .head (.consequence given truthy) (parts consequence (.tail _ (.head _)) _ cut)
        · next falsy =>
            exact .head (.alternative given (Bool.eq_false_iff.mpr falsy))
              (parts alternative (.tail _ (.tail _ (.head _))) _ cut)
  | call callee arguments =>
      rw [Node.evaluate] at cut
      rcases Machine.perform_bind_eq_error cut with cut | ⟨values, between, given, cut⟩
      · obtain ⟨argument, middle, turn, cut⟩ := Node.exists_turn_of_error cut
        exact .head (.operand turn) (parts argument turn.mem _ cut)
      · exact reachesLimit_of_call deeper given cut
  | shownAs content meaning =>
      rw [Node.evaluate] at cut
      split at cut
      · next evaluable =>
          have turn : Node.Turn (enterWithin depth) scope machine
              (Node.shownAs content meaning).operands meaning machine := by
            rw [Node.operands, if_pos evaluable]
            exact .head
          exact .head (.operand turn) (parts meaning (.head _) _ cut)
      · exact absurd cut (throw_ne_tooDeep (by simp))

theorem reachesLimit_of_outcome {machine : Machine} {depth scope : Nat} {node : Node}
    (cut : outcome ⟨machine, depth, scope, node⟩ = (.error tooDeep, after)) :
    ReachesLimit ⟨machine, depth, scope, node⟩ := by
  induction depth generalizing machine scope node with
  | zero =>
      induction node using Node.induction_on_parts generalizing machine with
      | step node parts =>
          exact reachesLimit_of_parts nofun (fun part among _ => parts part among) cut
  | succ depth deeper =>
      induction node using Node.induction_on_parts generalizing machine with
      | step node parts =>
          refine reachesLimit_of_parts ?_ (fun part among _ => parts part among) cut
          rintro less same machine scope node cut
          cases same
          exact deeper cut

/-- The depth of calls is exceeded exactly if a call is reached that nests too deeply. -/
theorem outcome_tooDeep_iff (evaluation : Evaluation) :
    evaluation.outcome.1 = .error tooDeep ↔ evaluation.ReachesLimit :=
  ⟨fun cut => reachesLimit_of_outcome (Prod.ext cut rfl), ReachesLimit.outcome_eq⟩

/-- The same evaluation with another limit on how deeply calls nest. -/
def withDepth (evaluation : Evaluation) (depth : Nat) : Evaluation :=
  { evaluation with depth }

/-- A limit on nested calls only cuts off. With a higher limit an evaluation comes to the same value
or failure and leaves the same machine, unless calls nest too deeply. This is so exactly if a call at
the limit is reached; then the whole evaluation fails with what that one fails with, and a higher
limit first logs what was logged until then. -/
theorem outcome_of_higher_limit (evaluation : Evaluation) {limit : Nat}
    (higher : evaluation.depth ≤ limit) :
    (evaluation.outcome.1 ≠ .error tooDeep →
      (evaluation.withDepth limit).outcome = evaluation.outcome) ∧
    (evaluation.outcome.1 = .error tooDeep ↔ evaluation.ReachesLimit) ∧
    (∀ reached, evaluation.LeadsTo reached → reached.outcome.1 = .error tooDeep →
      evaluation.outcome = reached.outcome) ∧
    (evaluation.outcome.1 = .error tooDeep →
      evaluation.outcome.2.Logged (evaluation.withDepth limit).outcome.2) := by
  have cuts := Node.evaluate_cutsOff_of_enter (Node.enterWithin_cutsOff higher) evaluation.scope
    evaluation.node evaluation.machine
  refine ⟨?_, evaluation.outcome_tooDeep_iff, ?_, ?_⟩
  · intro uncut
    rcases cuts with same | ⟨cut, _⟩
    · exact same.symm
    · exact absurd cut uncut
  · intro reached leads cut
    have fails : reached.outcome = (.error tooDeep, reached.outcome.2) := Prod.ext cut rfl
    rw [leads.fails fails, fails]
  · intro cut
    rcases cuts with same | ⟨_, logged⟩
    · have same : evaluation.outcome = (evaluation.withDepth limit).outcome := same
      rw [same]
      exact .refl _
    · exact logged

/-- A call of a function that goes on to call itself three times. -/
def countdown (limit : Nat) : Evaluation where
  machine :=
    (Machine.fresh.run "let f = fn(n) \x7b if (0 < n) \x7b f(n - 1); \x7d \x7d;" callLimit).2
  depth := limit
  scope := globalScope
  node := .call "f" [.int 3]

/-- Where two calls may nest the third one is cut off, and none is where five may. -/
theorem outcome_of_countdown :
    (countdown 2).outcome.1 = .error tooDeep ∧ (countdown 2).ReachesLimit ∧
      (countdown 2).outcome.2.Logged (countdown 5).outcome.2 ∧
      (countdown 5).outcome.1 = .ok .null ∧ (countdown 9).outcome = (countdown 5).outcome := by
  have cut : (countdown 2).outcome.1 = .error tooDeep := by
    set_option maxRecDepth 10000 in
    cbv
  have given : (countdown 5).outcome.1 = .ok .null := by
    set_option maxRecDepth 10000 in
    cbv
  obtain ⟨_, exceeds, _, logs⟩ := outcome_of_higher_limit (countdown 2) (show 2 ≤ 5 by decide)
  obtain ⟨same, _⟩ := outcome_of_higher_limit (countdown 5) (show 5 ≤ 9 by decide)
  refine ⟨cut, exceeds.mp cut, logs cut, given, same ?_⟩
  simp [given]

end Evaluation

end TinyScript
