import TinyScript.Proofs.Independence.Expressions

/-!
# The order of arguments

The arguments of a call may be evaluated in any order and then be put in their places. A failure is
that of the first one in the order that would fail on its own. If none would, then the values are
the same up to the numbers of scopes, and the log has the same lines: two orders differ by exchanges
of neighbours, and to exchange two neighbours is to exchange their scopes and their records.
-/

set_option autoImplicit false

namespace TinyScript

/-- The failure that a step ends in, if it does. -/
def Machine.failure? {α : Type} (machine : Machine) (step : Eval α) : Option Failure :=
  match (machine.perform step).1 with
  | .ok _ => none
  | .error failure => some failure

/-- A record as the log shows it. -/
def Record.line (record : Record) : String × String :=
  (record.level, record.message)

def Machine.lines (machine : Machine) : List (String × String) :=
  machine.log.toList.map Record.line

def placeAll (entries : List (Value × Nat)) : List Value :=
  entries.foldl (fun placed entry => placed.set entry.2 entry.1)
    (List.replicate entries.length .null)

/-- Calls what a name is bound to, after the arguments were evaluated in the order in which they are
listed. Every argument stands beside its place in the call. -/
def callInOrder (enter : Enter) (scope : Nat) (callee : String) (order : List (Node × Nat)) :
    Eval Value := do
  let values ← Node.evaluateAll enter scope (order.map Prod.fst)
  callNamed enter scope callee (placeAll (values.zip (order.map Prod.snd)))

/-- Values that have different places can be put there in any order. -/
theorem placeAll_perm {entries others : List (Value × Nat)} (perm : entries.Perm others)
    (places : (entries.map Prod.snd).Nodup) : placeAll entries = placeAll others := by
  unfold placeAll
  rw [perm.length_eq]
  refine perm.foldl_eq' ?_ _
  intro entry member other otherMember placed
  have apart : entries.Pairwise fun first second => first.2 = second.2 → first = second :=
    (List.pairwise_map.mp places).imp fun different same => absurd same different
  by_cases same : entry.2 = other.2
  · have equal : entry = other :=
      List.Pairwise.forall_of_forall_of_flip (fun _ _ _ => rfl) apart
        (apart.imp fun held same => (held same.symm).symm) member otherMember same
    rw [equal]
  · exact List.set_comm _ _ same

/-- Values that stand in their order go where they belong. -/
theorem foldl_zipIdx (values placed : List Value) :
    (values.zipIdx placed.length).foldl (fun placed entry => placed.set entry.2 entry.1)
      (placed ++ List.replicate values.length .null) = placed ++ values := by
  induction values generalizing placed with
  | nil => simp
  | cons value later ih =>
      have next := ih (placed ++ [value])
      simp only [List.length_append, List.length_singleton, List.append_assoc,
        List.singleton_append] at next
      simp only [List.zipIdx_cons, List.foldl_cons, List.length_cons, List.replicate_succ,
        List.set_append_right _ _ (Nat.le_refl _), Nat.sub_self, List.set_cons_zero]
      exact next

theorem placeAll_zipIdx (values : List Value) : placeAll values.zipIdx = values := by
  unfold placeAll
  rw [List.length_zipIdx]
  exact foldl_zipIdx values []

section

variable {machine : Machine} {scope depth : Nat}

theorem Machine.failure?_bind_pure {α β : Type} (machine : Machine) (step : Eval α)
    (change : α → β) :
    machine.failure? (step >>= fun value => pure (change value)) = machine.failure? step := by
  unfold failure?
  cases done : machine.perform step with
  | mk outcome after =>
      cases outcome with
      | ok value => rw [perform_bind_of_ok done, perform_pure]
      | error failure => rw [perform_bind_of_error done]

theorem Mirrors.failure?_eq {α β : Type} {numbers : Nat → Nat} {gives : α → β → Prop}
    {first second : Machine} {step : Eval α} {other : Eval β}
    (mirrors : Mirrors numbers gives first second step other) :
    first.failure? step = second.failure? other := by
  have results := mirrors.results
  unfold Machine.failure?
  generalize (first.perform step).1 = early at results ⊢
  generalize (second.perform other).1 = late at results ⊢
  cases results <;> rfl

/-- Several trees fail as the first of them does that fails on its own. -/
theorem Node.evaluateAll_failure? {later : Machine} (grown : machine.Grown later)
    (inside : scope < machine.store.nextId) (depth : Nat) {nodes : List Node}
    (letless : ∀ node ∈ nodes, node.letTargets = []) :
    later.failure? (evaluateAll (enterWithin depth) scope nodes) =
      nodes.findSome? fun node => machine.failure? (node.evaluate (enterWithin depth) scope) := by
  induction nodes generalizing later with
  | nil => rfl
  | cons node rest ih =>
      have further := evaluate_grown grown.closed (grown.inside inside) depth
        (letless node (.head _))
      rw [evaluateAll, List.findSome?_cons, (grown.evaluate_mirrors inside depth node).failure?_eq]
      cases done : later.perform (node.evaluate (enterWithin depth) scope) with
      | mk outcome after =>
          rw [done] at further
          cases outcome with
          | ok value =>
              have bound : later.failure? (node.evaluate (enterWithin depth) scope) = none := by
                unfold Machine.failure?
                rw [done]
              rw [bound, ← ih (grown.trans further) fun other member => letless other (.tail _ member),
                ← after.failure?_bind_pure _ fun values => value :: values]
              unfold Machine.failure?
              rw [Machine.perform_bind_of_ok done]
          | error failure =>
              unfold Machine.failure?
              rw [Machine.perform_bind_of_error done, done]

theorem Record.line_renumber (numbers : Nat → Nat) (record : Record) :
    (record.renumber numbers).line = record.line := by
  unfold line
  rw [level_renumber, message_renumber]

theorem Mirrors.lines {α β : Type} {numbers : Nat → Nat} {gives : α → β → Prop}
    {first second : Machine} {step : Eval α} {other : Eval β}
    (mirrors : Mirrors numbers gives first second step other) :
    ∃ written, (first.perform step).2.lines = first.lines ++ written ∧
      (second.perform other).2.lines = second.lines ++ written := by
  obtain ⟨written, log, otherLog⟩ := mirrors.logs
  refine ⟨written.toList.map Record.line, ?_, ?_⟩
  · unfold Machine.lines
    rw [log, Array.toList_append, List.map_append]
  · have same : Record.line ∘ Record.renumber numbers = Record.line :=
      funext (Record.line_renumber numbers)
    unfold Machine.lines
    rw [otherLog, Array.toList_append, List.map_append, Array.toList_map, List.map_map, same]

/-- If one of two steps that do the same gives a value, then so does the other one. -/
theorem Mirrors.of_ok {α β : Type} {numbers : Nat → Nat} {gives : α → β → Prop}
    {first second after : Machine} {step : Eval α} {other : Eval β} {value : α}
    (mirrors : Mirrors numbers gives first second step other)
    (done : first.perform step = (.ok value, after)) :
    ∃ otherValue otherAfter written, second.perform other = (.ok otherValue, otherAfter) ∧
      gives value otherValue ∧ after.store.Mirrored numbers otherAfter.store ∧
      after.lines = first.lines ++ written ∧ otherAfter.lines = second.lines ++ written := by
  have results := mirrors.results
  have stores := mirrors.stores
  obtain ⟨written, lines, otherLines⟩ := mirrors.lines
  rw [done] at results stores lines
  cases otherDone : second.perform other with
  | mk outcome otherAfter =>
      rw [otherDone] at results stores otherLines
      cases results with
      | ok given => exact ⟨_, otherAfter, written, rfl, given, stores, lines, otherLines⟩

theorem Machine.failure?_eq_none_iff {α : Type} {machine : Machine} {step : Eval α} :
    machine.failure? step = none ↔ ∃ value after, machine.perform step = (.ok value, after) := by
  unfold failure?
  cases machine.perform step with
  | mk outcome after =>
      cases outcome with
      | ok value => exact iff_of_true rfl ⟨value, after, rfl⟩
      | error failure =>
          refine iff_of_false (fun never => nomatch never) fun given => ?_
          obtain ⟨_, _, same⟩ := given
          cases same

/-- Two trees that are evaluated one after the other can change places. -/
theorem Node.evaluate_exchange (closed : machine.store.IsClosed)
    (inside : scope < machine.store.nextId) {first second : Node}
    (firstLetless : first.letTargets = []) (secondLetless : second.letTargets = [])
    {firstValue secondValue : Value} {between after : Machine}
    (firstDone : machine.perform (first.evaluate (enterWithin depth) scope) =
      (.ok firstValue, between))
    (secondDone : between.perform (second.evaluate (enterWithin depth) scope) =
      (.ok secondValue, after)) :
    ∃ numbers otherBetween otherAfter,
      machine.perform (second.evaluate (enterWithin depth) scope) =
        (.ok (secondValue.renumber numbers), otherBetween) ∧
      otherBetween.perform (first.evaluate (enterWithin depth) scope) =
        (.ok (firstValue.renumber numbers), otherAfter) ∧
      (∀ other < machine.store.nextId, numbers other = other) ∧
      after.store.Mirrored numbers otherAfter.store ∧ otherAfter.lines.Perm after.lines := by
  have toFirst := (evaluate_ok_grown closed inside firstLetless firstDone).1
  have secondMirrors := toFirst.evaluate_mirrors inside depth second
  -- the second tree has a value when it comes first, too
  obtain ⟨original, otherBetween, secondFirst⟩ :=
    Machine.failure?_eq_none_iff.mp
      (secondMirrors.failure?_eq.trans (Machine.failure?_eq_none_iff.mpr ⟨_, _, secondDone⟩))
  obtain ⟨_, _, secondLines, same, rfl, secondStores, earlySecond, lateSecond⟩ :=
    secondMirrors.of_ok secondFirst
  cases secondDone.symm.trans same
  obtain ⟨toSecond, secondWithin⟩ := evaluate_ok_grown closed inside secondLetless secondFirst
  obtain ⟨_, otherAfter, firstLines, firstSecond, rfl, firstStores, earlyFirst, lateFirst⟩ :=
    (toSecond.evaluate_mirrors inside depth first).of_ok firstDone
  have firstThen :=
    (evaluate_ok_grown toFirst.closed (toFirst.inside inside) secondLetless secondDone).1
  have secondThen :=
    (evaluate_ok_grown toSecond.closed (toSecond.inside inside) firstLetless firstSecond).1
  have firstGrows := toFirst.extension.grows
  have secondGrows := toSecond.extension.grows
  let lower := between.store.nextId - machine.store.nextId
  let upper := otherBetween.store.nextId - machine.store.nextId
  let numbers := exchange machine.store.nextId lower upper
  refine ⟨numbers, otherBetween, otherAfter, ?_, ?_, ?_, ?_, ?_⟩
  · have bound : otherBetween.store.nextId = machine.store.nextId + upper :=
      (Nat.add_sub_cancel' secondGrows).symm
    have back : original.renumber (numbers ∘ machine.numbersIn between) = original :=
      secondWithin.renumber_of_fixed fun _ small => exchange_moveUp (bound ▸ small)
    rw [Value.renumber_renumber, back]
    exact secondFirst
  · have bound : between.store.nextId = machine.store.nextId + lower :=
      (Nat.add_sub_cancel' firstGrows).symm
    have firstWithin := (evaluate_ok_grown closed inside firstLetless firstDone).2
    have moved : firstValue.renumber numbers =
        firstValue.renumber (machine.numbersIn otherBetween) :=
      firstWithin.renumber_congr fun _ small => exchange_of_lower (bound ▸ small)
    rw [moved]
    exact firstSecond
  · exact fun other => exchange_of_lt
  · exact Store.Mirrored.exchange toFirst.closed toSecond.closed firstThen.closed secondThen.closed
      toFirst.extension toSecond.extension firstThen.extension secondThen.extension secondStores
      firstStores
  · rw [lateFirst, earlySecond, lateSecond, earlyFirst, List.append_assoc, List.append_assoc]
    exact List.perm_append_comm.append_left machine.lines

theorem Node.evaluateAll_cons_eq_ok {enter : Enter} {node : Node} {rest : List Node}
    {values : List Value} {after : Machine}
    (result : machine.perform (evaluateAll enter scope (node :: rest)) = (.ok values, after)) :
    ∃ value between others, machine.perform (node.evaluate enter scope) = (.ok value, between) ∧
      between.perform (evaluateAll enter scope rest) = (.ok others, after) ∧
      values = value :: others := by
  rw [evaluateAll] at result
  obtain ⟨value, between, first, same⟩ :=
    Machine.perform_bind_eq_ok (congrArg Prod.fst result)
  rw [same] at result
  obtain ⟨others, last, second, same⟩ := Machine.perform_bind_eq_ok (congrArg Prod.fst result)
  rw [same] at result
  cases result
  exact ⟨value, between, others, first, second, rfl⟩

theorem Node.evaluateAll_cons_of_ok {enter : Enter} {node : Node} {rest : List Node} {value : Value}
    {others : List Value} {between after : Machine}
    (first : machine.perform (node.evaluate enter scope) = (.ok value, between))
    (second : between.perform (evaluateAll enter scope rest) = (.ok others, after)) :
    machine.perform (evaluateAll enter scope (node :: rest)) = (.ok (value :: others), after) := by
  rw [evaluateAll, Machine.perform_bind_of_ok first, Machine.perform_bind_of_ok second]
  rfl

theorem Node.length_of_evaluateAll {enter : Enter} {nodes : List Node} {values : List Value}
    {after : Machine}
    (result : machine.perform (evaluateAll enter scope nodes) = (.ok values, after)) :
    values.length = nodes.length := by
  induction nodes generalizing machine values with
  | nil =>
      cases result
      rfl
  | cons node rest ih =>
      obtain ⟨value, between, others, _, second, rfl⟩ := evaluateAll_cons_eq_ok result
      exact congrArg (· + 1) (ih second)

/-- A value that stands beside its place, under other numbers of scopes. -/
def renumberEntry (numbers : Nat → Nat) : Value × Nat → Value × Nat :=
  Prod.map (Value.renumber numbers) id

/-- Trees evaluated in one order and in another one, on the same machine: the values beside their
places are the same up to the numbers of new scopes, and so are the stores; the logs have the same
lines. -/
structure Rearranged (machine : Machine) (numbers : Nat → Nat)
    (entries otherEntries : List (Value × Nat)) (after otherAfter : Machine) : Prop where
  fixed : ∀ other < machine.store.nextId, numbers other = other
  stores : after.store.Mirrored numbers otherAfter.store
  entries : otherEntries.Perm (entries.map (renumberEntry numbers))
  lines : otherAfter.lines.Perm after.lines

theorem renumberEntry_comp (numbers others : Nat → Nat) :
    renumberEntry others ∘ renumberEntry numbers = renumberEntry (others ∘ numbers) := by
  funext entry
  exact congrArg (·, entry.2) entry.1.renumber_renumber

theorem zip_renumberEntry (numbers : Nat → Nat) (values : List Value) (places : List Nat) :
    (values.map (Value.renumber numbers)).zip places =
      (values.zip places).map (renumberEntry numbers) :=
  List.zip_map_left

theorem Rearranged.trans {numbers others : Nat → Nat} {first second third : List (Value × Nat)}
    {firstAfter secondAfter thirdAfter : Machine}
    (early : Rearranged machine numbers first second firstAfter secondAfter)
    (late : Rearranged machine others second third secondAfter thirdAfter) :
    Rearranged machine (others ∘ numbers) first third firstAfter thirdAfter where
  fixed other old := (congrArg others (early.fixed other old)).trans (late.fixed other old)
  stores := early.stores.trans late.stores
  entries := by
    rw [← renumberEntry_comp, ← List.map_map]
    exact late.entries.trans (early.entries.map _)
  lines := late.lines.trans early.lines

/-- If several trees have values in one order, then they have the same ones in every order. -/
theorem Node.evaluateAll_perm {order other : List (Node × Nat)} (perm : order.Perm other)
    (closed : machine.store.IsClosed) (inside : scope < machine.store.nextId)
    (letless : ∀ entry ∈ order, entry.1.letTargets = []) {values : List Value} {after : Machine}
    (result : machine.perform (evaluateAll (enterWithin depth) scope (order.map Prod.fst)) =
      (.ok values, after)) :
    ∃ numbers otherValues otherAfter,
      machine.perform (evaluateAll (enterWithin depth) scope (other.map Prod.fst)) =
        (.ok otherValues, otherAfter) ∧
      Rearranged machine numbers (values.zip (order.map Prod.snd))
        (otherValues.zip (other.map Prod.snd)) after otherAfter := by
  induction perm generalizing machine values after with
  | nil =>
      cases result
      exact ⟨id, [], machine, rfl, fun _ _ => rfl, .refl, .nil, .refl _⟩
  | @cons entry rest otherRest _ ih =>
      obtain ⟨value, between, others, first, second, rfl⟩ := evaluateAll_cons_eq_ok result
      obtain ⟨grown, within⟩ :=
        evaluate_ok_grown closed inside (letless entry (.head _)) first
      obtain ⟨numbers, otherValues, otherAfter, done, rearranged⟩ :=
        ih grown.closed (grown.inside inside) (fun entry member => letless entry (.tail _ member))
          second
      refine ⟨numbers, value :: otherValues, otherAfter, evaluateAll_cons_of_ok first done, ?_,
        rearranged.stores, ?_, rearranged.lines⟩
      · exact fun other old => rearranged.fixed other (grown.inside old)
      · have same : renumberEntry numbers (value, entry.2) = (value, entry.2) :=
          congrArg (·, entry.2) (within.renumber_of_fixed rearranged.fixed)
        simp only [List.map_cons, List.zip_cons_cons, same]
        exact rearranged.entries.cons _
  | swap first second rest =>
      obtain ⟨secondValue, between, _, secondDone, later, rfl⟩ := evaluateAll_cons_eq_ok result
      obtain ⟨firstValue, afterBoth, others, firstDone, restDone, rfl⟩ :=
        evaluateAll_cons_eq_ok later
      obtain ⟨numbers, otherBetween, otherAfterBoth, firstAgain, secondAgain, fixed, stores, lines⟩ :=
        evaluate_exchange closed inside (letless second (.head _))
          (letless first (.tail _ (.head _))) secondDone firstDone
      have restMirrors := evaluateAll_mirrors (enterWithin_mirrored numbers depth) stores scope
        (rest.map Prod.fst)
      rw [fixed scope inside] at restMirrors
      obtain ⟨_, otherAfter, written, restAgain, rfl, restStores, restLines, otherLines⟩ :=
        restMirrors.of_ok restDone
      refine ⟨numbers, _, otherAfter,
        evaluateAll_cons_of_ok firstAgain (evaluateAll_cons_of_ok secondAgain restAgain), fixed,
        restStores, ?_, ?_⟩
      · simp only [List.map_cons, List.zip_cons_cons, zip_renumberEntry]
        exact .swap _ _ _
      · rw [restLines, otherLines]
        exact lines.append_right written
  | trans firstPerm _ firstIH secondIH =>
      obtain ⟨numbers, _, _, firstDone, early⟩ := firstIH closed inside letless result
      obtain ⟨others, otherValues, otherAfter, secondDone, late⟩ := secondIH closed inside
        (fun entry member => letless entry (firstPerm.mem_iff.mpr member)) firstDone
      exact ⟨others ∘ numbers, otherValues, otherAfter, secondDone, early.trans late⟩

theorem Machine.failure?_eq_some_iff {α : Type} {machine : Machine} {step : Eval α}
    {failure : Failure} : machine.failure? step = some failure ↔
      ∃ after, machine.perform step = (.error failure, after) := by
  unfold failure?
  cases machine.perform step with
  | mk outcome after =>
      cases outcome with
      | ok value => simp
      | error other => simp

section

variable {callee : String} {order : List (Node × Nat)}

theorem zip_places {values : List Value} {arguments : List Node}
    (length : values.length = arguments.length) :
    values.zip (arguments.zipIdx.map Prod.snd) = values.zipIdx := by
  rw [List.zipIdx_map_snd, List.zipIdx_eq_zip_range', length]

/-- In the order of a call, arguments are evaluated as the call does it. -/
theorem callInOrder_zipIdx (enter : Enter) (machine : Machine) (scope : Nat) (callee : String)
    (arguments : List Node) :
    machine.perform (callInOrder enter scope callee arguments.zipIdx) =
      machine.perform ((Node.call callee arguments).evaluate enter scope) := by
  unfold callInOrder
  rw [List.zipIdx_map_fst, Node.evaluate]
  cases done : machine.perform (Node.evaluateAll enter scope arguments) with
  | mk outcome after =>
      cases outcome with
      | ok values =>
          rw [Machine.perform_bind_of_ok done, Machine.perform_bind_of_ok done,
            zip_places (Node.length_of_evaluateAll done), placeAll_zipIdx]
      | error failure =>
          rw [Machine.perform_bind_of_error done, Machine.perform_bind_of_error done]

/-- The failure of the first argument that fails on its own is the failure of the call. -/
theorem callInOrder_error (closed : machine.store.IsClosed) (inside : scope < machine.store.nextId)
    (letless : ∀ entry ∈ order, entry.1.letTargets = []) {failure : Failure}
    (fails : (order.findSome? fun entry =>
      machine.failure? (entry.1.evaluate (enterWithin depth) scope)) = some failure) :
    (machine.perform (callInOrder (enterWithin depth) scope callee order)).1 = .error failure := by
  have among : ∀ node ∈ order.map Prod.fst, node.letTargets = [] := by
    intro node member
    obtain ⟨entry, entryMember, rfl⟩ := List.mem_map.mp member
    exact letless entry entryMember
  have allFail := Node.evaluateAll_failure? (.refl closed) inside depth among
  rw [List.findSome?_map] at allFail
  obtain ⟨after, done⟩ := Machine.failure?_eq_some_iff.mp (allFail.trans fails)
  unfold callInOrder
  rw [Machine.perform_bind_of_error done]

/-- If no argument fails on its own, then their order makes no difference to a call, except that
lines of the log may change places. -/
theorem callInOrder_alike (closed : machine.store.IsClosed) (inside : scope < machine.store.nextId)
    {arguments : List Node} (letless : ∀ argument ∈ arguments, argument.letTargets = [])
    (perm : order.Perm arguments.zipIdx)
    (succeeds : ∀ argument ∈ arguments,
      machine.failure? (argument.evaluate (enterWithin depth) scope) = none) :
    let written := machine.perform ((Node.call callee arguments).evaluate (enterWithin depth) scope)
    let ordered := machine.perform (callInOrder (enterWithin depth) scope callee order)
    Alike machine.store.nextId written ordered ∧ ordered.2.lines.Perm written.2.lines := by
  have noFailure := Node.evaluateAll_failure? (.refl closed) inside depth letless
  rw [List.findSome?_eq_none_iff.mpr succeeds] at noFailure
  obtain ⟨values, after, done⟩ := Machine.failure?_eq_none_iff.mp noFailure
  have positioned : machine.perform
      (Node.evaluateAll (enterWithin depth) scope (arguments.zipIdx.map Prod.fst)) =
        (.ok values, after) := by
    rw [List.zipIdx_map_fst]
    exact done
  obtain ⟨numbers, otherValues, otherAfter, otherDone, rearranged⟩ :=
    Node.evaluateAll_perm perm.symm closed inside
      (fun entry member => letless entry.1 (List.fst_mem_of_mem_zipIdx member)) positioned
  have placed : placeAll (otherValues.zip (order.map Prod.snd)) =
      values.map (Value.renumber numbers) := by
    have entries := rearranged.entries
    rw [← zip_renumberEntry,
      zip_places ((List.length_map _).trans (Node.length_of_evaluateAll done))] at entries
    have different : ((values.map (Value.renumber numbers)).zipIdx.map Prod.snd).Nodup := by
      rw [List.zipIdx_map_snd]
      exact List.nodup_range'
    rw [← placeAll_perm entries.symm different]
    exact placeAll_zipIdx _
  have called := callNamed_mirrors (enterWithin_mirrored numbers depth) rearranged.stores scope
    callee values
  rw [rearranged.fixed scope inside] at called
  intro written ordered
  have writtenDone : written = after.perform (callNamed (enterWithin depth) scope callee values) := by
    unfold written
    rw [Node.evaluate, Machine.perform_bind_of_ok done]
  have orderedDone : ordered = otherAfter.perform (callNamed (enterWithin depth) scope callee
      (values.map (Value.renumber numbers))) := by
    unfold ordered callInOrder
    rw [Machine.perform_bind_of_ok otherDone, placed]
  rw [writtenDone, orderedDone]
  refine ⟨called.alike rearranged.fixed, ?_⟩
  obtain ⟨more, lines, otherLines⟩ := called.lines
  rw [lines, otherLines]
  exact rearranged.lines.append_right more

end

end

end TinyScript
