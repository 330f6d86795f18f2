import TinyScript.Proofs.Contents
import TinyScript.Proofs.Frame
import TinyScript.Proofs.Invariant

/-!
# Reachable machines

In the store of a machine that was reached by running programs, every closure belongs to a scope of
the store, and every parent is older than its child.
-/

set_option autoImplicit false

namespace TinyScript

/-- The scope that a value belongs to, if there is one, is among the first so many. -/
def Value.IsWithin (count : Nat) : Value → Prop
  | .closure _ _ home | .strayClosure _ _ home => home < count
  | .null | .bool _ | .int _ => True

theorem Value.IsWithin.later {value : Value} {count more : Nat} (within : value.IsWithin count)
    (grows : count ≤ more) : value.IsWithin more := by
  cases value with
  | closure | strayClosure => exact Nat.lt_of_lt_of_le within grows
  | null | bool | int => trivial

theorem Value.home_lt_of_callable? {function : Value} {callable : Callable} {count : Nat}
    (within : function.IsWithin count) (calls : function.callable? = some callable) :
    callable.home < count := by
  cases function with
  | closure | strayClosure =>
      cases calls
      exact within
  | null | bool | int => cases calls

namespace Store

/-- Parents are older than their children, and closures belong to scopes of the store. -/
structure IsClosed (store : Store) : Prop where
  parents : ∀ {scope : Nat} {record : Scope} {parent : Nat}, store.scopes[scope]? = some record →
    record.parent = some parent → parent < scope
  values : ∀ {scope : Nat} {record : Scope} {entry : String × Value},
    store.scopes[scope]? = some record → entry ∈ record.bindings →
    entry.2.IsWithin store.nextId

theorem nextId_openCall (store : Store) (home : Nat) (bound : Bindings) (callee : String)
    (function : Value) : (store.openCall home bound callee function).nextId = store.nextId + 1 := by
  unfold openCall
  rw [nextId_define, nextId_defineAll, nextId_addScope]

section

variable {store : Store}

theorem IsClosed.holds (closed : store.IsClosed) :
    store.Holds (Value.IsWithin store.nextId) :=
  fun _ _ found _ member => closed.values found member

theorem IsClosed.addScope (closed : store.IsClosed) {parent : Option Nat}
    (old : ∀ above, parent = some above → above < store.nextId) :
    (store.addScope parent).IsClosed := by
  constructor
  · intro scope record above found same
    rw [scopes_addScope] at found
    split at found
    · next last =>
        cases found
        rw [last]
        exact old above same
    · exact closed.parents found same
  · intro scope record entry found member
    have within := closed.holds.addScope parent scope record found entry member
    rw [nextId_addScope]
    exact within.later (Nat.le_succ _)

theorem IsClosed.define (closed : store.IsClosed) (scope : Nat) (name : String) {value : Value}
    (within : value.IsWithin store.nextId) : (store.define scope name value).IsClosed := by
  constructor
  · intro other record parent found same
    obtain ⟨before, there, sameParent, _⟩ := exists_of_scopes_define found
    exact closed.parents there (sameParent ▸ same)
  · intro other record entry found member
    rw [nextId_define]
    exact closed.holds.define scope name within other record found entry member

theorem IsClosed.defineAll (closed : store.IsClosed) (scope : Nat) {entries : Bindings}
    (within : ∀ entry ∈ entries, entry.2.IsWithin store.nextId) :
    (store.defineAll scope entries).IsClosed := by
  induction entries generalizing store with
  | nil => exact closed
  | cons entry later ih =>
      refine ih (closed.define scope entry.1 (within entry (.head _))) ?_
      intro other member
      rw [nextId_define]
      exact within other (.tail _ member)

theorem IsClosed.openCall (closed : store.IsClosed) {home : Nat} {bound : Bindings}
    {function : Value} (callee : String) (old : home < store.nextId)
    (within : ∀ entry ∈ bound, entry.2.IsWithin store.nextId)
    (functionWithin : function.IsWithin store.nextId) :
    (store.openCall home bound callee function).IsClosed := by
  have grows : store.nextId ≤ (store.addScope (some home)).nextId := by
    rw [nextId_addScope]
    exact Nat.le_succ _
  have parentOld : ∀ above, some home = some above → above < store.nextId := by
    intro above same
    cases same
    exact old
  refine ((closed.addScope parentOld).defineAll store.nextId ?_).define store.nextId callee ?_
  · exact fun entry member => (within entry member).later grows
  · rw [nextId_defineAll]
    exact functionWithin.later grows

end

end Store

theorem mem_bindTexts {parameters : List Datum} {arguments : List Value} {entry : String × Value}
    (member : entry ∈ bindTexts parameters arguments) : entry.2 ∈ arguments := by
  obtain ⟨pair, paired, kept⟩ := List.mem_filterMap.mp member
  obtain ⟨spelling, _, rfl⟩ := Option.map_eq_some_iff.mp kept
  exact (List.of_mem_zip paired).2

/-- A call binds its arguments. -/
theorem Value.mem_bound {function : Value} {callable : Callable} {arguments : List Value}
    {entry : String × Value} (calls : function.callable? = some callable)
    (member : entry ∈ callable.bound arguments) : entry.2 ∈ arguments := by
  cases function with
  | closure parameters body home =>
      cases calls
      exact (List.of_mem_zip member).2
  | strayClosure parameters body home =>
      cases calls
      exact mem_bindTexts member
  | null | bool | int => cases calls

/-- Closed stores that only grow, with values and trees that belong to scopes of them. -/
def closedness : Invariant where
  sound machine := machine.store.IsClosed
  follows before after := before.store.nextId ≤ after.store.nextId
  admits machine value := value.IsWithin machine.store.nextId
  allows machine scope _ := scope < machine.store.nextId

theorem closedness_kept : closedness.Kept where
  refl _ := Nat.le_refl _
  trans := Nat.le_trans
  admits_later follows within := within.later follows
  allows_later follows allowed := Nat.lt_of_lt_of_le allowed follows
  part allowed _ := allowed
  null _ := trivial
  bool _ _ := trivial
  int _ := trivial
  onValues _ _ result := by
    rcases BinaryOp.onValues_plain result with ⟨_, rfl⟩ | ⟨_, rfl⟩
    · exact trivial
    · exact trivial
  func allowed := allowed
  strayFunc allowed := allowed
  lookup closed found := by
    obtain ⟨link, record, there, member⟩ := Store.lookup?_eq_some found
    exact closed.values there member
  define closed _ within :=
    ⟨closed.define _ _ within, Nat.le_of_eq (Store.nextId_define _ _ _ _).symm⟩
  openCall {machine function callable arguments} callee closed within calls admitted := by
    have count := Store.nextId_openCall machine.store callable.home (callable.bound arguments)
      callee function
    refine ⟨closed.openCall callee (Value.home_lt_of_callable? within calls)
      (fun entry member => admitted entry.2 (Value.mem_bound calls member)) within, ?_, ?_⟩
    · exact Nat.le_of_lt (Nat.lt_of_lt_of_eq (Nat.lt_succ_self _) count.symm)
    · exact fun _ _ => Nat.lt_of_lt_of_eq (Nat.lt_succ_self _) count.symm

namespace Machine

/-- The machines that runs of programs lead to, whatever the limit of each is: after each program,
after any tree that is evaluated in one of the scopes, and where the body of a function begins. -/
inductive Reached : Machine → Prop where
  | fresh : Reached fresh
  | run {machine : Machine} (source : String) (limit : Nat) :
      Reached machine → Reached (machine.run source limit).2
  | evaluated {machine : Machine} {scope : Nat} (depth : Nat) (node : Node) :
      Reached machine → scope < machine.store.nextId →
      Reached (machine.perform (node.evaluate (enterWithin depth) scope)).2
  | opened {machine : Machine} {scope : Nat} {callee : String} {function : Value}
      {callable : Callable} {arguments : List Value} :
      Reached machine → machine.store.lookup? scope callee = some function →
      function.callable? = some callable →
      (∀ argument ∈ arguments, argument.IsWithin machine.store.nextId) →
      Reached ⟨machine.store.openCall callable.home (callable.bound arguments) callee function,
        machine.log ++ callRecords callee callable.expected arguments⟩

theorem fresh_isClosed : fresh.store.IsClosed := by
  have empty : Store.empty.IsClosed :=
    ⟨fun found => absurd found (by simp [Store.empty]), fun found => absurd found (by simp [Store.empty])⟩
  exact empty.addScope fun _ never => nomatch never

theorem Reached.isClosed {machine : Machine} (reached : machine.Reached) :
    machine.store.IsClosed ∧ globalScope < machine.store.nextId := by
  induction reached with
  | fresh => exact ⟨fresh_isClosed, by decide⟩
  | run source limit _ ih =>
      obtain ⟨closed, follows⟩ :=
        Invariant.run_kept closedness_kept ih.1 (fun _ _ _ _ => ih.2) limit
      exact ⟨closed, Nat.lt_of_lt_of_le ih.2 follows⟩
  | evaluated depth node _ inside ih =>
      obtain ⟨closed, follows, _⟩ := Invariant.evaluate_safe closedness_kept
        (Invariant.enterWithin_kept closedness_kept depth) ih.1 _ node inside
      exact ⟨closed, Nat.lt_of_lt_of_le ih.2 follows⟩
  | opened _ found calls within ih =>
      obtain ⟨closed, follows, _⟩ := closedness_kept.openCall _ ih.1
        (closedness_kept.lookup ih.1 found) calls within
      exact ⟨closed, Nat.lt_of_lt_of_le ih.2 follows⟩

end Machine

end TinyScript
