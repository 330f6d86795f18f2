import Mathlib
import TinyScript.Proofs.ProperValues
import TinyScript.Proofs.RoundTrip

/-!
# Sessions

A session runs source texts, or the statements of source texts one at a time, whether they succeed
or fail, and each with a limit of its own. No statement of a program gets stuck in it: it comes to a
proper value or to an ordinary fault, and leaves nothing but proper values behind.
-/

set_option autoImplicit false

namespace TinyScript

/-- The machines that programs lead to, from one on which nothing was run. Every run has a limit of
its own. -/
inductive Machine.InSession : Machine → Prop where
  | fresh : InSession fresh
  | run {machine : Machine} (source : String) (limit : Nat) :
      InSession machine → InSession (machine.run source limit).2
  | evaluated {machine : Machine} {source : String} {program : Program} {statement : Node}
      (limit : Nat) :
      InSession machine → Program.ofSource source = .ok program → statement ∈ program →
      InSession (machine.evaluate statement limit).2

/-- A machine that holds only proper values and has a global scope. -/
structure Machine.IsProper (machine : Machine) : Prop where
  values : machine.Holds (Value.IsProper machine.store.nextId)
  global : globalScope < machine.store.nextId

theorem Program.isWellFormed_of_mem {source : String} {program : Program} {statement : Node}
    (parsed : Program.ofSource source = .ok program) (among : statement ∈ program) :
    statement.isWellFormed = true :=
  Node.areWellFormed_iff.mp (areWellFormed_of_ofSource parsed) statement among

namespace Machine

variable {machine : Machine}

theorem fresh_isProper : fresh.IsProper := by
  refine ⟨⟨?_, by simp [fresh]⟩, by decide⟩
  have empty : Store.empty.Holds (Value.IsProper fresh.store.nextId) :=
    fun _ _ found => absurd found (by simp [Store.empty])
  exact empty.addScope none

theorem IsProper.evaluate_safe (proper : machine.IsProper) {node : Node}
    (wellFormed : node.isWellFormed = true) (limit : Nat) :
    propriety.Safe propriety.admits machine (evaluateIn globalScope node limit) :=
  Invariant.evaluate_safe propriety_kept (Invariant.enterWithin_kept propriety_kept limit)
    proper.values globalScope node ⟨wellFormed, proper.global⟩

theorem IsProper.evaluate (proper : machine.IsProper) {node : Node}
    (wellFormed : node.isWellFormed = true) (limit : Nat) :
    (machine.evaluate node limit).2.IsProper := by
  obtain ⟨holds, grows, _⟩ := proper.evaluate_safe wellFormed limit
  exact ⟨holds, Nat.lt_of_lt_of_le proper.global grows⟩

theorem IsProper.run (proper : machine.IsProper) (source : String) (limit : Nat) :
    (machine.run source limit).2.IsProper := by
  obtain ⟨holds, grows⟩ := Invariant.run_kept propriety_kept proper.values
    (fun _ parsed _ among => ⟨Program.isWellFormed_of_mem parsed among, proper.global⟩) limit
  exact ⟨holds, Nat.lt_of_lt_of_le proper.global grows⟩

theorem InSession.isProper (session : machine.InSession) : machine.IsProper := by
  induction session with
  | fresh => exact fresh_isProper
  | run source limit _ ih => exact ih.run source limit
  | evaluated limit _ parsed among ih =>
      exact ih.evaluate (Program.isWellFormed_of_mem parsed among) limit

/-- A well-formed tree comes to a proper value on a proper machine, or fails in an ordinary way. -/
theorem IsProper.evaluate_outcome (proper : machine.IsProper) {node : Node}
    (wellFormed : node.isWellFormed = true) (limit : Nat) :
    let after := (machine.evaluate node limit).2
    (∀ value, (machine.evaluate node limit).1 = .ok value → value.IsProper after.store.nextId) ∧
    ∀ failure, (machine.evaluate node limit).1 = .error failure →
      ∃ fault : EvalError, fault.IsOrdinary (Value.IsProper after.store.nextId) ∧
        failure = fault.failure := by
  obtain ⟨_, _, gives, raises⟩ := proper.evaluate_safe wellFormed limit
  refine ⟨gives, ?_⟩
  intro failure failed
  obtain ⟨fault, raised, same⟩ := raises failure failed
  exact ⟨fault, propriety_raises raised, same⟩

end Machine

theorem Node.source_of_isWellFormed {node : Node} (wellFormed : node.isWellFormed = true) :
    ∃ text, node.source .statement = .ok text := by
  obtain ⟨words, spelled, _⟩ := (prints_of_isWellFormed node wellFormed).2
  exact ⟨_, source_of_spell spelled⟩

/-- In a session, whatever the limit is, a statement of a program evaluates to a proper value or
fails in one of the ways of a program that runs, with a message about proper values. It leaves only
proper values in the scopes and in the log. The statement itself can be printed, and so can all
statements of a closure. -/
theorem Machine.InSession.statement_outcome {machine : Machine} (session : machine.InSession)
    {source : String} {program : Program} (parsed : Program.ofSource source = .ok program)
    {statement : Node} (among : statement ∈ program) (limit : Nat) :
    let after := (machine.evaluate statement limit).2
    let proper := Value.IsProper after.store.nextId
    (∀ value, (machine.evaluate statement limit).1 = .ok value → proper value) ∧
    (∀ failure, (machine.evaluate statement limit).1 = .error failure →
      failure.category ∈ runCategories ∧
        ∃ fault : EvalError, fault.IsOrdinary proper ∧ failure = fault.failure) ∧
    after.Holds proper ∧
    (∃ text, statement.source .statement = .ok text) ∧
    ∀ parameters body home, proper (.closure parameters body home) →
      ∀ node ∈ body, ∃ text, node.source .statement = .ok text := by
  have wellFormed := Program.isWellFormed_of_mem parsed among
  have isProper := session.isProper
  obtain ⟨gives, fails⟩ := isProper.evaluate_outcome wellFormed limit
  refine ⟨gives, ?_, (isProper.evaluate wellFormed limit).values,
    Node.source_of_isWellFormed wellFormed, ?_⟩
  · intro failure failed
    obtain ⟨fault, ordinary, same⟩ := fails failure failed
    exact ⟨same ▸ ordinary.category_mem, fault, ordinary, same⟩
  · intro parameters body home closure node member
    exact Node.source_of_isWellFormed (Node.areWellFormed_iff.mp closure.2.1 node member)

/-- A text fails halfway, and a later one calls what it bound with too few arguments, with no more
than one call in another. -/
theorem Machine.InSession.statement_outcome_missing_argument :
    let source := "let add = fn(a, b) \x7b a + b \x7d; missing;"
    ((Machine.fresh.run source callLimit).2.evaluate (.call "add" [.int 1]) 1).1 =
        .error ⟨.language .name, "Undefined variable @ lookup(): b"⟩ ∧
      FailureCategory.language .name ∈ runCategories := by
  intro source
  have parsed : Program.ofSource "add(1);" = .ok [.call "add" [.int 1]] := by
    cbv
  have failed : ((Machine.fresh.run source callLimit).2.evaluate (.call "add" [.int 1]) 1).1 =
        .error ⟨.language .name, "Undefined variable @ lookup(): b"⟩ := by
    subst source
    set_option maxRecDepth 10000 in
    cbv
  have outcome := Machine.InSession.statement_outcome (.run source callLimit .fresh) parsed
    (.head _) 1
  exact ⟨failed, (outcome.2.1 _ failed).1⟩

end TinyScript
