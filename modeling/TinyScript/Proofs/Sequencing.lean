import TinyScript.Proofs.Concatenation
import TinyScript.Proofs.Executions

/-!
# One program after another

A text behind another one is run in what the first one left. This needs no separator between them: the
statements of both are those of the text as a whole, and where the first text fails nothing of the
second is run. Statements that are evaluated one by one go on behind a failure.
-/

set_option autoImplicit false

namespace TinyScript

namespace Machine

/-- The results of statements that are evaluated one by one, each in what the ones before it left,
whether these failed or not. -/
def outcomes (machine : Machine) (program : Program) (limit : Nat) : List (Except Failure Value) :=
  match program with
  | [] => []
  | first :: later =>
      (machine.evaluate first limit).1 :: (machine.evaluate first limit).2.outcomes later limit

/-- The machine that statements leave that are evaluated one by one, whether they fail or not. -/
def after (machine : Machine) (program : Program) (limit : Nat) : Machine :=
  program.foldl (fun current statement => (current.evaluate statement limit).2) machine

variable {machine between : Machine} {limit : Nat}

theorem perform_evaluate_append {earlier : Program} {values : List Value}
    (given : machine.perform (Program.evaluate earlier limit) = (.ok values, between))
    (later : Program) :
    machine.perform (Program.evaluate (earlier ++ later) limit) =
      ((between.perform (Program.evaluate later limit)).1.map (values ++ ·),
        (between.perform (Program.evaluate later limit)).2) := by
  induction earlier generalizing machine values with
  | nil =>
      cases given
      have whole (result : Except Failure (List Value)) : result.map ([] ++ ·) = result := by
        cases result with
        | ok others => rfl
        | error failure => rfl
      rw [List.nil_append, whole]
  | cons first earlier ih =>
      cases result : machine.evaluate first limit with
      | mk outcome next =>
          cases outcome with
          | error failure =>
              rw [perform_evaluate_of_error result] at given
              cases given
          | ok value =>
              rw [perform_evaluate_of_ok result] at given
              cases further : next.perform (Program.evaluate earlier limit) with
              | mk outcome last =>
                  rw [further] at given
                  cases outcome with
                  | error failure => cases given
                  | ok others =>
                      cases given
                      rw [List.cons_append, perform_evaluate_of_ok result, ih further]
                      dsimp only
                      cases (last.perform (Program.evaluate later limit)).1 with
                      | ok rest => rfl
                      | error failure => rfl

/-- Two texts with programs have the statements of both when one stands right behind the other. On
every machine, and whatever the limit, if the first is run to its end then both run as the second does
in what the first left: to the values of both, or into the failure of the second. -/
theorem run_append {first second : String} {earlier later : Program}
    (parsed : Program.ofSource first = .ok earlier)
    (parsedLater : Program.ofSource second = .ok later) :
    Program.ofSource (first ++ second) = .ok (earlier ++ later) ∧
    ∀ (limit : Nat) (machine between : Machine) (values : List Value),
      machine.run first limit = (.ok values, between) →
      (∀ others after, between.run second limit = (.ok others, after) →
        machine.run (first ++ second) limit = (.ok (values ++ others), after)) ∧
      (∀ failure after, between.run second limit = (.error failure, after) →
        machine.run (first ++ second) limit = (.error failure, after)) := by
  have both := Program.ofSource_append parsed parsedLater
  refine ⟨both, fun limit machine between values ran => ?_⟩
  have given : machine.perform (Program.evaluate earlier limit) = (.ok values, between) := by
    rwa [run, parsed] at ran
  have whole := perform_evaluate_append given later
  simp only [run, both, parsedLater]
  constructor
  · intro others after ranLater
    rw [whole, ranLater]
    rfl
  · intro failure after ranLater
    rw [whole, ranLater]
    rfl

/-- A text that ends in a binding, with one behind it that reads the name and then another. -/
theorem run_append_unbound :
    Program.ofSource ("let x = 1;" ++ "x; y;") = .ok [.letE "x" (.int 1), .name "x", .name "y"] ∧
      (Machine.fresh.run ("let x = 1;" ++ "x; y;") callLimit).1 =
        .error ⟨.language .name, "Undefined variable @ lookup(): y"⟩ := by
  have parsed : Program.ofSource "let x = 1;" = .ok [.letE "x" (.int 1)] := by
    set_option maxRecDepth 10000 in cbv
  have parsedLater : Program.ofSource "x; y;" = .ok [.name "x", .name "y"] := by
    set_option maxRecDepth 10000 in cbv
  obtain ⟨both, runs⟩ := run_append parsed parsedLater
  have ran : Machine.fresh.run "let x = 1;" callLimit =
      (.ok [.int 1], ⟨⟨#[⟨none, [("x", .int 1)]⟩]⟩, #[]⟩) := by
    set_option maxRecDepth 10000 in cbv
  have failed : (⟨⟨#[⟨none, [("x", .int 1)]⟩]⟩, #[]⟩ : Machine).run "x; y;" callLimit =
      (.error ⟨.language .name, "Undefined variable @ lookup(): y"⟩,
        ⟨⟨#[⟨none, [("x", .int 1)]⟩]⟩, #[]⟩) := by
    set_option maxRecDepth 10000 in cbv
  refine ⟨both, ?_⟩
  rw [(runs _ _ _ _ ran).2 _ _ failed]

end Machine

end TinyScript
