import TinyScript.Proofs.Evaluations
import TinyScript.Proofs.Sessions

/-!
# The range of numbers

All numbers of a session have 32 bits with a sign: those that are written in programs and in the
bodies of closures, those that trees evaluate to, those that are bound and those that are passed to
functions. The scanner refuses larger ones, no text spells a negative one, and operators check what
they give.
-/

set_option autoImplicit false

namespace TinyScript

def IsInt32 (number : Int) : Prop :=
  -2 ^ 31 ≤ number ∧ number ≤ 2 ^ 31 - 1

theorem isInt32_of_fitsInt {number : Int} (fits : fitsInt number = true) : IsInt32 number := by
  simp only [fitsInt, Bool.and_eq_true, decide_eq_true_eq] at fits
  unfold intMin intMax at fits
  unfold IsInt32
  omega

theorem fitsInt_eq_true_iff {number : Int} : fitsInt number = true ↔ IsInt32 number := by
  refine ⟨isInt32_of_fitsInt, fun inRange => ?_⟩
  unfold IsInt32 at inRange
  unfold fitsInt intMin intMax
  simpa using ⟨by omega, by omega⟩

namespace Datum

mutual

def integers : Datum → List Int
  | .null | .bool _ | .text _ => []
  | .int value => [value]
  | .sequence _ items => integersAll items

def integersAll : List Datum → List Int
  | [] => []
  | first :: later => integers first ++ integersAll later

end

end Datum

namespace Node

mutual

/-- The numbers that are written in a tree, function bodies included. -/
def integers : Node → List Int
  | .int value => [value]
  | .bool _ | .name _ => []
  | .binary _ left right => integers left ++ integers right
  | .letE _ value | .returnE value => integers value
  | .block statements => integersAll statements
  | .ifThen condition consequence => integers condition ++ integers consequence
  | .ifElse condition consequence alternative =>
      integers condition ++ integers consequence ++ integers alternative
  | .call _ arguments => integersAll arguments
  | .func _ body => integersAll body
  | .strayLet target value => target.integers ++ integers value
  | .strayCall callee arguments => callee.integers ++ integersAll arguments
  | .strayFunc parameters body statements =>
      parameters.integers ++ body.integers ++ integersAll statements
  | .shownAs content meaning => content.integers ++ integers meaning
  | .stray content => content.integers

def integersAll : List Node → List Int
  | [] => []
  | first :: later => integers first ++ integersAll later

end

theorem exists_of_mem_integersAll {nodes : List Node} {number : Int}
    (written : number ∈ integersAll nodes) : ∃ node ∈ nodes, number ∈ node.integers := by
  induction nodes with
  | nil => cases written
  | cons first later ih =>
      rcases List.mem_append.mp written with inFirst | inLater
      · exact ⟨first, .head _, inFirst⟩
      · obtain ⟨node, among, inside⟩ := ih inLater
        exact ⟨node, .tail _ among, inside⟩

theorem isInt32_of_mem_integers {node : Node} (wellFormed : node.isWellFormed = true) {number : Int}
    (written : number ∈ node.integers) : IsInt32 number := by
  have part {part : Node} (among : part ∈ node.parts) : part.isWellFormed = true :=
    isWellFormed_of_mem_parts wellFormed among
  cases node with
  | int value =>
      cases List.mem_singleton.mp written
      exact isInt32_of_fitsInt (fitsInt_of_isLiteral wellFormed)
  | bool | name => cases written
  | strayLet | strayCall | strayFunc | shownAs | stray => cases wellFormed
  | binary op left right =>
      rcases List.mem_append.mp written with inLeft | inRight
      · exact isInt32_of_mem_integers (part (.head _)) inLeft
      · exact isInt32_of_mem_integers (part (.tail _ (.head _))) inRight
  | letE target value | returnE value => exact isInt32_of_mem_integers (part (.head _)) written
  | ifThen condition consequence =>
      rcases List.mem_append.mp written with inCondition | inConsequence
      · exact isInt32_of_mem_integers (part (.head _)) inCondition
      · exact isInt32_of_mem_integers (part (.tail _ (.head _))) inConsequence
  | ifElse condition consequence alternative =>
      rcases List.mem_append.mp written with before | inAlternative
      · rcases List.mem_append.mp before with inCondition | inConsequence
        · exact isInt32_of_mem_integers (part (.head _)) inCondition
        · exact isInt32_of_mem_integers (part (.tail _ (.head _))) inConsequence
      · exact isInt32_of_mem_integers (part (.tail _ (.tail _ (.head _)))) inAlternative
  | block statements | call callee arguments =>
      obtain ⟨inner, among, inside⟩ := exists_of_mem_integersAll written
      exact isInt32_of_mem_integers (part among) inside
  | func parameters body =>
      -- The body is no part of the literal: it is evaluated in another scope.
      have bodyFormed := areWellFormed_iff.mp (Bool.and_eq_true_iff.mp wellFormed).2
      obtain ⟨inner, among, inside⟩ := exists_of_mem_integersAll written
      exact isInt32_of_mem_integers (bodyFormed inner among) inside

theorem isInt32_of_mem_integersAll {nodes : List Node} (wellFormed : areWellFormed nodes = true)
    {number : Int} (written : number ∈ integersAll nodes) : IsInt32 number := by
  obtain ⟨node, among, inside⟩ := exists_of_mem_integersAll written
  exact isInt32_of_mem_integers (areWellFormed_iff.mp wellFormed node among) inside

end Node

namespace Value

/-- The numbers in a value: the value itself, or what is written in the body of a closure. -/
def integers : Value → List Int
  | .null | .bool _ => []
  | .int value => [value]
  | .closure _ body _ => Node.integersAll body
  | .strayClosure parameters body _ => parameters.integers ++ body.integers

def Fits (value : Value) : Prop :=
  ∀ number ∈ value.integers, IsInt32 number

theorem IsProper.fits {value : Value} {count : Nat} (proper : value.IsProper count) :
    value.Fits := by
  intro number inside
  cases value with
  | null | bool => cases inside
  | int value =>
      cases List.mem_singleton.mp inside
      exact isInt32_of_fitsInt proper
  | closure => exact Node.isInt32_of_mem_integersAll proper.2.1 inside
  | strayClosure => cases proper

end Value

namespace Machine

variable {machine : Machine}

theorem IsProper.covers (proper : machine.IsProper) {source : String} {program : Program}
    (parsed : Program.ofSource source = .ok program) {statement : Node}
    (among : statement ∈ program) (limit : Nat) :
    propriety.Covers ⟨machine, limit, globalScope, statement⟩ :=
  ⟨proper.values, Program.isWellFormed_of_mem parsed among, proper.global⟩

/-- In a session all numbers have 32 bits: those written in a program, those that are bound or were
passed to a function, and, wherever the evaluation of a statement leads with any limit, those written
in what is evaluated there, those that are bound or passed until then, and those it comes to. -/
theorem InSession.numbers_fit (session : machine.InSession) :
    (∀ source program, Program.ofSource source = .ok program →
      ∀ number ∈ Node.integersAll program, IsInt32 number) ∧
    machine.Holds Value.Fits ∧
    ∀ source program, Program.ofSource source = .ok program → ∀ statement ∈ program,
      ∀ limit evaluation,
        Evaluation.LeadsTo ⟨machine, limit, globalScope, statement⟩ evaluation →
        (∀ number ∈ evaluation.node.integers, IsInt32 number) ∧
        evaluation.machine.Holds Value.Fits ∧
        evaluation.outcome.2.Holds Value.Fits ∧
        ∀ value, evaluation.outcome.1 = .ok value → value.Fits := by
  have fits (count : Nat) (value : Value) (proper : value.IsProper count) : value.Fits :=
    proper.fits
  refine ⟨?_, session.isProper.values.imp (fits _), ?_⟩
  · intro source program parsed number written
    exact Node.isInt32_of_mem_integersAll (Program.areWellFormed_of_ofSource parsed) written
  · intro source program parsed statement among limit evaluation leads
    have covers := (session.isProper.covers parsed among limit).leadsTo propriety_kept leads
    obtain ⟨after, _, gives, _⟩ := covers.safe propriety_kept
    refine ⟨?_, covers.sound.imp (fits _), after.imp (fits _), ?_⟩
    · exact fun number written => Node.isInt32_of_mem_integers covers.allowed.1 written
    · exact fun value given => (gives value given).fits

/-- A text fails because a sum does not fit, and a call of what it bound gives the largest number,
with no more than one call in another. -/
theorem InSession.numbers_fit_after_overflow :
    let source := "let f = fn(n) \x7b n + 2147483647; \x7d; f(1);"
    ((Machine.fresh.run source callLimit).2.evaluate (.call "f" [.int 0]) 1).1 =
        .ok (.int 2147483647) ∧
      (Value.int 2147483647).Fits := by
  intro source
  have parsed : Program.ofSource "f(0);" = .ok [.call "f" [.int 0]] := by
    cbv
  have given : ((Machine.fresh.run source callLimit).2.evaluate (.call "f" [.int 0]) 1).1 =
      .ok (.int 2147483647) := by
    subst source
    set_option maxRecDepth 10000 in
    cbv
  have numbers := InSession.numbers_fit (.run source callLimit .fresh)
  exact ⟨given, (numbers.2.2 _ _ parsed _ (.head _) 1 _ .refl).2.2.2 _ given⟩

end Machine

end TinyScript
