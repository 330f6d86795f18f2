import TinyScript.Proofs.ProperValues

/-!
# Known trees

Evaluation knows what to do with the forms of trees that programs parse to, whatever names and numbers
are in them. Where all closures are made of such trees, they come to values or fail in the ordinary
ways, and again all closures are made of them.
-/

set_option autoImplicit false

namespace TinyScript

/-- A tree all parts of which have the forms that programs parse to, function bodies included. -/
inductive Node.Known : Node → Prop where
  | int {value : Int} : Known (.int value)
  | bool {value : Bool} : Known (.bool value)
  | name {spelling : String} : Known (.name spelling)
  | binary {op : BinaryOp} {left right : Node} :
      Known left → Known right → Known (.binary op left right)
  | letE {target : String} {value : Node} : Known value → Known (.letE target value)
  | returnE {value : Node} : Known value → Known (.returnE value)
  | block {statements : List Node} :
      (∀ statement ∈ statements, Known statement) → Known (.block statements)
  | ifThen {condition consequence : Node} :
      Known condition → Known consequence → Known (.ifThen condition consequence)
  | ifElse {condition consequence alternative : Node} :
      Known condition → Known consequence → Known alternative →
      Known (.ifElse condition consequence alternative)
  | call {callee : String} {arguments : List Node} :
      (∀ argument ∈ arguments, Known argument) → Known (.call callee arguments)
  | func {parameters : List String} {body : List Node} :
      (∀ statement ∈ body, Known statement) → Known (.func parameters body)

/-- A value that is no closure, or one whose body is made of known trees. -/
inductive Value.Known : Value → Prop where
  | null : Known .null
  | bool {value : Bool} : Known (.bool value)
  | int {value : Int} : Known (.int value)
  | closure {parameters : List String} {body : List Node} {home : Nat} :
      (∀ statement ∈ body, statement.Known) → Known (.closure parameters body home)

/-- A machine on which all closures that are bound are made of known trees. -/
def Machine.IsKnown (machine : Machine) : Prop :=
  machine.store.Holds Value.Known

namespace Node

theorem Known.part {node part : Node} (known : node.Known) (among : part ∈ node.parts) :
    part.Known := by
  cases known with
  | int | bool | name | func => cases among
  | block all | call all => exact all part among
  | letE value | returnE value =>
      cases List.mem_singleton.mp among
      exact value
  | binary | ifThen | ifElse =>
      simp only [parts, List.mem_cons, List.not_mem_nil, or_false] at among
      grind

theorem Known.not_isUnexpected {node : Node} (known : node.Known) : node.isUnexpected = false := by
  cases known <;> rfl

theorem known_of_isWellFormed {node : Node} (wellFormed : node.isWellFormed = true) :
    node.Known := by
  have part {part : Node} (among : part ∈ node.parts) : part.isWellFormed = true :=
    isWellFormed_of_mem_parts wellFormed among
  cases node with
  | int => exact .int
  | bool => exact .bool
  | name => exact .name
  | strayLet | strayCall | strayFunc | shownAs | stray => cases wellFormed
  | binary op left right =>
      exact .binary (known_of_isWellFormed (part (.head _)))
        (known_of_isWellFormed (part (.tail _ (.head _))))
  | letE target value => exact .letE (known_of_isWellFormed (part (.head _)))
  | returnE value => exact .returnE (known_of_isWellFormed (part (.head _)))
  | block statements => exact .block fun _ member => known_of_isWellFormed (part member)
  | ifThen condition consequence =>
      exact .ifThen (known_of_isWellFormed (part (.head _)))
        (known_of_isWellFormed (part (.tail _ (.head _))))
  | ifElse condition consequence alternative =>
      exact .ifElse (known_of_isWellFormed (part (.head _)))
        (known_of_isWellFormed (part (.tail _ (.head _))))
        (known_of_isWellFormed (part (.tail _ (.tail _ (.head _)))))
  | call callee arguments => exact .call fun _ member => known_of_isWellFormed (part member)
  | func parameters body =>
      have bodyFormed := areWellFormed_iff.mp (Bool.and_eq_true_iff.mp wellFormed).2
      exact .func fun _ member => known_of_isWellFormed (bodyFormed _ member)

theorem known_of_areWellFormed {nodes : List Node} (wellFormed : areWellFormed nodes = true) :
    ∀ node ∈ nodes, node.Known :=
  fun node member => known_of_isWellFormed (areWellFormed_iff.mp wellFormed node member)

end Node

theorem Value.IsProper.known {value : Value} {count : Nat} (proper : value.IsProper count) :
    value.Known := by
  cases value with
  | null => exact .null
  | bool => exact .bool
  | int => exact .int
  | closure => exact .closure (Node.known_of_areWellFormed proper.2.1)
  | strayClosure => cases proper

theorem Value.Known.body {function : Value} {callable : Callable} (known : function.Known)
    (calls : function.callable? = some callable) : ∀ node ∈ callable.body, node.Known := by
  cases known with
  | closure all =>
      cases calls
      exact all
  | null | bool | int => cases calls

def familiarity : Invariant where
  sound machine := machine.IsKnown
  follows _ _ := True
  admits _ value := value.Known
  allows _ _ node := node.Known

theorem familiarity_kept : familiarity.Kept where
  refl _ := trivial
  trans _ _ := trivial
  admits_later _ known := known
  allows_later _ known := known
  part known among := known.part among
  null _ := .null
  bool _ _ := .bool
  int _ := .int
  onValues _ _ result := by
    rcases BinaryOp.onValues_plain result with ⟨_, rfl⟩ | ⟨_, rfl⟩
    · exact .int
    · exact .bool
  func known := by
    cases known with
    | func all => exact .closure all
  strayFunc known := nomatch known
  lookup known found := known.lookup? found
  define {machine scope target value bound} known _ boundKnown :=
    ⟨known.define scope target boundKnown, trivial⟩
  openCall {machine function callable arguments} callee known functionKnown calls argumentsKnown := by
    refine ⟨?_, trivial, fun node member => functionKnown.body calls node member⟩
    exact Store.Holds.openCall known callable.home callee
      (fun entry member => argumentsKnown _ (Value.mem_bound calls member)) functionKnown

theorem familiarity_raises {machine : Machine} {fault : EvalError}
    (raised : familiarity.Raises machine fault) : fault.failure.category ∈ runCategories := by
  have ordinary : fault.IsOrdinary fun _ => True := by
    cases raised with
    | undefinedVariable | undefinedFunction | depthExceeded | notAFunction => trivial
    | operands _ _ result => exact BinaryOp.isOrdinary_of_onValues trivial trivial result
    | unexpectedNode known unexpected =>
        rw [Node.Known.not_isUnexpected known] at unexpected
        cases unexpected
  exact ordinary.category_mem

namespace Machine

variable {machine : Machine} {node : Node} {limit : Nat}

theorem IsKnown.evaluate_safe (familiar : machine.IsKnown) (known : node.Known) (limit : Nat) :
    familiarity.Safe familiarity.admits machine (evaluateIn globalScope node limit) :=
  Invariant.evaluate_safe familiarity_kept (Invariant.enterWithin_kept familiarity_kept limit)
    familiar globalScope node known

theorem IsKnown.evaluate (familiar : machine.IsKnown) (known : node.Known) (limit : Nat) :
    (machine.evaluate node limit).2.IsKnown :=
  (familiar.evaluate_safe known limit).1

theorem IsKnown.perform_evaluate (familiar : machine.IsKnown) {program : Program}
    (known : ∀ statement ∈ program, statement.Known) (limit : Nat) :
    (machine.perform (program.evaluate limit)).2.IsKnown :=
  (Invariant.evaluateAll_safe familiarity_kept
    (Invariant.enterWithin_kept familiarity_kept limit) familiar globalScope program known).1

/-- Where closures are made of known trees, all failures of known trees are those of programs. -/
theorem IsKnown.category_mem (familiar : machine.IsKnown) (known : node.Known) {failure : Failure}
    (failed : (machine.evaluate node limit).1 = .error failure) :
    failure.category ∈ runCategories := by
  obtain ⟨_, _, _, raises⟩ := familiar.evaluate_safe known limit
  obtain ⟨fault, raised, rfl⟩ := raises failure failed
  exact familiarity_raises raised

end Machine

end TinyScript
