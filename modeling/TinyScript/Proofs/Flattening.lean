import Mathlib.Data.List.Basic
import TinyScript.Proofs.Rewriting

/-!
# Returns and nested blocks

A return stands for the tree in it, and a block among the statements of another block or of a function
stands for its own statements, if it has any. Trees are flattened by writing the one in place of the
other wherever this can be done. In whatever order that happens, it comes to the same end.
-/

set_option autoImplicit false

namespace TinyScript

namespace Node

/-- The statements of one block with some in it are put in its place among others. -/
inductive Splices : List Node → List Node → Prop where
  | block {earlier inner later : List Node} {first : Node} :
      Splices (earlier ++ .block (first :: inner) :: later) (earlier ++ first :: inner ++ later)

/-- A return gives way to the tree in it, and a block to its statements, if it has any and stands in
another block or in a function. -/
inductive Unwraps : Node → Node → Prop where
  | returned {value : Node} : Unwraps (.returnE value) value
  | block {statements others : List Node} :
      Splices statements others → Unwraps (.block statements) (.block others)
  | body {parameters : List String} {statements others : List Node} :
      Splices statements others → Unwraps (.func parameters statements) (.func parameters others)

/-- What stands for a tree among statements: those in it, if it is a block with some, and otherwise the
tree itself. -/
def spliced : Node → List Node
  | .block (first :: later) => first :: later
  | node => [node]

mutual

/-- A tree without returns, and without blocks that have statements and stand in other blocks or in
functions. -/
def flat : Node → Node
  | .binary op left right => .binary op (flat left) (flat right)
  | .letE target value => .letE target (flat value)
  | .returnE value => flat value
  | .block statements => .block ((flatAll statements).flatMap spliced)
  | .ifThen condition consequence => .ifThen (flat condition) (flat consequence)
  | .ifElse condition consequence alternative =>
      .ifElse (flat condition) (flat consequence) (flat alternative)
  | .call callee arguments => .call callee (flatAll arguments)
  | .func parameters body => .func parameters ((flatAll body).flatMap spliced)
  | .int value => .int value
  | .bool value => .bool value
  | .name spelling => .name spelling
  | .strayLet target value => .strayLet target value
  | .strayCall callee arguments => .strayCall callee arguments
  | .strayFunc parameters body statements => .strayFunc parameters body statements
  | .shownAs content meaning => .shownAs content meaning
  | .stray content => .stray content

def flatAll : List Node → List Node
  | [] => []
  | first :: later => flat first :: flatAll later

end

/-- The statements of a block or of a function without returns and nested blocks. -/
def flatBody (statements : List Node) : List Node :=
  (flatAll statements).flatMap spliced

theorem flatAll_eq_map (nodes : List Node) : flatAll nodes = nodes.map flat := by
  induction nodes with
  | nil => rfl
  | cons first later ih => exact congrArg _ ih

theorem flatBody_cons (first : Node) (later : List Node) :
    flatBody (first :: later) = first.flat.spliced ++ flatBody later :=
  List.flatMap_cons

theorem flatBody_append (earlier later : List Node) :
    flatBody (earlier ++ later) = flatBody earlier ++ flatBody later := by
  simp only [flatBody, flatAll_eq_map, List.map_append, List.flatMap_append]

theorem spliced_ne_nil (node : Node) : node.spliced ≠ [] := by
  unfold spliced
  split
  · exact List.cons_ne_nil _ _
  · exact List.cons_ne_nil _ _

/-- A block with statements still has some when these are flattened. -/
theorem spliced_flat_block (first : Node) (inner : List Node) :
    (flat (.block (first :: inner))).spliced = flatBody (first :: inner) := by
  have some : flatBody (first :: inner) ≠ [] := by
    rw [flatBody_cons]
    exact List.append_ne_nil_of_left_ne_nil (spliced_ne_nil _) _
  change (block (flatBody (first :: inner))).spliced = flatBody (first :: inner)
  cases there : flatBody (first :: inner) with
  | nil => exact absurd there some
  | cons => rfl

theorem Splices.flatBody_eq {statements others : List Node} (splices : Splices statements others) :
    flatBody others = flatBody statements := by
  cases splices with
  | @block earlier inner later first =>
      rw [flatBody_append, flatBody_append, flatBody_append, flatBody_cons (.block _),
        spliced_flat_block, List.append_assoc]

theorem Unwraps.flat_eq {node other : Node} (unwraps : Unwraps node other) :
    other.flat = node.flat := by
  cases unwraps with
  | returned => rfl
  | block splices => exact congrArg Node.block splices.flatBody_eq
  | body splices => exact congrArg (Node.func _) splices.flatBody_eq

mutual

theorem Rewrites.flat_eq {node other : Node} (rewrites : Rewrites Unwraps node other) :
    other.flat = node.flat := by
  cases rewrites with
  | here unwraps => exact unwraps.flat_eq
  | left part | right part | letE part | returnE part | onlyCondition part | onlyConsequence part
  | condition part | consequence part | alternative part => simp only [flat, part.flat_eq]
  | block parts | call parts | func parts => simp only [flat, parts.flatAll_eq]

theorem RewritesAmong.flatAll_eq {nodes others : List Node}
    (rewrites : RewritesAmong Unwraps nodes others) : flatAll others = flatAll nodes := by
  cases rewrites with
  | first part => simp only [flatAll, part.flat_eq]
  | later parts => simp only [flatAll, parts.flatAll_eq]

end

theorem sizeOf_append (earlier later : List Node) :
    sizeOf (earlier ++ later) + 1 = sizeOf earlier + sizeOf later := by
  induction earlier with
  | nil => simp; omega
  | cons first earlier ih => simp; omega

theorem Splices.sizeOf_lt {statements others : List Node} (splices : Splices statements others) :
    sizeOf others < sizeOf statements := by
  cases splices with
  | @block earlier inner later first =>
      have before := sizeOf_append earlier (.block (first :: inner) :: later)
      have after := sizeOf_append (earlier ++ first :: inner) later
      have inside := sizeOf_append earlier (first :: inner)
      simp at before inside
      omega

theorem Unwraps.sizeOf_lt (node other : Node) (unwraps : Unwraps node other) :
    sizeOf other < sizeOf node := by
  cases unwraps with
  | returned =>
      simp
  | block splices | body splices =>
      have smaller := splices.sizeOf_lt
      simp
      omega

/-- Where no block is left to splice, splicing does nothing. -/
theorem flatMap_spliced {statements : List Node} (ends : ∀ others, ¬ Splices statements others) :
    statements.flatMap spliced = statements := by
  have alone (node : Node) (among : node ∈ statements) : node.spliced = [node] := by
    obtain ⟨earlier, later, rfl⟩ := List.append_of_mem among
    unfold spliced
    split
    · exact absurd .block (ends _)
    · rfl
  rw [List.flatMap_congr alone, List.flatMap_singleton']

mutual

theorem flat_of_ends (node : Node) (ends : ∀ other, ¬ Rewrites Unwraps node other) :
    node.flat = node := by
  cases node with
  | int | bool | name | strayLet | strayCall | strayFunc | shownAs | stray => rfl
  | binary op left right =>
      rw [flat, flat_of_ends left fun _ part => ends _ (.left part),
        flat_of_ends right fun _ part => ends _ (.right part)]
  | letE target value => rw [flat, flat_of_ends value fun _ part => ends _ (.letE part)]
  | returnE value => exact absurd (.here .returned) (ends value)
  | block statements =>
      rw [flat, flatAll_of_ends statements fun _ parts => ends _ (.block parts),
        flatMap_spliced fun _ splices => ends _ (.here (.block splices))]
  | ifThen condition consequence =>
      rw [flat, flat_of_ends condition fun _ part => ends _ (.onlyCondition part),
        flat_of_ends consequence fun _ part => ends _ (.onlyConsequence part)]
  | ifElse condition consequence alternative =>
      rw [flat, flat_of_ends condition fun _ part => ends _ (.condition part),
        flat_of_ends consequence fun _ part => ends _ (.consequence part),
        flat_of_ends alternative fun _ part => ends _ (.alternative part)]
  | call callee arguments =>
      rw [flat, flatAll_of_ends arguments fun _ parts => ends _ (.call parts)]
  | func parameters body =>
      rw [flat, flatAll_of_ends body fun _ parts => ends _ (.func parts),
        flatMap_spliced fun _ splices => ends _ (.here (.body splices))]

theorem flatAll_of_ends (nodes : List Node) (ends : ∀ others, ¬ RewritesAmong Unwraps nodes others) :
    flatAll nodes = nodes := by
  cases nodes with
  | nil => rfl
  | cons first later =>
      rw [flatAll, flat_of_ends first fun _ part => ends _ (.first part),
        flatAll_of_ends later fun _ parts => ends _ (.later parts)]

end

theorem flatAll_of_reaches {nodes others : List Node}
    (reaches : Relation.ReflTransGen (RewritesAmong Unwraps) nodes others) :
    flatAll others = flatAll nodes := by
  induction reaches with
  | refl => rfl
  | tail _ rewrites ih => exact rewrites.flatAll_eq.trans ih

/-- However trees are rewritten, they are flat when nothing is left to rewrite, and this always comes
to pass. -/
theorem rewritesFully_unwraps_iff {nodes others : List Node} :
    RewritesFully Unwraps nodes others ↔ others = flatAll nodes := by
  have unique {others : List Node} (fully : RewritesFully Unwraps nodes others) :
      others = flatAll nodes :=
    (flatAll_of_ends others fully.ends).symm.trans (flatAll_of_reaches fully.reaches)
  constructor
  · exact unique
  · rintro rfl
    obtain ⟨others, fully⟩ := exists_rewritesFully Unwraps.sizeOf_lt nodes
    exact unique fully ▸ fully

end Node

end TinyScript
