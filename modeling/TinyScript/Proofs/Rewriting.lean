import Mathlib.Logic.Relation
import TinyScript.Node.Basic

/-!
# Rewriting in trees

A rule relates a tree to what may be written in its place. A tree is rewritten where one part of it, at
any depth and also inside of functions, is rewritten by a rule. Under a rule that always gives smaller
trees this can go on only until nothing is left to rewrite.
-/

set_option autoImplicit false

namespace TinyScript.Node

mutual

/-- One place in a tree is rewritten by a rule. -/
inductive Rewrites (rule : Node → Node → Prop) : Node → Node → Prop where
  | here {node other : Node} : rule node other → Rewrites rule node other
  | left {op : BinaryOp} {left right other : Node} :
      Rewrites rule left other → Rewrites rule (.binary op left right) (.binary op other right)
  | right {op : BinaryOp} {left right other : Node} :
      Rewrites rule right other → Rewrites rule (.binary op left right) (.binary op left other)
  | letE {target : String} {value other : Node} :
      Rewrites rule value other → Rewrites rule (.letE target value) (.letE target other)
  | returnE {value other : Node} :
      Rewrites rule value other → Rewrites rule (.returnE value) (.returnE other)
  | block {statements others : List Node} :
      RewritesAmong rule statements others → Rewrites rule (.block statements) (.block others)
  | onlyCondition {condition consequence other : Node} :
      Rewrites rule condition other →
      Rewrites rule (.ifThen condition consequence) (.ifThen other consequence)
  | onlyConsequence {condition consequence other : Node} :
      Rewrites rule consequence other →
      Rewrites rule (.ifThen condition consequence) (.ifThen condition other)
  | condition {condition consequence alternative other : Node} :
      Rewrites rule condition other →
      Rewrites rule (.ifElse condition consequence alternative)
        (.ifElse other consequence alternative)
  | consequence {condition consequence alternative other : Node} :
      Rewrites rule consequence other →
      Rewrites rule (.ifElse condition consequence alternative)
        (.ifElse condition other alternative)
  | alternative {condition consequence alternative other : Node} :
      Rewrites rule alternative other →
      Rewrites rule (.ifElse condition consequence alternative)
        (.ifElse condition consequence other)
  | call {callee : String} {arguments others : List Node} :
      RewritesAmong rule arguments others →
      Rewrites rule (.call callee arguments) (.call callee others)
  | func {parameters : List String} {body others : List Node} :
      RewritesAmong rule body others →
      Rewrites rule (.func parameters body) (.func parameters others)

/-- One place in one of several trees is rewritten by a rule. -/
inductive RewritesAmong (rule : Node → Node → Prop) : List Node → List Node → Prop where
  | first {node other : Node} {later : List Node} :
      Rewrites rule node other → RewritesAmong rule (node :: later) (other :: later)
  | later {node : Node} {later others : List Node} :
      RewritesAmong rule later others → RewritesAmong rule (node :: later) (node :: others)

end

/-- Trees come of others by rewriting one place after the other, until no place is left. -/
structure RewritesFully (rule : Node → Node → Prop) (nodes others : List Node) : Prop where
  reaches : Relation.ReflTransGen (RewritesAmong rule) nodes others
  ends : ∀ next, ¬ RewritesAmong rule others next

section

variable {rule : Node → Node → Prop}

mutual

theorem Rewrites.sizeOf_lt (shrinks : ∀ node other, rule node other → sizeOf other < sizeOf node)
    {node other : Node} (rewrites : Rewrites rule node other) : sizeOf other < sizeOf node := by
  cases rewrites with
  | here applies => exact shrinks _ _ applies
  | left part | right part | letE part | returnE part | onlyCondition part | onlyConsequence part
  | condition part | consequence part | alternative part =>
      have smaller := part.sizeOf_lt shrinks
      simp
      omega
  | block parts | call parts | func parts =>
      have smaller := parts.sizeOf_lt shrinks
      simp
      omega

theorem RewritesAmong.sizeOf_lt
    (shrinks : ∀ node other, rule node other → sizeOf other < sizeOf node) {nodes others : List Node}
    (rewrites : RewritesAmong rule nodes others) : sizeOf others < sizeOf nodes := by
  cases rewrites with
  | first part =>
      have smaller := part.sizeOf_lt shrinks
      simp
      omega
  | later parts =>
      have smaller := parts.sizeOf_lt shrinks
      simp
      omega

end

/-- A rule that gives smaller trees can be applied until nothing is left to rewrite. -/
theorem exists_rewritesFully (shrinks : ∀ node other, rule node other → sizeOf other < sizeOf node)
    (nodes : List Node) : ∃ others, RewritesFully rule nodes others := by
  by_cases ends : ∀ next, ¬ RewritesAmong rule nodes next
  · exact ⟨nodes, .refl, ends⟩
  · obtain ⟨next, rewrites⟩ := Classical.not_forall_not.mp ends
    have smaller := rewrites.sizeOf_lt shrinks
    obtain ⟨others, reaches, ends⟩ := exists_rewritesFully shrinks next
    exact ⟨others, reaches.head rewrites, ends⟩
termination_by sizeOf nodes

end

end TinyScript.Node
