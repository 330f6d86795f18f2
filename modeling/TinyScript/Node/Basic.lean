import TinyScript.Token.Basic

/-!
# Trees

A program is a list of statements. Statements and expressions share one type of trees, because an
expression is also a statement. The trees that programs parse to use the first eleven forms. The
others stand for data of other shapes, which a caller may hand over in place of a tree: a binding or
a call of something that is no text, a function whose parameters or body are not lists as they
should be, a tree in a notation that is not its own, and anything else.
-/

set_option autoImplicit false

namespace TinyScript

inductive BinaryOp where
  | add
  | sub
  | mul
  | less
  | lessOrEqual
  deriving DecidableEq, Repr

namespace BinaryOp

def tag : BinaryOp → String
  | .add => "add"
  | .sub => "sub"
  | .mul => "mul"
  | .less => "less"
  | .lessOrEqual => "less_equal"

def ofTag? : String → Option BinaryOp
  | "add" => some .add
  | "sub" => some .sub
  | "mul" => some .mul
  | "less" => some .less
  | "less_equal" => some .lessOrEqual
  | _ => none

/-- The symbol between the operands. -/
def symbol : BinaryOp → Symbol
  | .add => .plus
  | .sub => .minus
  | .mul => .star
  | .less => .less
  | .lessOrEqual => .lessOrEqual

def ofSymbol? : Symbol → Option BinaryOp
  | .plus => some .add
  | .minus => some .sub
  | .star => some .mul
  | .less => some .less
  | .lessOrEqual => some .lessOrEqual
  | _ => none

/-- How tightly an operator binds: comparisons least, products most. -/
def precedence : BinaryOp → Nat
  | .less | .lessOrEqual => 1
  | .add | .sub => 2
  | .mul => 3

theorem tag_of_ofTag? {tag : String} {op : BinaryOp} (found : ofTag? tag = some op) :
    op.tag = tag := by
  unfold ofTag? at found
  split at found <;> simp at found <;> subst found <;> rfl

theorem ofSymbol?_eq_some_iff {mark : Symbol} {op : BinaryOp} :
    ofSymbol? mark = some op ↔ mark = op.symbol := by
  cases mark <;> cases op <;> decide

end BinaryOp

/-- A statement or an expression. -/
inductive Node where
  | int (value : Int)
  | bool (value : Bool)
  | name (spelling : String)
  | binary (op : BinaryOp) (left right : Node)
  | letE (target : String) (value : Node)
  | returnE (value : Node)
  | block (statements : List Node)
  | ifThen (condition consequence : Node)
  | ifElse (condition consequence alternative : Node)
  | call (callee : String) (arguments : List Node)
  | func (parameters : List String) (body : List Node)
  | strayLet (target : Datum) (value : Node)
  | strayCall (callee : Datum) (arguments : List Node)
  /-- A function whose parameters or body may be any data, and the statements in that body. -/
  | strayFunc (parameters body : Datum) (statements : List Node)
  /-- A tree that came in a notation of its own, and what it means. -/
  | shownAs (content : Datum) (meaning : Node)
  | stray (content : Datum)

namespace Node

mutual

def same : Node → Node → Bool
  | .int left, .int right => left == right
  | .bool left, .bool right => left == right
  | .name left, .name right => left == right
  | .binary leftOp left left', .binary rightOp right right' =>
      leftOp == rightOp && same left right && same left' right'
  | .letE leftTarget left, .letE rightTarget right => leftTarget == rightTarget && same left right
  | .returnE left, .returnE right => same left right
  | .block left, .block right => sameAll left right
  | .ifThen left left', .ifThen right right' => same left right && same left' right'
  | .ifElse left left' left'', .ifElse right right' right'' =>
      same left right && same left' right' && same left'' right''
  | .call leftCallee left, .call rightCallee right =>
      leftCallee == rightCallee && sameAll left right
  | .func leftParameters left, .func rightParameters right =>
      leftParameters == rightParameters && sameAll left right
  | .strayLet leftTarget left, .strayLet rightTarget right =>
      leftTarget == rightTarget && same left right
  | .strayCall leftCallee left, .strayCall rightCallee right =>
      leftCallee == rightCallee && sameAll left right
  | .strayFunc leftParameters leftBody left, .strayFunc rightParameters rightBody right =>
      leftParameters == rightParameters && leftBody == rightBody && sameAll left right
  | .shownAs leftContent left, .shownAs rightContent right =>
      leftContent == rightContent && same left right
  | .stray left, .stray right => left == right
  | _, _ => false

def sameAll : List Node → List Node → Bool
  | [], [] => true
  | left :: leftLater, right :: rightLater => same left right && sameAll leftLater rightLater
  | _, _ => false

end

mutual

theorem same_iff (left right : Node) : left.same right = true ↔ left = right := by
  cases left with
  | int | bool | name | stray => cases right <;> simp [same]
  | binary op first second =>
      cases right <;> simp [same, same_iff first, same_iff second, and_assoc]
  | letE target value => cases right <;> simp [same, same_iff value]
  | returnE value => cases right <;> simp [same, same_iff value]
  | block statements => cases right <;> simp [same, sameAll_iff statements]
  | ifThen condition consequence =>
      cases right <;> simp [same, same_iff condition, same_iff consequence]
  | ifElse condition consequence alternative =>
      cases right <;>
        simp [same, same_iff condition, same_iff consequence, same_iff alternative, and_assoc]
  | call callee arguments => cases right <;> simp [same, sameAll_iff arguments]
  | func parameters body => cases right <;> simp [same, sameAll_iff body]
  | strayLet target value => cases right <;> simp [same, same_iff value]
  | strayCall callee arguments => cases right <;> simp [same, sameAll_iff arguments]
  | strayFunc parameters body statements =>
      cases right <;> simp [same, sameAll_iff statements, and_assoc]
  | shownAs content meaning => cases right <;> simp [same, same_iff meaning]

theorem sameAll_iff (left right : List Node) : sameAll left right = true ↔ left = right := by
  cases left with
  | nil => cases right <;> simp [sameAll]
  | cons first later => cases right <;> simp [sameAll, same_iff first, sameAll_iff later]

end

instance : DecidableEq Node := fun left right => decidable_of_iff _ (same_iff left right)

/-- Whether a tree is an expression, which may stand as an operand. -/
def isExpression : Node → Bool
  | .int _ | .bool _ | .name _ | .binary .. | .call .. | .func .. => true
  | .strayCall .. | .strayFunc .. | .shownAs .. => true
  | .letE .. | .returnE _ | .block _ | .ifThen .. | .ifElse .. => false
  | .strayLet .. | .stray _ => false

/-- Whether a tree can be evaluated at all. -/
def isEvaluable : Node → Bool
  | .strayLet .. | .strayCall .. | .stray _ => false
  | _ => true

end Node

/-- A list of statements, run in order. -/
abbrev Program : Type := List Node

end TinyScript
