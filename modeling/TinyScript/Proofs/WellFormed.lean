import TinyScript.Proofs.Grammar
import TinyScript.Proofs.Scanning

/-!
# Well-formed trees

The trees that scanned words can derive: numbers and names can be written, parts that are operands
are expressions, and an alternative belongs to a condition whose consequence would not take it.
-/

set_option autoImplicit false

namespace TinyScript

namespace Node

/-- Whether an alternative right behind the words of a tree would become a part of it. -/
def endsOpen : Node → Bool
  | .ifThen _ _ => true
  | .ifElse _ _ alternative => endsOpen alternative
  | _ => false

mutual

/-- Whether a tree is one that a source text can have. -/
def isWellFormed : Node → Bool
  | .int value => Token.isLiteral value
  | .bool _ => true
  | .name spelling => isName spelling
  | .binary _ left right =>
      left.isExpression && isWellFormed left && right.isExpression && isWellFormed right
  | .letE target value => isName target && value.isExpression && isWellFormed value
  | .returnE value => value.isExpression && isWellFormed value
  | .block statements => areWellFormed statements
  | .ifThen condition consequence =>
      condition.isExpression && isWellFormed condition && isWellFormed consequence
  | .ifElse condition consequence alternative =>
      condition.isExpression && isWellFormed condition && isWellFormed consequence &&
        !consequence.endsOpen && isWellFormed alternative
  | .call callee arguments =>
      isName callee && arguments.all isExpression && areWellFormed arguments
  | .func parameters body => parameters.all isName && areWellFormed body
  | .strayLet .. | .strayCall .. | .strayFunc .. | .shownAs .. | .stray _ => false

def areWellFormed : List Node → Bool
  | [] => true
  | first :: later => isWellFormed first && areWellFormed later

end

theorem endsOpen_of_isExpression {node : Node} (expression : node.isExpression = true) :
    node.endsOpen = false := by
  cases node <;> first
    | rfl
    | cases expression

end Node

/-- What a phrase holds is well-formed, and a statement leaves no alternative behind. -/
def Phrase.IsWellFormed (next : Token) : Phrase → Prop
  | .statements nodes => Node.areWellFormed nodes = true
  | .statement node =>
      node.isWellFormed = true ∧ (node.endsOpen = true → next ≠ .keyword .elseKw)
  | .expression node | .operand _ node => node.isExpression = true ∧ node.isWellFormed = true
  | .arguments nodes | .moreArguments nodes =>
      nodes.all Node.isExpression = true ∧ Node.areWellFormed nodes = true

theorem name_mem_nameWords {names : List String} {spelling : String} (listed : spelling ∈ names) :
    .name spelling ∈ nameWords names := by
  induction names with
  | nil => cases listed
  | cons first later ih =>
      cases later with
      | nil =>
          cases List.mem_singleton.mp listed
          exact .head _
      | cons second further =>
          rcases List.mem_cons.mp listed with rfl | behind
          · exact .head _
          · exact .tail _ (.tail _ (ih behind))

theorem Derivation.isWellFormed {phrase : Phrase} {words : List Token} {next : Token}
    (derivation : Derivation phrase words next)
    (scanned : ∀ word ∈ words, word.isScanned = true) : phrase.IsWellFormed next := by
  induction derivation with
  | noStatements => rfl
  | someStatements _ _ firstIH laterIH =>
      obtain ⟨firstScanned, laterScanned⟩ := List.forall_mem_append.mp scanned
      exact Bool.and_eq_true_iff.mpr ⟨(firstIH firstScanned).1, laterIH laterScanned⟩
  | letE _ ih =>
      simp only [List.cons_append, List.forall_mem_cons, List.forall_mem_append] at scanned
      obtain ⟨_, target, _, valueScanned, _⟩ := scanned
      obtain ⟨expression, wellFormed⟩ := ih valueScanned
      have name : isName _ = true := target
      simp [Phrase.IsWellFormed, Node.isWellFormed, Node.endsOpen, name, expression, wellFormed]
  | returnE _ _ ih =>
      simp only [List.cons_append, List.forall_mem_cons, List.forall_mem_append] at scanned
      obtain ⟨expression, wellFormed⟩ := ih scanned.2.1
      simp [Phrase.IsWellFormed, Node.isWellFormed, Node.endsOpen, expression, wellFormed]
  | block _ ih =>
      simp only [List.cons_append, List.forall_mem_cons, List.forall_mem_append] at scanned
      exact ⟨ih scanned.2.1, fun ends => Bool.noConfusion ends⟩
  | ifThen _ _ noElse conditionIH consequenceIH =>
      simp only [List.cons_append, List.forall_mem_cons, List.forall_mem_append] at scanned
      obtain ⟨_, conditionScanned, consequenceScanned⟩ := scanned
      obtain ⟨expression, condition⟩ := conditionIH conditionScanned
      obtain ⟨consequence, _⟩ := consequenceIH consequenceScanned
      refine ⟨?_, fun _ => noElse⟩
      simp [Node.isWellFormed, expression, condition, consequence]
  | ifElse _ _ _ conditionIH consequenceIH alternativeIH =>
      simp only [List.cons_append, List.forall_mem_cons, List.forall_mem_append] at scanned
      obtain ⟨_, ⟨conditionScanned, consequenceScanned⟩, _, alternativeScanned⟩ := scanned
      obtain ⟨expression, condition⟩ := conditionIH conditionScanned
      obtain ⟨consequence, closed⟩ := consequenceIH consequenceScanned
      obtain ⟨alternative, leaves⟩ := alternativeIH alternativeScanned
      refine ⟨?_, leaves⟩
      have notOpen : Node.endsOpen _ = false :=
        Bool.eq_false_iff.mpr fun ends => closed ends rfl
      simp [Node.isWellFormed, expression, condition, consequence, alternative, notOpen]
  | expressionE _ _ ih =>
      obtain ⟨expression, wellFormed⟩ := ih (List.forall_mem_append.mp scanned).1
      refine ⟨wellFormed, fun ends => ?_⟩
      rw [Node.endsOpen_of_isExpression expression] at ends
      cases ends
  | func _ ih =>
      simp only [List.cons_append, List.forall_mem_cons, List.forall_mem_append] at scanned
      obtain ⟨_, _, ⟨parametersScanned, _, _, bodyScanned⟩, _⟩ := scanned
      have names : List.all _ isName = true := List.all_eq_true.mpr fun spelling listed =>
        parametersScanned _ (name_mem_nameWords listed)
      have body : Node.areWellFormed _ = true := ih bodyScanned
      exact ⟨rfl, by simp only [Node.isWellFormed, names, body, Bool.and_self]⟩
  | comparison _ ih => exact ih scanned
  | tighter _ _ ih => exact ih scanned
  | binary _ _ leftIH rightIH =>
      simp only [List.forall_mem_cons, List.forall_mem_append] at scanned
      obtain ⟨leftScanned, _, rightScanned⟩ := scanned
      obtain ⟨leftExpression, left⟩ := leftIH leftScanned
      obtain ⟨rightExpression, right⟩ := rightIH rightScanned
      exact ⟨rfl, by simp [Node.isWellFormed, leftExpression, left, rightExpression, right]⟩
  | int => exact ⟨rfl, scanned _ (.head _)⟩
  | bool => exact ⟨rfl, rfl⟩
  | givenBool => exact ⟨rfl, rfl⟩
  | name => exact ⟨rfl, scanned _ (.head _)⟩
  | call _ ih =>
      simp only [List.cons_append, List.forall_mem_cons, List.forall_mem_append] at scanned
      obtain ⟨callee, _, argumentsScanned, _⟩ := scanned
      obtain ⟨expressions, wellFormed⟩ := ih argumentsScanned
      have name : isName _ = true := callee
      exact ⟨rfl, by simp only [Node.isWellFormed, name, expressions, wellFormed, Bool.and_self]⟩
  | paren _ ih =>
      simp only [List.cons_append, List.forall_mem_cons, List.forall_mem_append] at scanned
      exact ih scanned.2.1
  | noArguments => exact ⟨rfl, rfl⟩
  | lastArgument => exact ⟨rfl, rfl⟩
  | someArguments _ _ firstIH laterIH =>
      obtain ⟨firstScanned, laterScanned⟩ := List.forall_mem_append.mp scanned
      obtain ⟨expression, first⟩ := firstIH firstScanned
      obtain ⟨expressions, later⟩ := laterIH laterScanned
      exact ⟨Bool.and_eq_true_iff.mpr ⟨expression, expressions⟩,
        Bool.and_eq_true_iff.mpr ⟨first, later⟩⟩
  | nextArgument _ _ firstIH laterIH =>
      simp only [List.cons_append, List.forall_mem_cons, List.forall_mem_append] at scanned
      obtain ⟨expression, first⟩ := firstIH scanned.2.1
      obtain ⟨expressions, later⟩ := laterIH scanned.2.2
      exact ⟨Bool.and_eq_true_iff.mpr ⟨expression, expressions⟩,
        Bool.and_eq_true_iff.mpr ⟨first, later⟩⟩

end TinyScript
