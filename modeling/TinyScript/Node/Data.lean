import TinyScript.Node.Basic

/-!
# Trees as data

Outside the library a tree is a datum: a number, a truth value, a text for a name, or a tuple that
begins with a tag. The statements of a block, the arguments of a call and the two parts of a
function are lists in it. Every datum can be read as a tree, because data of other shapes have forms
of their own, and no reading loses anything: a tree is shown as the datum that it was read from.
-/

set_option autoImplicit false

namespace TinyScript

namespace Node

/-- A tree with the datum that it was read from, which is kept unless it is the tree's own. -/
def noted (isOwn : Bool) (content : Datum) (meaning : Node) : Node :=
  if isOwn then meaning else .shownAs content meaning

def bindingOf (target : Datum) (value : Node) : Node :=
  match target with
  | .text spelling => .letE spelling value
  | other => .strayLet other value

def callOf (callee : Datum) (arguments : List Node) : Node :=
  match callee with
  | .text spelling => .call spelling arguments
  | other => .strayCall other arguments

def functionOf (parameters body : Datum) (statements : List Node) : Node :=
  match parameters.isList && body.isList, parameters.words? with
  | true, some spellings => .func spellings statements
  | _, _ => .strayFunc parameters body statements

mutual

/-- The tree that a datum stands for. -/
def ofDatum : Datum → Node
  | .int value => .int value
  | .bool value => .bool value
  | .text content => .name content
  | .null => .stray .null
  | .sequence kind [.text tag, only] =>
      match tag with
      | "return" =>
          noted (kind == .tuple) (.sequence kind [.text tag, only]) (.returnE (ofDatum only))
      | "block" => match children? only with
        | some statements =>
            noted (kind == .tuple && only.isList) (.sequence kind [.text tag, only])
              (.block statements)
        | none => .stray (.sequence kind [.text tag, only])
      | _ => .stray (.sequence kind [.text tag, only])
  | .sequence kind [.text tag, first, second] =>
      match tag with
      | "let" =>
          noted (kind == .tuple) (.sequence kind [.text tag, first, second])
            (bindingOf first (ofDatum second))
      | "call" => match children? second with
        | some arguments =>
            noted (kind == .tuple && second.isList) (.sequence kind [.text tag, first, second])
              (callOf first arguments)
        | none => .stray (.sequence kind [.text tag, first, second])
      | "func" =>
          noted (kind == .tuple) (.sequence kind [.text tag, first, second])
            (functionOf first second ((children? second).getD []))
      | _ => match BinaryOp.ofTag? tag with
        | some op =>
            noted (kind == .tuple) (.sequence kind [.text tag, first, second])
              (.binary op (ofDatum first) (ofDatum second))
        | none => .stray (.sequence kind [.text tag, first, second])
  | .sequence kind [.text tag, condition, consequence, alternative] =>
      match tag with
      | "if" =>
          noted (kind == .tuple) (.sequence kind [.text tag, condition, consequence, alternative])
            (match alternative with
            | .null => .ifThen (ofDatum condition) (ofDatum consequence)
            | _ => .ifElse (ofDatum condition) (ofDatum consequence) (ofDatum alternative))
      | _ => .stray (.sequence kind [.text tag, condition, consequence, alternative])
  | .sequence kind items => .stray (.sequence kind items)

/-- The trees that a datum holds: the items of a sequence, or the characters of a text, each of
which is a name. -/
def children? : Datum → Option (List Node)
  | .sequence _ items => some (ofData items)
  | .text content => some (content.toList.map fun character => .name (String.singleton character))
  | _ => none

def ofData : List Datum → List Node
  | [] => []
  | first :: later => ofDatum first :: ofData later

end

mutual

/-- The datum that stands for a tree. -/
def toDatum : Node → Datum
  | .int value => .int value
  | .bool value => .bool value
  | .name spelling => .text spelling
  | .binary op left right => .tuple [.text op.tag, toDatum left, toDatum right]
  | .letE target value => .tuple [.text "let", .text target, toDatum value]
  | .returnE value => .tuple [.text "return", toDatum value]
  | .block statements => .tuple [.text "block", .list (toData statements)]
  | .ifThen condition consequence =>
      .tuple [.text "if", toDatum condition, toDatum consequence, .null]
  | .ifElse condition consequence alternative =>
      .tuple [.text "if", toDatum condition, toDatum consequence, toDatum alternative]
  | .call callee arguments => .tuple [.text "call", .text callee, .list (toData arguments)]
  | .func parameters body =>
      .tuple [.text "func", .list (parameters.map Datum.text), .list (toData body)]
  | .strayLet target value => .tuple [.text "let", target, toDatum value]
  | .strayCall callee arguments => .tuple [.text "call", callee, .list (toData arguments)]
  | .strayFunc parameters body _ => .tuple [.text "func", parameters, body]
  | .shownAs content _ => content
  | .stray content => content

def toData : List Node → List Datum
  | [] => []
  | first :: later => toDatum first :: toData later

end

/-- A tree is shown as the datum it is noted with, be it the tree's own or not. -/
theorem toDatum_noted {isOwn : Bool} {content : Datum} {meaning : Node}
    (own : isOwn = true → meaning.toDatum = content) :
    (noted isOwn content meaning).toDatum = content := by
  unfold noted
  split
  · next holds => exact own holds
  · rfl

theorem toDatum_bindingOf (target : Datum) (value : Node) :
    (bindingOf target value).toDatum = .tuple [.text "let", target, value.toDatum] := by
  cases target <;> rfl

theorem toDatum_callOf (callee : Datum) (arguments : List Node) :
    (callOf callee arguments).toDatum =
      .tuple [.text "call", callee, .list (toData arguments)] := by
  cases callee <;> rfl

theorem toDatum_functionOf (parameters body : Datum) (statements : List Node)
    (own : body.isList = true → body = .list (toData statements)) :
    (functionOf parameters body statements).toDatum = .tuple [.text "func", parameters, body] := by
  unfold functionOf
  split
  · next words isList read =>
      rw [Bool.and_eq_true] at isList
      obtain ⟨items, rfl⟩ : ∃ items, parameters = .list items := by
        unfold Datum.isList at isList
        split at isList
        · exact ⟨_, rfl⟩
        · simp at isList
      simp only [toDatum, own isList.2, Datum.map_text_of_mapM read]
      rfl
  · rfl

mutual

/-- A tree is shown as the datum that it was read from. -/
theorem toDatum_ofDatum (datum : Datum) : (ofDatum datum).toDatum = datum := by
  unfold ofDatum
  split
  · rfl
  · rfl
  · rfl
  · rfl
  · next kind tag only =>
      split
      · apply toDatum_noted
        intro own
        simp only [toDatum, toDatum_ofDatum only]
        rw [eq_of_beq own]
      · split
        · next statements read =>
            apply toDatum_noted
            intro own
            rw [Bool.and_eq_true] at own
            rw [eq_of_beq own.1]
            simp only [toDatum]
            rw [← children_list only own.2 read]
        · rfl
      · rfl
  · next kind tag first second =>
      split
      · apply toDatum_noted
        intro own
        rw [toDatum_bindingOf, toDatum_ofDatum second, eq_of_beq own]
      · split
        · next arguments read =>
            apply toDatum_noted
            intro own
            rw [Bool.and_eq_true] at own
            rw [toDatum_callOf, ← children_list second own.2 read, eq_of_beq own.1]
        · rfl
      · apply toDatum_noted
        intro own
        rw [eq_of_beq own]
        apply toDatum_functionOf
        intro isList
        cases second with
        | sequence _ items => exact children_list (.sequence _ items) isList rfl
        | _ => simp [Datum.isList] at isList
      · split
        · next op found =>
            apply toDatum_noted
            intro own
            rw [eq_of_beq own, ← BinaryOp.tag_of_ofTag? found]
            simp only [toDatum, toDatum_ofDatum first, toDatum_ofDatum second]
        · rfl
  · next kind tag condition consequence alternative =>
      split
      · apply toDatum_noted
        intro own
        rw [eq_of_beq own]
        split
        · simp only [toDatum, toDatum_ofDatum condition, toDatum_ofDatum consequence]
        · simp only [toDatum, toDatum_ofDatum condition, toDatum_ofDatum consequence,
            toDatum_ofDatum alternative]
      · rfl
  · rfl

theorem children_list (datum : Datum) {statements : List Node} (isList : datum.isList = true)
    (read : children? datum = some statements) : datum = .list (toData statements) := by
  cases datum with
  | sequence kind items =>
      cases kind with
      | tuple => simp [Datum.isList] at isList
      | list =>
          simp only [children?, Option.some.injEq] at read
          rw [← read, toData_ofData items]
  | _ => simp [Datum.isList] at isList

theorem toData_ofData (items : List Datum) : toData (ofData items) = items := by
  cases items with
  | nil => rfl
  | cons first later => simp only [ofData, toData, toDatum_ofDatum first, toData_ofData later]

end

end Node

end TinyScript
