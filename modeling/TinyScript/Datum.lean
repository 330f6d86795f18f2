import TinyScript.Text.Quoted

/-!
# Raw data

A token or a tree that comes from outside may have any shape. It arrives as a datum: a truth value,
a number, a text, nothing at all, or a sequence of data. Messages show data in one notation, where
tuples and lists differ in their brackets.
-/

set_option autoImplicit false

namespace TinyScript

/-- The two kinds of sequences, which differ in the brackets they are shown with. -/
inductive SequenceKind where
  | tuple
  | list
  deriving DecidableEq, Repr

/-- Data of any shape. -/
inductive Datum where
  | null
  | bool (value : Bool)
  | int (value : Int)
  | text (content : String)
  | sequence (kind : SequenceKind) (items : List Datum)
  deriving Inhabited

namespace Datum

abbrev tuple (items : List Datum) : Datum := .sequence .tuple items

abbrev list (items : List Datum) : Datum := .sequence .list items

def truthText (value : Bool) : String :=
  if value then "True" else "False"

/-- A sequence from the notations of its items. A tuple of one item keeps a comma, so that it
differs from a grouped item. -/
def bracketed : SequenceKind → List String → String
  | .tuple, [only] => "(" ++ only ++ ",)"
  | .tuple, shown => "(" ++ String.intercalate ", " shown ++ ")"
  | .list, shown => "[" ++ String.intercalate ", " shown ++ "]"

mutual

/-- The notation of a datum, in which texts are quoted. -/
def quote : Datum → String
  | .null => "None"
  | .bool value => truthText value
  | .int value => value.repr
  | .text content => Text.quoted content
  | .sequence kind items => bracketed kind (quoteAll items)

def quoteAll : List Datum → List String
  | [] => []
  | first :: later => quote first :: quoteAll later

end

mutual

/-- Whether two data are the same. A truth value is never a number. -/
def same : Datum → Datum → Bool
  | .null, .null => true
  | .bool left, .bool right => left == right
  | .int left, .int right => left == right
  | .text left, .text right => left == right
  | .sequence leftKind left, .sequence rightKind right =>
      leftKind == rightKind && sameAll left right
  | _, _ => false

def sameAll : List Datum → List Datum → Bool
  | [], [] => true
  | left :: leftLater, right :: rightLater => same left right && sameAll leftLater rightLater
  | _, _ => false

end

mutual

theorem same_iff (left right : Datum) : left.same right = true ↔ left = right := by
  cases left with
  | sequence kind items => cases right <;> simp [same, sameAll_iff items]
  | _ => cases right <;> simp [same]

theorem sameAll_iff (left right : List Datum) : sameAll left right = true ↔ left = right := by
  cases left with
  | nil => cases right <;> simp [sameAll]
  | cons first later => cases right <;> simp [sameAll, same_iff first, sameAll_iff later]

end

instance : DecidableEq Datum := fun left right => decidable_of_iff _ (same_iff left right)

/-- How a datum is put into a message: a text as it is, anything else in its notation. -/
def inserted : Datum → String
  | .text content => content
  | other => quote other

/-- Whether a datum is a number. Truth values are none. -/
def isInteger : Datum → Bool
  | .int _ => true
  | _ => false

def isList : Datum → Bool
  | .sequence .list _ => true
  | _ => false

/-- What a datum holds: the items of a sequence, or the characters of a text. Other data hold
nothing. -/
def items : Datum → List Datum
  | .sequence _ items => items
  | .text content => content.toList.map fun character => .text (String.singleton character)
  | _ => []

def text? : Datum → Option String
  | .text content => some content
  | _ => none

/-- The words that a datum holds, if it holds words only. -/
def words? (datum : Datum) : Option (List String) :=
  datum.items.mapM text?

theorem map_text_of_mapM {items : List Datum} {words : List String}
    (read : items.mapM text? = some words) : words.map text = items := by
  induction items generalizing words with
  | nil => simp at read; subst read; rfl
  | cons first later ih =>
      simp only [List.mapM_cons, bind, Option.bind_eq_some_iff, pure] at read
      obtain ⟨word, firstRead, rest, laterRead, rfl⟩ := by simpa using read
      cases first <;> simp [text?] at firstRead
      subst firstRead
      simp [ih laterRead]

end Datum

end TinyScript
