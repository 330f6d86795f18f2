import TinyScript.Datum
import TinyScript.Failure
import TinyScript.Text.Name

/-!
# Tokens

The words of the language as the parser sees them: numbers, keywords, names, symbols, characters
that mean nothing, and the mark at the end. A list of tokens may also come from outside; then it can
hold truth values, the empty text and data that no source text gives, which no rule of the grammar
accepts except the truth values.
-/

set_option autoImplicit false

namespace TinyScript

/-- The words that are no names. -/
inductive Keyword where
  | letKw
  | fnKw
  | ifKw
  | elseKw
  | returnKw
  | trueKw
  | falseKw
  deriving DecidableEq, Repr

namespace Keyword

def text : Keyword → String
  | .letKw => "let"
  | .fnKw => "fn"
  | .ifKw => "if"
  | .elseKw => "else"
  | .returnKw => "return"
  | .trueKw => "true"
  | .falseKw => "false"

def ofText? : String → Option Keyword
  | "let" => some .letKw
  | "fn" => some .fnKw
  | "if" => some .ifKw
  | "else" => some .elseKw
  | "return" => some .returnKw
  | "true" => some .trueKw
  | "false" => some .falseKw
  | _ => none

end Keyword

/-- Operators and punctuation. -/
inductive Symbol where
  | plus
  | minus
  | star
  | less
  | lessOrEqual
  | assign
  | equal
  | bang
  | notEqual
  | leftParen
  | rightParen
  | leftBrace
  | rightBrace
  | semicolon
  | comma
  deriving DecidableEq, Repr

namespace Symbol

def text : Symbol → String
  | .plus => "+"
  | .minus => "-"
  | .star => "*"
  | .less => "<"
  | .lessOrEqual => "<="
  | .assign => "="
  | .equal => "=="
  | .bang => "!"
  | .notEqual => "!="
  | .leftParen => "("
  | .rightParen => ")"
  | .leftBrace => "\x7b"
  | .rightBrace => "\x7d"
  | .semicolon => ";"
  | .comma => ","

def ofChar? : Char → Option Symbol
  | '+' => some .plus
  | '-' => some .minus
  | '*' => some .star
  | '<' => some .less
  | '=' => some .assign
  | '!' => some .bang
  | '(' => some .leftParen
  | ')' => some .rightParen
  | '\x7b' => some .leftBrace
  | '\x7d' => some .rightBrace
  | ';' => some .semicolon
  | ',' => some .comma
  | _ => none

/-- The longer symbol that an equals sign right behind makes of a symbol. -/
def withEquals? : Symbol → Option Symbol
  | .less => some .lessOrEqual
  | .assign => some .equal
  | .bang => some .notEqual
  | _ => none

def ofText? (spelling : String) : Option Symbol :=
  match spelling.toList with
  | [single] => ofChar? single
  | [single, '='] => (ofChar? single).bind withEquals?
  | _ => none

end Symbol

/-- A word of the language, or what stands in its place in a list from outside. -/
inductive Token where
  | int (value : Int)
  /-- A truth value that is not spelled as a keyword. -/
  | bool (value : Bool)
  | keyword (word : Keyword)
  /-- A text that begins as a name does and is no keyword. -/
  | name (spelling : String)
  | symbol (mark : Symbol)
  /-- Something that was marked as having no meaning, such as a stray character. -/
  | illegal (content : Datum)
  /-- The mark behind the last word. -/
  | endMark
  | empty
  | stray (content : Datum)
  deriving DecidableEq

namespace Token

/-- How the end mark is written in data and messages. -/
def endMarkText : String := "$EOF"

/-- The tag in front of a stray character. -/
def illegalTag : String := "illegal"

def ofText (content : String) : Token :=
  match Keyword.ofText? content, Symbol.ofText? content, content.toList with
  | some word, _, _ => .keyword word
  | none, some mark, _ => .symbol mark
  | none, none, [] => .empty
  | none, none, first :: _ =>
      if Text.isNameFirst first then .name content
      else if content = endMarkText then .endMark
      else .stray (.text content)

def ofDatum : Datum → Token
  | .int value => .int value
  | .bool value => .bool value
  | .text content => ofText content
  | .sequence kind [.text tag, content] =>
      if tag = illegalTag then .illegal content
      else .stray (.sequence kind [.text tag, content])
  | other => .stray other

def toDatum : Token → Datum
  | .int value => .int value
  | .bool value => .bool value
  | .keyword word => .text word.text
  | .name spelling => .text spelling
  | .symbol mark => .text mark.text
  | .illegal content => .tuple [.text illegalTag, content]
  | .endMark => .text endMarkText
  | .empty => .text ""
  | .stray content => content

/-- A token as messages and sources show it. -/
def text (token : Token) : String :=
  token.toDatum.inserted

/-- Whether a datum could name a variable. The empty text has no first character to judge by. -/
def namesVariable (datum : Datum) : Except Failure Bool :=
  match ofDatum datum with
  | .name _ => .ok true
  | .empty => .error ⟨.emptyText, emptyTextMessage⟩
  | _ => .ok false

end Token

end TinyScript
