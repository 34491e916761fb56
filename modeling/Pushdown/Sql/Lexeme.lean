import Pushdown.Sql.Dialect

/-!
# Lexemes of a statement

A statement is written as a list of lexemes, blanks included, and its text is their
concatenation.  Only identifiers depend on the quoting style, so the lexemes are the same in all
dialects.

An operator without the operand that it needs cuts the writing short: a `Script` keeps what was
written up to there and takes nothing more.
-/

namespace Pushdown.Sql

/-- A smallest piece of a written statement. -/
inductive Lexeme where
  | blank
  /-- A keyword, an operator symbol or a punctuation mark. -/
  | word (text : String)
  | identifier (parts : List String)
  | numeral (text : String)
  | string (content : String)
  /-- The name of a function or of a type, never quoted. -/
  | verbatim (text : String)
  deriving DecidableEq

/-- The text of a lexeme under a quoting style. -/
def Lexeme.text (style : QuoteStyle) : Lexeme → String
  | .blank => " "
  | .word text => text
  | .identifier parts => style.identifier parts
  | .numeral text => text
  | .string content => Text.quoted '\'' '\'' content
  | .verbatim text => text

/-- The text of a list of lexemes. -/
def textOf (style : QuoteStyle) (lexemes : List Lexeme) : String :=
  String.join (lexemes.map (Lexeme.text style))

/-- A minus sign, if there is one, is a lexeme of its own. -/
def signed (negative : Bool) (unsigned : String) : List Lexeme :=
  if negative then [.word "-", .numeral unsigned] else [.numeral unsigned]

/-- The lexemes of a literal. -/
def literalLexemes : Literal → List Lexeme
  | .null => [.word "NULL"]
  | .boolean true => [.word "TRUE"]
  | .boolean false => [.word "FALSE"]
  | .integer n => signed (n.toInt < 0) (toString n.toInt.natAbs)
  | .decimal text =>
    match text.toList with
    | '-' :: rest => signed true (String.ofList rest)
    | _ => signed false text
  | .double x => signed x.hasMinus x.unsignedText
  | .string content => [.string content]

/-- A statement as far as it could be written. -/
structure Script where
  lexemes : List Lexeme
  complete : Bool
  deriving DecidableEq

namespace Script

/-- A script that lacks nothing. -/
def ofList (lexemes : List Lexeme) : Script := ⟨lexemes, true⟩

/-- Nothing, and nothing lacking. -/
def empty : Script := ofList []

/-- The place of an operand that is not there. -/
def missing : Script := ⟨[], false⟩

/-- Writes `next` after `s`, unless `s` was cut short. -/
def append (s next : Script) : Script :=
  if s.complete then ⟨s.lexemes ++ next.lexemes, next.complete⟩ else s

instance : Append Script := ⟨append⟩

/-- One word. -/
def word (text : String) : Script := ofList [.word text]

/-- Words with blanks between them. -/
def words (texts : List String) : Script :=
  ofList ((texts.map Lexeme.word).intersperse .blank)

/-- One blank. -/
def blank : Script := ofList [.blank]

/-- Words with blanks between them and around them. -/
def spaced (texts : List String) : Script := blank ++ words texts ++ blank

/-- A comma and a blank. -/
def comma : Script := word "," ++ blank

/-- The script in round brackets. -/
def bracketed (s : Script) : Script := word "(" ++ s ++ word ")"

/-- The text of the script; one that was cut short is marked as malformed. -/
def text (style : QuoteStyle) (s : Script) : String :=
  if s.complete then textOf style s.lexemes else textOf style s.lexemes ++ " /* malformed */"

end Script

end Pushdown.Sql
