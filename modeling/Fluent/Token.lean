/-
This file holds the tokens of a program and the kinds that tell them apart.
-/

namespace Fluent

inductive Kind where
  | illegal
  | finish
  | blank
  | identifier
  | define
  | text
  | float
  | integer
  | semicolon
  | dot
  | comma
  | openParen
  | closeParen
  | trueWord
  | falseWord
  | nullWord
  | blob
  deriving DecidableEq, Repr

def Kind.name : Kind → String
  | .illegal => "ILLEGAL"
  | .finish => "EOF"
  | .blank => "WHITESPACE"
  | .identifier => "IDENT"
  | .define => "DEFINE"
  | .text => "STRING"
  | .float => "FLOAT"
  | .integer => "INT"
  | .semicolon => "SEMI"
  | .dot => "DOT"
  | .comma => "COMMA"
  | .openParen => "OPEN_PAREN"
  | .closeParen => "CLOSE_PAREN"
  | .trueWord => "TRUE"
  | .falseWord => "FALSE"
  | .nullWord => "NULL"
  | .blob => "JSON_BLOB"

/-- Every kind, once. -/
def Kind.all : List Kind :=
  [.illegal, .finish, .blank, .identifier, .define, .text, .float, .integer, .semicolon, .dot,
    .comma, .openParen, .closeParen, .trueWord, .falseWord, .nullWord, .blob]

theorem Kind.mem_all (kind : Kind) : kind ∈ Kind.all := by
  cases kind <;> decide

def Kind.ofName? (name : String) : Option Kind :=
  Kind.all.find? fun kind => kind.name = name

theorem Kind.ofName?_name (kind : Kind) : Kind.ofName? kind.name = some kind := by
  cases kind <;> decide

structure Token where
  kind : Kind
  literal : String
  deriving DecidableEq, Repr

/-- A token as its kind and its text. -/
def Token.render (token : Token) : String :=
  token.kind.name ++ " " ++ token.literal

end Fluent
