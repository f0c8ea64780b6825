import Featherweight.Text.Decimal
import Featherweight.Text.Quoted

/-!
# Tokens

The words of Featherweight JavaScript: symbols, keywords, identifiers and integer literals, and the
end of the input. Symbols and keywords are looked up by their text in one table each.

A token is listed as its kind, its lexeme and its literal (`Token.render`), or as a JSON object
(`Token.renderJson`).
-/

namespace Featherweight

/-- Punctuation and operators. -/
inductive Symbol where
  | leftParen | rightParen | leftBrace | rightBrace | comma | semicolon
  | minus | plus | slash | star | percent
  | equal | equalEqual | greater | greaterEqual | less | lessEqual
  deriving DecidableEq, Repr

namespace Symbol

/-- Every symbol. -/
def all : List Symbol :=
  [leftParen, rightParen, leftBrace, rightBrace, comma, semicolon, minus, plus, slash, star,
    percent, equal, equalEqual, greater, greaterEqual, less, lessEqual]

/-- How the symbol is written in a program. -/
def text : Symbol → String
  | leftParen    => "("
  | rightParen   => ")"
  | leftBrace    => "\x7b"
  | rightBrace   => "\x7d"
  | comma        => ","
  | semicolon    => ";"
  | minus        => "-"
  | plus         => "+"
  | slash        => "/"
  | star         => "*"
  | percent      => "%"
  | equal        => "="
  | equalEqual   => "=="
  | greater      => ">"
  | greaterEqual => ">="
  | less         => "<"
  | lessEqual    => "<="

/-- How the symbol is called in a listing. -/
def name : Symbol → String
  | leftParen    => "LEFT_PAREN"
  | rightParen   => "RIGHT_PAREN"
  | leftBrace    => "LEFT_BRACE"
  | rightBrace   => "RIGHT_BRACE"
  | comma        => "COMMA"
  | semicolon    => "SEMICOLON"
  | minus        => "MINUS"
  | plus         => "PLUS"
  | slash        => "SLASH"
  | star         => "STAR"
  | percent      => "PERCENT"
  | equal        => "EQUAL"
  | equalEqual   => "EQUAL_EQUAL"
  | greater      => "GREATER"
  | greaterEqual => "GREATER_EQUAL"
  | less         => "LESS"
  | lessEqual    => "LESS_EQUAL"

/-- The symbol written `cs`. -/
def ofText? (cs : List Char) : Option Symbol := all.find? fun s => s.text.toList = cs

theorem mem_all (s : Symbol) : s ∈ all := by cases s <;> decide

end Symbol

/-- The reserved words. -/
inductive Keyword where
  | elseWord | falseWord | functionWord | ifWord | nullWord | printWord | trueWord | varWord
  | whileWord
  deriving DecidableEq, Repr

namespace Keyword

/-- Every keyword. -/
def all : List Keyword :=
  [elseWord, falseWord, functionWord, ifWord, nullWord, printWord, trueWord, varWord, whileWord]

/-- How the keyword is written in a program. -/
def text : Keyword → String
  | elseWord     => "else"
  | falseWord    => "false"
  | functionWord => "function"
  | ifWord       => "if"
  | nullWord     => "null"
  | printWord    => "print"
  | trueWord     => "true"
  | varWord      => "var"
  | whileWord    => "while"

/-- How the keyword is called in a listing. -/
def name : Keyword → String
  | elseWord     => "ELSE"
  | falseWord    => "FALSE"
  | functionWord => "FUNCTION"
  | ifWord       => "IF"
  | nullWord     => "NULL"
  | printWord    => "PRINT"
  | trueWord     => "TRUE"
  | varWord      => "VAR"
  | whileWord    => "WHILE"

/-- The keyword written `cs`. -/
def ofText? (cs : List Char) : Option Keyword := all.find? fun k => k.text.toList = cs

theorem mem_all (k : Keyword) : k ∈ all := by cases k <;> decide

end Keyword

/-- What a token is. An integer literal carries its value. -/
inductive TokenKind where
  | symbol (s : Symbol)
  | keyword (k : Keyword)
  | identifier
  | int (value : Int64)
  | eof
  deriving DecidableEq, Repr

namespace TokenKind

/-- How the kind is called in a listing. -/
def name : TokenKind → String
  | symbol s   => s.name
  | keyword k  => k.name
  | identifier => "IDENTIFIER"
  | int _      => "INT"
  | eof        => "EOF"

/-- The kind of that name in a listing, with `value` as the value of an integer literal. -/
def ofName? (name : String) (value : Int64) : Option TokenKind :=
  (Symbol.all.map symbol ++ Keyword.all.map keyword ++ [identifier, int value, eof]).find?
    fun kind => kind.name = name

/-- Are the kinds the same but for the value of an integer literal? -/
def same : TokenKind → TokenKind → Bool
  | int _, int _ => true
  | a, b         => a = b

/-- The kind as a JSON value. -/
def renderJson : TokenKind → String
  | int n => "\x7b\"INT\":" ++ Text.Decimal.ofInt n.toInt ++ "\x7d"
  | kind  => Text.Quoted.json kind.name

end TokenKind

/-- A token: its kind, the piece of the program it was read from, and the line it stands on. -/
structure Token where
  kind : TokenKind
  lexeme : String
  line : Nat
  deriving DecidableEq, Repr

namespace Token

/-- Are the tokens the same but for the value of an integer literal? -/
def same (a b : Token) : Bool := a.kind.same b.kind && a.lexeme == b.lexeme && a.line == b.line

/-- The literal of a token in a listing. -/
def literal (t : Token) : String :=
  match t.kind with
  | .int n => Text.Decimal.ofInt n.toInt
  | _      => "null"

/-- The token in a listing: kind, lexeme and literal. -/
def render (t : Token) : String := t.kind.name ++ " " ++ t.lexeme ++ " " ++ t.literal

/-- The token as a JSON object on one line. -/
def renderJson (t : Token) : String :=
  "\x7b\"token_type\":" ++ t.kind.renderJson ++ ",\"lexeme\":" ++ Text.Quoted.json t.lexeme ++
    ",\"line\":" ++ Text.Decimal.ofInt t.line ++ "\x7d"

end Token

end Featherweight
