import LoopLanguage.Atom

/-!
Tokens of LOOP sources. A token remembers where it stood and whether it opened a line; two tokens
are the same if their kinds and texts are.
-/

namespace LoopLanguage

inductive Kind where
  | eof
  | newline
  | comment
  | string
  | number
  | identifier
  | assign
  | plus
  | leftParen
  | rightParen
  | comma
  | semicolon
  | kwProgram
  | kwLoop
  | kwDo
  | kwEnd
  | kwInput
  | kwPrint
  deriving DecidableEq, Inhabited

namespace Kind

def all : List Kind :=
  [eof, newline, comment, string, number, identifier, assign, plus, leftParen, rightParen, comma,
    semicolon, kwProgram, kwLoop, kwDo, kwEnd, kwInput, kwPrint]

/-- The name of a kind in documents and in shown tokens. -/
def name : Kind → String
  | eof => "EOF"
  | newline => "NEWLINE"
  | comment => "COMMENT"
  | string => "STRING"
  | number => "NUMBER"
  | identifier => "IDENTIFIER"
  | assign => "ASSIGN"
  | plus => "PLUS"
  | leftParen => "LPAREN"
  | rightParen => "RPAREN"
  | comma => "COMMA"
  | semicolon => "SEMICOLON"
  | kwProgram => "KW_PROGRAM"
  | kwLoop => "KW_LOOP"
  | kwDo => "KW_DO"
  | kwEnd => "KW_END"
  | kwInput => "KW_INPUT"
  | kwPrint => "KW_PRINT"

def ofName? (s : String) : Option Kind := all.find? (·.name == s)

/-- A kind as messages say what was expected: words for a class of tokens, the token itself in
backquotes otherwise. -/
def describe : Kind → String
  | eof => "end of input"
  | newline => "newline"
  | comment => "comment"
  | string => "string"
  | number => "number"
  | identifier => "identifier"
  | assign => "`:=`"
  | plus => "`+`"
  | leftParen => "`(`"
  | rightParen => "`)`"
  | comma => "`,`"
  | semicolon => "`;`"
  | kwProgram => "`PROGRAM`"
  | kwLoop => "`LOOP`"
  | kwDo => "`DO`"
  | kwEnd => "`END`"
  | kwInput => "`INPUT`"
  | kwPrint => "`OUTPUT`"

/-- What to expect when one of several kinds would do. -/
def describeAll : List Kind → String
  | [kind] => kind.describe
  | kinds => "one of " ++ ", ".intercalate (kinds.map describe)

/-- Newlines and comments separate tokens and mean nothing else. -/
def isTrivia : Kind → Bool
  | newline => true
  | comment => true
  | _ => false

theorem ofName?_name (kind : Kind) : ofName? kind.name = some kind := by
  cases kind <;> decide

end Kind

/-- A line and a column of a source, both counted from one. A token that was made up may claim any
place. -/
structure Place where
  line : Int
  column : Int
  deriving DecidableEq, Inhabited

def Place.text (place : Place) : String := toString place.line ++ ":" ++ toString place.column

structure Token where
  kind : Kind
  text : Atom
  place : Place
  lineStart : Bool
  deriving DecidableEq, Inhabited

def Token.same (a b : Token) : Bool := a.kind = b.kind && a.text.key = b.text.key

end LoopLanguage
