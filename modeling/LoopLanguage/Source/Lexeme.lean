import LoopLanguage.Token.Literal

/-!
What a source is made of: the longest piece of text that stands at a place and has a meaning there.
Spaces, tabs, carriage returns and form feeds only separate pieces.
-/

namespace LoopLanguage

inductive Lexeme where
  | newline
  | comment (text : List Char)
  | word (text : List Char)
  | number (digits : List Char)
  /-- A string literal; `raw` stands between its quotes. -/
  | string (raw : List Char)
  /-- A string literal that the line or the source ends before its closing quote. -/
  | opened (raw : List Char)
  | assign
  | mark (c : Char)
  | stray (c : Char)
  deriving DecidableEq

namespace Lexeme

def isGap (c : Char) : Bool := c = ' ' || c = '\t' || c = '\r' || c = '\x0c'

def isNameStart (c : Char) : Bool := c.isAlpha || c = '_'

def isNameChar (c : Char) : Bool := c.isAlphanum || c = '_'

def isMark (c : Char) : Bool := c = '+' || c = '(' || c = ')' || c = ',' || c = ';'

/-- The piece that stands at the start of a text. -/
def read? : List Char → Option Lexeme
  | [] => none
  | c :: cs =>
    if c = '\n' then some .newline
    else if c = '#' || (c = '/' && cs.head? = some '/') then
      some (.comment ((c :: cs).takeWhile (· ≠ '\n')))
    else if isNameStart c then some (.word ((c :: cs).takeWhile isNameChar))
    else if c.isDigit then some (.number ((c :: cs).takeWhile Char.isDigit))
    else if c = '"' then
      match Literal.body cs with
      | (raw, some _) => some (.string raw)
      | (raw, none) => some (.opened raw)
    else if c = ':' && cs.head? = some '=' then some .assign
    else if isMark c then some (.mark c)
    else some (.stray c)

/-- The characters of a piece as they stand in the source. -/
def chars : Lexeme → List Char
  | newline => ['\n']
  | comment text => text
  | word text => text
  | number digits => digits
  | string raw => '"' :: raw ++ ['"']
  | opened raw => '"' :: raw
  | assign => [':', '=']
  | mark c => [c]
  | stray c => [c]

end Lexeme

end LoopLanguage
