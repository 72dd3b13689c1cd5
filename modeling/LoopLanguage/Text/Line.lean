import LoopLanguage.Text.Blank

/-!
Lines of a text. A line ends at any of the characters that end lines in some script; a carriage
return and the line feed after it are one end. Indenting puts two spaces before each line that
has something on it.
-/

namespace LoopLanguage.Text

def isLineEnd (c : Char) : Bool :=
  let n := c.toNat
  (0x0a ≤ n && n ≤ 0x0d) || (0x1c ≤ n && n ≤ 0x1e) || n == 0x85 || n == 0x2028 || n == 0x2029

/-- The lines of a text, each with what ends it. -/
def lines : List Char → List (List Char)
  | [] => []
  | '\r' :: '\n' :: cs => ['\r', '\n'] :: lines cs
  | c :: cs =>
    if isLineEnd c then [c] :: lines cs
    else
      match lines cs with
      | [] => [[c]]
      | line :: rest => (c :: line) :: rest

def indentLine (line : List Char) : List Char :=
  if line.all isBlank then line else ' ' :: ' ' :: line

/-- Two spaces before each line that is not blank. -/
def indent (s : String) : String :=
  String.ofList ((lines s.toList).flatMap indentLine)

end LoopLanguage.Text
