import LoopLanguage.Text.Printable

/-!
Texts shown in messages, between quotes. Single quotes are used unless the text has one and has no
double quote. What cannot be printed is shown by its code point in the shortest form that fits.
-/

namespace LoopLanguage.Text

def hexDigit (n : Nat) : Char :=
  Char.ofNat (if n < 10 then '0'.toNat + n else 'a'.toNat + (n - 10))

/-- The last `width` hexadecimal digits of `n`. -/
def hex : Nat → Nat → List Char
  | 0, _ => []
  | width + 1, n => hex width (n / 16) ++ [hexDigit (n % 16)]

/-- A character as it stands between quotes of the form `mark`. -/
def quoteChar (mark c : Char) : List Char :=
  if c = mark || c = '\\' then ['\\', c]
  else if c = '\n' then ['\\', 'n']
  else if c = '\r' then ['\\', 'r']
  else if c = '\t' then ['\\', 't']
  else if isPrintable c then [c]
  else if c.toNat < 0x100 then '\\' :: 'x' :: hex 2 c.toNat
  else if c.toNat < 0x10000 then '\\' :: 'u' :: hex 4 c.toNat
  else '\\' :: 'U' :: hex 8 c.toNat

def quote (s : String) : String :=
  let cs := s.toList
  let mark := if cs.contains '\x27' && !cs.contains '"' then '"' else '\x27'
  String.ofList (mark :: cs.flatMap (quoteChar mark) ++ [mark])

end LoopLanguage.Text
