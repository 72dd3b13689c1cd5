import LoopLanguage.Error
import LoopLanguage.Text.Blank
import LoopLanguage.Text.Digit

/-!
Numbers as texts. Neither reading nor writing goes beyond `Text.maxDigits` digits. A number in a
document may have a sign, blanks around it and single underscores between its digits.
-/

namespace LoopLanguage.Numeral

/-- The number that a row of digits stands for, leading zeros counting as digits. -/
def read (digits : List Char) : Except Error Nat :=
  if digits.length > Text.maxDigits then .error (.tooManyDigitsRead digits.length)
  else .ok (Text.ofDigits digits)

def write (n : Int) : Except Error String :=
  if n.natAbs < Text.digitLimit then .ok (toString n) else .error .tooManyDigitsWritten

/-- Underscores stand one at a time and only between digits. -/
def wellGrouped : List Char → Bool
  | [] => true
  | ['_'] => false
  | '_' :: '_' :: _ => false
  | _ :: cs => wellGrouped cs

/-- The whole number that a text in a document stands for. -/
def parse (s : String) : Except Error Int :=
  let cs := s.toList.dropWhile Text.isMargin
  let sign := (cs.take 1).takeWhile fun c => c = '+' || c = '-'
  let unsigned := cs.drop sign.length
  let word := unsigned.takeWhile fun c => c = '_' || (Text.digit? c).isSome
  let digits := word.filter (· ≠ '_')
  if word.head? = some '_' || digits.isEmpty || !wellGrouped word then .error (.notWholeNumber s)
  else if digits.length > Text.maxDigits then .error (.tooManyDigitsRead digits.length)
  else if !(unsigned.drop word.length).all Text.isMargin then .error (.notWholeNumber s)
  else
    let n : Int := Text.ofDigits digits
    .ok (if sign = ['-'] then -n else n)

end LoopLanguage.Numeral
