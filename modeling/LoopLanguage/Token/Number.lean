import LoopLanguage.Number.Numeral

/-!
The value of a number token.
-/

namespace LoopLanguage

/-- Only a number token that consists of digits has a value. -/
def Token.value (t : Token) : Except Error Nat :=
  if t.kind ≠ .number then .error (Error.raised (.notNumberKind t))
  else
    match t.text with
    | .text s => if Text.isDecimal s.toList then Numeral.read s.toList else .error (.notNumberText t)
    | .absent => .error (.notNumberText t)
    | .other _ => .error .unsupported

end LoopLanguage
