import LoopLanguage.Token.Basic
import LoopLanguage.Token.Literal

/-!
Tokens as messages show them: the name of the kind and the text in brackets. The texts of strings
and newlines are shown as literals.
-/

namespace LoopLanguage

/-- What stands where a text belongs, as a literal: a text, or a collection of texts, which are put
together. -/
def Atom.literal? : Atom → Option String
  | .text s => some (Literal.quote s)
  | .other (.arr items) => (items.mapM Json.text?).map Literal.quotePieces
  | .other (.obj fields) => some (Literal.quotePieces (fields.map (·.1)))
  | _ => none

namespace Token

/-- Whether the text is shown as a literal. -/
def showsLiteral (t : Token) : Bool :=
  (t.kind = .string || t.kind = .newline) && t.text.isPresent

def display (t : Token) : String :=
  let shown := if t.showsLiteral then t.text.literal?.getD t.text.display else t.text.display
  t.kind.name ++ "[" ++ shown ++ "]"

end Token

end LoopLanguage
