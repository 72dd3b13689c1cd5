import LoopLanguage.Grammar.Phrase
import LoopLanguage.Source.Parser

/-!
The statements that phrases stand for. Only a source that is well formed everywhere has a meaning;
then the rules on programs and numbers are checked from the inside out and from left to right. That
this is the order in which a transformer of Lark goes over the tree of a source is granted.
-/

namespace LoopLanguage.Grammar

/-- The token of a piece that is an identifier, a number or a string. No other terminal has a
token. -/
def Piece.token (piece : Piece) : Except Error Token :=
  match piece.terminal with
  | .string =>
    match Literal.decode (piece.text.toList.drop 1).dropLast with
    | some text => .ok ⟨.string, .text (String.ofList text), piece.place, false⟩
    | none => .error (.invalidEscape piece.place.text)
  | .number => .ok ⟨.number, .text piece.text, piece.place, false⟩
  | .identifier => .ok ⟨.identifier, .text piece.text, piece.place, false⟩
  | terminal => .error (.missingField (.str terminal.name))

def Piece.value (piece : Piece) : Except Error Nat := do (← piece.token).value

def Piece.atom (piece : Piece) : Atom := .text piece.text

namespace Phrase

mutual

def meaning : Phrase → Action Registry Statement
  | assign target number => do
    return .assign target.atom (← Action.ofExcept number.value)
  | increment target operand number => do
    if (← Action.ofExcept number.value) ≠ 1 then Action.fail (.notPlusOne number.atom number.place)
    else return .increment target.atom operand.atom
  | call target callee args => do
    if !(← Action.ofExcept ((← Action.get).contains callee.atom)) then
      Action.fail (.notYetDefined callee.atom (some callee.place))
    else
      let definition ← Action.ofExcept ((← Action.get).lookup callee.atom)
      if args.length ≠ definition.params.length then
        Action.fail
          (.callArity callee.atom definition.params.length args.length (some callee.place))
      else return .call target.atom callee.atom (args.map Piece.atom)
  | input items => do return .input (← Action.ofExcept (items.mapM Piece.token))
  | output items => do
    let tokens ← Action.ofExcept (items.mapM Piece.token)
    Action.ofExcept (Parser.checkNumbers tokens)
    return .output tokens
  | loop count body => do return .loop count.atom (← meanings body)
  | define name params body => do
    let body ← meanings body
    let params := params.map Piece.atom
    if ¬params.Nodup then Action.fail (.repeatedParameter name.text name.place)
    else
      Registry.define ⟨name.atom, params, body⟩
      return .define name.atom params body

def meanings : List Phrase → Action Registry (List Statement)
  | [] => return []
  | phrase :: phrases => do
    let first ← meaning phrase
    return first :: (← meanings phrases)

end

end Phrase

end LoopLanguage.Grammar

namespace LoopLanguage

/-- The program of a source, parsed by the grammar. A source that is not well formed leaves the
registry as it was. -/
def parseByGrammar (source : String) : Action Registry (List Statement) := fun registry =>
  match Grammar.program (Grammar.Feed.ofSource source) with
  | (.ok phrases, _) => Grammar.Phrase.meanings phrases registry
  | (.error e, _) => (.error e, registry)

end LoopLanguage
