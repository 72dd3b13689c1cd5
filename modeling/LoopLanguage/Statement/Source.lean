import LoopLanguage.Statement.Basic
import LoopLanguage.Text.Letter
import LoopLanguage.Text.Line
import LoopLanguage.Token.Number

/-!
Statements written out as source in canonical form: variables in small letters, programs in
capitals, one statement on a line and bodies indented.
-/

namespace LoopLanguage

/-- A variable in small letters. -/
def Atom.variableSource : Atom → Except Error String
  | .text s => .ok (Text.lower s)
  | _ => .error .unsupported

/-- A program's name in capitals. -/
def Atom.programSource : Atom → Except Error String
  | .text s => .ok (Text.upper s)
  | _ => .error .unsupported

def Atom.literalSource (a : Atom) : Except Error String :=
  match a.literal? with
  | some s => .ok s
  | none => .error .notText

/-- A prompt or a variable of `INPUT`. -/
def Token.targetSource (t : Token) : Except Error String :=
  if t.kind = .string then t.text.literalSource else t.text.variableSource

/-- An item of `OUTPUT`; a number loses its leading zeros. -/
def Token.itemSource (t : Token) : Except Error String :=
  if t.kind = .string then t.text.literalSource
  else if t.kind = .number then do Numeral.write (← t.value)
  else t.text.variableSource

namespace Statement

def commaList {α : Type} (f : α → Except Error String) (items : List α) : Except Error String := do
  return ", ".intercalate (← items.mapM f)

/-- Fail unless the statement is ready. -/
def checkReady (s : Statement) : Except Error Unit :=
  match s.form? with
  | some form => if s.isReady then .ok () else .error (.uninitialized form.label)
  | none => .error .unsupported

/-- A header, an indented body and the closing word. -/
def blockSource (header : String) (body : List String) : String :=
  "\n".intercalate (header :: body.map Text.indent ++ ["END"])

mutual

def source : Statement → Except Error String
  | assign target value => do
    checkReady (assign target value)
    return (← target.variableSource) ++ " := " ++ (← Numeral.write value)
  | increment target operand => do
    checkReady (increment target operand)
    return (← target.variableSource) ++ " := " ++ (← operand.variableSource) ++ " + 1"
  | call target callee args => do
    checkReady (call target callee args)
    let args ← commaList Atom.variableSource args
    return (← target.variableSource) ++ " := " ++ (← callee.programSource) ++ "(" ++ args ++ ")"
  | input targets => do return "INPUT " ++ (← commaList Token.targetSource targets)
  | output items => do return "OUTPUT " ++ (← commaList Token.itemSource items)
  | loop count body => do
    checkReady (loop count body)
    let header := "LOOP " ++ (← count.variableSource) ++ " DO"
    return blockSource header (← sources body)
  | define name params body => do
    checkReady (define name params body)
    let params ← commaList Atom.variableSource params
    let header := "PROGRAM " ++ (← name.programSource) ++ "(" ++ params ++ ") DO"
    return blockSource header (← sources body)
  | missing => .error .unsupported
  | token _ => .error .unsupported
  | program body => do return "\n".intercalate (← sources body)

def sources : List Statement → Except Error (List String)
  | [] => .ok []
  | s :: rest => do
    let first ← source s
    return first :: (← sources rest)

end

/-- The canonical source of a program. -/
def programSource (body : List Statement) : Except Error String := source (program body)

end Statement

end LoopLanguage
