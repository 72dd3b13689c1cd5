import LoopLanguage.Registry
import LoopLanguage.Statement.Source

/-!
Statements as JSON documents. Writing keeps everything but the places of tokens. Loading is
lenient about values and strict about programs: a call needs a program that was defined before
it, with as many parameters, and each program is defined once.
-/

namespace LoopLanguage

def Token.toDocument (t : Token) : Json :=
  .obj [("kind", .str t.kind.name), ("text", t.text.toJson)]

namespace Statement

def typed (type : String) (fields : List (String × Json)) : Json :=
  .obj (("type", .str type) :: fields)

def namesDocument (names : List Atom) : Json := .arr (names.map Atom.toJson)

def tokensDocument (tokens : List Token) : Json := .arr (tokens.map Token.toDocument)

mutual

/-- The document of a statement, which has to be ready. -/
def toDocument : Statement → Except Error Json
  | assign target value => do
    checkReady (assign target value)
    return typed "AssignNumber" [("variable", target.toJson), ("number", .int value)]
  | increment target operand => do
    checkReady (increment target operand)
    return typed "AssignPlus" [("variable", target.toJson), ("source", operand.toJson)]
  | call target callee args => do
    checkReady (call target callee args)
    return typed "AssignCall"
      [("variable", target.toJson), ("program", callee.toJson), ("args", namesDocument args)]
  | input targets => .ok (typed "Input" [("targets", tokensDocument targets)])
  | output items => .ok (typed "Print" [("items", tokensDocument items)])
  | loop count body => do
    checkReady (loop count body)
    return typed "Loop" [("variable", count.toJson), ("body", .arr (← toDocuments body))]
  | define name params body => do
    checkReady (define name params body)
    return typed "Definition"
      [("name", name.toJson), ("params", namesDocument params), ("body", .arr (← toDocuments body))]
  | missing => .ok .null
  | token t => .ok (.obj [("__type__", .str "Token"), ("value", t.toDocument)])
  | program body => do return typed "Program" [("body", .arr (← toDocuments body))]

def toDocuments : List Statement → Except Error (List Json)
  | [] => .ok []
  | s :: rest => do
    let first ← toDocument s
    return first :: (← toDocuments rest)

end

end Statement

namespace Document

/-- A plain value is no statement; only nothing can be written. -/
def ofValue : Json → Except Error Json
  | .null => .ok .null
  | value => .error (.notSerializable value.typeName)

def field (fields : List (String × Json)) (key : String) : Except Error Json :=
  match Json.field? fields key with
  | some value => .ok value
  | none => .error (.missingField (.str key))

/-- The items of a value that is gone through: the characters of a text, the names of an object's
fields. -/
def items : Json → Except Error (List Json)
  | .arr values => .ok values
  | .str s => .ok (s.toList.map fun c => .str (String.ofList [c]))
  | .obj fields => .ok (fields.map fun f => .str f.1)
  | value => .error (.notIterable value.typeName)

/-- The whole number that a value stands for. -/
def wholeNumber : Json → Except Error Int
  | .int n => .ok n
  | .bool b => .ok (if b then 1 else 0)
  | .real (.finite negative significand exponent) =>
    .ok (Binary64.truncate negative significand exponent)
  | .real (.infinite _) => .error .infiniteNumber
  | .real .nan => .error .notANumber
  | .str s => Numeral.parse s
  | value => .error (.notConvertible value.typeName)

def kind : Json → Except Error Kind
  | .str s =>
    match Kind.ofName? s with
    | some kind => .ok kind
    | none => .error (.missingField (.str s))
  | .arr values => .error (.notAKey (Json.arr values).typeName)
  | .obj fields => .error (.notAKey (Json.obj fields).typeName)
  | value => .error (.missingField value)

/-- A token from a document has no place of its own. -/
def token : Json → Except Error Token
  | .obj fields => do
    let kind ← kind (← field fields "kind")
    let text := Atom.ofJson ((Json.field? fields "text").getD .null)
    return ⟨kind, text, ⟨0, 0⟩, false⟩
  | value => .error (.notSubscriptable value)

def tokens (value : Json) : Except Error (List Token) := do (← items value).mapM token

def names (value : Json) : Except Error (List Atom) := do
  return (← items value).map Atom.ofJson

/-- The target, callee and arguments of a call, once the callee is known to fit. -/
def call (registry : Registry) (fields : List (String × Json)) : Except Error Statement := do
  let callee := Atom.ofJson (← field fields "program")
  let args ← names (← field fields "args")
  if ← registry.contains callee then
    let definition ← registry.lookup callee
    if args.length = definition.params.length then
      return .call (Atom.ofJson (← field fields "variable")) callee args
    else .error (Error.raised (.callArity callee definition.params.length args.length none))
  else .error (Error.raised (.notYetDefined callee none))

/-- The statements that have no body. -/
def plain (registry : Registry) (type : Json) (fields : List (String × Json)) :
    Except Error Statement :=
  match type with
  | .str "AssignNumber" => do
    let target ← field fields "variable"
    return .assign (Atom.ofJson target) (← wholeNumber (← field fields "number"))
  | .str "AssignPlus" => do
    let target ← field fields "variable"
    return .increment (Atom.ofJson target) (Atom.ofJson (← field fields "source"))
  | .str "AssignCall" => call registry fields
  | .str "Input" => do return .input (← tokens (← field fields "targets"))
  | .str "Print" => do return .output (← tokens (← field fields "items"))
  | _ => .error (Error.raised (.unknownNodeType type))

def isToken (fields : List (String × Json)) : Bool :=
  Json.field? fields "__type__" = some (.str "Token")

mutual

/-- The statement of a document. A definition is registered once its body is loaded, so that
neither its body nor anything before it can call it. -/
def load : Json → Action Registry Statement
  | .null => return .missing
  | .obj fields =>
    if isToken fields then
      Action.ofExcept (do return .token (← token (← field fields "value")))
    else
      match Json.field? fields "type" with
      | some (.str "Program") => do return .program (← loadBody fields)
      | some (.str "Loop") => do
        let count ← Action.ofExcept (field fields "variable")
        return .loop (Atom.ofJson count) (← loadBody fields)
      | some (.str "Definition") => do
        let body ← loadBody fields
        let name := Atom.ofJson (← Action.ofExcept (field fields "name"))
        let params ← Action.ofExcept (do names (← field fields "params"))
        Registry.define ⟨name, params, body⟩
        return .define name params body
      | type => do Action.ofExcept (plain (← Action.get) (type.getD .null) fields)
  | _ => Action.fail .notAnObject

/-- The statements under the field `body`. -/
def loadBody : List (String × Json) → Action Registry (List Statement)
  | [] => Action.fail (.missingField (.str "body"))
  | (key, value) :: fields => if key = "body" then loadItems value else loadBody fields

/-- The statements that a value lists; a text and an object list texts, which are none. -/
def loadItems : Json → Action Registry (List Statement)
  | .arr values => loadAll values
  | .str s => if s.isEmpty then return [] else Action.fail .notAnObject
  | .obj fields => if fields.isEmpty then return [] else Action.fail .notAnObject
  | value => Action.fail (.notIterable value.typeName)

def loadAll : List Json → Action Registry (List Statement)
  | [] => return []
  | value :: values => do
    let first ← load value
    return first :: (← loadAll values)

end

end Document

end LoopLanguage
