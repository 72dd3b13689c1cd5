import LoopLanguage.Execution.Machine

/-!
Running statements. A loop reads its count once and a call sees nothing of its caller but the
values of its arguments, so the only thing that bounds a run beforehand is how deep calls go.
-/

namespace LoopLanguage

namespace Output

/-- What stands for a variable that has no value. -/
def placeholder : String := "undefined"

/-- The text of an item that is no string. -/
def itemText (store : Store) (t : Token) : Except Error String :=
  if t.kind = .number then do Numeral.write (← t.value)
  else do
    t.text.checkKey
    match store.get? t.text with
    | some value => Numeral.write value
    | none => do
      let _ ← t.text.shown
      return placeholder

/-- The parts of a line: a space comes between two items that are no strings. `afterString` says
that the item before was a string, or that there was none. -/
def parts (store : Store) : Bool → List Token → Except Error (List Atom)
  | _, [] => .ok []
  | afterString, t :: items =>
    if t.kind = .string then do return t.text :: (← parts store true items)
    else do
      let text ← itemText store t
      let rest ← parts store false items
      return if afterString then .text text :: rest else .text " " :: .text text :: rest

/-- Put the parts together; each has to be a text. -/
def join : List Atom → Except Error String
  | [] => .ok ""
  | .text s :: rest => do return s ++ (← join rest)
  | _ :: _ => .error .notText

/-- The line that `OUTPUT` prints for the items. -/
def render (store : Store) (items : List Token) : Except Error String := do
  join (← parts store true items)

end Output

namespace Machine

/-- Print a prompt, or read a number into a variable. -/
def readTarget (tracing : Tracing) (t : Token) : Action Machine Unit := do
  if t.kind = .string then print (← Action.ofExcept t.text.shown)
  else
    match (← Action.get).input with
    | [] => Action.fail (Error.raised (.inputEnded t.text))
    | line :: input =>
      Action.modify fun machine => { machine with input }
      let digits := Text.strip line.toList
      if !Text.isDecimal digits then
        Action.fail (Error.raised (.inputNotNumber t.text (String.ofList digits)))
      else
        let value ← Action.ofExcept (Numeral.read digits)
        setVariable t.text value
        let name ← Action.ofExcept t.text.shown
        emit tracing 2 ("input " ++ name ++ " = " ++ String.ofList digits)

def readTargets (tracing : Tracing) : List Token → Action Machine Unit
  | [] => return ()
  | t :: targets => do
    readTarget tracing t
    readTargets tracing targets

/-- Store a value and trace it. -/
def assign (tracing : Tracing) (target : Atom) (value : Int) : Action Machine Unit := do
  setVariable target value
  let name ← Action.ofExcept target.shown
  let shown ← Action.ofExcept (Numeral.write value)
  emit tracing 2 (name ++ " := " ++ shown)

/-- The value of an operand; if it has none the message shows the whole statement. -/
def operandValue (target operand : Atom) : Action Machine Int := do
  Action.ofExcept operand.checkKey
  match (← Action.get).store.get? operand with
  | some value => return value
  | none =>
    let _ ← Action.ofExcept operand.shown
    let source ← Action.ofExcept (Statement.increment target operand).source
    Action.fail (.undefinedVariable operand (some ("in `" ++ source ++ "`")))

def loopCount (count : Atom) : Action Machine Int := do
  Action.ofExcept count.checkKey
  match (← Action.get).store.get? count with
  | some value => return value
  | none => Action.fail (Error.raised (.undefinedCount count))

/-- Programs are registered when they are parsed; one that was not is registered here. -/
def register (definition : Definition) : Action Machine Unit := do
  if ← Action.ofExcept ((← Action.get).registry.contains definition.name) then return ()
  else
    Action.onPart Machine.registry (fun machine registry => { machine with registry })
      (Registry.define definition)

mutual

/-- Execute a statement, its calls by `call`. -/
def execute (tracing : Tracing) (call : Atom → List Atom → Action Machine Int) :
    Statement → Action Machine Unit
  | .assign target value => do
    Action.ofExcept (Statement.assign target value).checkReady
    assign tracing target value
  | .increment target operand => do
    Action.ofExcept (Statement.increment target operand).checkReady
    let value ← operandValue target operand
    assign tracing target (value + 1)
  | .call target callee args => do
    Action.ofExcept (Statement.call target callee args).checkReady
    let value ← call callee args
    setVariable target value
  | .input targets => readTargets tracing targets
  | .output items => do
    let line ← Action.ofExcept (Output.render (← Action.get).store items)
    print (line ++ "\n")
  | .loop count body => do
    Action.ofExcept (Statement.loop count body).checkReady
    let value ← loopCount count
    let name ← Action.ofExcept count.shown
    let shown ← Action.ofExcept (Numeral.write value)
    emit tracing 3 ("loop " ++ name ++ " x" ++ shown)
    iterate (executeBlock tracing call body) value.toNat
  | .define name params body => do
    Action.ofExcept (Statement.define name params body).checkReady
    register ⟨name, params, body⟩
  | .missing => Action.fail .unsupported
  | .token _ => Action.fail .unsupported
  | .program _ => Action.fail .unsupported

def executeBlock (tracing : Tracing) (call : Atom → List Atom → Action Machine Int) :
    List Statement → Action Machine Unit
  | [] => return ()
  | s :: rest => do
    execute tracing call s
    executeBlock tracing call rest

end

/-- Trace a call with the values of its parameters. -/
def traceCall (tracing : Tracing) (program : Atom) (params : List Atom) (inner : Store) :
    Action Machine Unit := do
  if tracing.level = 0 then return ()
  else
    let name ← Action.ofExcept program.shown
    let bindings ← Action.ofExcept (params.mapM fun param => do
      return (← param.shown) ++ "=" ++ (← Numeral.write ((inner.get? param).getD 0)))
    emit tracing 1 ("call " ++ name ++ "(" ++ ", ".intercalate bindings ++ ")")

/-- The result of a call; `depth` bounds how deep calls may go. -/
def callProgram (tracing : Tracing) : Nat → Atom → List Atom → Action Machine Int
  | 0, _, _ => Action.fail .exhausted
  | depth + 1, program, args => do
    let machine ← Action.get
    let inner ← Action.ofExcept (machine.store.enter machine.registry program args)
    let definition ← Action.ofExcept (machine.registry.lookup program)
    traceCall tracing program definition.params inner
    let value ← inScope inner do
      executeBlock tracing (callProgram tracing depth) definition.body
      Action.ofExcept ((← Action.get).store.read Store.result)
    let name ← Action.ofExcept program.shown
    let shown ← Action.ofExcept (Numeral.write value)
    emit tracing 1 ("return " ++ name ++ " -> " ++ shown)
    return value

mutual

/-- How many definitions stand in a statement, at any depth. -/
def definitionCount : Statement → Nat
  | .loop _ body => definitionCounts body
  | .define _ _ body => definitionCounts body + 1
  | .program body => definitionCounts body
  | _ => 0

def definitionCounts : List Statement → Nat
  | [] => 0
  | s :: rest => definitionCount s + definitionCounts rest

end

/-- How much deeper calls may go that recur. -/
def recursionDepth : Nat := 1000

/-- Calls that do not recur go no deeper than there are programs, registered or still to be
registered by the statements at hand. No parser lets a program call itself, but a registry can be
put together so that one does. -/
def callDepth (body : List Statement) (registry : Registry) : Nat :=
  registry.foldr (fun definition n => definitionCounts definition.body + 1 + n) 0 +
    definitionCounts body + 1 + recursionDepth

def runBlock (tracing : Tracing) (body : List Statement) : Action Machine Unit := fun machine =>
  executeBlock tracing (callProgram tracing (callDepth body machine.registry)) body machine

def runStatement (tracing : Tracing) (s : Statement) : Action Machine Unit := fun machine =>
  execute tracing (callProgram tracing (callDepth [s] machine.registry)) s machine

def runCall (tracing : Tracing) (program : Atom) (args : List Atom) : Action Machine Int :=
  fun machine => callProgram tracing (callDepth [] machine.registry) program args machine

/-- Run a program and give the result variable's value at the end. -/
def run (tracing : Tracing) (body : List Statement) : Action Machine (Option Int) := do
  runBlock tracing body
  return (← Action.get).store.get? Store.result

end Machine

end LoopLanguage
