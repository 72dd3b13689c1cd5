import LoopLanguage.Grammar.Meaning
import LoopLanguage.Session.Interpreter

/-!
Sessions: registries, environments, interpreters and programs that are made one after the other,
kept under names and used together. A registry can be shared by several environments and programs,
and what one of them defines the others can call. All steps share the input and the files.
-/

namespace LoopLanguage

/-- What a session keeps. Environments and programs refer to a registry by its number. -/
inductive Object where
  | registry (cell : Nat)
  | environment (store : Store) (cell : Nat)
  | interpreter (interpreter : Interpreter)
  | program (body : List Statement) (cell : Nat)

structure Session where
  registries : List Registry
  objects : List (String × Object)
  files : Files
  input : List String
  output : String

/-- The two ways to parse. -/
inductive FrontEnd where
  | descent
  | grammar
  deriving DecidableEq

def FrontEnd.parse : FrontEnd → String → Action Registry (List Statement)
  | descent => parseByDescent
  | grammar => parseByGrammar

/-- The steps of a session; objects are given by their names. -/
inductive Request where
  | makeRegistry (id : String)
  | makeEnvironment (id : String) (registry : Option String)
  | makeInterpreter (id : String) (level : Int) (file : String)
  | parse (id source : String) (frontEnd : FrontEnd) (registry : Option String)
  | load (id : String) (document : Json) (registry : Option String)
  | nameRegistry (id owner : String)
  | run (interpreter program : String) (environment : Option String)
  | runBlock (interpreter program environment : String)
  | runStatement (interpreter program : String) (index : Int) (environment : String)
  | callProgram (interpreter : String) (program : Atom) (args : List Atom) (environment : String)
  | close (interpreter : String)
  | traceText (file : String)
  | setVariable (environment : String) (name : Atom) (value : Int)
  | getVariable (environment : String) (name : Atom)
  | variables (environment : String)
  | enterCall (id environment : String) (program : Atom) (args : List Atom)
  | programBody (environment : String) (program : Atom)
  | define (registry : String) (name : Atom) (params : List Atom) (body : Option String)
  | lookup (registry : String) (name : Atom)
  | contains (registry : String) (name : Atom)
  | names (registry : String)
  | format (program : String)
  | document (program : String)
  | same (first second : String)

/-- What a step answers. -/
inductive Reply where
  | done
  | number (value : Option Int)
  | truth (value : Bool)
  | text (value : Option String)
  | document (value : Json)
  | documents (values : List Json)
  | variables (store : Store)
  | registry (registry : Registry)
  | definition (definition : Definition)
  | names (registry : Registry)

namespace Session

/-- An empty session with a text for input. -/
def start (input : String) : Session :=
  { registries := []
    objects := []
    files := []
    input := (inputLines input.toList).map String.ofList
    output := "" }

/-- Give a name to an object; what had the name before is lost. -/
def keep (id : String) (object : Object) : Action Session Unit :=
  Action.modify fun session => { session with objects := (id, object) :: session.objects }

def object? (session : Session) (id : String) : Option Object := session.objects.lookup id

/-- Why what was found under a name does not do: nothing was, or it is of another kind. -/
def unfit : Option Object → Error
  | none => .noSuchObject
  | some _ => .unsupported

def findRegistry (id : String) : Action Session Nat := fun session =>
  match session.object? id with
  | some (.registry cell) => (.ok cell, session)
  | found => (.error (unfit found), session)

def findEnvironment (id : String) : Action Session (Store × Nat) := fun session =>
  match session.object? id with
  | some (.environment store cell) => (.ok (store, cell), session)
  | found => (.error (unfit found), session)

def findInterpreter (id : String) : Action Session Interpreter := fun session =>
  match session.object? id with
  | some (.interpreter interpreter) => (.ok interpreter, session)
  | found => (.error (unfit found), session)

def findProgram (id : String) : Action Session (List Statement × Nat) := fun session =>
  match session.object? id with
  | some (.program body cell) => (.ok (body, cell), session)
  | found => (.error (unfit found), session)

/-- The registry of an environment or a program. -/
def findOwned (id : String) : Action Session Nat := fun session =>
  match session.object? id with
  | some (.environment _ cell) => (.ok cell, session)
  | some (.program _ cell) => (.ok cell, session)
  | found => (.error (unfit found), session)

def makeCell : Action Session Nat := fun session =>
  (.ok session.registries.length, { session with registries := session.registries ++ [[]] })

/-- The registry of that name, or a new one. -/
def registryOr : Option String → Action Session Nat
  | some id => findRegistry id
  | none => makeCell

/-- The environment of that name, or a fresh one over the registry. -/
def environmentOr (cell : Nat) : Option String → Action Session (Store × Nat)
  | some id => findEnvironment id
  | none => return ([], cell)

/-- The body of the program of that name, or an empty one. -/
def bodyOr : Option String → Action Session (List Statement)
  | some id => do
    let (body, _) ← findProgram id
    return body
  | none => return []

def registryAt (session : Session) (cell : Nat) : Registry := session.registries.getD cell []

def onRegistry {α : Type} (cell : Nat) (act : Action Registry α) : Action Session α :=
  Action.onPart (fun session => session.registryAt cell)
    (fun session registry => { session with registries := session.registries.set cell registry }) act

/-- Execute something with an interpreter in a scope; the scope that results goes to `keepStore`,
also after a failure, and what was traced to the interpreter's file. -/
def onMachine {α : Type} (interpreterId : String) (interpreter : Interpreter) (store : Store)
    (cell : Nat) (keepStore : Store → Action Session Unit) (act : Action Machine α) :
    Action Session α := fun session =>
  let machine : Machine :=
    { store, registry := session.registryAt cell, input := session.input, output := session.output,
      trace := [] }
  match act machine with
  | (r, machine) =>
    let (interpreter, files) := interpreter.write machine.traceText session.files
    let after :=
      { session with
        registries := session.registries.set cell machine.registry
        files
        input := machine.input
        output := machine.output }
    let finish : Action Session Unit := do
      keep interpreterId (.interpreter interpreter)
      keepStore machine.store
    (r, (finish after).2)

/-- Execute something in an environment. -/
def inEnvironment {α : Type} (interpreterId environmentId : String)
    (act : Tracing → Action Machine α) : Action Session α := do
  let interpreter ← findInterpreter interpreterId
  let (store, cell) ← findEnvironment environmentId
  onMachine interpreterId interpreter store cell
    (fun store => keep environmentId (.environment store cell)) (act interpreter.tracing)

/-- Run a program with the file open, and close it whatever happens. -/
def runProgram (interpreterId programId : String) (environment : Option String) :
    Action Session (Option Int) := do
  let interpreter ← findInterpreter interpreterId
  let (body, programCell) ← findProgram programId
  let (store, cell) ← environmentOr programCell environment
  let session ← Action.get
  let (opened, files) := interpreter.reopen session.files
  Action.modify fun session => { session with files }
  let keepStore (store : Store) : Action Session Unit := do
    keep interpreterId (.interpreter opened.close)
    match environment with
    | some id => keep id (.environment store cell)
    | none => return ()
  onMachine interpreterId opened store cell keepStore (Machine.run opened.tracing body)

/-- The statement at an index, which counts from the end if it is negative. -/
def statementAt (body : List Statement) (index : Int) : Except Error Statement :=
  let i := if index < 0 then index + body.length else index
  match if i < 0 then none else body[i.toNat]? with
  | some s => .ok s
  | none => .error .noSuchStatement

/-- Perform one step. The objects it names are looked up first. -/
def perform : Request → Action Session Reply
  | .makeRegistry id => do
    keep id (.registry (← makeCell))
    return .done
  | .makeEnvironment id registry => do
    keep id (.environment [] (← registryOr registry))
    return .done
  | .makeInterpreter id level file => do
    let (interpreter, files) := Interpreter.create level file (← Action.get).files
    Action.modify fun session => { session with files }
    keep id (.interpreter interpreter)
    return .done
  | .parse id source frontEnd registry => do
    let cell ← registryOr registry
    let body ← onRegistry cell (frontEnd.parse source)
    keep id (.program body cell)
    return .registry ((← Action.get).registryAt cell)
  | .load id document registry => do
    let cell ← registryOr registry
    match ← onRegistry cell (Document.load document) with
    | .program body =>
      keep id (.program body cell)
      return .registry ((← Action.get).registryAt cell)
    | s =>
      keep id (.program [s] (← makeCell))
      return .registry []
  | .nameRegistry id owner => do
    keep id (.registry (← findOwned owner))
    return .done
  | .run interpreter program environment => do
    return .number (← runProgram interpreter program environment)
  | .runBlock interpreter program environment => do
    let _ ← findInterpreter interpreter
    let (body, _) ← findProgram program
    inEnvironment interpreter environment fun tracing => Machine.runBlock tracing body
    return .done
  | .runStatement interpreter program index environment => do
    let _ ← findInterpreter interpreter
    let (body, _) ← findProgram program
    let _ ← findEnvironment environment
    let s ← Action.ofExcept (statementAt body index)
    inEnvironment interpreter environment fun tracing => Machine.runStatement tracing s
    return .done
  | .callProgram interpreter program args environment => do
    return .number (some (← inEnvironment interpreter environment fun tracing =>
      Machine.runCall tracing program args))
  | .close id => do
    let interpreter ← findInterpreter id
    keep id (.interpreter interpreter.close)
    return .done
  | .traceText file => do
    return .text (← Action.ofExcept ((← Action.get).files.text file))
  | .setVariable environment name value => do
    let (store, cell) ← findEnvironment environment
    let store ← Action.ofExcept (store.write name value)
    keep environment (.environment store cell)
    return .done
  | .getVariable environment name => do
    let (store, _) ← findEnvironment environment
    return .number (some (← Action.ofExcept (store.read name)))
  | .variables environment => do
    let (store, _) ← findEnvironment environment
    return .variables store
  | .enterCall id environment program args => do
    let (store, cell) ← findEnvironment environment
    let inner ← Action.ofExcept (store.enter ((← Action.get).registryAt cell) program args)
    keep id (.environment inner cell)
    return .variables inner
  | .programBody environment program => do
    let (_, cell) ← findEnvironment environment
    let definition ← Action.ofExcept (((← Action.get).registryAt cell).lookup program)
    return .documents (← Action.ofExcept (Statement.toDocuments definition.body))
  | .define registry name params body => do
    let cell ← findRegistry registry
    let body ← bodyOr body
    onRegistry cell (Registry.define ⟨name, params, body⟩)
    return .definition ⟨name, params, body⟩
  | .lookup registry name => do
    let cell ← findRegistry registry
    return .definition (← Action.ofExcept (((← Action.get).registryAt cell).lookup name))
  | .contains registry name => do
    let cell ← findRegistry registry
    return .truth (← Action.ofExcept (((← Action.get).registryAt cell).contains name))
  | .names registry => do
    let cell ← findRegistry registry
    return .names ((← Action.get).registryAt cell)
  | .format program => do
    let (body, _) ← findProgram program
    return .text (some (← Action.ofExcept (Statement.programSource body)))
  | .document program => do
    let (body, _) ← findProgram program
    return .document (← Action.ofExcept (Statement.program body).toDocument)
  | .same first second => do
    let (a, _) ← findProgram first
    let (b, _) ← findProgram second
    return .truth (Statement.sameBody a b)

end Session

end LoopLanguage
