import LoopLanguage.Execution.Store
import LoopLanguage.Statement.Source

/-!
The state of a run: the variables in scope, the programs, the lines of input that are left, what
was printed and what was traced.
-/

namespace LoopLanguage

/-- A line of the trace. Calls have level 1, assignments and input level 2, loops level 3. -/
structure Message where
  level : Nat
  text : String
  deriving DecidableEq

/-- Up to which level messages are traced, and whether there is a trace for them: otherwise they
are printed. -/
structure Tracing where
  level : Int
  kept : Bool

structure Machine where
  store : Store
  registry : Registry
  /-- The lines of input that are left. -/
  input : List String
  output : String
  /-- The messages that were traced, the last one first. -/
  trace : List Message

/-- The lines of a text, which end at line feeds only. -/
def inputLines : List Char → List (List Char)
  | [] => []
  | c :: cs =>
    if c = '\n' then [] :: inputLines cs
    else
      match inputLines cs with
      | [] => [[c]]
      | line :: rest => (c :: line) :: rest

namespace Machine

/-- A fresh scope over the registry, with a text for input. -/
def start (registry : Registry) (input : String) : Machine :=
  { store := []
    registry
    input := (inputLines input.toList).map String.ofList
    output := ""
    trace := [] }

def traceText (machine : Machine) : String :=
  String.join (machine.trace.reverse.map fun message => message.text ++ "\n")

def print (text : String) : Action Machine Unit :=
  Action.modify fun machine => { machine with output := machine.output ++ text }

/-- Trace a message if its level is low enough. -/
def emit (tracing : Tracing) (level : Nat) (text : String) : Action Machine Unit :=
  if tracing.level < level then return ()
  else if tracing.kept then
    Action.modify fun machine => { machine with trace := ⟨level, text⟩ :: machine.trace }
  else print (text ++ "\n")

def setVariable (name : Atom) (value : Int) : Action Machine Unit := fun machine =>
  match machine.store.write name value with
  | .ok store => (.ok (), { machine with store })
  | .error e => (.error e, machine)

/-- Run a step in another scope; the present one comes back after it, also if it fails. -/
def inScope {α : Type} (store : Store) (act : Action Machine α) : Action Machine α := fun machine =>
  match act { machine with store } with
  | (r, after) => (r, { after with store := machine.store })

/-- Repeat a step until it fails. -/
def iterate (act : Action Machine Unit) : Nat → Action Machine Unit
  | 0 => return ()
  | count + 1 => fun machine =>
    match act machine with
    | (.ok _, after) => iterate act count after
    | (.error e, after) => (.error e, after)

end Machine

end LoopLanguage
