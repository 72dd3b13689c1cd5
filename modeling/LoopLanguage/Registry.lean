import LoopLanguage.Action
import LoopLanguage.Statement.Basic

/-!
The programs that are fully defined, in the order of their definitions. A name is defined once and
for all.
-/

namespace LoopLanguage

structure Definition where
  name : Atom
  params : List Atom
  body : List Statement
  deriving Inhabited

abbrev Registry := List Definition

/-- A collection names nothing. -/
def Atom.checkKey (a : Atom) : Except Error Unit :=
  if a.isKey then .ok () else .error (.notAKey a.toJson.typeName)

namespace Registry

def find? (registry : Registry) (name : Atom) : Option Definition :=
  List.find? (fun d => d.name.key = name.key) registry

def names (registry : Registry) : List Atom := registry.map (·.name)

def contains (registry : Registry) (name : Atom) : Except Error Bool := do
  name.checkKey
  return (registry.find? name).isSome

def lookup (registry : Registry) (name : Atom) : Except Error Definition := do
  name.checkKey
  match registry.find? name with
  | some definition => .ok definition
  | none => .error (Error.raised (.programNotDefined name))

/-- Add a program at the end; its name must be new. -/
def define (definition : Definition) : Action Registry Unit := fun registry =>
  match registry.contains definition.name with
  | .error e => (.error e, registry)
  | .ok true => (.error (Error.raised (.alreadyDefined definition.name none)), registry)
  | .ok false => (.ok (), registry ++ [definition])

end Registry

end LoopLanguage
