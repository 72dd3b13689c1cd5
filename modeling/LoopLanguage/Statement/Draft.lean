import LoopLanguage.Statement.Document

/-!
Statements that are being filled in. A draft shows how far the reading of a statement went; once
all its parts are there it is a statement.
-/

namespace LoopLanguage

inductive Draft where
  /-- A statement of no form, which nothing can be done with. -/
  | formless
  | assign (target : Atom) (value : Option Int)
  | increment (target operand : Atom)
  | call (target callee : Atom) (args : Option (List Atom))
  | input (targets : Option (List Token))
  | output (items : Option (List Token))
  | loop (count : Atom) (body : Option (List Statement))
  | define (name : Atom) (params : Option (List Atom)) (body : Option (List Statement))
  deriving Inhabited

namespace Draft

/-- A draft with nothing filled in. -/
def blank : Option Statement.Form → Draft
  | none => formless
  | some .assign => assign .absent none
  | some .increment => increment .absent .absent
  | some .call => call .absent .absent none
  | some .input => input none
  | some .output => output none
  | some .loop => loop .absent none
  | some .define => define .absent none none

def form? : Draft → Option Statement.Form
  | formless => none
  | assign .. => some .assign
  | increment .. => some .increment
  | call .. => some .call
  | input .. => some .input
  | output .. => some .output
  | loop .. => some .loop
  | define .. => some .define

def label (draft : Draft) : String :=
  match draft.form? with
  | some form => form.label
  | none => "statement"

/-- The statement, if no part but perhaps a name is missing. -/
def statement? : Draft → Option Statement
  | formless => none
  | assign target value => value.map (.assign target)
  | increment target operand => some (.increment target operand)
  | call target callee args => args.map (.call target callee)
  | input targets => targets.map .input
  | output items => items.map .output
  | loop count body => body.map (.loop count)
  | define name params body => do return .define name (← params) (← body)

def isReady (draft : Draft) : Except Error Bool :=
  match draft.form? with
  | none => .error .formless
  | some _ => .ok (draft.statement?.any Statement.isReady)

/-- The statement of a draft that is ready. -/
def statement (draft : Draft) : Except Error Statement := do
  if ← draft.isReady then
    match draft.statement? with
    | some s => return s
    | none => throw (.uninitialized draft.label)
  else throw (.uninitialized draft.label)

end Draft

end LoopLanguage
