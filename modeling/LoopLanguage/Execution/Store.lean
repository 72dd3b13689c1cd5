import LoopLanguage.Registry

/-!
The variables of one scope and their values, in the order of their first assignment.
-/

namespace LoopLanguage

abbrev Store := List (Atom × Int)

namespace Store

/-- The variable that holds the result of a call and of a run. -/
def result : Atom := .text "X0"

def get? : Store → Atom → Option Int
  | [], _ => none
  | (n, v) :: store, name => if n.key = name.key then some v else get? store name

/-- Give a variable its value; one that is there keeps its place and its first name. -/
def put : Store → Atom → Int → Store
  | [], name, value => [(name, value)]
  | (n, v) :: store, name, value =>
    if n.key = name.key then (n, value) :: store else (n, v) :: put store name value

@[simp] theorem get?_nil (name : Atom) : get? [] name = none := rfl

theorem get?_cons (n : Atom) (v : Int) (store : Store) (name : Atom) :
    get? ((n, v) :: store) name = if n.key = name.key then some v else get? store name := rfl

theorem get?_put (store : Store) (name other : Atom) (value : Int) :
    get? (put store name value) other =
      if name.key = other.key then some value else get? store other := by
  induction store with
  | nil => simp [put, get?_cons]
  | cons entry store ih =>
    obtain ⟨n, v⟩ := entry
    by_cases h : n.key = name.key
    · by_cases h' : name.key = other.key <;> simp [put, get?_cons, h, h']
    · by_cases h' : n.key = other.key
      · have hother : name.key ≠ other.key := fun e => h (h'.trans e.symm)
        simp [put, get?_cons, h', hother, hother.symm]
      · simp [put, get?_cons, h, h', ih]

/-- The value of a variable that has one. -/
def read (store : Store) (name : Atom) : Except Error Int := do
  name.checkKey
  match store.get? name with
  | some value => .ok value
  | none => .error (Error.raised (.undefinedVariable name none))

def write (store : Store) (name : Atom) (value : Int) : Except Error Store := do
  name.checkKey
  return store.put name value

/-- Bind parameters to the values that the arguments have in `store`. -/
def bind (store : Store) (program : Atom) : Store → List Atom → List Atom → Except Error Store
  | inner, param :: params, arg :: args => do
    arg.checkKey
    match store.get? arg with
    | none => do
      let _ ← arg.shown
      .error (.undefinedVariable arg (some ("in call to " ++ (← program.shown))))
    | some value => bind store program (← inner.write param value) params args
  | inner, _, _ => .ok inner

/-- The scope of a call: the parameters, and the result, which is zero unless a parameter has its
name. -/
def enter (store : Store) (registry : Registry) (program : Atom) (args : List Atom) :
    Except Error Store := do
  let definition ← registry.lookup program
  if args.length ≠ definition.params.length then
    .error (Error.raised (.argumentCount program definition.params.length args.length))
  else
    let inner ← bind store program [] definition.params args
    return if (inner.get? result).isSome then inner else inner.put result 0

end Store

end LoopLanguage
