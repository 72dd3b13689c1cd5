import LoopLanguage.Text.Digit
import LoopLanguage.Text.Quoted

/-!
The arguments of the command line. Options and the program file may come in any order; a long
option may be cut short as long as it stays the only one that fits, may have its value after an
equals sign, and short options may be put together. After `--` nothing is an option.
-/

namespace LoopLanguage.Command

inductive Switch where
  | help
  | verbose
  | grammar
  | emitAst
  | ast
  | format
  deriving DecidableEq

namespace Switch

def spellings : List (String × Switch) :=
  [("-h", help), ("--help", help), ("-v", verbose), ("--grammar", grammar),
    ("--emit-ast", emitAst), ("--ast", ast), ("--format", format)]

/-- A switch as messages name it. -/
def title : Switch → String
  | help => "-h/--help"
  | verbose => "-v"
  | grammar => "--grammar"
  | emitAst => "--emit-ast"
  | ast => "--ast"
  | format => "--format"

/-- The switches that have a value; they exclude each other. -/
def takesValue : Switch → Bool
  | emitAst => true
  | ast => true
  | format => true
  | _ => false

end Switch

/-- What an argument is taken for. -/
inductive Argument where
  | plain (text : String)
  /-- The first `--`. -/
  | dashes
  /-- A switch, with what is given in the same argument after it. -/
  | switch (switch : Switch) (short : Bool) (attached : Option String)
  /-- It looks like a switch, but there is none like it. -/
  | unknown (text : String)

/-- Why the arguments are not taken. -/
inductive Refusal where
  | help
  | usage (message : String)

/-- A switch that went wrong. -/
def Switch.refuse (switch : Switch) (message : String) : Refusal :=
  .usage ("argument " ++ switch.title ++ ": " ++ message)

def Switch.ignored (switch : Switch) (value : String) : Refusal :=
  switch.refuse ("ignored explicit argument " ++ Text.quote value)

/-- Cut a text at its first equals sign. -/
def splitEquals (cs : List Char) : String × Option String :=
  let name := cs.takeWhile (· ≠ '=')
  match cs.drop name.length with
  | [] => (String.ofList name, none)
  | _ :: value => (String.ofList name, some (String.ofList value))

/-- A minus sign and a decimal number, perhaps with a line feed after them. -/
def looksNegative : List Char → Bool
  | '-' :: cs =>
    let isDigit (c : Char) : Bool := (Text.digit? c).isSome
    let cs := if cs.getLast? = some '\n' then cs.dropLast else cs
    let whole := cs.takeWhile isDigit
    match cs.drop whole.length with
    | [] => !whole.isEmpty
    | '.' :: fraction => !fraction.isEmpty && fraction.all isDigit
    | _ => false
  | _ => false

/-- The switches that an argument with two dashes can be short for. -/
def candidates (name : String) : List (String × Switch) :=
  Switch.spellings.filter fun spelling => name.toList.isPrefixOf spelling.1.toList

/-- What an argument before `--` is taken for. -/
def classify (text : String) : Except Refusal Argument :=
  let cs := text.toList
  let (name, attached) := splitEquals cs
  let rest : Argument :=
    if looksNegative cs || cs.contains ' ' then .plain text else .unknown text
  match cs with
  | '-' :: c :: more =>
    match Switch.spellings.lookup text, Switch.spellings.lookup name, attached with
    | some switch, _, _ => .ok (.switch switch (c ≠ '-') none)
    | none, some switch, some value => .ok (.switch switch (c ≠ '-') (some value))
    | none, _, _ =>
      if c = '-' then
        match candidates name with
        | [] => .ok rest
        | [(_, switch)] => .ok (.switch switch false attached)
        | several =>
          .error (.usage ("ambiguous option: " ++ text ++ " could match " ++
            ", ".intercalate (several.map (·.1))))
      else
        match Switch.spellings.lookup (String.ofList ['-', c]) with
        | some switch => .ok (.switch switch true (some (String.ofList more)))
        | none => .ok rest
  | _ => .ok (.plain text)

def classifyAll : List String → Except Refusal (List Argument)
  | [] => .ok []
  | "--" :: rest => .ok (.dashes :: rest.map .plain)
  | text :: rest => do
    let first ← classify text
    return first :: (← classifyAll rest)

/-- What the arguments ask for. -/
structure Options where
  verbosity : Nat
  grammar : Bool
  /-- The switch with a value that was given last, and its value. -/
  choice : Option (Switch × String)
  program : Option String
  /-- The place of the program file was passed. -/
  programDone : Bool
  /-- Arguments that fit nowhere. -/
  extra : List String

namespace Options

def initial : Options :=
  { verbosity := 0, grammar := false, choice := none, program := none, programDone := false,
    extra := [] }

/-- Set a switch that has no value. -/
def set (options : Options) : Switch → Except Refusal Options
  | .help => .error .help
  | .verbose => .ok { options with verbosity := options.verbosity + 1 }
  | _ => .ok { options with grammar := true }

/-- Set a switch to a value; no other one may have a value already. -/
def choose (options : Options) (switch : Switch) (value : String) : Except Refusal Options :=
  match options.choice with
  | some (other, _) =>
    if other = switch then .ok { options with choice := some (switch, value) }
    else .error (switch.refuse ("not allowed with argument " ++ other.title))
  | none => .ok { options with choice := some (switch, value) }

def addExtra (options : Options) (text : String) : Options :=
  { options with extra := options.extra ++ [text] }

/-- Short switches put together: `last` and one for each letter after it. The first letter that is
no switch is refused, with all that follows, as something given to the switch before it. -/
def cluster (last : Switch) : List Char → Except Refusal (List Switch)
  | [] => .ok [last]
  | c :: letters =>
    match Switch.spellings.lookup (String.ofList ['-', c]) with
    | none => .error (last.ignored (String.ofList (c :: letters)))
    | some switch => do return last :: (← cluster switch letters)

/-- Set several switches that have no values. -/
def setAll (options : Options) : List Switch → Except Refusal Options
  | [] => .ok options
  | switch :: switches => do setAll (← options.set switch) switches

/-- A switch without a value, with what is attached to it: more short switches after a short one,
also behind an equals sign, and nothing else. -/
def setAttached (options : Options) (switch : Switch) (short : Bool) :
    Option String → Except Refusal Options
  | none => options.set switch
  | some attached =>
    if !short || attached.isEmpty then .error (switch.ignored attached)
    else do options.setAll (← cluster switch attached.toList)

/-- The value that is attached to a switch. Two dashes alone are no value: they give the empty one. -/
def attachedValue (attached : String) : String :=
  if attached = "--" then "" else attached

/-- Take the arguments one after the other. -/
def take (options : Options) : List Argument → Except Refusal Options
  | [] => .ok options
  | .unknown text :: rest => take (options.addExtra text) rest
  | .switch switch short attached :: rest =>
    if switch.takesValue then
      match attached, rest with
      | some attached, rest => do take (← options.choose switch (attachedValue attached)) rest
      | none, .plain value :: rest => do take (← options.choose switch value) rest
      | none, _ => .error (switch.refuse "expected one argument")
    else do take (← options.setAttached switch short attached) rest
  | .plain text :: rest =>
    if options.programDone then take (options.addExtra text) rest
    else
      let options := { options with program := some text, programDone := true }
      match rest with
      | .dashes :: rest => take options rest
      | rest => take options rest
  | .dashes :: rest =>
    if options.programDone then take (options.addExtra "--") rest
    else
      let options := { options with programDone := true }
      match rest with
      | .plain text :: rest => take { options with program := some text } rest
      | rest => take options rest

/-- The options that the arguments give. -/
def parse (args : List String) : Except Refusal Options := do
  let options ← initial.take (← classifyAll args)
  if options.extra.isEmpty then return options
  else throw (.usage ("unrecognized arguments: " ++ " ".intercalate options.extra))

end Options

end LoopLanguage.Command
