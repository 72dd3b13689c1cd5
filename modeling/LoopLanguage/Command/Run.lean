import LoopLanguage.Command.Options
import LoopLanguage.Command.Path
import LoopLanguage.Json.Reader
import LoopLanguage.Json.Writer
import LoopLanguage.Session.Basic

/-!
The command: run a source, run a document, write the document of a source, or print a source in
canonical form. It works on the files it is given and reports what it did to them.
-/

namespace LoopLanguage.Command

/-- What one use of the command came to: an exit code, or an error that it does not handle. -/
structure Report where
  status : Except Error Nat
  output : String
  errors : String
  files : Files

/-- What the command is used for, each with a path. -/
inductive Job where
  | emitAst (path : String)
  | runAst (path : String)
  | format (path : String)
  | runSource (path : String)

def traceFile : String := "debug.txt"

def usage : String :=
  "usage: looplang [-h] [-v] [--grammar]\n" ++
  "                [--emit-ast LOOP_FILE | --ast AST_JSON_FILE | --format LOOP_FILE]\n" ++
  "                [program]\n"

def help : String :=
  usage ++
  "\n" ++
  "LOOP language interpreter\n" ++
  "\n" ++
  "positional arguments:\n" ++
  "  program               LOOP program file (.loop) to execute\n" ++
  "\n" ++
  "options:\n" ++
  "  -h, --help            show this help message and exit\n" ++
  "  -v                    increase debug verbosity (can be repeated)\n" ++
  "  --grammar             parse source with the Lark grammar front end\n" ++
  "  --emit-ast LOOP_FILE  emit AST JSON for the given .loop file\n" ++
  "  --ast AST_JSON_FILE   execute AST from a JSON file\n" ++
  "  --format LOOP_FILE    print the canonical source of the given .loop file\n"

/-- The job that the options ask for. A switch with an empty value and an empty program file count
as not given. -/
def Options.job? (options : Options) : Option Job :=
  match options.choice.filter (·.2 ≠ "") with
  | some (.emitAst, path) => some (.emitAst (normalizePath path))
  | some (.ast, path) => some (.runAst (normalizePath path))
  | some (.format, path) => some (.format (normalizePath path))
  | _ => (options.program.filter (· ≠ "")).map fun path => .runSource (normalizePath path)

/-- The path that a job reads. -/
def Job.path : Job → String
  | emitAst path => path
  | runAst path => path
  | format path => path
  | runSource path => path

namespace Report

/-- Nothing but a complaint and a bad exit code. -/
def complain (files : Files) (code : Nat) (text : String) : Report :=
  { status := .ok code, output := "", errors := text, files }

/-- An error that is not handled. -/
def escape (files : Files) (e : Error) : Report :=
  { status := .error e, output := "", errors := "", files }

end Report

/-- Read a file and go on with its text. -/
def withText (files : Files) (path : String) (act : String → Report) : Report :=
  if leadsToFolder path then .escape files .isDirectory
  else
    match files.text path with
    | .ok (some text) => act text
    | .ok none => .complain files 1 ("Error: file " ++ path ++ " not found\n")
    | .error e => .escape files e

/-- Parse a source and go on with the program. -/
def withProgram (files : Files) (frontEnd : FrontEnd) (path : String)
    (act : List Statement → Registry → Report) : Report :=
  withText files path fun source =>
    match frontEnd.parse source [] with
    | (.ok body, registry) => act body registry
    | (.error e, _) =>
      if e.isLanguageError then .complain files 1 ("Syntax error: " ++ e.message ++ "\n")
      else .escape files e

/-- An error of the program itself ends the command; any other one is not handled. -/
def ofOutcome (files : Files) (output : String) (e : Error) : Report :=
  let label :=
    match e.category with
    | .running => "Runtime error: "
    | .undefinedVariable => "Runtime error: "
    | _ => "Syntax error: "
  if e.isLanguageError then
    { status := .ok 1, output, errors := label ++ e.message ++ "\n", files }
  else { status := .error e, output, errors := "", files }

/-- Run a program; what is traced goes to the trace file. -/
def execute (files : Files) (input : String) (verbosity : Nat) (s : Statement)
    (registry : Registry) : Report :=
  let (interpreter, files) := Interpreter.create verbosity traceFile files
  match s with
  | .program body =>
    match Machine.run interpreter.tracing body (Machine.start registry input) with
    | (r, machine) =>
      let (_, files) := interpreter.write machine.traceText files
      match r with
      | .ok _ => { status := .ok 0, output := machine.output, errors := "", files }
      | .error e => ofOutcome files machine.output e
  | _ => .escape files .unsupported

/-- Where in a text the offset is, for messages on JSON. -/
def jsonError (text : String) : Json.Fault → Error
  | .tooManyDigits count => .tooManyDigitsRead count
  | .malformed what offset =>
    let before := text.toList.take offset
    let line := before.count '\n' + 1
    let column := (before.reverse.takeWhile (· ≠ '\n')).length + 1
    .malformedJson what line column offset

/-- Errors in a document that are reported with the name of its file. -/
def isDocumentError (e : Error) : Bool :=
  e.isLanguageError ||
    match e.category with
    | .missing | .wrongKind | .badValue => true
    | _ => false

/-- Load a document and go on with what it holds. -/
def withDocument (files : Files) (path : String) (act : Statement → Registry → Report) : Report :=
  withText files path fun text =>
    match Json.read (some Text.maxDigits) text with
    | .error fault => .escape files (jsonError text fault)
    | .ok document =>
      match Document.load document [] with
      | (.ok s, registry) => act s registry
      | (.error e, _) =>
        if isDocumentError e then
          .complain files 1 ("Error: invalid AST file " ++ path ++ ": " ++ e.message ++ "\n")
        else .escape files e

/-- Write the document of a program beside its source. -/
def emit (files : Files) (path : String) (body : List Statement) : Report :=
  match (Statement.program body).toDocument with
  | .error e => .escape files e
  | .ok document =>
    let target := path ++ ".ast.json"
    { status := .ok 0
      output := target ++ "\n"
      errors := ""
      files := files.put target (document.pretty 0).toUTF8 }

def printSource (files : Files) (body : List Statement) : Report :=
  match Statement.programSource body with
  | .error e => .escape files e
  | .ok source => { status := .ok 0, output := source ++ "\n", errors := "", files }

def Job.run (job : Job) (options : Options) (files : Files) (input : String) : Report :=
  let frontEnd : FrontEnd := if options.grammar then .grammar else .descent
  match job with
  | emitAst path => withProgram files frontEnd path fun body _ => emit files path body
  | runAst path => withDocument files path (execute files input options.verbosity)
  | format path => withProgram files frontEnd path fun body _ => printSource files body
  | runSource path =>
    withProgram files frontEnd path fun body registry =>
      execute files input options.verbosity (.program body) registry

def refuse (files : Files) (message : String) : Report :=
  .complain files 2 (usage ++ "looplang: error: " ++ message ++ "\n")

/-- Use the command with the given arguments. -/
def run (args : List String) (files : Files) (input : String) : Report :=
  match Options.parse args with
  | .error .help => { status := .ok 0, output := help, errors := "", files }
  | .error (.usage message) => refuse files message
  | .ok options =>
    match options.job? with
    | some job => job.run options files input
    | none => refuse files "missing program file; or use --emit-ast/--ast/--format"

end LoopLanguage.Command
