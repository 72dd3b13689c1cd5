import LoopLanguage.Execution.Run
import LoopLanguage.Session.Files

/-!
Interpreters. An interpreter that traces has a file for the trace, which is emptied when the
interpreter is made. A run closes the file at its end and the next run continues it; used in other
ways, a closed interpreter prints its trace.
-/

namespace LoopLanguage

/-- How much is traced, and where. -/
structure Interpreter where
  level : Int
  file : String
  handle : Handle

namespace Interpreter

/-- A new interpreter; if it traces, its file is emptied. -/
def create (level : Int) (file : String) (files : Files) : Interpreter × Files :=
  if level > 0 then (⟨level, file, .fresh 0⟩, files.put file ByteArray.empty)
  else (⟨level, file, .closed⟩, files)

/-- Open the file again for a run, if there is something to trace. -/
def reopen (interpreter : Interpreter) (files : Files) : Interpreter × Files :=
  if interpreter.level > 0 && !interpreter.handle.isOpen then
    ({ interpreter with handle := .continued },
      files.put interpreter.file ((files.get? interpreter.file).getD ByteArray.empty))
  else (interpreter, files)

def close (interpreter : Interpreter) : Interpreter := { interpreter with handle := .closed }

def write (interpreter : Interpreter) (text : String) (files : Files) : Interpreter × Files :=
  let (handle, files) := interpreter.handle.write interpreter.file text files
  ({ interpreter with handle }, files)

def tracing (interpreter : Interpreter) : Tracing :=
  ⟨interpreter.level, interpreter.handle.isOpen⟩

end Interpreter

end LoopLanguage
