import LoopLanguage.Command.Run

/-!
The command line. All the input and the one file that the command reads are read beforehand; what
it wrote is written afterwards.
-/

namespace LoopLanguage.Command

/-- The files that the arguments make the command read. -/
def readFiles (args : List String) : IO Files := do
  match Options.parse args with
  | .ok options =>
    match options.job? with
    | some job =>
      try
        let bytes ← IO.FS.readBinFile job.path
        return [(job.path, bytes)]
      catch _ => return []
    | none => return []
  | .error _ => return []

/-- The input, if the arguments make the command run something. -/
def readInput (args : List String) : IO String := do
  match Options.parse args with
  | .ok options =>
    match options.job? with
    | some (.runAst _) => (← IO.getStdin).readToEnd
    | some (.runSource _) => (← IO.getStdin).readToEnd
    | _ => return ""
  | .error _ => return ""

end LoopLanguage.Command

def main (args : List String) : IO UInt32 := do
  let files ← LoopLanguage.Command.readFiles args
  let input ← LoopLanguage.Command.readInput args
  let report := LoopLanguage.Command.run args files input
  for (name, content) in report.files do
    if (files.lookup name).map (·.data) ≠ some content.data then
      IO.FS.writeBinFile name content
  IO.print report.output
  IO.eprint report.errors
  match report.status with
  | .ok code => return UInt32.ofNat code
  | .error e =>
    IO.eprintln e.message
    return 1
