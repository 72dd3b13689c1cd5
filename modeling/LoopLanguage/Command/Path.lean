/-!
Names of files as they are given on the command line. Repeated slashes and single dots mean
nothing; double dots are kept.
-/

namespace LoopLanguage.Command

/-- The parts of a path between its slashes. -/
def pathParts (path : String) : List String :=
  ((path.splitToList (· = '/')).filter fun part => part ≠ "" && part ≠ ".")

/-- One slash at the start is the root, and so are three and more; two are kept. -/
def pathRoot (path : String) : String :=
  match path.toList with
  | '/' :: '/' :: '/' :: _ => "/"
  | '/' :: '/' :: _ => "//"
  | '/' :: _ => "/"
  | _ => ""

def normalizePath (path : String) : String :=
  let parts := pathParts path
  let root := pathRoot path
  if parts.isEmpty && root.isEmpty then "." else root ++ "/".intercalate parts

/-- A path that only goes up from here, or nowhere, leads to a folder. -/
def leadsToFolder (path : String) : Bool := (pathParts path).all (· = "..")

end LoopLanguage.Command
