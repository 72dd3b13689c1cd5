import LoopLanguage.Json.Basic

/-!
Writing JSON, on one line or with two spaces of margin for each level. Only quotes, backslashes
and control characters are escaped.
-/

namespace LoopLanguage.Json

def escapeChar (c : Char) : List Char :=
  if c = '"' || c = '\\' then ['\\', c]
  else if c = '\n' then ['\\', 'n']
  else if c = '\r' then ['\\', 'r']
  else if c = '\t' then ['\\', 't']
  else if c = '\x0c' then ['\\', 'f']
  else if c = '\x08' then ['\\', 'b']
  else if c.toNat < 0x20 then '\\' :: 'u' :: Text.hex 4 c.toNat
  else [c]

def writeString (s : String) : String :=
  String.ofList ('"' :: s.toList.flatMap escapeChar ++ ['"'])

def writeReal : Binary64 → String
  | .nan => "NaN"
  | .infinite negative => if negative then "-Infinity" else "Infinity"
  | x => x.text

mutual

/-- A value on one line. -/
def compact : Json → String
  | .null => "null"
  | .bool b => if b then "true" else "false"
  | .int n => toString n
  | .real x => writeReal x
  | .str s => writeString s
  | .arr items => "[" ++ ", ".intercalate (compactItems items) ++ "]"
  | .obj fields => "\x7b" ++ ", ".intercalate (compactFields fields) ++ "\x7d"

def compactItems : List Json → List String
  | [] => []
  | a :: as => compact a :: compactItems as

def compactFields : List (String × Json) → List String
  | [] => []
  | (k, a) :: as => (writeString k ++ ": " ++ compact a) :: compactFields as

end

/-- The start of a line at that level. -/
def newLine (level : Nat) : String := "\n" ++ String.ofList (List.replicate (2 * level) ' ')

/-- Parts between brackets, each on a line of its own. -/
def bracketed (level : Nat) (opening closing : String) (parts : List String) : String :=
  if parts.isEmpty then opening ++ closing
  else
    opening ++ newLine (level + 1) ++ ("," ++ newLine (level + 1)).intercalate parts ++
      newLine level ++ closing

mutual

/-- A value over several lines, the first of which stands at `level`. -/
def pretty (level : Nat) : Json → String
  | .arr items => bracketed level "[" "]" (prettyItems (level + 1) items)
  | .obj fields => bracketed level "\x7b" "\x7d" (prettyFields (level + 1) fields)
  | value => compact value

def prettyItems (level : Nat) : List Json → List String
  | [] => []
  | a :: as => pretty level a :: prettyItems level as

def prettyFields (level : Nat) : List (String × Json) → List String
  | [] => []
  | (k, a) :: as => (writeString k ++ ": " ++ pretty level a) :: prettyFields level as

end

end LoopLanguage.Json
