import LoopLanguage.Json.Canonical

/-!
What stands where a name or a text belongs. Sources only give texts; a statement that is not filled
in yet has nothing there, and a document may have any value.
-/

namespace LoopLanguage

inductive Atom where
  | text (value : String)
  | absent
  | other (value : Json)
  deriving DecidableEq, Inhabited

namespace Atom

def ofJson : Json → Atom
  | .str s => .text s
  | .null => .absent
  | value => .other value

def toJson : Atom → Json
  | .text s => .str s
  | .absent => .null
  | .other value => value

/-- As messages show it. -/
def display (a : Atom) : String := a.toJson.display

/-- Everything but a collection can name a variable or a program. -/
def isKey : Atom → Bool
  | .other (.arr _) => false
  | .other (.obj _) => false
  | _ => true

/-- Two atoms name the same thing if their keys are the same. -/
def key (a : Atom) : Json := a.toJson.canonical

@[simp] theorem key_text (s : String) : key (.text s) = .str s := by simp [key, toJson]

/-- Messages can show it. -/
def isWritable (a : Atom) : Bool := a.toJson.isWritable

@[simp] theorem isWritable_text (s : String) : isWritable (.text s) = true := by
  simp [isWritable, toJson, Json.isWritable]

def isPresent : Atom → Bool
  | .absent => false
  | _ => true

theorem ofJson_toJson_ofJson (value : Json) : ofJson (toJson (ofJson value)) = ofJson value := by
  cases value <;> rfl

end Atom

end LoopLanguage
