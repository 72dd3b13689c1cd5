import LoopLanguage.Number.Binary64
import LoopLanguage.Text.Digit
import LoopLanguage.Text.Quoted

/-!
Values of the JSON format. Whole numbers are unbounded, other numbers are rounded to 64 bits, and
an object keeps its fields in the order in which they were given.
-/

namespace LoopLanguage

inductive Json where
  | null
  | bool (value : Bool)
  | int (value : Int)
  | real (value : Binary64)
  | str (value : String)
  | arr (items : List Json)
  | obj (fields : List (String × Json))
  deriving Inhabited

namespace Json

mutual

def same : Json → Json → Bool
  | .null, .null => true
  | .bool a, .bool b => a == b
  | .int a, .int b => a == b
  | .real a, .real b => a == b
  | .str a, .str b => a == b
  | .arr as, .arr bs => sameItems as bs
  | .obj as, .obj bs => sameFields as bs
  | _, _ => false

def sameItems : List Json → List Json → Bool
  | [], [] => true
  | a :: as, b :: bs => same a b && sameItems as bs
  | _, _ => false

def sameFields : List (String × Json) → List (String × Json) → Bool
  | [], [] => true
  | (k, a) :: as, (l, b) :: bs => k == l && same a b && sameFields as bs
  | _, _ => false

end

mutual

theorem same_iff : ∀ a b : Json, same a b = true ↔ a = b
  | .null, b => by cases b <;> simp [same]
  | .bool _, b => by cases b <;> simp [same]
  | .int _, b => by cases b <;> simp [same]
  | .real _, b => by cases b <;> simp [same]
  | .str _, b => by cases b <;> simp [same]
  | .arr as, b => by cases b <;> simp [same, sameItems_iff as]
  | .obj as, b => by cases b <;> simp [same, sameFields_iff as]

theorem sameItems_iff : ∀ as bs : List Json, sameItems as bs = true ↔ as = bs
  | [], bs => by cases bs <;> simp [sameItems]
  | a :: as, bs => by cases bs <;> simp [sameItems, same_iff a, sameItems_iff as]

theorem sameFields_iff : ∀ as bs : List (String × Json), sameFields as bs = true ↔ as = bs
  | [], bs => by cases bs <;> simp [sameFields]
  | (k, a) :: as, bs => by
    cases bs with
    | nil => simp [sameFields]
    | cons b bs =>
      simp [sameFields, same_iff a, sameFields_iff as, Prod.ext_iff]

end

instance : DecidableEq Json := fun a b => decidable_of_iff _ (same_iff a b)

/-- The field of that name; the name of a missing field is for the caller to report. -/
def field? (fields : List (String × Json)) (key : String) : Option Json := fields.lookup key

/-- The value of a text. -/
def text? : Json → Option String
  | .str s => some s
  | _ => none

/-- The kind of a value, as messages name it. -/
def typeName : Json → String
  | .null => "NoneType"
  | .bool _ => "bool"
  | .int _ => "int"
  | .real _ => "float"
  | .str _ => "str"
  | .arr _ => "list"
  | .obj _ => "dict"

mutual

/-- A value as messages show it inside another one. -/
def inner : Json → String
  | .null => "None"
  | .bool b => if b then "True" else "False"
  | .int n => toString n
  | .real x => x.text
  | .str s => Text.quote s
  | .arr items => "[" ++ ", ".intercalate (innerItems items) ++ "]"
  | .obj fields => "\x7b" ++ ", ".intercalate (innerFields fields) ++ "\x7d"

def innerItems : List Json → List String
  | [] => []
  | a :: as => inner a :: innerItems as

def innerFields : List (String × Json) → List String
  | [] => []
  | (k, a) :: as => (Text.quote k ++ ": " ++ inner a) :: innerFields as

end

/-- A value as messages show it: a text stands for itself. -/
def display : Json → String
  | .str s => s
  | value => inner value

mutual

/-- No whole number in the value has more digits than are written. -/
def isWritable : Json → Bool
  | .int n => n.natAbs < Text.digitLimit
  | .arr items => areWritable items
  | .obj fields => haveWritable fields
  | _ => true

def areWritable : List Json → Bool
  | [] => true
  | a :: as => isWritable a && areWritable as

def haveWritable : List (String × Json) → Bool
  | [] => true
  | (_, a) :: as => isWritable a && haveWritable as

end

end Json

end LoopLanguage
