import LoopLanguage.Json.Basic

/-!
Equality of values. A truth value counts as zero or one, a number counts as what it is worth and not
as it is written, and the order of an object's fields does not count. Every value has a canonical
one that is equal to it, and two values are equal exactly if their canonical ones are the same.
-/

namespace LoopLanguage.Json

/-- Put a field before the first one with a greater name. -/
def insertField (field : String × Json) : List (String × Json) → List (String × Json)
  | [] => [field]
  | other :: fields =>
    if other.1 < field.1 then other :: insertField field fields else field :: other :: fields

mutual

def canonical : Json → Json
  | .bool b => .int (if b then 1 else 0)
  | .real x =>
    match x.whole? with
    | some n => .int n
    | none => .real x
  | .arr items => .arr (canonicalItems items)
  | .obj fields => .obj (canonicalFields fields)
  | value => value

def canonicalItems : List Json → List Json
  | [] => []
  | a :: as => canonical a :: canonicalItems as

/-- The fields in the order of their names. -/
def canonicalFields : List (String × Json) → List (String × Json)
  | [] => []
  | (k, a) :: as => insertField (k, canonical a) (canonicalFields as)

end

@[simp] theorem canonical_str (s : String) : canonical (.str s) = .str s := by simp [canonical]

@[simp] theorem canonical_int (n : Int) : canonical (.int n) = .int n := by simp [canonical]

end LoopLanguage.Json
