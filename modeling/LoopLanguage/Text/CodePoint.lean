/-!
Sets of characters given by runs of code points, for properties that no short formula describes.
-/

namespace LoopLanguage.Text

/-- The code point of `c` lies in one of the runs; both ends of a run belong to it. -/
def inRuns (runs : List (Nat × Nat)) (c : Char) : Bool :=
  runs.any fun run => run.1 ≤ c.toNat && c.toNat ≤ run.2

end LoopLanguage.Text
