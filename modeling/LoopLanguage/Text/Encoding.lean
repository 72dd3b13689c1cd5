/-!
Files as texts. A file has to be UTF-8; a carriage return, alone or before a line feed, is read as
a line feed.
-/

namespace LoopLanguage.Text

def unifyLineEnds : List Char → List Char
  | [] => []
  | '\r' :: '\n' :: cs => '\n' :: unifyLineEnds cs
  | c :: cs => (if c = '\r' then '\n' else c) :: unifyLineEnds cs

/-- The text of a file, if its bytes are UTF-8. -/
def ofFile? (bytes : ByteArray) : Option String :=
  (String.fromUTF8? bytes).map fun s => String.ofList (unifyLineEnds s.toList)

end LoopLanguage.Text
