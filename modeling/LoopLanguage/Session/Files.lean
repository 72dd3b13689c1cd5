import LoopLanguage.Action
import LoopLanguage.Text.Encoding

/-!
The files that a run can see, by name, and files that are open for writing. A file that is opened
afresh is emptied and written from its start on; one that is opened to be continued is always
written at its end.
-/

namespace LoopLanguage

abbrev Files := List (String × ByteArray)

namespace Files

def get? (files : Files) (name : String) : Option ByteArray := files.lookup name

/-- Replace the content of a file, or make the file. -/
def put : Files → String → ByteArray → Files
  | [], name, content => [(name, content)]
  | (n, c) :: files, name, content =>
    if n = name then (name, content) :: files else (n, c) :: put files name content

/-- The text of a file, if the file is there. -/
def text (files : Files) (name : String) : Except Error (Option String) :=
  match files.get? name with
  | none => .ok none
  | some bytes =>
    match Text.ofFile? bytes with
    | some s => .ok (some s)
    | none => .error .badEncoding

/-- `content` with `bytes` from `offset` on; a gap before them is filled with zeros. -/
def overwrite (content : ByteArray) (offset : Nat) (bytes : ByteArray) : ByteArray :=
  let gap : ByteArray := ⟨(List.replicate (offset - content.size) (0 : UInt8)).toArray⟩
  content.extract 0 offset ++ gap ++ bytes ++ content.extract (offset + bytes.size) content.size

end Files

/-- How a file stands to its writer. -/
inductive Handle where
  | closed
  /-- Opened afresh; the next byte goes to `offset`. -/
  | fresh (offset : Nat)
  /-- Opened to be continued. -/
  | continued
  deriving DecidableEq

namespace Handle

def isOpen : Handle → Bool
  | closed => false
  | _ => true

/-- Write a text through the handle. -/
def write (handle : Handle) (name text : String) (files : Files) : Handle × Files :=
  let bytes := text.toUTF8
  let content := (files.get? name).getD ByteArray.empty
  match handle with
  | closed => (closed, files)
  | fresh offset =>
    (fresh (offset + bytes.size), files.put name (Files.overwrite content offset bytes))
  | continued => (continued, files.put name (content ++ bytes))

end Handle

end LoopLanguage
