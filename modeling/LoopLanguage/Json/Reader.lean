import LoopLanguage.Json.Basic
import LoopLanguage.Text.Digit

/-!
Reading JSON. The first fault in the text is reported with its offset. A field that is given twice
keeps its first place and its last value. The words `NaN`, `Infinity` and `-Infinity` are numbers.
A whole number may be bounded in its digits.
-/

namespace LoopLanguage.Json

/-- Why a text is not read as JSON. -/
inductive Fault where
  | malformed (what : String) (offset : Nat)
  | tooManyDigits (count : Nat)
  deriving DecidableEq

/-- A place in the text that is read. -/
structure Cursor where
  offset : Nat
  rest : List Char

namespace Cursor

def advance (cursor : Cursor) (count : Nat) : Cursor :=
  ⟨cursor.offset + count, cursor.rest.drop count⟩

def isBlank (c : Char) : Bool := c = ' ' || c = '\t' || c = '\n' || c = '\r'

def skipBlanks (cursor : Cursor) : Cursor :=
  cursor.advance (cursor.rest.takeWhile isBlank).length

def fail {α : Type} (cursor : Cursor) (what : String) : Except Fault α :=
  .error (.malformed what cursor.offset)

end Cursor

/-- Give a field its value, at the end if the name is new. -/
def setField (key : String) (value : Json) : List (String × Json) → List (String × Json)
  | [] => [(key, value)]
  | (k, v) :: fields =>
    if k = key then (key, value) :: fields else (k, v) :: setField key value fields

def hexValue? (c : Char) : Option Nat :=
  if c.isDigit then some (c.toNat - '0'.toNat)
  else if 'a' ≤ c && c ≤ 'f' then some (c.toNat - 'a'.toNat + 10)
  else if 'A' ≤ c && c ≤ 'F' then some (c.toNat - 'A'.toNat + 10)
  else none

def hexValue4? (a b c d : Char) : Option Nat := do
  return ((← hexValue? a) * 16 + (← hexValue? b)) * 256 + (← hexValue? c) * 16 + (← hexValue? d)

def isHighSurrogate (n : Nat) : Bool := 0xd800 ≤ n && n < 0xdc00

def isLowSurrogate (n : Nat) : Bool := 0xdc00 ≤ n && n < 0xe000

/-- The character that stands for the pair of surrogates. -/
def ofSurrogates (high low : Nat) : Char :=
  Char.ofNat (0x10000 + (high - 0xd800) * 0x400 + (low - 0xdc00))

/-- The character of one code unit; half of a pair on its own stands for no character. -/
def ofUnit (n : Nat) : Char :=
  if isHighSurrogate n || isLowSurrogate n then Char.ofNat 0xfffd else Char.ofNat n

/-- The characters that a backslash makes special. -/
def escapes : List (Char × Char) :=
  [('"', '"'), ('\\', '\\'), ('/', '/'), ('b', '\x08'), ('f', '\x0c'), ('n', '\n'), ('r', '\r'),
    ('t', '\t')]

/-- The character that `cs` names after `\\u`, and how long its name is: four digits, or a pair of
surrogates. `offset` is where the `u` stands. -/
def unicodeEscape (offset : Nat) (cs : List Char) : Except Fault (Char × Nat) :=
  match cs with
  | a :: b :: c :: d :: rest =>
    if rest.isEmpty then .error (.malformed "Invalid \\uXXXX escape" offset)
    else
      match hexValue4? a b c d, rest with
      | none, _ => .error (.malformed "Invalid \\uXXXX escape" offset)
      | some high, '\\' :: 'u' :: e :: f :: g :: h :: _ :: _ =>
        if isHighSurrogate high then
          match hexValue4? e f g h with
          | none => .error (.malformed "Invalid \\uXXXX escape" (offset + 6))
          | some low =>
            if isLowSurrogate low then .ok (ofSurrogates high low, 10) else .ok (ofUnit high, 4)
        else .ok (ofUnit high, 4)
      | some unit, _ => .ok (ofUnit unit, 4)
  | _ => .error (.malformed "Invalid \\uXXXX escape" offset)

/-- The rest of a string that was opened at `start`; `taken` is what was read of it, the last
character first. -/
def stringTail (start offset : Nat) (taken : List Char) (cs : List Char) :
    Except Fault (String × Cursor) :=
  match cs with
  | [] => .error (.malformed "Unterminated string starting at" start)
  | '"' :: rest => .ok (String.ofList taken.reverse, ⟨offset + 1, rest⟩)
  | '\\' :: [] => .error (.malformed "Unterminated string starting at" start)
  | '\\' :: 'u' :: rest =>
    match unicodeEscape (offset + 1) rest with
    | .error fault => .error fault
    | .ok (c, size) => stringTail start (offset + 2 + size) (c :: taken) (rest.drop size)
  | '\\' :: c :: rest =>
    match escapes.lookup c with
    | some special => stringTail start (offset + 2) (special :: taken) rest
    | none => .error (.malformed "Invalid \\escape" offset)
  | c :: rest =>
    if c.toNat < 0x20 then .error (.malformed "Invalid control character at" offset)
    else stringTail start (offset + 1) (c :: taken) rest
termination_by cs.length
decreasing_by all_goals simp_wf; try omega

/-- The words that are values. -/
def words : List (List Char × Json) :=
  [("null".toList, .null), ("true".toList, .bool true), ("false".toList, .bool false),
    ("NaN".toList, .real .nan), ("Infinity".toList, .real (.infinite false)),
    ("-Infinity".toList, .real (.infinite true))]

/-- The fraction that `cs` starts with: a point and at least one digit. -/
def fractionLength : List Char → Nat
  | '.' :: cs =>
    let digits := cs.takeWhile Char.isDigit
    if digits.isEmpty then 0 else digits.length + 1
  | _ => 0

/-- The exponent that `cs` starts with: a mark, perhaps a sign, and at least one digit. -/
def exponentLength : List Char → Nat
  | mark :: cs =>
    if mark = 'e' || mark = 'E' then
      let sign := (cs.take 1).takeWhile fun c => c = '+' || c = '-'
      let digits := (cs.drop sign.length).takeWhile Char.isDigit
      if digits.isEmpty then 0 else 1 + sign.length + digits.length
    else 0
  | [] => 0

/-- A number of at most `limit` digits if it is whole, or the fault that no value starts here. -/
def number (limit : Option Nat) (cursor : Cursor) : Except Fault (Json × Cursor) :=
  let sign := (cursor.rest.take 1).takeWhile (· = '-')
  let unsigned := cursor.rest.drop sign.length
  let whole :=
    match unsigned with
    | '0' :: _ => ['0']
    | _ => unsigned.takeWhile Char.isDigit
  if whole.isEmpty then cursor.fail "Expecting value"
  else
    let negative := !sign.isEmpty
    let rest := unsigned.drop whole.length
    let fraction := (rest.take (fractionLength rest)).drop 1
    let afterFraction := rest.drop (fractionLength rest)
    let exponent := (afterFraction.take (exponentLength afterFraction)).drop 1
    let next := cursor.advance
      (sign.length + whole.length + fractionLength rest + exponentLength afterFraction)
    if fraction.isEmpty && exponent.isEmpty then
      if limit.any (whole.length > ·) then .error (.tooManyDigits whole.length)
      else
        let n : Int := Text.ofDigits whole
        .ok (.int (if negative then -n else n), next)
    else
      let power : Int := Text.ofDigits (exponent.dropWhile fun c => c = '+' || c = '-')
      let power := if exponent.head? = some '-' then -power else power
      let digits := Text.ofDigits (whole ++ fraction)
      .ok (.real (Binary64.ofDecimal negative digits (power - Int.ofNat fraction.length)), next)

mutual

/-- A value. An opening bracket takes two units of fuel and a comma takes one. -/
def value (limit : Option Nat) (fuel : Nat) (cursor : Cursor) : Except Fault (Json × Cursor) :=
  match fuel with
  | 0 => cursor.fail "Expecting value"
  | fuel + 1 =>
    match cursor.rest with
    | '"' :: cs => do
      let (s, next) ← stringTail cursor.offset (cursor.offset + 1) [] cs
      return (.str s, next)
    | '\x7b' :: _ =>
      let next := (cursor.advance 1).skipBlanks
      match next.rest with
      | '\x7d' :: _ => .ok (.obj [], next.advance 1)
      | _ => members limit fuel [] next
    | '[' :: _ =>
      let next := (cursor.advance 1).skipBlanks
      match next.rest with
      | ']' :: _ => .ok (.arr [], next.advance 1)
      | _ => elements limit fuel [] next
    | _ =>
      match words.find? fun word => word.1.isPrefixOf cursor.rest with
      | some (word, meaning) => .ok (meaning, cursor.advance word.length)
      | none => number limit cursor

/-- The fields of an object from the next name on. -/
def members (limit : Option Nat) (fuel : Nat) (fields : List (String × Json)) (cursor : Cursor) :
    Except Fault (Json × Cursor) :=
  match fuel with
  | 0 => cursor.fail "Expecting value"
  | fuel + 1 =>
    match cursor.rest with
    | '"' :: cs => do
      let (key, next) ← stringTail cursor.offset (cursor.offset + 1) [] cs
      let next := next.skipBlanks
      if next.rest.head? = some ':' then
        let (v, next) ← value limit fuel (next.advance 1).skipBlanks
        let fields := setField key v fields
        let next := next.skipBlanks
        match next.rest with
        | '\x7d' :: _ => return (.obj fields, next.advance 1)
        | ',' :: _ => members limit fuel fields (next.advance 1).skipBlanks
        | _ => next.fail "Expecting ',' delimiter"
      else next.fail "Expecting ':' delimiter"
    | _ => cursor.fail "Expecting property name enclosed in double quotes"

/-- The items of an array from the next one on; `items` are those read, the last one first. -/
def elements (limit : Option Nat) (fuel : Nat) (items : List Json) (cursor : Cursor) :
    Except Fault (Json × Cursor) :=
  match fuel with
  | 0 => cursor.fail "Expecting value"
  | fuel + 1 => do
    let (v, next) ← value limit fuel cursor
    let next := next.skipBlanks
    match next.rest with
    | ']' :: _ => return (.arr (v :: items).reverse, next.advance 1)
    | ',' :: _ => elements limit fuel (v :: items) (next.advance 1).skipBlanks
    | _ => next.fail "Expecting ',' delimiter"

end

/-- Read a whole text as one value, its whole numbers having at most `limit` digits. -/
def read (limit : Option Nat) (text : String) : Except Fault Json :=
  let cs := text.toList
  if cs.head? = some (Char.ofNat 0xfeff) then
    .error (.malformed "Unexpected UTF-8 BOM (decode using utf-8-sig)" 0)
  else do
    let (v, next) ← value limit (2 * cs.length + 1) (Cursor.mk 0 cs).skipBlanks
    let next := next.skipBlanks
    if next.rest.isEmpty then return v else next.fail "Extra data"

end LoopLanguage.Json
