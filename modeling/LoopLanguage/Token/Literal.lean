/-!
String literals. A backslash escapes itself and the quote, and spells line feed, tab and carriage
return; no other character may follow it.
-/

namespace LoopLanguage.Literal

/-- The letter that stands after a backslash for a character that is not written as it is. -/
def escape? : Char → Option Char
  | '\\' => some '\\'
  | '"' => some '"'
  | '\n' => some 'n'
  | '\t' => some 't'
  | '\r' => some 'r'
  | _ => none

def unescape? : Char → Option Char
  | '\\' => some '\\'
  | '"' => some '"'
  | 'n' => some '\n'
  | 't' => some '\t'
  | 'r' => some '\r'
  | _ => none

theorem unescape?_of_escape? {c d : Char} (h : escape? c = some d) : unescape? d = some c := by
  unfold escape? at h
  split at h <;> cases h <;> rfl

/-- A text as it is written between the quotes. -/
def encode : List Char → List Char
  | [] => []
  | c :: cs =>
    match escape? c with
    | some d => '\\' :: d :: encode cs
    | none => c :: encode cs

/-- The text that is written between the quotes, if every backslash is followed well. -/
def decode : List Char → Option (List Char)
  | [] => some []
  | '\\' :: [] => none
  | '\\' :: d :: cs =>
    match unescape? d with
    | some c => (decode cs).map (c :: ·)
    | none => none
  | c :: cs => (decode cs).map (c :: ·)

theorem decode_encode (cs : List Char) : decode (encode cs) = some cs := by
  induction cs with
  | nil => rfl
  | cons c cs ih =>
    cases h : escape? c with
    | some d => simp [encode, h, decode, unescape?_of_escape? h, ih]
    | none =>
      have hc : c ≠ '\\' := by rintro rfl; simp [escape?] at h
      simp [encode, h, decode, hc, ih]

/-- A text as a literal, with its quotes. -/
def quote (s : String) : String := String.ofList ('"' :: encode s.toList ++ ['"'])

/-- A piece of a text: a single character is escaped, anything longer stands for itself. -/
def encodePiece (piece : String) : List Char :=
  match piece.toList with
  | [c] => encode [c]
  | cs => cs

/-- A text that is given in pieces, as a literal. -/
def quotePieces (pieces : List String) : String :=
  String.ofList ('"' :: pieces.flatMap encodePiece ++ ['"'])

/-- The body of a literal that was opened: what stands before the closing quote and what comes
after it. Without a closing quote on the same line there is none, and the first part is what was
read up to there. -/
def body : List Char → List Char × Option (List Char)
  | [] => ([], none)
  | '"' :: cs => ([], some cs)
  | '\\' :: c :: cs =>
    if c = '\n' then (['\\'], none)
    else
      let (raw, rest) := body cs
      ('\\' :: c :: raw, rest)
  | c :: cs =>
    if c = '\n' then ([], none)
    else
      let (raw, rest) := body cs
      (c :: raw, rest)

/-- What is written for a text never closes the literal early, whatever comes after it. -/
theorem body_encode_append (cs rest : List Char) :
    body (encode cs ++ '"' :: rest) = (encode cs, some rest) := by
  induction cs with
  | nil => rfl
  | cons c cs ih =>
    cases h : escape? c with
    | some d =>
      have hd : d ≠ '\n' := by
        rintro rfl
        unfold escape? at h
        split at h <;> simp at h
      simp [encode, h, body, hd, ih]
    | none =>
      have hquote : c ≠ '"' := by rintro rfl; simp [escape?] at h
      have hslash : c ≠ '\\' := by rintro rfl; simp [escape?] at h
      have hline : c ≠ '\n' := by rintro rfl; simp [escape?] at h
      simp [encode, h, body, hslash, hline, ih]

end LoopLanguage.Literal
