import LoopLanguage.Action
import LoopLanguage.Source.Lexeme

/-!
The tokens of a source, one at a time. Newlines and comments are passed over unless they are asked
for; past the end there are only end tokens. One token can be pushed back to be read again.
-/

namespace LoopLanguage

/-- The place after the character `c` at this place. -/
def Place.after (place : Place) (c : Char) : Place :=
  if c = '\n' then ⟨place.line + 1, 1⟩ else ⟨place.line, place.column + 1⟩

structure Lexer where
  /-- What is still to be read. -/
  rest : List Char
  offset : Nat
  place : Place
  /-- No token but newlines and comments was read on this line. -/
  lineStart : Bool
  pushed : Option Token
  keepTrivia : Bool
  deriving DecidableEq

namespace Lexer

def ofSource (source : String) (keepTrivia : Bool) : Lexer :=
  { rest := source.toList, offset := 0, place := ⟨1, 1⟩, lineStart := true, pushed := none,
    keepTrivia }

/-- Move past the characters `cs`, which stand at the front of the rest. -/
def skip (lexer : Lexer) (cs : List Char) : Lexer :=
  { lexer with
    rest := lexer.rest.drop cs.length
    offset := lexer.offset + cs.length
    place := cs.foldl Place.after lexer.place }

def skipGaps (lexer : Lexer) : Lexer := lexer.skip (lexer.rest.takeWhile Lexeme.isGap)

def keywords : List (String × Kind) :=
  [("PROGRAM", .kwProgram), ("LOOP", .kwLoop), ("DO", .kwDo), ("END", .kwEnd), ("INPUT", .kwInput),
    ("OUTPUT", .kwPrint), ("PRINT", .kwPrint)]

def wordKind (word : String) : Kind := (keywords.lookup word).getD .identifier

def markKind : Char → Kind
  | '+' => .plus
  | '(' => .leftParen
  | ')' => .rightParen
  | ',' => .comma
  | _ => .semicolon

/-- Read one token, newlines and comments included. -/
def scan : Action Lexer Token := fun before =>
  let lexer := before.skipGaps
  let place := lexer.place
  let token (kind : Kind) (text : Atom) : Token := ⟨kind, text, place, lexer.lineStart⟩
  let plain (kind : Kind) (cs : List Char) : Except Error Token × Lexer :=
    (.ok (token kind (.text (String.ofList cs))), lexer.skip cs)
  match Lexeme.read? lexer.rest with
  | none => (.ok (token .eof .absent), lexer)
  | some .newline => plain .newline ['\n']
  | some (.comment text) => plain .comment text
  | some (.word text) => plain (wordKind (String.ofList text)) text
  | some (.number digits) =>
    let next := lexer.skip digits
    match next.rest with
    | c :: _ =>
      if Lexeme.isNameStart c then
        let tail := next.rest.takeWhile Lexeme.isNameChar
        (.error (.malformedNumber (String.ofList (digits ++ tail)) place), next.skip tail)
      else plain .number digits
    | [] => plain .number digits
  | some (.string raw) =>
    let next := lexer.skip (Lexeme.string raw).chars
    match Literal.decode raw with
    | some text => (.ok (token .string (.text (String.ofList text))), next)
    | none => (.error (.invalidEscape place.text), next)
  | some (.opened raw) => (.error (.unterminatedString place), lexer.skip (Lexeme.opened raw).chars)
  | some .assign => plain .assign [':', '=']
  | some (.mark c) => plain (markKind c) [c]
  | some (.stray c) => (.error (.unexpectedCharacter c place), lexer)

/-- Whether the line has no token but newlines and comments after a token of that kind. -/
def startsLine (kind : Kind) (before : Bool) : Bool :=
  match kind with
  | .newline => true
  | .comment => before
  | _ => false

/-- Read one token and note whether the next one opens a line. -/
def scanOn : Action Lexer Token := fun lexer =>
  match scan lexer with
  | (.ok token, next) => (.ok token, { next with lineStart := startsLine token.kind next.lineStart })
  | (.error e, next) => (.error e, next)

/-- The first token that is wanted, with at most `count` tokens passed over. -/
def scanWanted : Nat → Action Lexer Token
  | 0 => scanOn
  | count + 1 => fun lexer =>
    match scanOn lexer with
    | (.ok token, next) =>
      if token.kind.isTrivia && !lexer.keepTrivia then scanWanted count next else (.ok token, next)
    | (.error e, next) => (.error e, next)

/-- The next token: the one pushed back if there is one. -/
def next : Action Lexer Token := fun lexer =>
  match lexer.pushed with
  | some token => (.ok token, { lexer with pushed := none })
  | none => scanWanted lexer.rest.length lexer

def pushBack (token : Token) : Action Lexer Unit := fun lexer =>
  match lexer.pushed with
  | some held => (.error (Error.raised (.pushbackTaken token held)), lexer)
  | none => (.ok (), { lexer with pushed := some token })

/-- At most `count` tokens, up to the end token or the first error. -/
def upTo : Nat → Lexer → List Token × Option Error × Lexer
  | 0, lexer => ([], none, lexer)
  | count + 1, lexer =>
    match next lexer with
    | (.ok token, after) =>
      if token.kind = .eof then ([token], none, after)
      else
        let (tokens, e, last) := upTo count after
        (token :: tokens, e, last)
    | (.error e, after) => ([], some e, after)

/-- All tokens that are left, the end token included. The number of tokens is bounded by what is
left of the source, the token pushed back and the end token. -/
def tokens (lexer : Lexer) : List Token × Option Error × Lexer := upTo (lexer.rest.length + 2) lexer

end Lexer

end LoopLanguage
