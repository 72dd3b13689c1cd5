import LoopLanguage.Source.Lexer

/-!
Terminals of the grammar `LOOP_GRAMMAR`, which has these rules for them:

    IDENT: /[A-Za-z_][A-Za-z0-9_]*/
    NUMBER: /[0-9]+/
    STRING: /"([^"\\\n]|\\.)*"/
    _SEP: ";" | /\r?\n/
    COMMENT: /#[^\n]*/ | /\/\/[^\n]*/
    %ignore COMMENT
    %ignore /[ \t\f\r]+/

Here a line break is a terminal like the semicolon, a number may be followed by a word at once, and
literals are kept as they are written.

That the lexer which Lark makes of these rules (the basic one, which does not ask what the parser
expects) splits a text as `piecesFrom` does is granted. It takes the first terminal that matches at a
place, as far as it matches; a word is a keyword exactly if the whole of it is one; a carriage return
is skipped before a separator is looked for; and the parser is given the pieces one by one, so that it
meets what stands before a character that fits no terminal first.
-/

namespace LoopLanguage.Grammar

inductive Terminal where
  | finish
  | comma
  | kwDo
  | kwEnd
  | identifier
  | kwInput
  | kwLoop
  | leftParen
  | number
  | kwOutput
  | plus
  | kwPrint
  | kwProgram
  | rightParen
  | string
  | separator
  | assign
  deriving DecidableEq, Inhabited

namespace Terminal

/-- All terminals, by the order of their names. -/
def all : List Terminal :=
  [finish, comma, kwDo, kwEnd, identifier, kwInput, kwLoop, leftParen, number, kwOutput, plus,
    kwPrint, kwProgram, rightParen, string, separator, assign]

/-- The name of a terminal in messages. -/
def name : Terminal → String
  | finish => "$END"
  | comma => "COMMA"
  | kwDo => "DO"
  | kwEnd => "END"
  | identifier => "IDENT"
  | kwInput => "INPUT"
  | kwLoop => "LOOP"
  | leftParen => "LPAR"
  | number => "NUMBER"
  | kwOutput => "OUTPUT"
  | plus => "PLUS"
  | kwPrint => "PRINT"
  | kwProgram => "PROGRAM"
  | rightParen => "RPAR"
  | string => "STRING"
  | separator => "_SEP"
  | assign => "__ANON_0"

end Terminal

/-- A terminal with the text it stands for and its place. -/
structure Piece where
  terminal : Terminal
  text : String
  place : Place
  deriving DecidableEq, Inhabited

def keywords : List (String × Terminal) :=
  [("PROGRAM", .kwProgram), ("OUTPUT", .kwOutput), ("INPUT", .kwInput), ("PRINT", .kwPrint),
    ("LOOP", .kwLoop), ("END", .kwEnd), ("DO", .kwDo)]

def wordTerminal (word : String) : Terminal := (keywords.lookup word).getD .identifier

def markTerminal : Char → Terminal
  | '+' => .plus
  | '(' => .leftParen
  | ')' => .rightParen
  | ',' => .comma
  | _ => .separator

/-- The terminal of a lexeme, none for a comment, or the character that fits no terminal. -/
def terminal? : Lexeme → Except Char (Option Terminal)
  | .newline => .ok (some .separator)
  | .comment _ => .ok none
  | .word text => .ok (some (wordTerminal (String.ofList text)))
  | .number _ => .ok (some .number)
  | .string _ => .ok (some .string)
  | .opened _ => .error '"'
  | .assign => .ok (some .assign)
  | .mark c => .ok (some (markTerminal c))
  | .stray c => .error c

/-- The pieces of a text that starts at `place`, up to the first character that fits no terminal.
Every piece has a character, so their number is bounded by the length of the text. -/
def piecesFrom : Nat → Place → List Char → List Piece × Option Error
  | 0, _, _ => ([], none)
  | count + 1, place, cs =>
    let gap := cs.takeWhile Lexeme.isGap
    let cs := cs.drop gap.length
    let place := gap.foldl Place.after place
    match Lexeme.read? cs with
    | none => ([], none)
    | some lexeme =>
      match terminal? lexeme with
      | .error c => ([], some (.unexpectedCharacter c place))
      | .ok terminal =>
        let (pieces, fault) :=
          piecesFrom count (lexeme.chars.foldl Place.after place) (cs.drop lexeme.chars.length)
        match terminal with
        | none => (pieces, fault)
        | some terminal => (⟨terminal, String.ofList lexeme.chars, place⟩ :: pieces, fault)

/-- What the parser is fed with: pieces, and the fault that the text has after them. -/
structure Feed where
  pieces : List Piece
  fault : Option Error
  /-- The place of the last piece that was used up; the end of the text is shown there. -/
  last : Place

namespace Feed

def ofSource (source : String) : Feed :=
  let cs := source.toList
  let (pieces, fault) := piecesFrom (cs.length + 1) ⟨1, 1⟩ cs
  { pieces, fault, last := ⟨1, 1⟩ }

/-- The piece that comes next, which is the end when there is no other one. -/
def front (feed : Feed) : Except Error Piece :=
  match feed.pieces, feed.fault with
  | piece :: _, _ => .ok piece
  | [], some e => .error e
  | [], none => .ok ⟨.finish, "", feed.last⟩

def drop (feed : Feed) : Feed :=
  match feed.pieces with
  | piece :: pieces => { feed with pieces, last := piece.place }
  | [] => feed

end Feed

end LoopLanguage.Grammar
