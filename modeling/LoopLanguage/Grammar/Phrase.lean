import LoopLanguage.Grammar.Terminal

/-!
Phrases of the grammar, which say how the pieces of a source belong together and nothing about
what they mean. Statements stand between separators, which are line breaks and semicolons. At each
place the grammar allows a set of terminals; the first piece that is not allowed is an error that
names the set. The rules of `LOOP_GRAMMAR` are embedded here one by one:

    start: _body                                                              `program`
    _body: (_SEP | statement _SEP)* statement?                                `phrases`
    ?statement: assign_number | assign_plus | assign_call | input_stmt        `statement`
              | print_stmt | loop_stmt | definition
    assign_number: IDENT ":=" NUMBER                                          `assignment`
    assign_plus: IDENT ":=" IDENT "+" NUMBER
    assign_call: IDENT ":=" IDENT "(" [name_list] ")"
    name_list: IDENT ("," IDENT)*                                             `nameList`
    input_stmt: "INPUT" input_item ("," input_item)* [","]                    `itemList`
    ?input_item: STRING | IDENT
    print_stmt: ("OUTPUT" | "PRINT") print_item ("," print_item)* [","]
    ?print_item: STRING | NUMBER | IDENT
    loop_stmt: "LOOP" IDENT ["DO"] block                                      `loop`
    definition: "PROGRAM" IDENT "(" [name_list] ")" "DO" block                `definition`
    block: _body "END"                                                        `Block`

What the parser does that Lark makes of these rules is granted: its LALR engine accepts the sentences
of the grammar and no others, stops at the first piece that no sentence goes on with, and lists as
expected the terminals for which its table has an action there.
-/

namespace LoopLanguage.Grammar

inductive Phrase where
  | assign (target number : Piece)
  | increment (target operand number : Piece)
  | call (target callee : Piece) (args : List Piece)
  | input (items : List Piece)
  | output (items : List Piece)
  | loop (count : Piece) (body : List Phrase)
  | define (name : Piece) (params : List Piece) (body : List Phrase)
  deriving Inhabited

def unexpected (expected : List Terminal) (piece : Piece) : Error :=
  .unexpectedTerminal ((Terminal.all.filter expected.contains).map Terminal.name)
    piece.terminal.name piece.text piece.place

/-- The next piece, which has to be one of those expected and is left. -/
def look (expected : List Terminal) : Action Feed Piece := fun feed =>
  match feed.front with
  | .error e => (.error e, feed)
  | .ok piece =>
    if expected.contains piece.terminal then (.ok piece, feed)
    else (.error (unexpected expected piece), feed)

/-- The next piece, which has to be one of those expected and is used up. -/
def shift (expected : List Terminal) : Action Feed Piece := do
  let piece ← look expected
  Action.modify Feed.drop
  return piece

/-- What a statement starts with. -/
def starts : List Terminal :=
  [.identifier, .kwInput, .kwLoop, .kwOutput, .kwPrint, .kwProgram]

/-- What may follow a statement. -/
def closers : List Terminal := [.finish, .kwEnd, .separator]

/-- Names between commas up to the closing parenthesis, from `name` on. -/
def namesFrom : Nat → Piece → Action Feed (List Piece)
  | 0, _ => Action.fail .exhausted
  | count + 1, name => do
    let sep ← shift [.comma, .rightParen]
    if sep.terminal = .comma then
      let next ← shift [.identifier]
      return name :: (← namesFrom count next)
    else return [name]

/-- A list of names, perhaps empty, and the closing parenthesis. -/
def nameList : Action Feed (List Piece) := do
  let piece ← shift [.identifier, .rightParen]
  if piece.terminal = .rightParen then return []
  else
    let feed ← Action.get
    namesFrom (feed.pieces.length + 1) piece

/-- The items after the first one; a comma may come last. -/
def itemsFrom (kinds : List Terminal) : Nat → Action Feed (List Piece)
  | 0 => Action.fail .exhausted
  | count + 1 => do
    let sep ← look (.comma :: closers)
    if sep.terminal = .comma then
      let _ ← shift [.comma]
      let item ← look (kinds ++ closers)
      if kinds.contains item.terminal then
        let item ← shift kinds
        return item :: (← itemsFrom kinds count)
      else return []
    else return []

def itemList (kinds : List Terminal) : Action Feed (List Piece) := do
  let first ← shift kinds
  let feed ← Action.get
  return first :: (← itemsFrom kinds (feed.pieces.length + 1))

/-- The rest of an assignment to `target`. -/
def assignment (target : Piece) : Action Feed Phrase := do
  let _ ← shift [.assign]
  let value ← shift [.identifier, .number]
  if value.terminal = .number then return .assign target value
  else
    let mark ← shift [.leftParen, .plus]
    if mark.terminal = .plus then return .increment target value (← shift [.number])
    else return .call target value (← nameList)

/-- A body and its `END`; the body starts with one of `first`. -/
abbrev Block := (first : List Terminal) → Action Feed (List Phrase)

def loop (block : Block) : Action Feed Phrase := do
  let count ← shift [.identifier]
  let first := .separator :: .kwEnd :: starts
  let piece ← look (.kwDo :: first)
  if piece.terminal = .kwDo then
    let _ ← shift [.kwDo]
    return .loop count (← block first)
  else return .loop count (← block first)

def definition (block : Block) : Action Feed Phrase := do
  let name ← shift [.identifier]
  let _ ← shift [.leftParen]
  let params ← nameList
  let _ ← shift [.kwDo]
  return .define name params (← block (.separator :: .kwEnd :: starts))

/-- A statement, bodies by `block`. -/
def statement (block : Block) : Action Feed Phrase := do
  let piece ← shift starts
  match piece.terminal with
  | .kwInput => return .input (← itemList [.identifier, .string])
  | .kwLoop => loop block
  | .kwProgram => definition block
  | .identifier => assignment piece
  | _ => return .output (← itemList [.identifier, .number, .string])

/-- Statements between separators up to `close`, which is left; `expected` may come first. Each
separator and each statement in a row and each level of nesting takes one unit of fuel. -/
def phrases : Nat → Terminal → List Terminal → Action Feed (List Phrase)
  | 0, _, _ => Action.fail .exhausted
  | fuel + 1, close, expected => do
    let piece ← look expected
    if piece.terminal = .separator then
      let _ ← shift [.separator]
      phrases fuel close (closers ++ starts)
    else if piece.terminal = .finish || piece.terminal = .kwEnd then
      if piece.terminal = close then return [] else Action.fail (unexpected [close] piece)
    else
      let phrase ← statement fun first => do
        let body ← phrases fuel .kwEnd first
        let _ ← shift [.kwEnd]
        return body
      return phrase :: (← phrases fuel close closers)

/-- The phrases of a whole source. -/
def program : Action Feed (List Phrase) := fun feed =>
  phrases (feed.pieces.length + 1) .finish (.finish :: .separator :: starts) feed

end LoopLanguage.Grammar
