import LoopLanguage.Source.Lexer
import LoopLanguage.Statement.Draft

/-!
Parsing by descent. A parser takes tokens from a lexer and reads statements until it meets its
terminator: the end of the source for a program, `END` for a body. A body is read by a parser of
its own on the same lexer and the same registry, so a definition can be called as soon as it is
closed. A line break inside a statement means nothing.

A parser looks up to four tokens ahead to tell the three assignments apart and keeps those tokens;
otherwise a token that is not used goes back to the lexer.
-/

namespace LoopLanguage

structure Parser where
  lexer : Lexer
  /-- Tokens that were looked at and are still to be read. -/
  ahead : List Token
  registry : Registry
  terminator : Kind
  /-- The terminator was read. -/
  done : Bool
  /-- The statement that is being read, as far as it was read. -/
  draft : Draft

namespace Parser

def ofLexer (lexer : Lexer) (terminator : Kind) (registry : Registry) : Parser :=
  { lexer, ahead := [], registry, terminator, done := false, draft := .formless }

/-- A bound on the tokens that are left, not counting end tokens read from the lexer. -/
def size (parser : Parser) : Nat := parser.ahead.length + parser.lexer.rest.length + 2

def onLexer {α : Type} (act : Action Lexer α) : Action Parser α :=
  Action.onPart Parser.lexer (fun parser lexer => { parser with lexer }) act

def nextToken : Action Parser Token := fun parser =>
  match parser.ahead with
  | token :: ahead => (.ok token, { parser with ahead })
  | [] => onLexer Lexer.next parser

def pushBack (token : Token) : Action Parser Unit := fun parser =>
  match parser.ahead with
  | [] => onLexer (Lexer.pushBack token) parser
  | ahead => (.ok (), { parser with ahead := token :: ahead })

def takeTokens : Nat → Action Parser (List Token)
  | 0 => return []
  | count + 1 => do
    let token ← nextToken
    return token :: (← takeTokens count)

/-- Look at the next tokens. If one of them cannot be read, those before it are lost. -/
def peek (count : Nat) : Action Parser (List Token) := do
  let tokens ← takeTokens count
  Action.modify fun parser => { parser with ahead := tokens ++ parser.ahead }
  return tokens

def expectOneOf (kinds : List Kind) (context : String) : Action Parser Token := do
  let token ← nextToken
  if kinds.contains token.kind then return token
  else Action.fail (.unexpectedToken kinds context token)

def expect (kind : Kind) (context : String) : Action Parser Token := expectOneOf [kind] context

/-- Read what ends a statement. A semicolon is used up; a token that opens a line, `END` and the
end of the source also end it and are left. -/
def endStatement (context : String) : Action Parser Unit := do
  let token ← nextToken
  if token.kind = .semicolon then return ()
  else if token.lineStart || token.kind = .kwEnd || token.kind = .eof then pushBack token
  else Action.fail (.unexpectedToken [.semicolon] context token)

/-- Names between commas up to the closing parenthesis, from the name `token` on. -/
def namesFrom (context : String) : Nat → Token → Action Parser (List Atom)
  | 0, _ => Action.fail .exhausted
  | count + 1, token => do
    let sep ← nextToken
    if sep.kind = .comma then
      let name ← expect .identifier ("after `,` in " ++ context)
      return token.text :: (← namesFrom context count name)
    else if sep.kind = .rightParen then return [token.text]
    else
      Action.fail (.unexpectedToken [.comma, .rightParen] ("after name in " ++ context) sep)

/-- A list of names, perhaps empty, and the closing parenthesis. -/
def nameList (context : String) : Action Parser (List Atom) := do
  let token ← expectOneOf [.identifier, .rightParen] ("in " ++ context)
  if token.kind = .rightParen then return []
  else
    let parser ← Action.get
    namesFrom context parser.size token

/-- The items after the first one: they and their commas stand on the same line. A comma may come
last. -/
def itemsFrom (kinds : List Kind) : Nat → Action Parser (List Token)
  | 0 => Action.fail .exhausted
  | count + 1 => do
    let sep ← nextToken
    if sep.kind ≠ .comma || sep.lineStart then
      pushBack sep
      return []
    else
      let item ← nextToken
      if !kinds.contains item.kind || item.lineStart then
        pushBack item
        return []
      else return item :: (← itemsFrom kinds count)

def itemList (kinds : List Kind) (context : String) : Action Parser (List Token) := do
  let first ← expectOneOf kinds ("as first item in " ++ context)
  let parser ← Action.get
  return first :: (← itemsFrom kinds parser.size)

/-- Note how far the statement was read. -/
def note (draft : Draft) : Action Parser Unit :=
  Action.modify fun parser => { parser with draft }

def readAssign : Action Parser Statement := do
  let target ← expect .identifier "as lvalue in number assignment"
  note (.assign target.text none)
  let _ ← expect .assign "after lvalue in number assignment"
  let number ← expect .number "in number assignment"
  let value ← Action.ofExcept number.value
  note (.assign target.text (some value))
  endStatement "after number assignment"
  return .assign target.text value

def readIncrement : Action Parser Statement := do
  let target ← expect .identifier "as lvalue in plus assignment"
  note (.increment target.text .absent)
  let _ ← expect .assign "after lvalue in plus assignment"
  let operand ← expect .identifier "as rvalue in plus assignment"
  note (.increment target.text operand.text)
  let _ ← expect .plus "after rvalue in plus assignment"
  let one ← expect .number "after `+` in plus assignment"
  if (← Action.ofExcept one.value) ≠ 1 then Action.fail (.notPlusOne one.text one.place)
  else
    endStatement "after plus assignment"
    return .increment target.text operand.text

def readCall : Action Parser Statement := do
  let target ← expect .identifier "as lvalue in call assignment"
  note (.call target.text .absent none)
  let _ ← expect .assign "after lvalue in call assignment"
  let callee ← expect .identifier "as program name in call"
  if !(← Action.ofExcept ((← Action.get).registry.contains callee.text)) then
    Action.fail (.notYetDefined callee.text (some callee.place))
  else
    note (.call target.text callee.text none)
    let _ ← expect .leftParen "before args list in call"
    let args ← nameList "args list in call"
    let definition ← Action.ofExcept ((← Action.get).registry.lookup callee.text)
    if args.length ≠ definition.params.length then
      Action.fail
        (.callArity callee.text definition.params.length args.length (some callee.place))
    else
      note (.call target.text callee.text (some args))
      endStatement "after call assignment"
      return .call target.text callee.text args

def readInput : Action Parser Statement := do
  let _ ← expect .kwInput "in input"
  let targets ← itemList [.string, .identifier] "input"
  note (.input (some targets))
  endStatement "after input"
  return .input targets

/-- Every number among the tokens has to have a value. -/
def checkNumbers (tokens : List Token) : Except Error Unit :=
  tokens.forM fun token => if token.kind = .number then do let _ ← token.value else .ok ()

def readOutput : Action Parser Statement := do
  let _ ← expect .kwPrint "in print"
  let items ← itemList [.string, .number, .identifier] "print"
  Action.ofExcept (checkNumbers items)
  note (.output (some items))
  endStatement "after print"
  return .output items

/-- `DO` is optional after the count. -/
def skipDo : Action Parser Unit := do
  let token ← nextToken
  if token.kind = .kwDo then return () else pushBack token

def readLoop (block : Action Parser (List Statement)) : Action Parser Statement := do
  let _ ← expect .kwLoop "in loop"
  let count ← expect .identifier "as count variable in loop"
  note (.loop count.text none)
  skipDo
  let body ← block
  note (.loop count.text (some body))
  endStatement "after loop"
  return .loop count.text body

def onRegistry {α : Type} (act : Action Registry α) : Action Parser α :=
  Action.onPart Parser.registry (fun parser registry => { parser with registry }) act

def readDefine (block : Action Parser (List Statement)) : Action Parser Statement := do
  let _ ← expect .kwProgram "in program definition"
  let name ← expect .identifier "as program name in definition"
  if ← Action.ofExcept ((← Action.get).registry.contains name.text) then
    Action.fail (.alreadyDefined name.text (some name.place))
  else
    note (.define name.text none none)
    let _ ← expect .leftParen "before params list in definition"
    let params ← nameList "params list in definition"
    if ¬params.Nodup then Action.fail (.repeatedParameter name.text.display name.place)
    else
      note (.define name.text (some params) none)
      let _ ← expect .kwDo "after params list in definition"
      let body ← block
      note (.define name.text (some params) (some body))
      onRegistry (Registry.define ⟨name.text, params, body⟩)
      endStatement "after program definition"
      return .define name.text params body

/-- Read a statement of that form, its bodies by `block`. -/
def readForm (block : Action Parser (List Statement)) : Statement.Form → Action Parser Statement
  | .assign => readAssign
  | .increment => readIncrement
  | .call => readCall
  | .input => readInput
  | .output => readOutput
  | .loop => readLoop block
  | .define => readDefine block

/-- The form of an assignment, by what follows `:=`. -/
def assignmentForm : Action Parser Statement.Form := do
  let tokens ← peek 3
  let sign := tokens.getD 1 default
  let value := tokens.getD 2 default
  if sign.kind ≠ .assign then Action.fail (.unexpectedToken [.assign] "after lvalue" sign)
  else if value.kind = .number then return .assign
  else if value.kind ≠ .identifier then
    Action.fail (.unexpectedToken [.number, .identifier] "after `:=`" value)
  else
    let follow := (← peek 4).getD 3 default
    if follow.kind = .plus then return .increment
    else if follow.kind = .leftParen then return .call
    else Action.fail (.unexpectedToken [.plus, .leftParen] "after rvalue name" follow)

/-- The form of the statement that starts with `token`, which is still to be read. -/
def formOf (token : Token) : Action Parser Statement.Form :=
  match token.kind with
  | .kwInput => return .input
  | .kwPrint => return .output
  | .kwLoop => return .loop
  | .kwProgram => return .define
  | .identifier => assignmentForm
  | _ => fun parser =>
    (.error (.unexpectedToken
      [.identifier, .kwInput, .kwPrint, .kwLoop, .kwProgram, parser.terminator]
      "at start of statement" token), parser)

/-- The first token that is no semicolon, with at most `count` semicolons before it. -/
def skipSemicolons : Nat → Action Parser Token
  | 0 => Action.fail .exhausted
  | count + 1 => do
    let token ← nextToken
    if token.kind = .semicolon then skipSemicolons count else return token

/-- The next statement, its bodies read by `block`; nothing once the terminator is read. -/
def nextBy (block : Action Parser (List Statement)) : Action Parser (Option Statement) := do
  let parser ← Action.get
  if parser.done then return none
  else
    let token ← skipSemicolons parser.size
    if token.kind = parser.terminator then
      Action.modify fun parser => { parser with done := true }
      return none
    else if token.kind = .eof then Action.fail (.unexpectedEnd parser.terminator)
    else
      pushBack token
      let form ← formOf token
      return some (← readForm block form)

/-- Read a body: with nothing looked ahead at and up to `END`. -/
def inBlock {α : Type} (act : Action Parser α) : Action Parser α := fun parser =>
  match act (ofLexer parser.lexer .kwEnd parser.registry) with
  | (r, inner) => (r, { parser with lexer := inner.lexer, registry := inner.registry })

/-- The statements up to the terminator. Each statement in a row and each level of nesting takes
one unit of fuel. -/
def statements : Nat → Action Parser (List Statement)
  | 0 => Action.fail .exhausted
  | fuel + 1 => do
    match ← nextBy (inBlock (statements fuel)) with
    | none => return []
    | some s => return s :: (← statements fuel)

/-- The statements up to the terminator. Every statement uses a token up, so the tokens that are
left bound the statements. -/
def parseAll : Action Parser (List Statement) := fun parser => statements parser.size parser

def parseBlock : Action Parser (List Statement) := inBlock parseAll

def next : Action Parser (Option Statement) := nextBy parseBlock

/-- Read a statement of that form from scratch. -/
def readDraft (form : Option Statement.Form) : Action Parser Unit := do
  note (Draft.blank form)
  match form with
  | none => Action.fail .formless
  | some form => let _ ← readForm parseBlock form

end Parser

/-- The program of a source, parsed by descent. Definitions go into the registry one by one and
stay there when a later part fails. -/
def parseByDescent (source : String) : Action Registry (List Statement) := fun registry =>
  match Parser.parseAll (Parser.ofLexer (Lexer.ofSource source false) .eof registry) with
  | (r, parser) => (r, parser.registry)

end LoopLanguage
