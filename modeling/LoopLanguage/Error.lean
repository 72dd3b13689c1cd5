import LoopLanguage.Token.Display

/-!
Everything that can go wrong, by cause. `Error.message` has the wording and `Error.category` says
which part of the work went wrong. If a message has to show something that cannot be shown, that
is the error instead: `Error.raised`.
-/

namespace LoopLanguage

inductive Error where
  /-- No token starts with the character. -/
  | unexpectedCharacter (c : Char) (place : Place)
  /-- A number runs into a letter. -/
  | malformedNumber (literal : String) (place : Place)
  | unterminatedString (place : Place)
  | invalidEscape (position : String)
  /-- A token is pushed back while another one waits. -/
  | pushbackTaken (token held : Token)
  | notNumberKind (token : Token)
  | notNumberText (token : Token)
  /-- Another kind of token had to come. -/
  | unexpectedToken (expected : List Kind) (context : String) (got : Token)
  | unexpectedEnd (terminator : Kind)
  /-- The called program is not defined up to there. -/
  | notYetDefined (program : Atom) (place : Option Place)
  /-- A call in the text has the wrong number of arguments. -/
  | callArity (program : Atom) (params args : Nat) (place : Option Place)
  | alreadyDefined (program : Atom) (place : Option Place)
  | repeatedParameter (program : String) (place : Place)
  /-- An increment by something else than one. -/
  | notPlusOne (literal : Atom) (place : Place)
  /-- The grammar allows other terminals there. -/
  | unexpectedTerminal (expected : List String) (terminal text : String) (place : Place)
  /-- A statement that is not filled in is used. -/
  | uninitialized (label : String)
  | programNotDefined (program : Atom)
  /-- A call at run time has the wrong number of arguments. -/
  | argumentCount (program : Atom) (params args : Nat)
  | undefinedVariable (name : Atom) (context : Option String)
  | undefinedCount (name : Atom)
  | inputEnded (name : Atom)
  | inputNotNumber (name : Atom) (line : String)
  /-- A number is written with more digits than are read. -/
  | tooManyDigitsRead (count : Nat)
  /-- A value has more digits than are written. -/
  | tooManyDigitsWritten
  | notWholeNumber (text : String)
  | notANumber
  | infiniteNumber
  | unknownNodeType (type : Json)
  | malformedJson (what : String) (line column offset : Nat)
  | missingField (key : Json)
  | notAnObject
  | notSerializable (type : String)
  | notIterable (type : String)
  | notSubscriptable (type : Json)
  | notConvertible (type : String)
  | notAKey (type : String)
  | notText
  /-- The thing has no such operation: it is not a statement or not a text. -/
  | unsupported
  /-- The statement has no form. -/
  | formless
  | badEncoding
  | isDirectory
  /-- A session has no such object. -/
  | noSuchObject
  | noSuchStatement
  /-- The allotted steps are used up. -/
  | exhausted
  deriving DecidableEq

namespace Error

/-- Which part of the work went wrong. -/
inductive Category where
  | lexical
  | parsing
  | running
  | undefinedVariable
  | badValue
  | overflow
  | json
  | missing
  | wrongKind
  | unsupported
  | formless
  | encoding
  | directory
  | object
  | outOfRange
  | exhaustion
  deriving DecidableEq

def category : Error → Category
  | unexpectedCharacter .. | malformedNumber .. | unterminatedString .. | invalidEscape ..
  | pushbackTaken .. | notNumberKind .. | notNumberText .. => .lexical
  | unexpectedToken .. | unexpectedEnd .. | notYetDefined .. | callArity .. | alreadyDefined ..
  | repeatedParameter .. | notPlusOne .. | unexpectedTerminal .. => .parsing
  | uninitialized .. | programNotDefined .. | argumentCount .. | undefinedCount .. | inputEnded ..
  | inputNotNumber .. => .running
  | undefinedVariable .. => .undefinedVariable
  | tooManyDigitsRead .. | tooManyDigitsWritten | notWholeNumber .. | notANumber
  | unknownNodeType .. => .badValue
  | infiniteNumber => .overflow
  | malformedJson .. => .json
  | missingField .. => .missing
  | notAnObject | notSerializable .. | notIterable .. | notSubscriptable .. | notConvertible ..
  | notAKey .. | notText => .wrongKind
  | unsupported => .unsupported
  | formless => .formless
  | badEncoding => .encoding
  | isDirectory => .directory
  | noSuchObject => .object
  | noSuchStatement => .outOfRange
  | exhausted => .exhaustion

/-- An error in a LOOP program, as opposed to one in the data around it. -/
def isLanguageError (e : Error) : Bool :=
  match e.category with
  | .lexical | .parsing | .running | .undefinedVariable => true
  | _ => false

private def atPlace : Option Place → String
  | some place => " at " ++ place.text
  | none => ""

private def program (name : Atom) : String := "program `" ++ name.display ++ "`"

private def expects (name : Atom) (params args : Nat) : String :=
  program name ++ " expects " ++ Nat.repr params ++ " arguments, got " ++ Nat.repr args

/-- A number has too many digits; `detail` says how many if that is known. -/
private def digitLimit (detail : String) : String :=
  "Exceeds the limit (4300 digits) for integer string conversion" ++ detail ++
    "; use sys.set_int_max_str_digits() to increase the limit"

def message : Error → String
  | unexpectedCharacter c place =>
    "unexpected character " ++ Text.quote (String.ofList [c]) ++ " at " ++ place.text
  | malformedNumber literal place =>
    "malformed number literal " ++ Text.quote literal ++ " at " ++ place.text
  | unterminatedString place => "unterminated string literal at " ++ place.text
  | invalidEscape position => "invalid escape in string literal at " ++ position
  | pushbackTaken token held =>
    "cannot push back " ++ token.display ++ "; " ++ held.display ++ " is already pushed back"
  | notNumberKind token => "not a numeric literal kind - " ++ token.display
  | notNumberText token => "not a numeric literal value - " ++ token.display
  | unexpectedToken expected context got =>
    "expected " ++ Kind.describeAll expected ++ " " ++ context ++ "; got " ++ got.display ++ " at " ++
      got.place.text
  | unexpectedEnd terminator => "unexpected end of input; expected " ++ terminator.describe
  | notYetDefined name place =>
    program name ++ " is not fully-defined before call to it" ++ atPlace place
  | callArity name params args place => expects name params args ++ atPlace place
  | alreadyDefined name place => program name ++ " is already defined" ++ atPlace place
  | repeatedParameter name place =>
    "repeated parameter name in definition of `" ++ name ++ "` at " ++ place.text
  | notPlusOne literal place =>
    "only `+ 1` is allowed in plus assignment; got " ++ literal.display ++ " at " ++ place.text
  | unexpectedTerminal expected terminal text place =>
    "expected one of " ++ ", ".intercalate expected ++ "; got " ++ terminal ++ "[" ++ text ++ "] at " ++
      place.text
  | uninitialized label => "uninitialized " ++ label
  | programNotDefined name => program name ++ " is not defined"
  | argumentCount name params args => expects name params args
  | undefinedVariable name context =>
    "undefined variable " ++ name.display ++
      match context with
      | some s => " " ++ s
      | none => ""
  | undefinedCount name => "loop: expected defined variable name; got " ++ name.display
  | inputEnded name => "input: end of input reached while reading " ++ name.display
  | inputNotNumber name line =>
    "input: expected a non-negative integer for " ++ name.display ++ "; got " ++ Text.quote line
  | tooManyDigitsRead count => digitLimit (": value has " ++ Nat.repr count ++ " digits")
  | tooManyDigitsWritten => digitLimit ""
  | notWholeNumber text =>
    "invalid literal for int() with base 10: " ++ String.ofList ((Text.quote text).toList.take 200)
  | notANumber => "cannot convert float NaN to integer"
  | infiniteNumber => "cannot convert float infinity to integer"
  | unknownNodeType type => "Unknown AST node type: " ++ type.display
  | malformedJson what line column offset =>
    what ++ ": line " ++ Nat.repr line ++ " column " ++ Nat.repr column ++ " (char " ++
      Nat.repr offset ++ ")"
  | missingField key => key.inner
  | notAnObject => "Invalid AST object"
  | notSerializable type => "Unsupported node for serialization: " ++ type
  | notIterable type => "'" ++ type ++ "' object is not iterable"
  | notSubscriptable (.str _) => "string indices must be integers, not 'str'"
  | notSubscriptable (.arr _) => "list indices must be integers or slices, not str"
  | notSubscriptable type => "'" ++ type.typeName ++ "' object is not subscriptable"
  | notConvertible type =>
    "int() argument must be a string, a bytes-like object or a real number, not '" ++ type ++ "'"
  | notAKey type => "unhashable type: '" ++ type ++ "'"
  | notText => "a text is needed"
  | unsupported => "the thing has no such operation"
  | formless => "the statement has no form"
  | badEncoding => "the file is not UTF-8 text"
  | isDirectory => "the path is a directory"
  | noSuchObject => "there is no such object"
  | noSuchStatement => "there is no such statement"
  | exhausted => "the allotted steps are used up"

end Error

/-- A name or a text as messages and traces show it. -/
def Atom.shown (a : Atom) : Except Error String :=
  if a.isWritable then .ok a.display else .error .tooManyDigitsWritten

/-- A token as messages show it; what is shown as a literal has to be a text. -/
def Token.shown (t : Token) : Except Error String :=
  if t.showsLiteral then
    if t.text.literal?.isSome then .ok t.display else .error .notText
  else do
    let _ ← t.text.shown
    return t.display

namespace Error

/-- Try to show everything that the message shows. -/
def showAll : Error → Except Error Unit
  | pushbackTaken token held => do
    let _ ← token.shown
    let _ ← held.shown
  | notNumberKind token | notNumberText token | unexpectedToken _ _ token => do
    let _ ← token.shown
  | notYetDefined name _ | callArity name .. | alreadyDefined name _ | programNotDefined name
  | argumentCount name .. | undefinedVariable name _ | undefinedCount name | inputEnded name
  | inputNotNumber name _ => do
    let _ ← name.shown
  | unknownNodeType type => do
    let _ ← (Atom.ofJson type).shown
  | _ => .ok ()

/-- The error itself if its message can be written, or else what prevents that. -/
def raised (e : Error) : Error :=
  match e.showAll with
  | .ok _ => e
  | .error obstacle => obstacle

end Error

end LoopLanguage
