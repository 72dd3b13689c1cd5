import LoopLanguage.Token.Basic

/-!
Statements of LOOP. There are seven forms; the other three only come from documents, which may
have anything where a statement belongs.
-/

namespace LoopLanguage

inductive Statement where
  /-- `target := value` -/
  | assign (target : Atom) (value : Int)
  /-- `target := operand + 1` -/
  | increment (target operand : Atom)
  /-- `target := callee(args)` -/
  | call (target callee : Atom) (args : List Atom)
  /-- `INPUT targets`, prompts included -/
  | input (targets : List Token)
  /-- `OUTPUT items` -/
  | output (items : List Token)
  /-- `LOOP count DO body END` -/
  | loop (count : Atom) (body : List Statement)
  /-- `PROGRAM name(params) DO body END` -/
  | define (name : Atom) (params : List Atom) (body : List Statement)
  /-- Nothing at all. -/
  | missing
  /-- A token on its own. -/
  | token (token : Token)
  /-- A whole program. -/
  | program (body : List Statement)
  deriving Inhabited

namespace Statement

/-- The forms that a source can have. -/
inductive Form where
  | assign
  | increment
  | call
  | input
  | output
  | loop
  | define
  deriving DecidableEq

/-- A form as messages name it. -/
def Form.label : Form → String
  | assign => "number assignment"
  | increment => "plus assignment"
  | call => "call assignment"
  | input => "input"
  | output => "print"
  | loop => "loop"
  | define => "program definition"

def form? : Statement → Option Form
  | assign .. => some .assign
  | increment .. => some .increment
  | call .. => some .call
  | input .. => some .input
  | output .. => some .output
  | loop .. => some .loop
  | define .. => some .define
  | _ => none

/-- A statement is ready when none of its names is missing; arguments and parameters do not
count. -/
def isReady : Statement → Bool
  | assign target _ => target.isPresent
  | increment target operand => target.isPresent && operand.isPresent
  | call target callee _ => target.isPresent && callee.isPresent
  | loop count _ => count.isPresent
  | define name _ _ => name.isPresent
  | _ => true

def sameTokens : List Token → List Token → Bool
  | [], [] => true
  | a :: as, b :: bs => a.same b && sameTokens as bs
  | _, _ => false

mutual

/-- Equality of statements, the places of their tokens aside. -/
def same : Statement → Statement → Bool
  | assign a n, assign b m => a.key = b.key && n = m
  | increment a b, increment c d => a.key = c.key && b.key = d.key
  | call a p as, call b q bs => a.key = b.key && p.key = q.key && as.map Atom.key = bs.map Atom.key
  | input as, input bs => sameTokens as bs
  | output as, output bs => sameTokens as bs
  | loop a s, loop b t => a.key = b.key && sameBody s t
  | define a ps s, define b qs t =>
    a.key = b.key && ps.map Atom.key = qs.map Atom.key && sameBody s t
  | missing, missing => true
  | token a, token b => a.same b
  | program s, program t => sameBody s t
  | _, _ => false

def sameBody : List Statement → List Statement → Bool
  | [], [] => true
  | a :: as, b :: bs => same a b && sameBody as bs
  | _, _ => false

end

end Statement

end LoopLanguage
