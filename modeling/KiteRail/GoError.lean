import KiteRail.Bytes

/-! Messages and error values. A message keeps the operands it quotes apart from
its text; an error is a chain of wrapped causes. -/
namespace KiteRail
open Bytes

/-- A stretch of a message: literal text, or an operand printed in quotes. -/
inductive Piece
  | text (b : Bytes)
  | quoted (b : Bytes)
  deriving DecidableEq, Repr

abbrev Message := List Piece

def msg (s : String) : Message := [.text (lit s)]

/-- A package-level sentinel, an error made on the spot, a database error with its
SQLSTATE, or a cause with text before it. -/
inductive GoError
  | sentinel (name : Bytes)
  | text (m : Message)
  | sqlState (code : Bytes)
  | wrap (context : Message) (cause : GoError)
  deriving DecidableEq, Repr

namespace GoError

/-- `errors.Is`: the target occurs in the chain. -/
def is (target : GoError) : GoError → Bool
  | wrap context cause => wrap context cause == target || is target cause
  | e => e == target

/-- `errors.As` for a database error: the first SQLSTATE of the chain. -/
def code? : GoError → Option Bytes
  | sqlState code => some code
  | wrap _ cause => code? cause
  | _ => none

/-- The text of an error; of a database error only its SQLSTATE is kept. -/
def message : GoError → Message
  | sentinel name => [.text name]
  | text m => m
  | sqlState code => [.text code]
  | wrap context cause => context ++ message cause

/-- `context.Canceled`. -/
def canceled : GoError := .sentinel (lit "context canceled")

/-- `sql.ErrNoRows`. -/
def noRows : GoError := .sentinel (lit "sql: no rows in result set")

end GoError
end KiteRail
