import Localizer.Source.Reader
/-!
# Rules — the places where the grammar refers to itself

The readers of expressions, patterns, types and statements call each other.  They are written against a record of
`Rules`, the readers for what is nested inside; `Program` ties the knot, one level of nesting at a time.  A reader calls
a rule only after it has read something, so the levels of nesting are bounded by the length of the script.
-/
namespace Localizer
namespace Source

/-- **Readers for what is nested inside something.** -/
structure Rules where
  expr : Context → Reader Expr
  /-- operands joined by operators that bind at least this strongly -/
  binary : Context → Nat → Reader Expr
  /-- an operand with its leading operators -/
  unary : Context → Reader Expr
  made : Context → Reader Expr
  /-- what a variable declaration or parameter binds -/
  target : Context → Reader Pattern
  type : Context → Reader Unit
  /-- a type that is no condition; `closed` between `extends` and the `?` of a condition -/
  unconditional : Context → (closed : Bool) → Reader Unit
  stmt : Context → Reader Stmt
  /-- a markup element up to its closing bracket, which is not read -/
  element : Context → Reader Expr

def Rules.nothing : Rules where
  expr _ := Reader.fail
  binary _ _ := Reader.fail
  unary _ := Reader.fail
  made _ := Reader.fail
  target _ := Reader.fail
  type _ := Reader.fail
  unconditional _ _ := Reader.fail
  stmt _ := Reader.fail
  element _ := Reader.fail

namespace Context

/-- **Inside brackets**: `in` is an operator again and no colon is waited for. -/
def bracketed (ctx : Context) : Context := { ctx with noIn := false, inCondition := false }

def function (ctx : Context) (isAsync isGenerator : Bool) : Context :=
  { ctx with noIn := false, inCondition := false, inAsync := isAsync, inGenerator := isGenerator, inFunction := true }

def classBody (ctx : Context) : Context := ctx.function false false

end Context

namespace Grammar

open Reader

def sequenceOf (first : Reader Expr) (more : Reader Expr) : Reader Expr := do
  let lo ← here
  let e ← first
  if ← isMark "," then
    let es ← collect do
      if ← eatMark "," then return some (← more) else return none
    return .compound (← spanFrom lo) (e :: es)
  else return e

def nestedSequence (r : Rules) (ctx : Context) : Reader Expr := sequenceOf (r.expr ctx) (r.expr ctx)

def braced (r : Rules) (ctx : Context) : Reader (List Stmt) := do
  expectMark "\x7b"
  allUntil "\x7d" (r.stmt ctx)

end Grammar
end Source
end Localizer
