import Localizer.Source.Grammar.Rules
/-!
# Patterns — what declarations and parameters bind

Names, lists and objects of names with defaults, and the parameters of functions with what types add to them:
annotations, question marks, access words and decorators.
-/
namespace Localizer
namespace Source
namespace Grammar

open Reader

def annotation (r : Rules) (ctx : Context) : Reader Unit := do
  if ctx.dialect.types then
    if ← eatMark ":" then r.type ctx

def withDefault (r : Rules) (ctx : Context) (p : Pattern) : Reader Pattern := do
  if ← eatMark "=" then return .group [p, .expr (← r.expr ctx.bracketed)] else return p

/-- **The name of a property**: its text if it is plain, its expression if it is computed. -/
structure KeyRead where
  name : Option String
  computed : List Expr
  /-- the identifier, if the name could also stand alone -/
  ident : Option Ident

def propertyKey (r : Rules) (ctx : Context) : Reader KeyRead := do
  let t ← token
  match t.kind with
  | .word w _ => advance; return ⟨some w, [], some ⟨w, t.span⟩⟩
  | .quoted (.text value) => advance; return ⟨some value, [], none⟩
  | .quoted _ => advance; return ⟨none, [], none⟩
  | .number => advance; return ⟨none, [], none⟩
  | .hidden _ => advance; return ⟨none, [], none⟩
  | .mark "[" =>
    advance
    let e ← r.expr ctx.bracketed
    expectMark "]"
    return ⟨none, [e], none⟩
  | _ => fail

def propertyPattern (r : Rules) (ctx : Context) : Reader Pattern := do
  if ← eatMark "..." then return ← r.target ctx
  let key ← propertyKey r ctx
  if ← eatMark ":" then
    let p ← withDefault r ctx (← r.target ctx)
    return .group (key.computed.map .expr ++ [p])
  match key.ident with
  | some id => if isNameIn ctx id.name then withDefault r ctx (.ident id) else fail
  | none => fail

/-- **An element inside a list pattern**; a hole binds nothing. -/
def elementPattern (r : Rules) (ctx : Context) : Reader Pattern := do
  if ← isMark "," then return .group []
  if ← eatMark "..." then return ← r.target ctx
  withDefault r ctx (← r.target ctx)

def target (r : Rules) (ctx : Context) : Reader Pattern := do
  if ← eatMark "[" then return .group (← listUntil "]" (elementPattern r ctx))
  if ← eatMark "\x7b" then return .group (← listUntil "\x7d" (propertyPattern r ctx))
  return .ident (← ident ctx)

/-! ## Parameters -/

def accessWords : List String := ["public", "private", "protected", "readonly", "override"]

def arguments (r : Rules) (ctx : Context) : Reader (List Expr) := do
  expectMark "("
  listUntil ")" do
    let lo ← here
    if ← eatMark "..." then
      let e ← r.expr ctx.bracketed
      return .spread (← spanFrom lo) e
    r.expr ctx.bracketed

/-- **One decorator** after its `@`: a parenthesized expression, or names with points, and arguments if they follow. -/
def decorator (r : Rules) (ctx : Context) : Reader Expr := do
  expectMark "@"
  let lo ← here
  let base : Expr ← (do
    if ← eatMark "(" then
      let e ← nestedSequence r ctx.bracketed
      expectMark ")"
      return .paren (← spanFrom lo) e
    let first ← ident ctx
    fold (fun e => do
      if ← eatMark "." then
        let name ← (do
          match ← kind with
          | .hidden n => advance; return n
          | _ => return (← anyWord).name)
        return some (.member (← spanFrom lo) e name)
      else return none) (.ident first))
  if ctx.dialect.types then
    if ← isMark "<" then
      let _ ← attempt do
        advance
        let _ ← listUntil ">" (r.type ctx)
        unless ← isMark "(" do fail
  if ← isMark "(" then
    let args ← arguments r ctx
    return .call (← spanFrom lo) base args
  return base

def decorators (r : Rules) (ctx : Context) : Reader (List Expr) := do
  if ctx.dialect.decorators then
    collect do
      if ← isMark "@" then return some (← decorator r ctx) else return none
  else return []

/-- **Skip access words**: such a word is one only if a name, list or object follows. -/
def skipAccess (ctx : Context) : Reader Unit := do
  if ctx.dialect.types then
    let _ ← collect do
      match ← kind with
      | .word w false =>
        if accessWords.contains w then
          match (← nextToken).kind with
          | .word _ _ | .mark "\x7b" | .mark "[" => advance; return some ()
          | _ => return none
        else return none
      | _ => return none

/-- **A parameter behind what stands before it**: `plain` reads what no dots come before. -/
def parameterFrom (r : Rules) (ctx : Context) (plain : Reader Pattern) : Reader Pattern := do
  if ← eatMark "..." then
    let p ← r.target ctx
    annotation r ctx
    withDefault r ctx p
  else
    let p ← plain
    if ctx.dialect.types then
      let _ ← eatMark "?"
    annotation r ctx
    withDefault r ctx p

/-- **A parameter with its decorators.**  `this` may stand as one where there are types. -/
def parameter (r : Rules) (ctx : Context) : Reader (List Expr × Pattern) := do
  let marks ← decorators r ctx
  skipAccess ctx
  let p ← parameterFrom r ctx (do
    if ctx.dialect.types && (← isWord "this") then return .ident (← anyWord)
    r.target ctx)
  return (marks, p)

def parameters (r : Rules) (ctx : Context) : Reader (List (List Expr × Pattern)) := do
  expectMark "("
  listUntil ")" (parameter r ctx)

def withMarks (param : List Expr × Pattern) : Pattern :=
  if param.1.isEmpty then param.2 else .group (param.1.map .expr ++ [param.2])

/-- **The parameters of an arrow function**, which have neither decorators nor access words. -/
def arrowParameters (r : Rules) (ctx : Context) : Reader (List Pattern) := do
  expectMark "("
  listUntil ")" (parameterFrom r ctx (r.target ctx))

end Grammar
end Source
end Localizer
