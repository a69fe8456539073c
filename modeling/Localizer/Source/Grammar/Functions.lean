import Localizer.Source.Grammar.Types
/-!
# Functions — functions, methods and classes

A function without a body (an overload, a method of an abstract class) is one whose body is empty.
-/
namespace Localizer
namespace Source
namespace Grammar

open Reader

/-- **A function from its type parameters on**, with those parameters that `keep` keeps. -/
def functionRest (r : Rules) (ctx : Context) (keep : List (List Expr × Pattern) → List Pattern)
    (isAsync isGenerator : Bool) : Reader Function := do
  let inner := ctx.function isAsync isGenerator
  typeParameters r inner
  let params ← parameters r inner
  returnAnnotation r inner
  return .mk (keep params) (← braced r inner)

/-- **A function that is declared**: where there are types, its body may be missing. -/
def declaredFunction (r : Rules) (ctx : Context) (keep : List (List Expr × Pattern) → List Pattern)
    (isAsync isGenerator : Bool) : Reader Function := do
  if ctx.dialect.types then
    let inner := ctx.function isAsync isGenerator
    let bare ← attempt do
      typeParameters r inner
      let params ← parameters r inner
      returnAnnotation r inner
      if ← isMark "\x7b" then fail
      endStatement
      return Function.mk (keep params) []
    if let some fn := bare then return fn
  functionRest r ctx keep isAsync isGenerator

def optionalName : Reader (Option Ident) := do
  match ← kind with
  | .word w _ => if isReserved w then fail else return some (← anyWord)
  | _ => return none

def functionFrom (r : Rules) (ctx : Context) (isAsync : Bool) : Reader (Option Ident × Function) := do
  expectWord "function"
  let isGenerator ← eatMark "*"
  let name ← optionalName
  return (name, ← functionRest r ctx (List.map withMarks) isAsync isGenerator)

def functionDeclared (r : Rules) (ctx : Context) (isAsync : Bool) : Reader (Option Ident × Function) := do
  expectWord "function"
  let isGenerator ← eatMark "*"
  let name ← optionalName
  return (name, ← declaredFunction r ctx (List.map withMarks) isAsync isGenerator)

/-! ## Classes -/

/-- **Words before the members of a class**; those of the second list only where there are types. -/
def memberModifiers (ctx : Context) : List String :=
  if ctx.dialect.types then
    ["static", "public", "private", "protected", "readonly", "abstract", "override", "declare", "accessor"]
  else ["static"]

def modifiers (ctx : Context) : Reader (List String) :=
  collect do
    match ← kind with
    | .word w false =>
      if (memberModifiers ctx).contains w then
        let next ← nextToken
        match next.kind with
        | .word _ _ | .quoted _ | .number | .hidden _ | .mark "[" | .mark "*" =>
          if next.afterBreak && w != "static" then return none
          advance
          return some w
        | _ => return none
      else return none
    | _ => return none

/-- **The key of `[key: type]: type`**, if that is here and may stand behind these words. -/
def indexSignature (r : Rules) (ctx : Context) (words : List String) : Reader (Option Ident) := do
  let mayStand := !words.any ["public", "private", "protected", "abstract", "override"].contains
  if ctx.dialect.types && mayStand && (← isMark "[") then
    attempt do
      advance
      let key ← ident ctx
      expectMark ":"
      r.type ctx
      expectMark "]"
      annotation r ctx
      endMember
      return key
  else return none

/-- **`async` or an accessor word before a member's name**, or a star. -/
structure MemberPrelude where
  isAsync : Bool
  isGenerator : Bool
  isGetter : Bool
  isSetter : Bool

def MemberPrelude.any (prelude : MemberPrelude) : Bool :=
  prelude.isAsync || prelude.isGenerator || prelude.isGetter || prelude.isSetter

def memberPrelude : Reader MemberPrelude := do
  let isAsync ← (do
    if ← isWord "async" then
      let next ← nextToken
      if next.afterBreak then return false
      match next.kind with
      | .word _ _ | .quoted _ | .number | .hidden _ | .mark "[" | .mark "*" => advance; return true
      | _ => return false
    else return false)
  if ← eatMark "*" then return ⟨isAsync, true, false, false⟩
  if isAsync then return ⟨true, false, false, false⟩
  if ← memberWord ["get"] then return ⟨false, false, true, false⟩
  return ⟨false, false, false, ← memberWord ["set"]⟩

/-- **The parameter that a setter of an object keeps**, without its decorators: the second if there are several. -/
def setterParameter : List (List Expr × Pattern) → List Pattern
  | [] => []
  | [param] | _ :: param :: _ => [param.2]

/-- **The parameters that a method of an object keeps**; a getter keeps none. -/
def MemberPrelude.kept (prelude : MemberPrelude) (params : List (List Expr × Pattern)) : List Pattern :=
  if prelude.isGetter then []
  else if prelude.isSetter then setterParameter params
  else params.map withMarks

/-- **What makes the objects of a class**: its decorators are not kept, and it is a method. -/
def isConstructor (prelude : MemberPrelude) (key : KeyRead) : Bool :=
  key.name == some "constructor" && !prelude.any

def classMember (r : Rules) (ctx : Context) : Reader Member := do
  if ← eatMark ";" then return .parts []
  let marks ← decorators r ctx
  if ← isWord "static" then
    if (← nextToken).kind == .mark "\x7b" then
      advance
      return .block (← braced r (ctx.classBody))
  let words ← modifiers ctx
  if let some key ← indexSignature r ctx words then return .index (.ident key)
  let prelude ← memberPrelude
  let key ← propertyKey r ctx
  if ctx.dialect.types then
    unless ← eatMark "?" do
      let _ ← eatMark "!"
  if (← isMark "(") || (← isMark "<") then
    let fn ← declaredFunction r ctx (List.map withMarks) prelude.isAsync prelude.isGenerator
    return .method (if isConstructor prelude key then [] else marks ++ key.computed) fn
  if prelude.any || isConstructor prelude key then fail
  let inner := ctx.classBody
  annotation r inner
  let value ← (do
    if ← eatMark "=" then return [← r.expr inner] else return [])
  endStatement
  return .parts (marks ++ key.computed ++ value)

/-- **The names that a class implements**: only the first of names joined by points is read. -/
def implemented (r : Rules) (ctx : Context) : Reader (List Expr) := do
  let one : Reader Expr := do
    let first ← ident ctx
    let _ ← collect do
      if ← eatMark "." then
        let _ ← anyWord
        return some ()
      else return none
    optionalTypeArguments r ctx
    return .ident first
  let first ← one
  let more ← collect do
    if ← eatMark "," then return some (← one) else return none
  return first :: more

/-- **A class from its keyword on**, with its name if it has one.  `base` reads what it extends. -/
def classFrom (r : Rules) (ctx : Context) (base : Reader Expr) (marks : List Expr) :
    Reader (Option Ident × List Member) := do
  expectWord "class"
  let name ← (do
    match ← kind with
    | .word w _ =>
      if isReserved w || (ctx.dialect.types && w == "implements") then return none else return some (← anyWord)
    | _ => return none)
  typeParameters r ctx
  let extended ← (do
    if ← eatWord "extends" then
      let e ← base
      if ctx.dialect.types then optionalTypeArguments r ctx
      return [e]
    else return [])
  let promised ← (do
    if ctx.dialect.types && (← isWord "implements") then
      advance
      implemented r ctx
    else return [])
  expectMark "\x7b"
  let members ← allUntil "\x7d" (classMember r ctx)
  return (name, .parts (marks ++ extended ++ promised) :: members)

end Grammar
end Source
end Localizer
