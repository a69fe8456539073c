import Localizer.Source.Grammar.Functions
/-!
# Elements — markup inside expressions

An element is read up to its closing bracket, which stays the current token: in an expression the reader moves on to
the next token, among the children of another element it goes on with plain text.  The names of an element that starts
with a plain name are read like any other name, in its opening and its closing tag.
-/
namespace Localizer
namespace Source
namespace Grammar

open Reader

def hyphenated : Reader Ident := do
  let lo ← here
  let name := (← state).source.takeWhile fun c => isNamePart c || c == '-'
  if name.head?.any isNameStart then
    skip name.length
    return ⟨String.ofList name, ← spanFrom lo⟩
  else fail

/-- **The name of an element**: as written, and the identifier that it reads. -/
structure ElementName where
  text : String
  reads : List Expr
  deriving Inhabited

def elementName : Reader ElementName := do
  let first ← hyphenated
  if ← eatMark ":" then
    let second ← hyphenated
    return ⟨first.name ++ ":" ++ second.name, []⟩
  let rest ← collect do
    if ← eatMark "." then return some (← hyphenated).name else return none
  let reads := if first.name.contains '-' || first.name == "this" then [] else [Expr.ident first]
  return ⟨".".intercalate (first.name :: rest), reads⟩

/-- **A quoted attribute**: no escapes, and line breaks are allowed. -/
def attributeText : Reader Unit := do
  match (← state).source with
  | quote :: cs =>
    if quote != '"' && quote != '\'' then fail
    let inside := cs.takeWhile (· != quote)
    if inside.length < cs.length then skip (inside.length + 2) else fail
  | [] => fail

def elementAttribute (r : Rules) (ctx : Context) : Reader (List Expr) := do
  if ← eatMark "\x7b" then
    expectMark "..."
    let e ← r.expr ctx.bracketed
    expectMark "\x7d"
    return [e]
  let _ ← hyphenated
  if ← eatMark ":" then
    let _ ← hyphenated
  if ← eatMark "=" then
    if ← eatMark "\x7b" then
      let e ← nestedSequence r ctx.bracketed
      expectMark "\x7d"
      return [e]
    if ← isMark "<" then
      let e ← r.element ctx.bracketed
      advance
      return [e]
    attributeText
  return []

/-- **What the children of an element read**, the bracket or brace before them being the current token.  Stops at the
closing tag, whose opening bracket is then the current token. -/
def children (r : Rules) (ctx : Context) : Reader (List Expr) := do
  let parts ← collect do
    let rest := (← state).rest
    let text := rest.takeWhile fun c => c != '{' && c != '<'
    if rest.length ≤ text.length then fail
    skipPast text.length
    if ← eatMark "\x7b" then
      if ← isMark "\x7d" then return some []
      let _ ← eatMark "..."
      let e ← nestedSequence r ctx.bracketed
      unless ← isMark "\x7d" do fail
      return some [e]
    if ← would (do expectMark "<"; expectMark "/") then return none
    return some [← r.element ctx.bracketed]
  return parts.flatten

def element (r : Rules) (ctx : Context) : Reader Expr := do
  let lo ← here
  expectMark "<"
  let opening : Option ElementName ← (do
    if ← isMark ">" then return none else return some (← elementName))
  if ctx.dialect.types && opening.isSome then optionalTypeArguments r ctx
  let attributes ← (do
    if opening.isNone then return []
    collect do
      if (← isMark ">") || (← isMark "/") then return none
      return some (← elementAttribute r ctx))
  let reads := (opening.map (·.reads)).getD [] ++ attributes.flatten
  if ← eatMark "/" then
    unless ← isMark ">" do fail
    return .compound ⟨lo, (← token).span.hi⟩ reads
  unless ← isMark ">" do fail
  let inner ← children r ctx
  expectMark "<"
  expectMark "/"
  let closing : Option ElementName ← (do
    if ← isMark ">" then return none else return some (← elementName))
  unless closing.map (·.text) == opening.map (·.text) do fail
  unless ← isMark ">" do fail
  return .compound ⟨lo, (← token).span.hi⟩ (reads ++ inner ++ (closing.map (·.reads)).getD [])

end Grammar
end Source
end Localizer
