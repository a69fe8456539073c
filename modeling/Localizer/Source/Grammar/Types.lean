import Localizer.Source.Grammar.Patterns
/-!
# Types — annotations, which are read and forgotten

A type says nothing about names that exist when a script runs, so its readers only find where it ends.
-/
namespace Localizer
namespace Source
namespace Grammar

open Reader

/-- **Read an opening angle bracket**, also the first of two. -/
def openAngle : Reader Unit := do
  if ← eatMark "<" then return
  if ← isMark "<<" then skip 1 else fail

def typeArguments (r : Rules) (ctx : Context) : Reader Unit := do
  openAngle
  let _ ← listUntil ">" (r.type ctx)

def optionalTypeArguments (r : Rules) (ctx : Context) : Reader Unit := do
  if (← isMark "<") && !(← afterBreak) then typeArguments r ctx

def typeParameter (r : Rules) (ctx : Context) : Reader Unit := do
  let _ ← collect do
    match ← kind with
    | .word w false =>
      if ["const", "in", "out"].contains w then
        match (← nextToken).kind with
        | .word "extends" _ => return none
        | .word _ _ => advance; return some ()
        | _ => return none
      else return none
    | _ => return none
  let _ ← anyWord
  if ← eatWord "extends" then r.type ctx
  if ← eatMark "=" then r.type ctx

def typeParameters (r : Rules) (ctx : Context) : Reader Unit := do
  if ctx.dialect.types then
    if ← eatMark "<" then
      let _ ← listUntil ">" (typeParameter r ctx)

/-- **What a function returns**: a type, or a statement about an argument. -/
def returnedType (r : Rules) (ctx : Context) : Reader Unit := do
  let claim ← attempt do
    if ← isWord "asserts" then
      advance
      if ← afterBreak then fail
      let w ← anyWord
      if w.name == "is" then fail
      if ← eatWord "is" then r.type ctx
    else
      let _ ← anyWord
      if ← afterBreak then fail
      expectWord "is"
      r.type ctx
  if claim.isNone then r.type ctx

def returnAnnotation (r : Rules) (ctx : Context) : Reader Unit := do
  if ctx.dialect.types then
    if ← eatMark ":" then returnedType r ctx

def functionType (r : Rules) (ctx : Context) : Reader Unit := do
  typeParameters r ctx
  let _ ← parameters r ctx
  expectMark "=>"
  returnedType r ctx

/-! ## Object types -/

def endMember : Reader Unit := do
  if ← eatMark ";" then return
  if ← eatMark "," then return
  unless (← afterBreak) || (← isMark "\x7d") do fail

def signature (r : Rules) (ctx : Context) : Reader Unit := do
  typeParameters r ctx
  let _ ← parameters r ctx
  returnAnnotation r ctx

def skipSign : Reader Unit := do
  unless ← eatMark "+" do
    let _ ← eatMark "-"

def indexed (r : Rules) (ctx : Context) : Reader Unit := do
  expectMark "["
  let _ ← anyWord
  if ← eatWord "in" then
    r.type ctx
    if ← eatWord "as" then r.type ctx
    expectMark "]"
    skipSign
    let _ ← eatMark "?"
  else
    expectMark ":"
    r.type ctx
    expectMark "]"
  annotation r ctx

/-- **A word that may stand before a member's name** and is a name itself if nothing but its own end follows. -/
def memberWord (words : List String) : Reader Bool := do
  match ← kind with
  | .word w false =>
    if words.contains w then
      match (← nextToken).kind with
      | .word _ _ | .quoted _ | .number | .hidden _ | .mark "[" => advance; return true
      | _ => return false
    else return false
  | _ => return false

def typeMember (r : Rules) (ctx : Context) : Reader Unit := do
  let sign ← would do
    unless (← isMark "+") || (← isMark "-") do fail
    advance
    expectWord "readonly"
  if sign then advance
  let _ ← memberWord ["readonly"]
  if (← attempt (do indexed r ctx; endMember)).isSome then return
  if (← isMark "(") || (← isMark "<") then
    signature r ctx
    endMember
  else if ← would (do expectWord "new"; unless (← isMark "(") || (← isMark "<") do fail) then
    advance
    signature r ctx
    endMember
  else
    let _ ← memberWord ["get", "set"]
    let _ ← propertyKey r ctx
    let _ ← eatMark "?"
    if (← isMark "(") || (← isMark "<") then signature r ctx else annotation r ctx
    endMember

def objectType (r : Rules) (ctx : Context) : Reader Unit := do
  expectMark "\x7b"
  let _ ← allUntil "\x7d" (typeMember r ctx)

/-! ## Other types -/

/-- **The text of a template up to its end or an opening hole**, the backquote or closing brace before it being the
current token; tells whether a hole follows.  `checked` refuses malformed escapes. -/
def templateText (checked : Bool) : Reader Bool := do
  match scanTemplate (← state).rest with
  | none => fail
  | some (raw, hole, _) =>
    if checked && (cook false .plain raw).isNone then fail
    skipPast (raw.length + if hole then 2 else 1)
    return hole

def templateType (r : Rules) (ctx : Context) : Reader Unit := do
  let _ ← fold (fun (hole : Bool) => do
    if hole then
      r.type ctx
      unless ← isMark "\x7d" do fail
      return some (← templateText true)
    else return none) (← templateText true)

def entityName : Reader Unit := do
  let _ ← anyWord
  let _ ← collect do
    if ← eatMark "." then
      match ← kind with
      | .hidden _ => advance
      | _ => let _ ← anyWord
      return some ()
    else return none

def importedType (r : Rules) (ctx : Context) : Reader Unit := do
  expectMark "("
  r.type ctx
  if ← eatMark "," then
    unless ← isMark ")" do
      let _ ← r.expr ctx.bracketed
      let _ ← eatMark ","
  expectMark ")"
  let _ ← collect do
    if ← eatMark "." then
      let _ ← anyWord
      return some ()
    else return none

def tupleElement (r : Rules) (ctx : Context) : Reader Unit := do
  let _ ← eatMark "..."
  let _ ← attempt do
    let _ ← anyWord
    let _ ← eatMark "?"
    expectMark ":"
  r.type ctx
  let _ ← eatMark "?"

/-- **Types that are no names**, unless a point follows: they take no arguments. -/
def basicTypes : List String :=
  ["any", "boolean", "bigint", "never", "number", "object", "string", "symbol", "unknown", "undefined", "intrinsic"]

def primaryType (r : Rules) (ctx : Context) : Reader Unit := do
  match ← kind with
  | .mark "(" =>
    advance
    r.type ctx
    expectMark ")"
  | .mark "[" =>
    advance
    let _ ← listUntil "]" (tupleElement r ctx)
  | .mark "\x7b" => objectType r ctx
  | .mark "`" => templateType r ctx
  | .quoted _ => advance
  | .number => advance
  | .mark "-" =>
    advance
    match ← kind with
    | .number => advance
    | _ => fail
  | .word "typeof" false =>
    advance
    if ← eatWord "import" then importedType r ctx else entityName
    optionalTypeArguments r ctx
  | .word "import" false =>
    advance
    importedType r ctx
    optionalTypeArguments r ctx
  | .word w _ =>
    if ["void", "null", "true", "false", "this"].contains w then advance
    else if isReserved w then fail
    else if basicTypes.contains w && (← nextToken).kind != .mark "." then advance
    else
      entityName
      optionalTypeArguments r ctx
  | _ => fail

def bracketedType (r : Rules) (ctx : Context) : Reader Unit := do
  primaryType r ctx
  let _ ← collect do
    if (← isMark "[") && !(← afterBreak) then
      advance
      unless ← eatMark "]" do
        r.type ctx
        expectMark "]"
      return some ()
    else return none

/-- **A type with the operators before it**, for at most `depth` operators. -/
def operatorType (r : Rules) (ctx : Context) (closed : Bool) : Nat → Reader Unit
  | 0 => fail
  | depth + 1 => do
    match ← kind with
    | .word w false =>
      if ["keyof", "unique", "readonly"].contains w then
        let operand ← attempt do
          advance
          operatorType r ctx closed depth
        if operand.isNone then bracketedType r ctx
      else if w == "infer" then
        let inferred ← attempt do
          advance
          let _ ← ident ctx
          -- before a `?` the constraint is a condition on the inferred type, unless the `?` is that of another one
          let _ ← attempt do
            expectWord "extends"
            r.unconditional ctx closed
            if !closed && (← isMark "?") then fail
        if inferred.isNone then bracketedType r ctx
      else bracketedType r ctx
    | _ => bracketedType r ctx

/-- **Types joined by a mark**, which may also stand first. -/
def joinedTypes (mark : String) (part : Reader Unit) : Reader Unit := do
  let _ ← eatMark mark
  part
  let _ ← collect do
    if ← eatMark mark then
      part
      return some ()
    else return none

def unconditionalType (r : Rules) (ctx : Context) (closed : Bool) : Reader Unit := do
  if (← attempt (functionType r ctx)).isSome then return
  let made ← would do
    let _ ← eatWord "abstract"
    expectWord "new"
    unless (← isMark "(") || (← isMark "<") do fail
  if made then
    let _ ← eatWord "abstract"
    advance
    functionType r ctx
  else
    let turns := (← state).turns
    joinedTypes "|" (joinedTypes "&" (operatorType r ctx closed turns))

def type (r : Rules) (ctx : Context) : Reader Unit := do
  unconditionalType r ctx false
  if (← isWord "extends") && !(← afterBreak) then
    advance
    unconditionalType r ctx true
    expectMark "?"
    r.type ctx
    expectMark ":"
    r.type ctx

end Grammar
end Source
end Localizer
