import Localizer.Source.Grammar.Elements
/-!
# Expressions — from single operands to assignments

Operands are read with what follows them (members, calls, templates), then with the operators before and between them,
then as conditions and assignments.  An arrow function is a whole expression: no operator takes it as an operand, and
each level that starts with one hands it on as it is.  Text in parentheses is read as an expression first and as
parameters only if an arrow or a return type follows, or if it is no expression.
-/
namespace Localizer
namespace Source
namespace Grammar

open Reader

/-- **An arrow function**, not in parentheses. -/
def isArrow : Expr → Bool
  | .arrow _ _ => true
  | _ => false

/-! ## Literals -/

def regex : Reader Expr := do
  let lo ← here
  let source := (← state).source
  match scanPattern false (source.drop 1) with
  | none => fail
  | some after =>
    skip (source.length - (after.dropWhile isNamePart).length)
    return .compound (← spanFrom lo) []

def template (r : Rules) (ctx : Context) (tagged : Bool) : Reader (List Expr) := do
  let hole ← templateText (!tagged)
  let (_, parts) ← fold (fun (state : Bool × List Expr) => do
    if state.1 then
      let e ← nestedSequence r ctx.bracketed
      unless ← isMark "\x7d" do fail
      return some (← templateText (!tagged), state.2 ++ [e])
    else return none) (hole, [])
  return parts

def listElement (r : Rules) (ctx : Context) : Reader Expr := do
  let lo ← here
  if ← isMark "," then return .hole ⟨lo, lo⟩
  if ← eatMark "..." then
    let e ← r.expr ctx.bracketed
    return .spread (← spanFrom lo) e
  r.expr ctx.bracketed

def objectMember (r : Rules) (ctx : Context) : Reader Member := do
  if ← eatMark "..." then return .parts [← r.expr ctx.bracketed]
  let prelude ← memberPrelude
  let key ← propertyKey r ctx
  if (← isMark "(") || (← isMark "<") then
    return .method key.computed (← declaredFunction r ctx prelude.kept prelude.isAsync prelude.isGenerator)
  if prelude.any then fail
  if ← eatMark ":" then return .keyed key.name key.computed (← r.expr ctx.bracketed)
  match key.ident with
  | some id =>
    if !isNameIn ctx id.name then fail
    if ← eatMark "=" then
      let value ← r.expr ctx.bracketed
      return .parts [.assign (← spanFrom id.span.lo) (.ident id) value]
    return .parts [.ident id]
  | none => fail

/-! ## Arrow functions -/

def arrowBody (r : Rules) (ctx : Context) (isAsync : Bool) : Reader (List Stmt) := do
  if ← isMark "\x7b" then braced r (ctx.function isAsync false)
  else
    let inner := { ctx.function isAsync false with noIn := ctx.noIn, inCondition := ctx.inCondition }
    return [.plain [← r.expr inner]]

def arrowFrom (r : Rules) (ctx : Context) (isAsync : Bool) (lo : Nat) : Reader Expr := do
  let inner := ctx.function isAsync false
  typeParameters r inner
  let params ← arrowParameters r inner
  returnAnnotation r inner
  if ← afterBreak then fail
  expectMark "=>"
  let body ← arrowBody r ctx isAsync
  return .arrow (← spanFrom lo) (.mk params body)

def shortArrow (r : Rules) (ctx : Context) (isAsync : Bool) (lo : Nat) : Reader Expr := do
  let param ← ident ctx
  if ← afterBreak then fail
  expectMark "=>"
  let body ← arrowBody r ctx isAsync
  return .arrow (← spanFrom lo) (.mk [.ident param] body)

def parenthesized (r : Rules) (ctx : Context) : Reader Expr := do
  let lo ← here
  let plain : Reader Expr := do
    expectMark "("
    let e ← nestedSequence r ctx.bracketed
    expectMark ")"
    if (← isMark "=>") && !(← afterBreak) then fail
    return .paren (← spanFrom lo) e
  let typed : Reader Expr := do
    let arrow ← arrowFrom r ctx false lo
    if ctx.inCondition && !(← isMark ":") then fail
    return arrow
  match ← attempt (unlessBetter plain (return ctx.dialect.types && (← isMark ":")) typed) with
  | some e => return e
  | none => arrowFrom r ctx false lo

/-- **What `async` begins**: a function, an arrow function, or nothing more than a name. -/
def asyncStart (r : Rules) (ctx : Context) : Reader (Option Expr) := do
  let lo ← here
  let next ← nextToken
  if next.afterBreak then return none
  match next.kind with
  | .word "function" false =>
    advance
    let (name, fn) ← functionFrom r ctx true
    return some (.function (← spanFrom lo) name [] fn)
  | .word _ _ => attempt (do advance; shortArrow r ctx true lo)
  | .mark "(" => attempt (do advance; arrowFrom r ctx true lo)
  | .mark "<" => if ctx.dialect.types then attempt (do advance; arrowFrom r ctx true lo) else return none
  | _ => return none

/-! ## Operands -/

/-- **After type arguments that no call follows**: whether they could be meant as such. -/
def mayFollowTypes : Reader Bool := do
  let t ← token
  match t.kind with
  | .mark m =>
    if ["<", ">", "+", "-"].contains m then return false
    if ["(", "`"].contains m then return true
    return t.afterBreak || !(["\x7b", "[", "!", "~", "++", "--", "/", "@"].contains m)
  | .word w _ => return t.afterBreak || ["in", "instanceof", "as", "satisfies", "of"].contains w
  | .number | .quoted _ | .hidden _ => return t.afterBreak
  | .done => return true
  | .invalid => return false

/-- **An operand and whether an optional step was taken on the way to it.** -/
structure Chain where
  expr : Expr
  optional : Bool

def Chain.call (chain : Chain) (span : Span) (args : List Expr) : Chain :=
  if chain.optional then ⟨.slot span (chain.expr :: args), true⟩ else ⟨.call span chain.expr args, false⟩

def chainStep (r : Rules) (ctx : Context) (calls : Bool) (lo : Nat) (chain : Chain) : Reader (Option Chain) := do
  if isArrow chain.expr then return none
  match ← kind with
  | .mark "." =>
    advance
    match ← kind with
    | .hidden _ =>
      advance
      return some ⟨.slot (← spanFrom lo) [chain.expr], chain.optional⟩
    | _ =>
      let name ← anyWord
      let span ← spanFrom lo
      if chain.optional then return some ⟨.slot span [chain.expr], true⟩
      return some ⟨.member span chain.expr name.name, false⟩
  | .mark "?." =>
    if !calls then return none
    advance
    if ← isMark "(" then
      let args ← arguments r ctx
      return some ⟨.slot (← spanFrom lo) (chain.expr :: args), true⟩
    if ← eatMark "[" then
      let e ← nestedSequence r ctx.bracketed
      expectMark "]"
      return some ⟨.slot (← spanFrom lo) [chain.expr, e], true⟩
    if ctx.dialect.types && (← isMark "<") then
      typeArguments r ctx
      let args ← arguments r ctx
      return some ⟨.slot (← spanFrom lo) (chain.expr :: args), true⟩
    match ← kind with
    | .hidden _ => advance
    | _ => let _ ← anyWord
    return some ⟨.slot (← spanFrom lo) [chain.expr], true⟩
  | .mark "[" =>
    advance
    let e ← nestedSequence r ctx.bracketed
    expectMark "]"
    return some ⟨.slot (← spanFrom lo) [chain.expr, e], chain.optional⟩
  | .mark "(" =>
    if !calls then return none
    let args ← arguments r ctx
    return some (chain.call (← spanFrom lo) args)
  | .mark "`" =>
    let parts ← template r ctx true
    return some ⟨.compound (← spanFrom lo) (chain.expr :: parts), chain.optional⟩
  | .mark "!" =>
    if ctx.dialect.types && !(← afterBreak) then
      advance
      return some ⟨.slot (← spanFrom lo) [chain.expr], chain.optional⟩
    else return none
  | .mark m =>
    if ctx.dialect.types && calls && (m == "<" || m == "<<") then
      attempt do
        typeArguments r ctx
        if ← isMark "(" then
          let args ← arguments r ctx
          return chain.call (← spanFrom lo) args
        if ← isMark "`" then
          let parts ← template r ctx true
          return ⟨.compound (← spanFrom lo) (chain.expr :: parts), chain.optional⟩
        unless ← mayFollowTypes do fail
        return ⟨.slot (← spanFrom lo) [chain.expr], chain.optional⟩
    else return none
  | _ => return none

def chainFrom (r : Rules) (ctx : Context) (calls : Bool) (lo : Nat) (e : Expr) : Reader Expr := do
  let chain ← fold (chainStep r ctx calls lo) ⟨e, false⟩
  return chain.expr

def madeFrom (r : Rules) (ctx : Context) (lo : Nat) (operand : Reader Expr) : Reader Expr := do
  expectWord "new"
  if ← eatMark "." then
    expectWord "target"
    return .compound (← spanFrom lo) []
  let inner ← here
  let base ← (do
    if ← isWord "new" then r.made ctx else
      let e ← operand
      if isArrow e then fail else return e)
  let callee ← chainFrom r ctx false inner base
  if ctx.dialect.types then
    let _ ← attempt (typeArguments r ctx)
  let args ← (do
    if ← isMark "(" then arguments r ctx else return [])
  return .compound (← spanFrom lo) (callee :: args)

/-- **What `import` begins in an expression**: a call, perhaps with a phase, or what the module knows of itself. -/
def importExpr (r : Rules) (ctx : Context) (lo : Nat) : Reader Expr := do
  expectWord "import"
  if ← eatMark "." then
    markModule
    if ← eatWord "meta" then return .compound (← spanFrom lo) []
    unless (← eatWord "source") || (← eatWord "defer") do fail
  let args ← arguments r ctx
  return .compound (← spanFrom lo) args

def nameOrArrow (r : Rules) (ctx : Context) (lo : Nat) : Reader Expr := do
  let arrow ← would do
    let _ ← ident ctx
    if ← afterBreak then fail
    expectMark "=>"
  if arrow then shortArrow r ctx false lo else return .ident (← ident ctx)

/-- **A single operand**, for at most `depth` nested `new`. -/
def primary (r : Rules) (ctx : Context) : Nat → Reader Expr
  | 0 => fail
  | depth + 1 => do
    let lo ← here
    let t ← token
    match t.kind with
    | .number =>
      advance
      return .compound t.span []
    | .quoted _ =>
      let (span, value) ← quoted
      return .string span value
    | .hidden _ =>
      advance
      unless ← isWord "in" do fail
      return .compound t.span []
    | .mark "(" => parenthesized r ctx
    | .mark "[" =>
      advance
      let elements ← listUntil "]" (listElement r ctx)
      return .array (← spanFrom lo) elements
    | .mark "\x7b" =>
      advance
      let members ← listUntil "\x7d" (objectMember r ctx)
      return .object (← spanFrom lo) members
    | .mark "`" =>
      let parts ← template r ctx false
      return .compound (← spanFrom lo) parts
    | .mark "/" => regex
    | .mark "/=" => regex
    | .mark "<" =>
      if !ctx.dialect.elements then fail
      let shown : Reader Expr := do
        let e ← element r ctx.bracketed
        advance
        return e
      -- what is no element may be an arrow function, such as `<T,>(x: T) => x`
      if ctx.dialect.types then
        if let some e ← attempt shown then return e
        arrowFrom r ctx false lo
      else shown
    | .mark "@" =>
      let marks ← decorators r ctx
      unless ← isWord "class" do fail
      let (name, members) ← classFrom r ctx (do
        let inner ← here
        chainFrom r ctx true inner (← primary r ctx depth)) marks
      return .classExpr (← spanFrom lo) name members
    | .word "function" false =>
      let (name, fn) ← functionFrom r ctx false
      return .function (← spanFrom lo) name [] fn
    | .word "class" false =>
      let (name, members) ← classFrom r ctx (do
        let inner ← here
        chainFrom r ctx true inner (← primary r ctx depth)) []
      return .classExpr (← spanFrom lo) name members
    | .word "new" false => madeFrom r ctx lo (primary r ctx depth)
    | .word "import" false => importExpr r ctx lo
    | .word "async" false =>
      match ← asyncStart r ctx with
      | some e => return e
      | none => nameOrArrow r ctx lo
    | .word "super" _ =>
      advance
      unless (← isMark "(") || (← isMark ".") || (← isMark "[") do fail
      return .compound t.span []
    | .word w _ =>
      if ["this", "null", "true", "false"].contains w then
        advance
        return .compound t.span []
      nameOrArrow r ctx lo
    | _ => fail

def made (r : Rules) (ctx : Context) : Reader Expr := do
  let lo ← here
  let turns := (← state).turns
  madeFrom r ctx lo (primary r ctx turns)

def operand (r : Rules) (ctx : Context) : Reader Expr := do
  let lo ← here
  let turns := (← state).turns
  chainFrom r ctx true lo (← primary r ctx turns)

/-! ## Operators -/

def isCounting : TokenKind → Bool
  | .mark m => m == "++" || m == "--"
  | _ => false

def isLeading : TokenKind → Bool
  | .word w false => ["delete", "void", "typeof"].contains w
  | .mark m => ["+", "-", "~", "!", "++", "--"].contains m
  | _ => false

/-- **Waiting for a value.**  Outside asynchronous functions `await` is a name where nothing follows that could be
waited for. -/
def waiting (r : Rules) (ctx : Context) : Reader (Option Expr) := do
  if !(← isWord "await") then return none
  let lo ← here
  let next ← nextToken
  if !ctx.inAsync then
    if next.afterBreak then return none
    match next.kind with
    | .mark m =>
      if [")", "]", "\x7d", ";", ",", "=", ".", "?.", "=>", ":"].contains m then return none
    | .done => return none
    | _ => pure ()
    unless ctx.inFunction do markModule
  advance
  let e ← r.unary ctx
  if isArrow e || (← isMark "**") then fail
  return some (.compound (← spanFrom lo) [e])

def unary (r : Rules) (ctx : Context) : Reader Expr := do
  let lo ← here
  let first ← kind
  if isLeading first then
    advance
    let e ← r.unary ctx
    if isArrow e || (!isCounting first && (← isMark "**")) then fail
    return .compound (← spanFrom lo) [e]
  if let some e ← waiting r ctx then return e
  if ctx.dialect.types && !ctx.dialect.elements && (← isMark "<") then
    if let some arrow ← attempt (arrowFrom r ctx false lo) then return arrow
    advance
    let fixed ← eatWord "const"
    unless fixed do r.type ctx
    expectMark ">"
    let e ← r.unary ctx
    if isArrow e then fail
    let span ← spanFrom lo
    return if fixed then .compound span [e] else .slot span [e]
  let e ← operand r ctx
  if isArrow e then return e
  if !(← afterBreak) && isCounting (← kind) then
    advance
    return .compound (← spanFrom lo) [e]
  return e

/-- **The operator that starts with the current `>`**, from the text after it: its length, or none if it assigns. -/
def angleOperator (rest : List Char) : Option (Nat × Nat) :=
  match rest with
  | '>' :: '>' :: '=' :: _ => none
  | '>' :: '>' :: _ => some (3, 9)
  | '>' :: '=' :: _ => none
  | '>' :: _ => some (2, 9)
  | '=' :: _ => some (2, 8)
  | _ => some (1, 8)

def precedence (m : String) : Option Nat :=
  if m == "??" then some 1
  else if m == "||" then some 2
  else if m == "&&" then some 3
  else if m == "|" then some 4
  else if m == "^" then some 5
  else if m == "&" then some 6
  else if ["==", "!=", "===", "!=="].contains m then some 7
  else if ["<", "<="].contains m then some 8
  else if m == "<<" then some 9
  else if ["+", "-"].contains m then some 10
  else if ["*", "/", "%"].contains m then some 11
  else if m == "**" then some 12
  else none

/-- **The operator here**: how strongly it binds and how many characters it has. -/
def operatorHere (ctx : Context) : Reader (Option (Nat × Nat)) := do
  let s ← state
  match s.token.kind with
  | .mark ">" =>
    return (angleOperator s.rest).map fun (length, level) => (level, length)
  | .mark m => return (precedence m).map (·, m.length)
  | .word "instanceof" false => return some (8, 10)
  | .word "in" false => return if ctx.noIn then none else some (8, 2)
  | _ => return none

def binaryStep (r : Rules) (ctx : Context) (level lo : Nat) (left : Expr) : Reader (Option Expr) := do
  if isArrow left then return none
  if ctx.dialect.types && !(← afterBreak) && level ≤ 8 then
    if ← isWord "as" then
      advance
      if ← eatWord "const" then return some (.compound (← spanFrom lo) [left])
      r.type ctx
      return some (.slot (← spanFrom lo) [left])
    if ← isWord "satisfies" then
      advance
      r.type ctx
      return some (.slot (← spanFrom lo) [left])
  match ← operatorHere ctx with
  | none => return none
  | some (binding, length) =>
    if binding < level then return none
    skip length
    let right ← r.binary ctx (if binding == 12 then 12 else binding + 1)
    if isArrow right then fail
    return some (.compound (← spanFrom lo) [left, right])

/-- **Operands joined by operators that bind at least as strongly as `level`.** -/
def binary (r : Rules) (ctx : Context) (level : Nat) : Reader Expr := do
  let lo ← here
  let first ← unary r ctx
  fold (binaryStep r ctx level lo) first

def conditional (r : Rules) (ctx : Context) : Reader Expr := do
  let lo ← here
  let test ← binary r ctx 0
  if isArrow test then return test
  if ← eatMark "?" then
    let yes ← r.expr { ctx with noIn := false, inCondition := true }
    expectMark ":"
    let no ← r.expr ctx
    return .compound (← spanFrom lo) [test, yes, no]
  return test

def assigning : List String :=
  ["=", "+=", "-=", "*=", "/=", "%=", "**=", "<<=", "&=", "|=", "^=", "&&=", "||=", "??="]

def assignmentHere : Reader (Option Nat) := do
  let s ← state
  match s.token.kind with
  | .mark ">" =>
    match s.rest with
    | '>' :: '>' :: '=' :: _ => return some 4
    | '>' :: '=' :: _ => return some 3
    | _ => return none
  | .mark m => return if assigning.contains m then some m.length else none
  | _ => return none

def yielding (r : Rules) (ctx : Context) : Reader (Option Expr) := do
  if ctx.inGenerator && (← isWord "yield") then
    let lo ← here
    advance
    if ← afterBreak then return some (.compound (← spanFrom lo) [])
    if ← eatMark "*" then
      let e ← r.expr ctx
      return some (.compound (← spanFrom lo) [e])
    match ← kind with
    | .mark m =>
      if [")", "]", "\x7d", ";", ",", ":"].contains m then return some (.compound (← spanFrom lo) [])
    | .word "in" _ | .word "of" _ | .done => return some (.compound (← spanFrom lo) [])
    | _ => pure ()
    let e ← r.expr ctx
    return some (.compound (← spanFrom lo) [e])
  else return none

def expr (r : Rules) (ctx : Context) : Reader Expr := do
  let lo ← here
  if let some e ← yielding r ctx then return e
  let left ← conditional r ctx
  if isArrow left then return left
  match ← assignmentHere with
  | none => return left
  | some length =>
    unless left.isTarget (length == 1) do fail
    skip length
    let value ← r.expr ctx
    let goal := if length == 1 then left.toPattern else
      match left with
      | .ident id => .ident id
      | e => .expr e
    return .assign (← spanFrom lo) goal value

def sequence (r : Rules) (ctx : Context) : Reader Expr := sequenceOf (expr r ctx) (r.expr ctx)

end Grammar
end Source
end Localizer
