import Localizer.Source.Grammar.Expressions
/-!
# Statements — declarations, control, imports and exports

Statements that bind names keep them; the others keep their expressions and inner statements.  Declarations that only
describe types leave an empty statement.
-/
namespace Localizer
namespace Source
namespace Grammar

open Reader

/-! ## Variables -/

def declarator (r : Rules) (ctx : Context) : Reader Declarator := do
  let p ← target r ctx
  if ctx.dialect.types then
    let _ ← eatMark "!"
  annotation r ctx
  if ← eatMark "=" then return .init p (← r.expr ctx) else return .bare p

def declarators (r : Rules) (ctx : Context) : Reader (List Declarator) := do
  let first ← declarator r ctx
  let more ← collect do
    if ← eatMark "," then return some (← declarator r ctx) else return none
  return first :: more

def variableStart (ctx : Context) : Reader (Option VarKind) := do
  match ← kind with
  | .word "var" false =>
    advance
    return some .hoisted
  | .word "const" false =>
    if (← nextToken).kind == .word "enum" false then return none
    advance
    return some .lexical
  | .word "let" false =>
    match (← nextToken).kind with
    | .word w _ =>
      if w == "in" || w == "instanceof" then return none
      if w == "of" then
        -- `of` is a variable here only if the declaration goes on after it
        let declared ← would do
          advance
          advance
          unless (← isMark "=") || (← isMark ";") || (← isMark ",") || (← isWord "of") || (← isWord "in") do fail
        unless declared do return none
      advance
      return some .lexical
    | .mark "[" | .mark "\x7b" =>
      advance
      return some .lexical
    | _ => return none
  | .word "using" false =>
    if !ctx.dialect.types then return none
    let next ← nextToken
    if next.afterBreak then return none
    match next.kind with
    | .word w _ =>
      if isReserved w || w == "of" then return none
      advance
      return some .resource
    | _ => return none
  | .word "await" false =>
    if !ctx.dialect.types then return none
    let resource ← would do
      advance
      if ← afterBreak then fail
      expectWord "using"
      if ← afterBreak then fail
      let _ ← ident ctx
    if resource then
      unless ctx.inFunction || ctx.inAsync do markModule
      advance
      advance
      return some .resource
    return none
  | _ => return none

/-! ## Control -/

def inParentheses (r : Rules) (ctx : Context) : Reader Expr := do
  expectMark "("
  let e ← nestedSequence r ctx
  expectMark ")"
  return e

def expressionStatement (r : Rules) (ctx : Context) : Reader Stmt := do
  let e ← sequence r ctx
  endStatement
  return .plain [e]

/-- **The body of a loop or branch**: a declaration of block variables is none, and `let` is a plain name there. -/
def inner (r : Rules) (ctx : Context) : Reader Stmt := do
  match ← kind with
  | .word "let" false => expressionStatement r ctx
  | .word "const" false => if (← nextToken).kind == .word "enum" false then r.stmt ctx else fail
  | _ => r.stmt ctx

def ifStatement (r : Rules) (ctx : Context) : Reader Stmt := do
  expectWord "if"
  let test ← inParentheses r ctx
  let yes ← inner r ctx
  if ← eatWord "else" then return .control [test] [yes, ← inner r ctx]
  return .control [test] [yes]

/-- **The expressions between the semicolons of a loop's head**, up to its closing parenthesis. -/
def loopTests (r : Rules) (ctx : Context) : Reader (List Expr) := do
  expectMark ";"
  let test ← (do
    if ← isMark ";" then return [] else return [← nestedSequence r ctx])
  expectMark ";"
  let step ← (do
    if ← isMark ")" then return [] else return [← nestedSequence r ctx])
  return test ++ step

def loopRange (r : Rules) (ctx : Context) : Reader Expr := do
  if ← eatWord "of" then r.expr ctx
  else
    expectWord "in"
    nestedSequence r ctx

def loopHead (r : Rules) (ctx : Context) : Reader (List Stmt) := do
  let quiet := { ctx with noIn := true }
  if ← isMark ";" then return [.plain (← loopTests r ctx)]
  if let some kind ← variableStart ctx then
    let decls ← declarators r quiet
    if (← isWord "of") || (← isWord "in") then
      return [.vars kind decls, .plain [← loopRange r ctx]]
    unless decls.all Declarator.isComplete do fail
    return [.vars kind decls, .plain (← loopTests r ctx)]
  let lo ← here
  let e ← nestedSequence r quiet
  if (← isWord "of") || (← isWord "in") then
    let range ← loopRange r ctx
    return [.plain [.assign (← spanFrom lo) e.toPattern range]]
  return [.plain (e :: (← loopTests r ctx))]

def forStatement (r : Rules) (ctx : Context) : Reader Stmt := do
  expectWord "for"
  let _ ← eatWord "await"
  expectMark "("
  let head ← loopHead r ctx
  expectMark ")"
  return .scoped head [← inner r ctx]

def switchStatement (r : Rules) (ctx : Context) : Reader Stmt := do
  expectWord "switch"
  let value ← inParentheses r ctx
  expectMark "\x7b"
  let branches ← allUntil "\x7d" do
    let test ← (do
      if ← eatWord "default" then return []
      expectWord "case"
      return [← nestedSequence r ctx])
    expectMark ":"
    let body ← collect do
      if (← isWord "case") || (← isWord "default") || (← isMark "\x7d") then return none
      return some (← r.stmt ctx)
    return (test, body)
  if 1 < (branches.filter (·.1.isEmpty)).length then fail
  return .control (value :: branches.flatMap (·.1)) (branches.flatMap (·.2))

def tryStatement (r : Rules) (ctx : Context) : Reader Stmt := do
  expectWord "try"
  let body ← braced r ctx
  let handlers ← (do
    if ← eatWord "catch" then
      let param ← (do
        if ← eatMark "(" then
          let p ← r.target ctx
          annotation r ctx
          expectMark ")"
          return [p]
        else return [])
      return [Stmt.handler param (← braced r ctx)]
    else return [])
  let last ← (do
    if ← eatWord "finally" then return [Stmt.scoped (← braced r ctx) []] else return [])
  if handlers.isEmpty && last.isEmpty then fail
  return .control [] (.scoped body [] :: handlers ++ last)

/-- **A statement of a keyword and perhaps an expression**, which starts on the same line. -/
def keywordStatement (r : Rules) (ctx : Context) : Reader Stmt := do
  advance
  if ← atStatementEnd then
    endStatement
    return .plain []
  let e ← nestedSequence r ctx
  endStatement
  return .plain [e]

def jumpStatement : Reader Stmt := do
  advance
  unless ← atStatementEnd do
    let _ ← anyWord
  endStatement
  return .plain []

def doStatement (r : Rules) (ctx : Context) : Reader Stmt := do
  expectWord "do"
  let body ← inner r ctx
  expectWord "while"
  let test ← inParentheses r ctx
  let _ ← eatMark ";"
  return .control [test] [body]

/-! ## Declarations that come with types -/

def interfaceDeclaration (r : Rules) (ctx : Context) : Reader Stmt := do
  expectWord "interface"
  let _ ← ident ctx
  typeParameters r ctx
  if ← eatWord "extends" then
    let _ ← implemented r ctx
  objectType r ctx
  return .plain []

def aliasDeclaration (r : Rules) (ctx : Context) : Reader Stmt := do
  expectWord "type"
  let _ ← ident ctx
  typeParameters r ctx
  expectMark "="
  r.type ctx
  endStatement
  return .plain []

/-- **An enumeration**, from its keyword on: plain names of members are read like names. -/
def enumDeclaration (r : Rules) (ctx : Context) : Reader Stmt := do
  expectWord "enum"
  let name ← ident ctx
  expectMark "\x7b"
  let members ← listUntil "\x7d" do
    let key ← propertyKey r ctx
    let value ← (do
      if ← eatMark "=" then return [← r.expr ctx.bracketed] else return [])
    return (key.ident.map Expr.ident).toList ++ key.computed ++ value
  return .entity (some name) members.flatten []

/-- **What stands in a namespace**: its imports and exports do not make the script a module. -/
def namespaceBody (r : Rules) (ctx : Context) : Reader (List Stmt) := do
  let seen := (← state).moduleSeen
  let body ← braced r { ctx with topLevel := true }
  setModule seen
  return body

/-- **A namespace**, from its keyword on: of names joined by points the first is declared, the others are read. -/
def namespaceDeclaration (r : Rules) (ctx : Context) : Reader Stmt := do
  advance
  match ← kind with
  | .quoted _ =>
    advance
    if ← isMark "\x7b" then return .entity none [] (← namespaceBody r ctx)
    endStatement
    return .entity none [] []
  | _ =>
    let name ← ident ctx
    let more ← collect do
      if ← eatMark "." then return some (Expr.ident (← anyWord)) else return none
    return .entity (some name) more (← namespaceBody r ctx)

def globalDeclaration (r : Rules) (ctx : Context) : Reader Stmt := do
  let name ← anyWord
  return .entity (some name) [] (← namespaceBody r ctx)

def nameFollows : Reader Bool := do
  let next ← nextToken
  match next.kind with
  | .word w _ => return !next.afterBreak && !isReserved w
  | _ => return false

/-! ## Declarations -/

def classDeclaration (r : Rules) (ctx : Context) (marks : List Expr) : Reader Stmt := do
  let (name, members) ← classFrom r ctx (operand r ctx) marks
  match name with
  | some id => return .classDecl id members
  | none => fail

def functionDeclaration (r : Rules) (ctx : Context) (isAsync : Bool) (marks : List Expr) : Reader Stmt := do
  let (name, fn) ← functionDeclared r ctx isAsync
  match name with
  | some id => return .function id marks fn
  | none => fail

/-- **A declaration that only typed dialects have**, if one starts here; for at most `depth` words before it.  Of the
declarations only classes and functions keep the decorators before them. -/
def typedDeclaration (r : Rules) (marks : List Expr) (plainDeclaration : Context → Reader (Option Stmt)) :
    Nat → Context → Reader (Option Stmt)
  | 0, _ => fail
  | depth + 1, ctx => do
    if !ctx.dialect.types then return none
    match ← kind with
    | .word "enum" false => return some (← enumDeclaration r ctx)
    | .word "const" false =>
      if (← nextToken).kind == .word "enum" false then
        advance
        return some (← enumDeclaration r ctx)
      else return none
    | .word "interface" false => if ← nameFollows then return some (← interfaceDeclaration r ctx) else return none
    | .word "type" false => if ← nameFollows then return some (← aliasDeclaration r ctx) else return none
    | .word "namespace" false => if ← nameFollows then return some (← namespaceDeclaration r ctx) else return none
    | .word "module" false =>
      let next ← nextToken
      match next.kind with
      | .quoted _ => if next.afterBreak then return none else return some (← namespaceDeclaration r ctx)
      | _ => if ← nameFollows then return some (← namespaceDeclaration r ctx) else return none
    | .word "global" false =>
      let next ← nextToken
      if next.kind == .mark "\x7b" && !next.afterBreak then return some (← globalDeclaration r ctx) else return none
    | .word "abstract" false =>
      let next ← nextToken
      if next.kind == .word "class" false && !next.afterBreak then
        advance
        return some (← classDeclaration r ctx marks)
      else return none
    | .word "declare" false =>
      if (← nextToken).afterBreak then return none
      let described := { ctx with ambient := true }
      attempt do
        advance
        if let some s ← typedDeclaration r marks plainDeclaration depth described then return s
        match ← plainDeclaration described with
        | some s => return s
        | none => fail
    | _ => return none

def plainDeclaration (r : Rules) (ctx : Context) (marks : List Expr) : Reader (Option Stmt) := do
  if let some kind ← variableStart ctx then
    let decls ← declarators r ctx
    unless ctx.ambient || decls.all Declarator.isComplete do fail
    endStatement
    return some (.vars kind decls)
  match ← kind with
  | .word "function" false => return some (← functionDeclaration r ctx false marks)
  | .word "class" false => return some (← classDeclaration r ctx marks)
  | .word "async" false =>
    let next ← nextToken
    if next.kind == .word "function" false && !next.afterBreak then
      advance
      return some (← functionDeclaration r ctx true marks)
    else return none
  | _ => return none

def declaration (r : Rules) (ctx : Context) (marks : List Expr) : Reader (Option Stmt) := do
  let turns := (← state).turns
  if let some s ← typedDeclaration r marks (plainDeclaration r · marks) turns ctx then return some s
  plainDeclaration r ctx marks

/-! ## Imports and exports -/

def importAttributes (r : Rules) (ctx : Context) : Reader Unit := do
  if (← isWord "with") || ((← isWord "assert") && !(← afterBreak)) then
    advance
    expectMark "\x7b"
    let _ ← listUntil "\x7d" do
      let _ ← propertyKey r ctx
      expectMark ":"
      quoted

def moduleSource (r : Rules) (ctx : Context) : Reader (Option String) := do
  let (_, value) ← quoted
  importAttributes r ctx
  endStatement
  return value

def exportedName : Reader (Option Ident) := do
  match ← kind with
  | .quoted _ =>
    advance
    return none
  | _ => return some (← anyWord)

def skipTypeWord (ctx : Context) : Reader Unit := do
  if ctx.dialect.types && (← isWord "type") then
    let modifier ← would do
      advance
      match ← kind with
      | .quoted _ => pure ()
      | .word "as" _ =>
        -- `type as` is the name `type` renamed, unless `as` is the name itself
        advance
        match ← kind with
        | .word "as" _ =>
          advance
          if let .mark _ := ← kind then fail
        | .mark _ => pure ()
        | _ => fail
      | .word _ _ => pure ()
      | _ => fail
    if modifier then advance

def importedName (ctx : Context) : Reader ImportedName := do
  skipTypeWord ctx
  let first ← exportedName
  if ← eatWord "as" then return ⟨← ident ctx, false⟩
  match first with
  | some id => if isNameIn ctx id.name then return ⟨id, false⟩ else fail
  | none => fail

def importedNames (ctx : Context) : Reader (List ImportedName) := do
  if ← eatMark "*" then
    expectWord "as"
    return [⟨← ident ctx, true⟩]
  expectMark "\x7b"
  listUntil "\x7d" (importedName ctx)

/-- **The right side of `import name =`**: a module, or other names. -/
def importTarget : Reader (Option String) := do
  let required ← attempt do
    expectWord "require"
    expectMark "("
    let (_, value) ← quoted
    expectMark ")"
    return value
  match required with
  | some value => endStatement; return value
  | none => entityName; endStatement; return none

/-- **Whether the word here stands before what is imported**, and is not the name that is imported. -/
def beforeImported : Reader Bool := do
  match (← nextToken).kind with
  | .mark "\x7b" | .mark "*" => return true
  | .word "from" _ => would do
      advance
      advance
      unless (← isWord "from") || (← isMark "=") do fail
  | .word _ _ => return true
  | _ => return false

def importStatement (r : Rules) (ctx : Context) : Reader Stmt := do
  expectWord "import"
  markModule
  if let .quoted _ := ← kind then
    let source ← moduleSource r ctx
    return .imports false source []
  let typesOnly ← (do
    if ctx.dialect.types && (← isWord "type") then beforeImported else return false)
  if typesOnly then advance
  -- in which phase a module is loaded does not matter for its names
  let phased ← (do
    if (← isWord "source") || (← isWord "defer") then beforeImported else return false)
  if phased then advance
  if (← isMark "\x7b") || (← isMark "*") then
    let names ← importedNames ctx
    expectWord "from"
    return .imports typesOnly (← moduleSource r ctx) names
  let first ← ident ctx
  if ctx.dialect.types && (← isMark "=") then
    advance
    return .imports typesOnly (← importTarget) [⟨first, true⟩]
  let more ← (do
    if ← eatMark "," then importedNames ctx else return [])
  expectWord "from"
  return .imports typesOnly (← moduleSource r ctx) (⟨first, false⟩ :: more)

/-- **Names exported from between braces**: both sides of `as` are read if the names are local. -/
def exportList (r : Rules) (ctx : Context) : Reader Stmt := do
  expectMark "\x7b"
  let names ← listUntil "\x7d" do
    skipTypeWord ctx
    let first ← exportedName
    let second ← (do
      if ← eatWord "as" then exportedName else return none)
    return first.toList ++ second.toList
  if ← eatWord "from" then
    let _ ← moduleSource r ctx
    return .plain []
  endStatement
  return .plain (names.flatten.map .ident)

def exportAll (r : Rules) (ctx : Context) : Reader Stmt := do
  expectMark "*"
  if ← eatWord "as" then
    let _ ← exportedName
  expectWord "from"
  let _ ← moduleSource r ctx
  return .plain []

/-- **Decorators before `export` or behind it**, but not at both places. -/
def exportMarks (r : Rules) (ctx : Context) (marks : List Expr) : Reader (List Expr) := do
  let more ← decorators r ctx
  if marks.isEmpty then return more
  if more.isEmpty then return marks else fail

def exportDefault (r : Rules) (ctx : Context) (marks : List Expr) : Reader Stmt := do
  let lo ← here
  let marks ← exportMarks r ctx marks
  if ctx.dialect.types then
    if ← isWord "abstract" then
      let next ← nextToken
      if next.kind == .word "class" false && !next.afterBreak then advance
    if ← isWord "interface" then
      if ← nameFollows then return ← interfaceDeclaration r ctx
  if ← isWord "class" then
    let (name, members) ← classFrom r ctx (operand r ctx) marks
    return .exportDefault name (.classExpr (← spanFrom lo) name members)
  let isAsync ← (do
    if ← isWord "async" then
      let next ← nextToken
      return next.kind == .word "function" false && !next.afterBreak
    else return false)
  if isAsync then advance
  if ← isWord "function" then
    let (name, fn) ← functionDeclared r ctx isAsync
    return .exportDefault name (.function (← spanFrom lo) name marks fn)
  let e ← r.expr ctx
  endStatement
  return .plain [e]

def exportStatement (r : Rules) (outer : Context) (marks : List Expr) : Reader Stmt := do
  unless outer.topLevel do fail
  let ctx := { outer with topLevel := false }
  expectWord "export"
  markModule
  if ← isMark "\x7b" then return ← exportList r ctx
  if ← isMark "*" then return ← exportAll r ctx
  if ← eatWord "default" then return ← exportDefault r ctx marks
  if ctx.dialect.types then
    if ← eatMark "=" then
      let e ← r.expr ctx
      endStatement
      return .plain [e]
    if ← isWord "as" then
      advance
      expectWord "namespace"
      let name ← ident ctx
      endStatement
      return .plain [.ident name]
    if ← isWord "import" then return ← importStatement r ctx
    if ← isWord "type" then
      match (← nextToken).kind with
      | .mark "\x7b" =>
        advance
        return ← exportList r ctx
      | .mark "*" =>
        advance
        return ← exportAll r ctx
      | _ => pure ()
  match ← declaration r ctx (← exportMarks r ctx marks) with
  | some s => return s
  | none => fail

/-! ## All statements -/

def labelled (r : Rules) (ctx : Context) : Reader (Option Stmt) := do
  if (← atName ctx) && (← nextToken).kind == .mark ":" then
    advance
    advance
    return some (.control [] [← inner r ctx])
  else return none

/-- **A statement behind decorators**: what is neither a class nor a function loses them. -/
def decorated (r : Rules) (ctx : Context) : Reader Stmt := do
  let marks ← decorators r ctx
  if marks.isEmpty then fail
  if ← isWord "export" then return ← exportStatement r ctx marks
  match ← declaration r { ctx with topLevel := false } marks with
  | some s => return s
  | none => r.stmt ctx

def stmt (r : Rules) (outer : Context) : Reader Stmt := do
  let ctx := { outer with topLevel := false }
  match ← kind with
  | .mark "\x7b" => return .scoped (← braced r ctx) []
  | .mark ";" =>
    advance
    return .plain []
  | .mark "@" => decorated r outer
  | .word w false =>
    match w with
    | "if" => ifStatement r ctx
    | "for" => forStatement r ctx
    | "while" =>
      advance
      let test ← inParentheses r ctx
      return .control [test] [← inner r ctx]
    | "with" =>
      advance
      let value ← inParentheses r ctx
      return .control [value] [← inner r ctx]
    | "do" => doStatement r ctx
    | "switch" => switchStatement r ctx
    | "try" => tryStatement r ctx
    | "return" => keywordStatement r ctx
    | "throw" =>
      advance
      if ← afterBreak then fail
      expressionStatement r ctx
    | "break" => jumpStatement
    | "continue" => jumpStatement
    | "debugger" =>
      advance
      endStatement
      return .plain []
    | "import" =>
      match (← nextToken).kind with
      | .mark "(" => expressionStatement r ctx
      | .mark "." => expressionStatement r ctx
      | _ => if outer.topLevel then importStatement r ctx else fail
    | "export" => exportStatement r outer []
    | _ =>
      if let some s ← declaration r ctx [] then return s
      if let some s ← labelled r ctx then return s
      expressionStatement r ctx
  | _ => expressionStatement r ctx

end Grammar
end Source
end Localizer
