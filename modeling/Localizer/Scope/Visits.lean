import Localizer.Source.Tree
/-!
# Visits — every scope, name, call and declaration of a script, in one walk

A scope is the list of the identifiers that it declares.  The walk goes through a script once and lists what it comes
across, each name together with the scopes around it, innermost first.  Declared names count in all of their scope,
before and after the declaration: `var` belongs to the function around it (`Stmt.hoisted`), the others to the block
(`Stmt.lexical`).  The bodies of `switch` and of namespaces are no scopes of their own.
-/
namespace Localizer

open Source

/-- **The identifiers that a scope declares**, in the order in which they are declared. -/
abbrev Scope := List Ident

/-! ## What statements declare -/

def Source.Declarator.idents : Declarator → List Ident
  | .bare target => target.idents
  | .init target _ => target.idents

mutual

/-- **The variables that a statement hands to the function around it.** -/
def Source.Stmt.hoisted : Stmt → List Ident
  | .vars .hoisted decls => decls.flatMap Declarator.idents
  | .entity _ _ body => Stmt.hoistedOf body
  | .scoped head body => Stmt.hoistedOf head ++ Stmt.hoistedOf body
  | .control _ body => Stmt.hoistedOf body
  | .handler _ body => Stmt.hoistedOf body
  | _ => []

def Source.Stmt.hoistedOf : List Stmt → List Ident
  | [] => []
  | s :: ss => s.hoisted ++ Stmt.hoistedOf ss

end

/-- **What a statement declares in the block that it stands in.** -/
def Source.Stmt.lexical : Stmt → List Ident
  | .vars .lexical decls => decls.flatMap Declarator.idents
  | .function name _ _ => [name]
  | .classDecl name _ => [name]
  | .entity name _ _ => name.toList
  | .imports _ _ names => names.map (·.ident)
  | .exportDefault name _ => name.toList
  | _ => []

def Scope.ofBlock (body : List Stmt) : Scope := body.flatMap Stmt.lexical

/-- **The scope of a function**: parameters, variables of any depth, declarations of the body. -/
def Scope.ofFunction : Function → Scope
  | .mk params body => Pattern.identsOf params ++ Stmt.hoistedOf body ++ Scope.ofBlock body

/-- **The outermost scope**: a module declares its imports and blocks' names first, a plain script its variables. -/
def Scope.ofProgram (p : Program) : Scope :=
  if p.isModule then Scope.ofBlock p.body ++ Stmt.hoistedOf p.body
  else Stmt.hoistedOf p.body ++ Scope.ofBlock p.body

/-! ## The walk -/

inductive Visit where
  /-- a scope opens: the first of these, inside the others -/
  | scope (scopes : List Scope)
  /-- a name that is read or written inside these scopes -/
  | name (id : Ident) (written : Bool) (scopes : List Scope)
  | call (span : Span) (callee : Expr) (args : List Expr)
  | declarator (d : Declarator)
  | imports (typesOnly : Bool) (source : Option String) (names : List ImportedName)

mutual

def Source.Expr.visits (scopes : List Scope) : Expr → List Visit
  | .ident id => [.name id false scopes]
  | .string _ _ => []
  | .paren _ inner => inner.visits scopes
  | .member _ object _ => object.visits scopes
  | .call span callee args => .call span callee args :: (callee.visits scopes ++ Expr.visitsOf scopes args)
  | .array _ elements => Expr.visitsOf scopes elements
  | .object _ members => Member.visitsOf scopes members
  | .function _ name decorators fn =>
    .scope (name.toList :: scopes) ::
      (Expr.visitsOf (name.toList :: scopes) decorators ++ fn.visits (name.toList :: scopes))
  | .arrow _ fn => fn.visits scopes
  | .classExpr _ name members =>
    .scope (name.toList :: scopes) :: Member.visitsOf (name.toList :: scopes) members
  | .assign _ target value => target.visits scopes ++ value.visits scopes
  | .spread _ inner => inner.visits scopes
  | .hole _ => []
  | .slot _ parts | .compound _ parts => Expr.visitsOf scopes parts

def Source.Expr.visitsOf (scopes : List Scope) : List Expr → List Visit
  | [] => []
  | e :: es => e.visits scopes ++ Expr.visitsOf scopes es

def Source.Member.visits (scopes : List Scope) : Member → List Visit
  | .keyed _ computed value => Expr.visitsOf scopes computed ++ value.visits scopes
  | .method parts fn => Expr.visitsOf scopes parts ++ fn.visits scopes
  | .parts parts => Expr.visitsOf scopes parts
  | .index key => key.visits scopes
  | .block body =>
    .scope (Scope.ofBlock body :: scopes) :: Stmt.visitsOf (Scope.ofBlock body :: scopes) body

def Source.Member.visitsOf (scopes : List Scope) : List Member → List Visit
  | [] => []
  | m :: ms => m.visits scopes ++ Member.visitsOf scopes ms

def Source.Pattern.visits (scopes : List Scope) : Pattern → List Visit
  | .ident id => [.name id true scopes]
  | .expr e => e.visits scopes
  | .group parts => Pattern.visitsOf scopes parts

def Source.Pattern.visitsOf (scopes : List Scope) : List Pattern → List Visit
  | [] => []
  | p :: ps => p.visits scopes ++ Pattern.visitsOf scopes ps

def Source.Function.visits (scopes : List Scope) : Function → List Visit
  | .mk params body =>
    let inner := Scope.ofFunction (.mk params body) :: scopes
    .scope inner :: (Pattern.visitsOf inner params ++ Stmt.visitsOf inner body)

def Source.Declarator.visits (scopes : List Scope) : Declarator → List Visit
  | .bare target => .declarator (.bare target) :: target.visits scopes
  | .init target value => .declarator (.init target value) :: (target.visits scopes ++ value.visits scopes)

def Source.Declarator.visitsOf (scopes : List Scope) : List Declarator → List Visit
  | [] => []
  | d :: ds => d.visits scopes ++ Declarator.visitsOf scopes ds

def Source.Stmt.visits (scopes : List Scope) : Stmt → List Visit
  | .plain parts => Expr.visitsOf scopes parts
  | .vars _ decls => Declarator.visitsOf scopes decls
  | .function _ decorators fn => Expr.visitsOf scopes decorators ++ fn.visits scopes
  | .classDecl _ members => Member.visitsOf scopes members
  | .entity name parts body =>
    name.toList.map (.name · false scopes) ++ Expr.visitsOf scopes parts ++ Stmt.visitsOf scopes body
  | .scoped head body =>
    let inner := Scope.ofBlock head :: scopes
    .scope inner :: (Stmt.visitsOf inner head ++ Stmt.visitsOf inner body)
  | .control parts body => Expr.visitsOf scopes parts ++ Stmt.visitsOf scopes body
  | .handler param body =>
    let outer := Pattern.identsOf param :: scopes
    let inner := Scope.ofBlock body :: outer
    .scope outer :: (Pattern.visitsOf outer param ++ .scope inner :: Stmt.visitsOf inner body)
  | .imports typesOnly source names => [.imports typesOnly source names]
  | .exportDefault _ value => value.visits scopes

def Source.Stmt.visitsOf (scopes : List Scope) : List Stmt → List Visit
  | [] => []
  | s :: ss => s.visits scopes ++ Stmt.visitsOf scopes ss

end

def Source.Program.visits (p : Program) : List Visit :=
  .scope [Scope.ofProgram p] :: Stmt.visitsOf [Scope.ofProgram p] p.body

end Localizer
