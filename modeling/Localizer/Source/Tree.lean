import Localizer.Source.Token
/-!
# Tree — a script as name resolution and the search for calls see it

The tree keeps apart what those two read: names, strings, parentheses, members, calls, lists, objects, functions,
classes, assignments, declarations and the statements that open a scope.  All other expressions are only lists of their
parts, `slot` where they can be assigned to and `compound` elsewhere, and all other statements are `plain` (expressions
only) or `control` (expressions and inner statements).  Types leave no trace.  Spans are byte offsets of the script
without its byte order mark.
-/
namespace Localizer
namespace Source

structure Ident where
  name : String
  span : Span
  deriving DecidableEq, Repr, Inhabited

/-- **How a variable is declared**: with the scope of the function, with that of the block, or as a resource, which
declares no name that anything resolves to. -/
inductive VarKind where
  | hoisted
  | lexical
  | resource
  deriving DecidableEq, Repr, Inhabited

/-- **A name that an import brings in**; `whole` for the module as one object. -/
structure ImportedName where
  ident : Ident
  whole : Bool
  deriving DecidableEq, Repr, Inhabited

mutual

inductive Expr where
  | ident (id : Ident)
  /-- a string literal; no value if it has a lone surrogate -/
  | string (span : Span) (value : Option String)
  | paren (span : Span) (inner : Expr)
  /-- `object.property` -/
  | member (span : Span) (object : Expr) (property : String)
  | call (span : Span) (callee : Expr) (args : List Expr)
  /-- a list; its elements may be `spread` or `hole` -/
  | array (span : Span) (elements : List Expr)
  | object (span : Span) (members : List Member)
  /-- a function with a name of its own scope, if it has one, which its decorators are in, too -/
  | function (span : Span) (name : Option Ident) (decorators : List Expr) (fn : Function)
  | arrow (span : Span) (fn : Function)
  /-- a class with a name of its own scope, if it has one -/
  | classExpr (span : Span) (name : Option Ident) (members : List Member)
  | assign (span : Span) (target : Pattern) (value : Expr)
  /-- `...inner` in arguments and lists -/
  | spread (span : Span) (inner : Expr)
  | hole (span : Span)
  /-- anything else that can be assigned to, with its parts: an element, a private or optional member, an assertion -/
  | slot (span : Span) (parts : List Expr)
  /-- any other expression, with its parts -/
  | compound (span : Span) (parts : List Expr)

inductive Member where
  /-- `name: value` in an object; `computed` holds the expression of a computed name -/
  | keyed (name : Option String) (computed : List Expr) (value : Expr)
  /-- a method, accessor or constructor; the parts are its computed name and decorators -/
  | method (parts : List Expr) (fn : Function)
  /-- `[key: type]: type` in a class, where the key counts as written -/
  | index (key : Pattern)
  /-- anything else: fields, shorthand names, spreads, the class that is extended -/
  | parts (parts : List Expr)
  /-- a block that runs when the class is made -/
  | block (body : List Stmt)

inductive Pattern where
  | ident (id : Ident)
  /-- an expression in a pattern: a default, a computed name, a member to write to; it binds nothing -/
  | expr (e : Expr)
  | group (parts : List Pattern)

inductive Function where
  | mk (params : List Pattern) (body : List Stmt)

inductive Declarator where
  | bare (target : Pattern)
  | init (target : Pattern) (value : Expr)

inductive Stmt where
  | plain (parts : List Expr)
  | vars (kind : VarKind) (decls : List Declarator)
  | function (name : Ident) (decorators : List Expr) (fn : Function)
  | classDecl (name : Ident) (members : List Member)
  /-- an enumeration or a namespace; a module named by a string has no name -/
  | entity (name : Option Ident) (parts : List Expr) (body : List Stmt)
  /-- a block, or a loop with its head: a scope for what `head` declares -/
  | scoped (head : List Stmt) (body : List Stmt)
  /-- a statement with inner statements and no scope of its own -/
  | control (parts : List Expr) (body : List Stmt)
  /-- the handler of a `try`: a scope for its parameter around the block -/
  | handler (param : List Pattern) (body : List Stmt)
  /-- an import; no source if that is no text, nothing to resolve if only types come in -/
  | imports (typesOnly : Bool) (source : Option String) (names : List ImportedName)
  /-- a default export that may also declare a name -/
  | exportDefault (name : Option Ident) (value : Expr)

end

instance : Inhabited Expr := ⟨.compound ⟨0, 0⟩ []⟩
instance : Inhabited Stmt := ⟨.plain []⟩
instance : Inhabited Pattern := ⟨.group []⟩

def Expr.span : Expr → Span
  | .ident id => id.span
  | .string span _ | .paren span _ | .member span _ _ | .call span _ _ | .array span _ | .object span _
  | .function span _ _ _ | .arrow span _ | .classExpr span _ _ | .assign span _ _ | .spread span _ | .hole span
  | .slot span _ | .compound span _ => span

def Expr.unparen : Expr → Expr
  | .paren _ inner => inner.unparen
  | e => e

/-- **A script**: a module if it imports, exports or waits at its top level. -/
structure Program where
  isModule : Bool
  body : List Stmt

/-! ## Names that a pattern binds -/

mutual

def Pattern.idents : Pattern → List Ident
  | .ident id => [id]
  | .expr _ => []
  | .group parts => Pattern.identsOf parts

def Pattern.identsOf : List Pattern → List Ident
  | [] => []
  | p :: ps => p.idents ++ Pattern.identsOf ps

end

/-- **A declaration needs a value**, unless it only gives a name. -/
def Declarator.isComplete : Declarator → Bool
  | .bare (.ident _) | .init _ _ => true
  | .bare _ => false

/-! ## Expressions as targets of assignment -/

mutual

def Expr.toPattern : Expr → Pattern
  | .ident id => .ident id
  | .array _ elements => .group (Expr.toPatterns elements)
  | .object _ members => .group (Member.toPatterns members)
  | .assign _ target value => .group [target, .expr value]
  | .spread _ inner => inner.toPattern
  | e => .expr e

def Expr.toPatterns : List Expr → List Pattern
  | [] => []
  | e :: es => e.toPattern :: Expr.toPatterns es

def Member.toPattern : Member → Pattern
  | .keyed _ computed value => .group (computed.map .expr ++ [value.toPattern])
  | .parts parts => .group (Expr.toPatterns parts)
  | .method _ _ | .index _ | .block _ => .group []

def Member.toPatterns : List Member → List Pattern
  | [] => []
  | m :: ms => m.toPattern :: Member.toPatterns ms

end

mutual

/-- **Whether an expression can be assigned to piece by piece**: no method stands in the way. -/
def Expr.isPattern : Expr → Bool
  | .array _ elements => Expr.arePatterns elements
  | .object _ members => Member.arePatterns members
  | .spread _ inner => inner.isPattern
  | _ => true

def Expr.arePatterns : List Expr → Bool
  | [] => true
  | e :: es => e.isPattern && Expr.arePatterns es

def Member.isPattern : Member → Bool
  | .keyed _ _ value => value.isPattern
  | .parts _ => true
  | .method _ _ | .index _ | .block _ => false

def Member.arePatterns : List Member → Bool
  | [] => true
  | m :: ms => m.isPattern && Member.arePatterns ms

end

/-- **What may stand before a mark that assigns**: several pieces only before the plain one. -/
def Expr.isTarget (plain : Bool) : Expr → Bool
  | .ident _ | .member _ _ _ | .paren _ _ | .slot _ _ => true
  | .array span elements => plain && (Expr.array span elements).isPattern
  | .object span members => plain && (Expr.object span members).isPattern
  | _ => false

end Source
end Localizer
