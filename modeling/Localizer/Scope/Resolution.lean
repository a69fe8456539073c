import Localizer.Scope.Visits
/-!
# Resolution — which declaration a name means

A name means the innermost scope around it that declares the name.  A binding is known by its name, by the first
identifier that declares it and by the number of scopes around its own, which tells two scopes apart that one identifier
declares a name in.  A name at the place where its own binding is declared is no reference.
-/
namespace Localizer

open Source

structure Binding where
  name : String
  /-- the first identifier that declares it -/
  span : Span
  /-- how many scopes enclose the one that declares it -/
  depth : Nat
  deriving DecidableEq, Repr, Inhabited

/-- **The binding of a name and the scope that declares it.** -/
def lookup : List Scope → String → Option (Binding × Scope)
  | [], _ => none
  | scope :: outer, name =>
    match scope.find? (·.name == name) with
    | some id => some (⟨name, id.span, outer.length⟩, scope)
    | none => lookup outer name

structure Reference where
  binding : Binding
  span : Span
  written : Bool
  deriving DecidableEq, Repr, Inhabited

def Scope.declaresAt (scope : Scope) (offset : Nat) : Bool := scope.any (·.span.lo == offset)

/-- **The reference that a name is**, if it means a binding and does not declare it. -/
def Reference.of? (id : Ident) (written : Bool) (scopes : List Scope) : Option Reference :=
  match lookup scopes id.name with
  | some (binding, scope) => if scope.declaresAt id.span.lo then none else some ⟨binding, id.span, written⟩
  | none => none

structure Resolution where
  /-- every binding of every scope, in the order in which the scopes open -/
  bindings : List Binding
  /-- which binding the identifier at an offset declares; of two entries the later one counts -/
  declarations : List (Nat × Binding)
  references : List Reference

namespace Resolution

def declarationsOf (scopes : List Scope) : List (Nat × Binding) :=
  match scopes with
  | [] => []
  | scope :: _ => scope.filterMap fun id => (lookup scopes id.name).map fun found => (id.span.lo, found.1)

def bindingsOf (scopes : List Scope) : List Binding := ((declarationsOf scopes).map (·.2)).eraseDups

def ofVisits (visits : List Visit) : Resolution where
  bindings := visits.flatMap fun
    | .scope scopes => bindingsOf scopes
    | _ => []
  declarations := visits.flatMap fun
    | .scope scopes => declarationsOf scopes
    | _ => []
  references := visits.filterMap fun
    | .name id written scopes => Reference.of? id written scopes
    | _ => none

def declaredBy? (res : Resolution) (id : Ident) : Option Binding :=
  (res.declarations.findRev? (·.1 == id.span.lo)).map (·.2)

def readBy? (res : Resolution) (id : Ident) : Option Binding :=
  (res.references.find? fun ref => !ref.written && ref.span.lo == id.span.lo).map (·.binding)

def readsOf (res : Resolution) (binding : Binding) : List Reference :=
  res.references.filter fun ref => ref.binding == binding && !ref.written

/-- **Where a binding is declared**, as far as no scope inside declares another one at the same place. -/
def declaredAt (res : Resolution) (binding : Binding) : List Nat :=
  ((res.declarations.filter (·.2 == binding)).map (·.1)).filter fun offset =>
    (res.declarations.findRev? (·.1 == offset)).any (·.2 == binding)

end Resolution

def Source.Program.resolution (p : Program) : Resolution := Resolution.ofVisits p.visits

end Localizer
