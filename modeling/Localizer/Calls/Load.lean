import Localizer.Text.Escape
import Localizer.Source.Script
import Localizer.Calls.Imports
/-!
# Load — calls that give a localize function

A load call is `b.loadMessageBundle(…)` or `b.config(…)(…)`, where `b` stands for the message module.  Parentheses
around its parts do not matter.  A load call without arguments gets a reference to its own file.
-/
namespace Localizer
namespace Calls

open Source

def isModuleMember (reads : List Nat) (method : String) : Expr → Bool
  | .member _ object property =>
    property == method && (match object.unparen with
      | .ident id => reads.contains id.span.lo
      | _ => false)
  | _ => false

def isLoader (reads : List Nat) : Expr → Bool
  | .member span object property => isModuleMember reads "loadMessageBundle" (.member span object property)
  | .call _ callee _ => isModuleMember reads "config" callee.unparen
  | _ => false

def isLoad (reads : List Nat) : Expr → Bool
  | .call _ callee _ => isLoader reads callee.unparen
  | _ => false

def lastOpen : List Char → Option Nat
  | [] => none
  | c :: cs =>
    match lastOpen cs with
    | some n => some (c.utf8Size + n)
    | none => if c == '(' then some 0 else none

/-- **The file, as its own code names it**: the running file, or a path next to it. -/
def fileReference (relative : Option (List Char)) : List Char :=
  match relative with
  | some path => "require('path').join(__dirname, '".toList ++ Text.escapeQuoted path ++ "')".toList
  | none => "__filename".toList

/-- **The stretch between a call's parentheses**, in offsets of the tree: from the last one that opens between the
callee and the end. -/
def argumentSpan? (script : Script) (span : Span) (callee : Expr) : Option Span :=
  if span.hi ≤ callee.span.hi || script.slice ⟨span.hi - 1, span.hi⟩ != [')'] then none
  else (lastOpen (script.slice ⟨callee.span.hi, span.hi - 1⟩)).map fun n => ⟨callee.span.hi + n + 1, span.hi - 1⟩

def emptyLoad? (script : Script) (reads : List Nat) : Visit → Option Span
  | .call span callee args =>
    if isLoader reads callee.unparen && args.isEmpty then argumentSpan? script span callee else none
  | _ => none

def loadedBinding (res : Resolution) (reads : List Nat) : Visit → List Binding
  | .declarator (.init (.ident id) value) =>
    if isLoad reads value.unparen then (res.declaredBy? id).toList else []
  | _ => []

end Calls
end Localizer
