import Localizer.Bundle.Basic
import Localizer.Calls.Load
/-!
# Site — calls of a localize function

A site has a key and a message among its arguments.  The key is a string, or an object with a string `key` and perhaps
a list of strings as `comment`; the message is a string.  Anything else is a problem, told with its place.
-/
namespace Localizer
namespace Calls

open Source
open Text (Position Region)

inductive Fault where
  | key
  | comment
  | message
  | reference (name : String)
  deriving DecidableEq, Repr, Inhabited

def Fault.text : Fault → String
  | .key =>
    "key argument must be a string literal or an object literal with a string `key` property; ignoring call"
  | .comment => "`comment` must be an array of string literals; ignoring call"
  | .message => "message argument must be a string literal; ignoring call"
  | .reference name => "`" ++ name ++ "` can only be called with a key and a message"

structure Problem where
  fault : Fault
  position : Position
  deriving DecidableEq, Repr, Inhabited

def Problem.text (p : Problem) : String := p.fault.text ++ " (" ++ p.position.shown ++ ")"

structure Flaw where
  fault : Fault
  offset : Nat
  deriving DecidableEq, Repr, Inhabited

structure Entry where
  key : Key
  keySpan : Span
  message : String
  messageSpan : Span
  deriving DecidableEq, Repr, Inhabited

structure Site where
  start : Nat
  outcome : Except Flaw Entry

def plainArg? (args : List Expr) (index : Nat) : Option Expr :=
  match args[index]? with
  | some (.spread _ _) => none
  | found => found

def strings? : List Expr → Option (List String)
  | [] => some []
  | .string _ (some value) :: es => (strings? es).map (value :: ·)
  | _ :: _ => none

/-- **Key and comment of an object**, read member by member: a later one replaces an earlier one. -/
structure KeyObject where
  key : Option String
  comment : List String

def KeyObject.read (found : KeyObject) : List Member → Except Flaw KeyObject
  | [] => .ok found
  | .keyed (some "key") _ value :: ms =>
    match value with
    | .string _ text => KeyObject.read { found with key := text } ms
    | other => .error ⟨.key, other.span.lo⟩
  | .keyed (some "comment") _ value :: ms =>
    match value with
    | .array span elements =>
      match strings? elements with
      | some comment => KeyObject.read { found with comment := comment } ms
      | none => .error ⟨.comment, span.lo⟩
    | other => .error ⟨.comment, other.span.lo⟩
  | _ :: ms => KeyObject.read found ms

def keyOf (e : Expr) : Except Flaw Key :=
  match e with
  | .string span text =>
    match text with
    | some value => .ok (.bare value)
    | none => .error ⟨.key, span.lo⟩
  | .object span members =>
    match KeyObject.read ⟨none, []⟩ members with
    | .error flaw => .error flaw
    | .ok found =>
      match found.key with
      | some value => .ok (.commented value found.comment)
      | none => .error ⟨.key, span.lo⟩
  | other => .error ⟨.key, other.span.lo⟩

def betweenQuotes (raw : List Char) : List Char := (raw.drop 1).dropLast

def entryOf (script : Script) (span : Span) (args : List Expr) : Except Flaw Entry :=
  match plainArg? args 0 with
  | none => .error ⟨.key, span.lo⟩
  | some keyArg =>
    match keyOf keyArg with
    | .error flaw => .error flaw
    | .ok key =>
      match plainArg? args 1 with
      | none => .error ⟨.message, span.lo⟩
      | some (.string messageSpan _) =>
        let message := Text.unescape (betweenQuotes (script.slice messageSpan))
        .ok ⟨key, keyArg.span, String.ofList message, messageSpan⟩
      | some other => .error ⟨.message, other.span.lo⟩

def directSite? (script : Script) (reads : List Nat) : Visit → Option Site
  | .call span callee args =>
    if !isLoader reads callee.unparen && isLoad reads callee.unparen then some ⟨span.lo, entryOf script span args⟩
    else none
  | _ => none

/-- **The identifier that a call with a key and a message calls**, if it means a localize function. -/
def boundCallee? (res : Resolution) (bindings : List Binding) : Visit → Option Ident
  | .call _ callee args =>
    match callee.unparen with
    | .ident id =>
      if 2 ≤ args.length && (res.readBy? id).any bindings.contains then some id else none
    | _ => none
  | _ => none

def boundSite? (script : Script) (res : Resolution) (bindings : List Binding) (v : Visit) : Option Site :=
  match v, boundCallee? res bindings v with
  | .call span _ args, some _ => some ⟨span.lo, entryOf script span args⟩
  | _, _ => none

end Calls
end Localizer
