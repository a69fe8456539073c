/-!
# Glob — patterns for paths

In a pattern `?` stands for any character, `*` for any text, `**` as a whole step for any number of steps, and `[…]` or
`[!…]` for one character of a set or outside it.  All but `**` also match a slash.  A pattern matches a whole path.
-/
namespace Localizer

inductive GlobRange where
  | one (c : Char)
  | between (first last : Char)
  deriving DecidableEq, Repr, Inhabited

inductive GlobToken where
  | char (c : Char)
  | any
  | text
  | steps
  | within (set : List GlobRange)
  | outside (set : List GlobRange)
  deriving DecidableEq, Repr, Inhabited

inductive GlobFault where
  | wildcards
  | recursive
  | range
  deriving DecidableEq, Repr, Inhabited

structure GlobError where
  fault : GlobFault
  position : Nat
  deriving DecidableEq, Repr, Inhabited

def GlobFault.text : GlobFault → String
  | .wildcards => "wildcards are either regular `*` or recursive `**`"
  | .recursive => "recursive wildcards must form a single path component"
  | .range => "invalid range pattern"

def GlobError.message (e : GlobError) : String :=
  "Pattern syntax error near position " ++ toString e.position ++ ": " ++ e.fault.text

structure Glob where
  tokens : List GlobToken
  deriving DecidableEq, Repr, Inhabited

namespace Glob

def ranges : List Char → List GlobRange
  | a :: '-' :: b :: cs => .between a b :: ranges cs
  | c :: cs => .one c :: ranges cs
  | [] => []

/-- **A set from after its opening bracket**, and how many characters it takes.  Its first character never closes it. -/
def readSet (cs : List Char) : Option (GlobToken × Nat) :=
  let closed (token : List GlobRange → GlobToken) (skip : Nat) (cs : List Char) : Option (GlobToken × Nat) :=
    match cs with
    | c :: rest =>
      let more := rest.takeWhile (· != ']')
      if more.length < rest.length then some (token (ranges (c :: more)), skip + more.length + 2) else none
    | [] => none
  match cs with
  | '!' :: rest => closed .outside 1 rest
  | _ => closed .within 0 cs

/-- **Add `**`**; after another one it adds nothing, unless that one is the whole pattern so far. -/
def pushSteps (tokens : List GlobToken) : List GlobToken :=
  match tokens with
  | .steps :: _ :: _ => tokens
  | _ => .steps :: tokens

/-- **Read a pattern from a position on**: `before` is the character before it, `tokens` are those so far, the last one
first, and `skip` characters belong to the last token. -/
def readFrom : (skip position : Nat) → (before : Option Char) → (tokens : List GlobToken) → List Char →
    Except GlobError (List GlobToken)
  | _, _, _, tokens, [] => .ok tokens.reverse
  | skip + 1, position, _, tokens, c :: cs => readFrom skip (position + 1) (some c) tokens cs
  | 0, position, before, tokens, c :: cs =>
    if c == '?' then readFrom 0 (position + 1) (some c) (.any :: tokens) cs
    else if c == '*' then
      match (cs.takeWhile (· == '*')).length with
      | 0 => readFrom 0 (position + 1) (some c) (.text :: tokens) cs
      | 1 =>
        if before.all (· == '/') then
          match cs.drop 1 with
          | [] => readFrom 1 (position + 1) (some c) (pushSteps tokens) cs
          | '/' :: _ => readFrom 2 (position + 1) (some c) (pushSteps tokens) cs
          | _ => .error ⟨.recursive, position + 2⟩
        else .error ⟨.recursive, position - 1⟩
      | _ => .error ⟨.wildcards, position + 2⟩
    else if c == '[' then
      match readSet cs with
      | some (token, width) => readFrom width (position + 1) (some c) (token :: tokens) cs
      | none => .error ⟨.range, position⟩
    else readFrom 0 (position + 1) (some c) (.char c :: tokens) cs

def read (pattern : String) : Except GlobError Glob :=
  match readFrom 0 0 none [] pattern.toList with
  | .ok tokens => .ok ⟨tokens⟩
  | .error e => .error e

def inSet (set : List GlobRange) (c : Char) : Bool :=
  set.any fun
    | .one d => c == d
    | .between a b => Nat.ble a.toNat c.toNat && Nat.ble c.toNat b.toNat

/-- **How an attempt ends**: with a match, without one here, or without any further on. -/
inductive Verdict where
  | matched
  | notHere
  | nowhere
  deriving DecidableEq, Repr, Inhabited

/-- **Try what follows a wildcard at each place further on**, at the starts of steps only if `steps` says so. -/
def tryFurther (attempt : List Char → Verdict) (steps : Bool) : List Char → Verdict
  | [] => attempt []
  | c :: cs =>
    if steps && c != '/' then tryFurther attempt steps cs
    else
      match attempt cs with
      | .notHere => tryFurther attempt steps cs
      | verdict => verdict

def tryAll (attempt : List Char → Verdict) (steps : Bool) (cs : List Char) : Verdict :=
  match attempt cs with
  | .notHere => tryFurther attempt steps cs
  | verdict => verdict

def takes (token : GlobToken) (c : Char) : Bool :=
  match token with
  | .char d => c == d
  | .any => true
  | .within set => inSet set c
  | .outside set => !inSet set c
  | .text | .steps => false

def verdict : List GlobToken → List Char → Verdict
  | [], cs => if cs.isEmpty then .matched else .notHere
  | .text :: tokens, cs => tryAll (verdict tokens) false cs
  | .steps :: tokens, cs => tryAll (verdict tokens) true cs
  | token :: tokens, cs =>
    match cs with
    | [] => .nowhere
    | c :: cs => if takes token c then verdict tokens cs else .notHere

def matches? (g : Glob) (path : String) : Bool := verdict g.tokens path.toList == .matched

end Glob
end Localizer
