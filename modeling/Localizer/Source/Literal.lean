import Localizer.Text.Digits
import Localizer.Source.Identifier
/-!
# Literal — strings, templates, numbers, patterns and names as they are written

Each scanner takes the text from a literal's first character (or from the one after its opening mark) and gives what is
left after it.  `cook` reads the escapes of a string: its result is a list of code points in which surrogates may still
stand, and `joinSurrogates` turns that list into characters, which fails where a surrogate has no partner.
-/
namespace Localizer
namespace Source

open Text (hexValue? hexNumber isHighSurrogate isLowSurrogate surrogatePair)

def isHex (c : Char) : Bool := (hexValue? c).isSome

def isOctal (c : Char) : Bool := '0' ≤ c && c ≤ '7'

def octalValue (c : Char) : Nat := c.toNat - '0'.toNat

/-! ## Quoted strings -/

/-- **The text up to the closing quote and what follows it.**  A line break ends the search, unless a backslash stands
before it. -/
def scanQuoted (quote : Char) : List Char → Option (List Char × List Char)
  | [] => none
  | '\\' :: '\r' :: '\n' :: cs => (scanQuoted quote cs).map fun p => ('\\' :: '\r' :: '\n' :: p.1, p.2)
  | '\\' :: c :: cs => (scanQuoted quote cs).map fun p => ('\\' :: c :: p.1, p.2)
  | c :: cs =>
    if c == quote then some ([], cs)
    else if c == '\n' || c == '\r' || c == '\\' then none
    else (scanQuoted quote cs).map fun p => (c :: p.1, p.2)

/-- **Where `cook` stands**: in plain text, or inside the braces of `\u{…}` with the value and digit count so far. -/
inductive CookMode where
  | plain
  | braces (value digits : Nat)

/-- **The character that a one-letter escape stands for**; any other character stands for itself. -/
def simpleEscape (c : Char) : Nat :=
  if c == 'n' then 0x0A else if c == 't' then 0x09 else if c == 'r' then 0x0D else if c == 'b' then 0x08
  else if c == 'v' then 0x0B else if c == 'f' then 0x0C else c.toNat

/-- **Code points of a literal's text.**  `octal` admits escapes by octal digits, which templates do not have.  A
malformed escape has no reading. -/
def cook (octal : Bool) : CookMode → List Char → Option (List Nat)
  | .braces _ _, [] => none
  | .braces value digits, '}' :: cs =>
    if digits = 0 then none else (cook octal .plain cs).map (value :: ·)
  | .braces value digits, c :: cs =>
    match hexValue? c with
    | none => none
    | some d =>
      if value * 16 + d > 0x10FFFF then none else cook octal (.braces (value * 16 + d) (digits + 1)) cs
  | .plain, [] => some []
  | .plain, '\\' :: [] => none
  | .plain, '\\' :: 'x' :: cs =>
    match cs with
    | a :: b :: rest => do
      let n ← hexNumber [a, b]
      (cook octal .plain rest).map (n :: ·)
    | _ => none
  | .plain, '\\' :: 'u' :: cs =>
    match cs with
    | '{' :: rest => cook octal (.braces 0 0) rest
    | a :: b :: c :: d :: rest => do
      let n ← hexNumber [a, b, c, d]
      (cook octal .plain rest).map (n :: ·)
    | _ => none
  | .plain, '\\' :: '\r' :: '\n' :: cs => cook octal .plain cs
  | .plain, '\\' :: c :: cs =>
    if isBreak c then cook octal .plain cs
    else if !c.isDigit then (cook octal .plain cs).map (simpleEscape c :: ·)
    else if !octal then
      if c == '0' && !(cs.head?.any Char.isDigit) then (cook octal .plain cs).map (0 :: ·) else none
    else if !isOctal c then (cook octal .plain cs).map (c.toNat :: ·)
    else match cs with
      | [] => some [octalValue c]
      | d :: ds =>
        if !isOctal d then (cook octal .plain (d :: ds)).map (octalValue c :: ·)
        else match ds with
          | [] => some [octalValue c * 8 + octalValue d]
          | e :: es =>
            if c ≤ '3' && isOctal e then
              (cook octal .plain es).map ((octalValue c * 64 + octalValue d * 8 + octalValue e) :: ·)
            else (cook octal .plain (e :: es)).map ((octalValue c * 8 + octalValue d) :: ·)
  | .plain, c :: cs => (cook octal .plain cs).map (c.toNat :: ·)

/-- **Characters of a list of code points**; a surrogate needs its partner next to it. -/
def joinSurrogates : List Nat → Option (List Char)
  | [] => some []
  | [n] => if isHighSurrogate n || isLowSurrogate n then none else some [Char.ofNat n]
  | n :: m :: ns =>
    if isHighSurrogate n && isLowSurrogate m then
      (joinSurrogates ns).map (surrogatePair n m :: ·)
    else if isHighSurrogate n || isLowSurrogate n then none
    else (joinSurrogates (m :: ns)).map (Char.ofNat n :: ·)

inductive Cooked where
  | malformed
  | lone
  | text (value : String)
  deriving DecidableEq, Repr, Inhabited

def Cooked.ofRaw (raw : List Char) : Cooked :=
  match cook true .plain raw with
  | none => .malformed
  | some points =>
    match joinSurrogates points with
    | none => .lone
    | some cs => .text (String.ofList cs)

/-! ## Templates -/

def scanTemplate : List Char → Option (List Char × Bool × List Char)
  | [] => none
  | '`' :: cs => some ([], false, cs)
  | '$' :: '{' :: cs => some ([], true, cs)
  | '\\' :: c :: cs => (scanTemplate cs).map fun p => ('\\' :: c :: p.1, p.2)
  | c :: cs => (scanTemplate cs).map fun p => (c :: p.1, p.2)

/-! ## Patterns -/

/-- **The text after a pattern's closing slash.**  A slash inside a character class does not close it. -/
def scanPattern : Bool → List Char → Option (List Char)
  | _, [] => none
  | inClass, '\\' :: c :: cs => if isBreak c then none else scanPattern inClass cs
  | inClass, c :: cs =>
    if isBreak c then none
    else if c == '[' then scanPattern true cs
    else if c == ']' then scanPattern false cs
    else if c == '/' && !inClass then some cs
    else scanPattern inClass cs

/-! ## Numbers -/

def digitRun (p : Char → Bool) (cs : List Char) : Nat := (cs.takeWhile fun c => p c || c == '_').length

/-- **Length of an exponent**, zero if none stands here; `none` if its digits are missing. -/
def exponentLength (cs : List Char) : Option Nat :=
  match cs with
  | c :: rest =>
    if c == 'e' || c == 'E' then
      let signs := if rest.head?.any (fun s => s == '+' || s == '-') then 1 else 0
      let digits := rest.drop signs
      if digits.head?.any Char.isDigit then some (1 + signs + digitRun Char.isDigit digits) else none
    else some 0
  | [] => some 0

def fractionLength (cs : List Char) : Option Nat :=
  match cs with
  | '.' :: rest =>
    let digits := digitRun Char.isDigit rest
    (exponentLength (rest.drop digits)).map (1 + digits + ·)
  | _ => exponentLength cs

/-- **Length of the digits of a marked base**, of which there must be one, and of a big-integer mark. -/
def basedLength (p : Char → Bool) (cs : List Char) : Option Nat :=
  if cs.head?.any p then
    let digits := digitRun p cs
    if (cs.drop digits).head? == some 'n' then some (digits + 1) else some digits
  else none

def digitsLength (cs : List Char) : Option Nat :=
  match cs with
  | '0' :: c :: rest =>
    if c == 'x' || c == 'X' then (basedLength isHex rest).map (2 + ·)
    else if c == 'o' || c == 'O' then (basedLength isOctal rest).map (2 + ·)
    else if c == 'b' || c == 'B' then (basedLength (fun d => d == '0' || d == '1') rest).map (2 + ·)
    else if c.isDigit then
      let digits := (c :: rest).takeWhile Char.isDigit
      if digits.all isOctal then some (1 + digits.length)
      else (fractionLength ((c :: rest).drop digits.length)).map (1 + digits.length + ·)
    else if c == 'n' then some 2
    else (fractionLength (c :: rest)).map (1 + ·)
  | _ =>
    let digits := digitRun Char.isDigit cs
    if (cs.drop digits).head? == some 'n' then some (digits + 1)
    else (fractionLength (cs.drop digits)).map (digits + ·)

def numberLength (cs : List Char) : Option Nat := do
  let n ← digitsLength cs
  if (cs.drop n).head?.any (fun c => isNamePart c || c == '\\') then none else some n

/-! ## Names -/

def unicodeEscape? (cs : List Char) : Option (Nat × List Char) :=
  match cs with
  | '{' :: rest =>
    let digits := rest.takeWhile isHex
    match rest.dropWhile isHex with
    | '}' :: after => if digits.isEmpty || digits.length > 8 then none else (hexNumber digits).map (·, after)
    | _ => none
  | a :: b :: c :: d :: rest => (hexNumber [a, b, c, d]).map (·, rest)
  | _ => none

/-- **The rest of a name**: its characters, whether one was escaped, and the text after it. -/
def scanNameTail : Nat → List Char → Option (List Char × Bool × List Char)
  | 0, _ => none
  | fuel + 1, cs =>
    let plain := cs.takeWhile isNamePart
    match cs.dropWhile isNamePart with
    | '\\' :: 'u' :: more => do
      let (code, after) ← unicodeEscape? more
      if isNamePart (Char.ofNat code) then
        let (tail, _, rest) ← scanNameTail fuel after
        return (plain ++ Char.ofNat code :: tail, true, rest)
      else none
    | '\\' :: _ => none
    | rest => some (plain, false, rest)

def scanName (cs : List Char) : Option (String × Bool × List Char) := do
  let (name, escaped, rest) ← scanNameTail (cs.length + 1) cs
  if name.head?.any isNameStart then return (String.ofList name, escaped, rest) else none

end Source
end Localizer
