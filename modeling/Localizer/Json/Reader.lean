import Localizer.Text.Basic
import Localizer.Json.Double
/-!
# Reader — values from text

The reader is strict: no comments, no trailing commas, no raw control characters in strings, no escaped surrogate
without its partner, no number beyond the largest double, and at most 127 arrays and objects inside each other.  Each
function takes the text that is left and gives a value with what is left after it.
-/
namespace Localizer
namespace Json

def isGap (c : Char) : Bool := c == ' ' || c == '\n' || c == '\t' || c == '\r'

def skipGaps (cs : List Char) : List Char := cs.dropWhile isGap

def escape? (c : Char) : Option Char :=
  if c == '"' || c == '\\' || c == '/' then some c
  else if c == 'b' then some (Char.ofNat 8)
  else if c == 'f' then some (Char.ofNat 12)
  else if c == 'n' then some '\n'
  else if c == 'r' then some '\r'
  else if c == 't' then some '\t'
  else none

def stringChars : List Char → Option (List Char × List Char)
  | [] => none
  | '"' :: cs => some ([], cs)
  | '\\' :: 'u' :: a :: b :: c :: d :: cs =>
    match Text.hexNumber [a, b, c, d] with
    | none => none
    | some n =>
      if Text.isHighSurrogate n then
        match cs with
        | '\\' :: 'u' :: e :: f :: g :: h :: cs =>
          match Text.hexNumber [e, f, g, h] with
          | none => none
          | some m =>
            if Text.isLowSurrogate m then (stringChars cs).map fun p => (Text.surrogatePair n m :: p.1, p.2)
            else none
        | _ => none
      else if Text.isLowSurrogate n then none
      else (stringChars cs).map fun p => (Char.ofNat n :: p.1, p.2)
  | '\\' :: c :: cs =>
    match escape? c with
    | some d => (stringChars cs).map fun p => (d :: p.1, p.2)
    | none => none
  | c :: cs => if c.toNat < 32 || c == '\\' then none else (stringChars cs).map fun p => (c :: p.1, p.2)

def spanDigits (cs : List Char) : List Char × List Char := (cs.takeWhile Text.isDecimal, cs.dropWhile Text.isDecimal)

/-- **The digits of a whole number**: a zero alone, or no zero in front. -/
def wholeDigits (cs : List Char) : Option (List Char × List Char) :=
  match spanDigits cs with
  | ([], _) => none
  | ('0' :: _ :: _, _) => none
  | found => some found

def fractionDigits (cs : List Char) : Option (Option (List Char) × List Char) :=
  match cs with
  | '.' :: cs =>
    match spanDigits cs with
    | ([], _) => none
    | (digits, rest) => some (some digits, rest)
  | _ => some (none, cs)

def exponentValue (cs : List Char) : Option (Option Int × List Char) :=
  let value (sign : Int) (cs : List Char) : Option (Option Int × List Char) :=
    match spanDigits cs with
    | ([], _) => none
    | (digits, rest) => some (some (sign * Text.decimalValue digits), rest)
  match cs with
  | c :: cs' =>
    if c == 'e' || c == 'E' then
      match cs' with
      | '+' :: cs'' => value 1 cs''
      | '-' :: cs'' => value (-1) cs''
      | _ => value 1 cs'
    else some (none, cs)
  | [] => some (none, [])

/-- **An integer, where it fits into 64 bits**; zero with a sign does not count as one. -/
def integer? (negative : Bool) (n : Nat) : Option Int :=
  if negative then (if 0 < n && Nat.ble n (Nat.pow 2 63) then some (-n) else none)
  else if n < Nat.pow 2 64 then some n else none

def numberOf (negative : Bool) (whole : List Char) (fraction : Option (List Char)) (exponent : Option Int) :
    Option JsonNumber :=
  let decimal (coefficient : Nat) (power : Int) : Option JsonNumber :=
    (JsonNumber.toDouble coefficient power).map fun _ => .decimal negative coefficient power
  match fraction, exponent with
  | none, none =>
    let n := Text.decimalValue whole
    match integer? negative n with
    | some i => some (.integer i)
    | none => decimal n 0
  | _, _ =>
    let digits := fraction.getD []
    decimal (Text.decimalValue (whole ++ digits)) (exponent.getD 0 - digits.length)

def readNumber (cs : List Char) : Option (JsonNumber × List Char) := do
  let (negative, cs) := match cs with
    | '-' :: rest => (true, rest)
    | _ => (false, cs)
  let (whole, cs) ← wholeDigits cs
  let (fraction, cs) ← fractionDigits cs
  let (exponent, cs) ← exponentValue cs
  let n ← numberOf negative whole fraction exponent
  return (n, cs)

def afterWord (word cs : List Char) : Option (List Char) :=
  if word.isPrefixOf cs then some (cs.drop word.length) else none

mutual

/-- **A value**, with room for `depth` more levels of arrays and objects. -/
def readValue : (fuel depth : Nat) → List Char → Option (Json × List Char)
  | 0, _, _ => none
  | fuel + 1, depth, cs =>
    match skipGaps cs with
    | [] => none
    | '"' :: rest => (stringChars rest).map fun p => (.string (String.ofList p.1), p.2)
    | '[' :: rest =>
      match depth with
      | 0 => none
      | depth + 1 =>
        match skipGaps rest with
        | ']' :: rest => some (.array [], rest)
        | rest => (readElements fuel depth rest).map fun p => (.array p.1, p.2)
    | '{' :: rest =>
      match depth with
      | 0 => none
      | depth + 1 =>
        match skipGaps rest with
        | '}' :: rest => some (.object [], rest)
        | rest => (readMembers fuel depth rest).map fun p => (.object p.1, p.2)
    | 'n' :: rest => (afterWord "ull".toList rest).map fun rest => (.null, rest)
    | 't' :: rest => (afterWord "rue".toList rest).map fun rest => (.bool true, rest)
    | 'f' :: rest => (afterWord "alse".toList rest).map fun rest => (.bool false, rest)
    | rest => (readNumber rest).map fun p => (.number p.1, p.2)

def readElements : (fuel depth : Nat) → List Char → Option (List Json × List Char)
  | 0, _, _ => none
  | fuel + 1, depth, cs =>
    match readValue fuel depth cs with
    | none => none
    | some (v, rest) =>
      match skipGaps rest with
      | ',' :: rest => (readElements fuel depth rest).map fun p => (v :: p.1, p.2)
      | ']' :: rest => some ([v], rest)
      | _ => none

def readMembers : (fuel depth : Nat) → List Char → Option (List (String × Json) × List Char)
  | 0, _, _ => none
  | fuel + 1, depth, cs =>
    match skipGaps cs with
    | '"' :: rest =>
      match stringChars rest with
      | none => none
      | some (name, rest) =>
        match skipGaps rest with
        | ':' :: rest =>
          match readValue fuel depth rest with
          | none => none
          | some (v, rest) =>
            match skipGaps rest with
            | ',' :: rest => (readMembers fuel depth rest).map fun p => ((String.ofList name, v) :: p.1, p.2)
            | '}' :: rest => some ([(String.ofList name, v)], rest)
            | _ => none
        | _ => none
    | _ => none

end

def depthLimit : Nat := 127

/-- **The value that a text writes**; nothing but blanks may follow it. -/
def read (cs : List Char) : Option Json := do
  let (v, rest) ← readValue (2 * cs.length + 2) depthLimit cs
  if (skipGaps rest).isEmpty then some v else none

end Json
end Localizer
