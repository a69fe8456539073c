import Localizer.Json.Basic
import Localizer.Text.Digits
/-!
# Double — decimals as binary numbers of 53 digits

`Double.nearest` rounds a positive fraction to the nearest number `mantissa · 2 ^ exponent`, the mantissa below `2 ^ 53`
and an exponent of at least `-1074`; a tie goes to the even mantissa, and a fraction that is too large has none.
`shortest` finds the decimal with the fewest digits that rounds to a given such number.  A decimal of the data format is
written as the shortest decimal of its double.
-/
namespace Localizer

/-- **A binary number**: the mantissa times that power of two. -/
structure Double where
  mantissa : Nat
  exponent : Int
  deriving DecidableEq, Repr, Inhabited

namespace Double

def scale (base num den : Nat) (power : Int) : Nat × Nat :=
  match power with
  | .ofNat n => (num * Nat.pow base n, den)
  | .negSucc n => (num, den * Nat.pow base (n + 1))

/-- **The nearest whole number**; a tie goes to the even one. -/
def roundEven (num den : Nat) : Nat :=
  let whole := num / den
  let twice := 2 * (num % den)
  if twice < den then whole
  else if den < twice then whole + 1
  else whole + whole % 2

def nearest (num den : Nat) : Option Double :=
  let guess : Int := (num.log2 : Int) - (den.log2 : Int) - 53
  let low : Int := if guess < -1074 then -1074 else guess
  let cut (e : Int) : Nat × Nat := scale 2 num den (-e)
  let e := if (cut low).1 / (cut low).2 < Nat.pow 2 53 then low else low + 1
  let m := roundEven (cut e).1 (cut e).2
  let r : Double := if m < Nat.pow 2 53 then ⟨m, e⟩ else ⟨m / 2, e + 1⟩
  if 971 < r.exponent then none else some r

/-- **The decimal nearest to a number on the grid of a power of ten**, if the number is the nearest one to it. -/
def onGrid (d : Double) (power : Int) : Option Nat :=
  let quarter := d.exponent - 2
  let low := if d.mantissa == Nat.pow 2 52 && -1074 < d.exponent then 4 * d.mantissa - 1 else 4 * d.mantissa - 2
  let high := 4 * d.mantissa + 2
  -- the grid point `c` against `x` quarters: `c · 10 ^ power` and `x · 2 ^ quarter` over one denominator
  let (a, b) := scale 10 1 1 power
  let (p, q) := scale 2 1 1 quarter
  let point (c : Nat) : Nat := c * a * q
  let bound (x : Nat) : Nat := x * p * b
  let inside (c : Nat) : Bool :=
    if d.mantissa % 2 == 0 then Nat.ble (bound low) (point c) && Nat.ble (point c) (bound high)
    else Nat.blt (bound low) (point c) && Nat.blt (point c) (bound high)
  let below := bound (4 * d.mantissa) / (a * q)
  let gap := bound (4 * d.mantissa) - point below
  let rest := point (below + 1) - bound (4 * d.mantissa)
  let nearer := if Nat.blt gap rest then below else if Nat.blt rest gap then below + 1 else below + below % 2
  if 0 < nearer && inside nearer then some nearer
  else if 0 < below && inside below then some below
  else if inside (below + 1) then some (below + 1)
  else none

def search (d : Double) : Nat → Int → Nat × Int
  | 0, power => (0, power)
  | fuel + 1, power =>
    match onGrid d power with
    | some c => (c, power)
    | none => search d fuel (power - 1)

def shortest (d : Double) : Nat × Int :=
  let (num, den) := scale 2 d.mantissa 1 d.exponent
  search d 32 ((Text.decimal num).length - (Text.decimal den).length + 1)

/-- **A decimal in writing**: positional while the point is near the digits, else with an exponent. -/
def written (coefficient : Nat) (power : Int) : List Char :=
  let digits := Text.decimal coefficient
  let point : Int := digits.length + power
  if 0 ≤ power && point ≤ 16 then digits ++ List.replicate power.toNat '0' ++ ".0".toList
  else if 0 < point && point ≤ 16 then digits.take point.toNat ++ '.' :: digits.drop point.toNat
  else if -5 < point && point ≤ 0 then "0.".toList ++ List.replicate (-point).toNat '0' ++ digits
  else
    let exponent := point - 1
    let tail := 'e' :: ((if exponent < 0 then ['-'] else []) ++ Text.decimal exponent.natAbs)
    match digits with
    | [d] => d :: tail
    | d :: ds => d :: '.' :: ds ++ tail
    | [] => tail

end Double

namespace JsonNumber

def toDouble (coefficient : Nat) (exponent : Int) : Option Double :=
  if coefficient == 0 then some ⟨0, 0⟩
  else
    let point : Int := (Text.decimal coefficient).length + exponent
    if point < -400 then some ⟨0, 0⟩
    else if 400 < point then none
    else
      let (num, den) := Double.scale 10 coefficient 1 exponent
      Double.nearest num den

def text : JsonNumber → List Char
  | .integer n => (if n < 0 then ['-'] else []) ++ Text.decimal n.natAbs
  | .decimal negative coefficient exponent =>
    let sign := if negative then ['-'] else []
    match toDouble coefficient exponent with
    | some d =>
      if d.mantissa == 0 then sign ++ "0.0".toList
      else
        let (c, k) := d.shortest
        sign ++ Double.written c k
    | none => sign ++ "0.0".toList

end JsonNumber
end Localizer
