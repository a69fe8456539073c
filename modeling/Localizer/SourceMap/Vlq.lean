/-!
# Vlq — whole numbers as base-64 digits

A number is written with the least digits first: each of the 64 digits carries five bits and says whether another one
follows, and the first bit of all is the sign.
-/
namespace Localizer
namespace Vlq

def digit (n : Nat) : Char :=
  Char.ofNat (if n < 26 then 65 + n else if n < 52 then 71 + n else if n < 62 then n - 4 else if n = 62 then 43 else 47)

def value? (c : Char) : Option Nat :=
  let n := c.toNat
  if Nat.ble 65 n && Nat.ble n 90 then some (n - 65)
  else if Nat.ble 97 n && Nat.ble n 122 then some (n - 71)
  else if Nat.ble 48 n && Nat.ble n 57 then some (n + 4)
  else if n == 43 then some 62
  else if n == 47 then some 63
  else none

theorem value?_digit : ∀ n < 64, value? (digit n) = some n := by decide

def digits (n : Nat) : List Char :=
  if n < 32 then [digit n] else digit (n % 32 + 32) :: digits (n / 32)
termination_by n
decreasing_by omega

def encode (n : Int) : List Char := digits (if n < 0 then 2 * n.natAbs + 1 else 2 * n.natAbs)

/-- **The numbers that digits write**, `sum` being what the digits of the number so far give and `shift` their bits.
Sums are kept in 64 bits; a number may not go on beyond them or stop short. -/
def decodeFrom : (sum : Int) → (shift : Nat) → List Char → Option (List Int)
  | sum, shift, [] => if sum == 0 && shift == 0 then some [] else none
  | sum, shift, c :: cs =>
    match value? c with
    | none => none
    | some d =>
      if 64 ≤ shift then none
      else
        let total := Int.bmod (sum + ((d % 32) <<< shift : Nat)) (1 <<< 64)
        if d < 32 then
          let half := total / 2
          (decodeFrom 0 0 cs).map ((if total % 2 == 1 then -half else half) :: ·)
        else decodeFrom total (shift + 5) cs

def decode (cs : List Char) : Option (List Int) := decodeFrom 0 0 cs

end Vlq
end Localizer
