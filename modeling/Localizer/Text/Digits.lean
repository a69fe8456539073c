/-!
# Digits — numbers in decimal and hexadecimal

`decimal` writes a number and `decimalValue` reads digits; `hexValue?` and `hexDigit` are the two ways between a number
below sixteen and its digit.
-/
namespace Localizer
namespace Text

def digitValue (c : Char) : Nat := c.toNat - 48

def isDecimal (c : Char) : Bool := Nat.ble 48 c.toNat && Nat.ble c.toNat 57

/-- **A number in decimal**, without leading zeros. -/
def decimal (n : Nat) : List Char := Nat.toDigits 10 n

def decimalValue (cs : List Char) : Nat := cs.foldl (fun n c => 10 * n + digitValue c) 0

def hexValue? (c : Char) : Option Nat :=
  let n := c.toNat
  if Nat.ble 48 n && Nat.ble n 57 then some (n - 48)
  else if Nat.ble 97 n && Nat.ble n 102 then some (n - 87)
  else if Nat.ble 65 n && Nat.ble n 70 then some (n - 55)
  else none

def hexDigit (n : Nat) : Char := Char.ofNat (if n < 10 then 48 + n else 87 + n)

def hexNumber (cs : List Char) : Option Nat :=
  cs.foldl (fun acc c => match acc, hexValue? c with
    | some n, some d => some (n * 16 + d)
    | _, _ => none) (some 0)

def hexByte (n : Nat) : List Char := [hexDigit (n / 16 % 16), hexDigit (n % 16)]

theorem hexValue?_hexDigit : ∀ n < 16, hexValue? (hexDigit n) = some n := by decide

end Text
end Localizer
