import Localizer.Text.Digits
/-!
# Sha256 — the 256-bit secure hash of a list of bytes

The message is padded to blocks of 64 bytes; each block is stretched to 64 words and mixed into a state of eight words.
-/
namespace Localizer
namespace Sha256

/-- **The words that the rounds add**: the first 32 bits of the fractional parts of the cube roots of the first
primes. -/
def roundWords : List UInt32 := [
  0x428a2f98, 0x71374491, 0xb5c0fbcf, 0xe9b5dba5, 0x3956c25b, 0x59f111f1, 0x923f82a4, 0xab1c5ed5,
  0xd807aa98, 0x12835b01, 0x243185be, 0x550c7dc3, 0x72be5d74, 0x80deb1fe, 0x9bdc06a7, 0xc19bf174,
  0xe49b69c1, 0xefbe4786, 0x0fc19dc6, 0x240ca1cc, 0x2de92c6f, 0x4a7484aa, 0x5cb0a9dc, 0x76f988da,
  0x983e5152, 0xa831c66d, 0xb00327c8, 0xbf597fc7, 0xc6e00bf3, 0xd5a79147, 0x06ca6351, 0x14292967,
  0x27b70a85, 0x2e1b2138, 0x4d2c6dfc, 0x53380d13, 0x650a7354, 0x766a0abb, 0x81c2c92e, 0x92722c85,
  0xa2bfe8a1, 0xa81a664b, 0xc24b8b70, 0xc76c51a3, 0xd192e819, 0xd6990624, 0xf40e3585, 0x106aa070,
  0x19a4c116, 0x1e376c08, 0x2748774c, 0x34b0bcb5, 0x391c0cb3, 0x4ed8aa4a, 0x5b9cca4f, 0x682e6ff3,
  0x748f82ee, 0x78a5636f, 0x84c87814, 0x8cc70208, 0x90befffa, 0xa4506ceb, 0xbef9a3f7, 0xc67178f2]

structure State where
  a : UInt32
  b : UInt32
  c : UInt32
  d : UInt32
  e : UInt32
  f : UInt32
  g : UInt32
  h : UInt32
  deriving DecidableEq, Repr, Inhabited

/-- **The state before the first block**: the first 32 bits of the fractional parts of the square roots of the first
eight primes. -/
def State.initial : State :=
  ⟨0x6a09e667, 0xbb67ae85, 0x3c6ef372, 0xa54ff53a, 0x510e527f, 0x9b05688c, 0x1f83d9ab, 0x5be0cd19⟩

def State.words (s : State) : List UInt32 := [s.a, s.b, s.c, s.d, s.e, s.f, s.g, s.h]

def State.add (s t : State) : State :=
  ⟨s.a + t.a, s.b + t.b, s.c + t.c, s.d + t.d, s.e + t.e, s.f + t.f, s.g + t.g, s.h + t.h⟩

def turn (x : UInt32) (n : UInt32) : UInt32 := (x >>> n) ||| (x <<< (32 - n))

def bigEndian (count n : Nat) : List UInt8 :=
  (List.range count).reverse.map fun i => UInt8.ofNat (n / Nat.pow 256 i)

/-- **A message padded to whole blocks**: a set bit, zeros, and the length in bits. -/
def padded (message : List UInt8) : List UInt8 :=
  let zeros := (119 - message.length % 64) % 64
  message ++ 0x80 :: List.replicate zeros 0 ++ bigEndian 8 (8 * message.length)

def words : List UInt8 → List UInt32
  | a :: b :: c :: d :: bytes =>
    ((a.toUInt32 <<< 24) ||| (b.toUInt32 <<< 16) ||| (c.toUInt32 <<< 8) ||| d.toUInt32) :: words bytes
  | _ => []

/-- **The next word of a schedule** whose last words are these, the newest first. -/
def scheduled (recent : Array UInt32) (t : Nat) : UInt32 :=
  let at_ (back : Nat) : UInt32 := recent.getD (t - back) 0
  let x := at_ 15
  let y := at_ 2
  at_ 16 + ((turn x 7) ^^^ (turn x 18) ^^^ (x >>> 3)) + at_ 7 + ((turn y 17) ^^^ (turn y 19) ^^^ (y >>> 10))

def schedule (block : List UInt32) : Array UInt32 :=
  (List.range 48).foldl (fun ws i => ws.push (scheduled ws (i + 16))) block.toArray

def round (s : State) (k w : UInt32) : State :=
  let mixE := (turn s.e 6) ^^^ (turn s.e 11) ^^^ (turn s.e 25)
  let choice := (s.e &&& s.f) ^^^ ((~~~ s.e) &&& s.g)
  let first := s.h + mixE + choice + k + w
  let mixA := (turn s.a 2) ^^^ (turn s.a 13) ^^^ (turn s.a 22)
  let majority := (s.a &&& s.b) ^^^ (s.a &&& s.c) ^^^ (s.b &&& s.c)
  ⟨first + mixA + majority, s.a, s.b, s.c, s.d + first, s.e, s.f, s.g⟩

def compress (s : State) (block : List UInt32) : State :=
  s.add ((roundWords.zip (schedule block).toList).foldl (fun t kw => round t kw.1 kw.2) s)

def blocks : Nat → State → List UInt32 → State
  | 0, s, _ => s
  | n + 1, s, ws => blocks n (compress s (ws.take 16)) (ws.drop 16)

def hash (message : List UInt8) : List UInt8 :=
  let ws := words (padded message)
  (blocks (ws.length / 16) .initial ws).words.flatMap fun w => bigEndian 4 w.toNat

def hexHash (message : List UInt8) : String :=
  String.ofList ((hash message).flatMap fun b => Text.hexByte b.toNat)

end Sha256
end Localizer
