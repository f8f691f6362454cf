import Taquito.Lib.BigEndian

/-!
# SHA-256

The hash function, on lists of octets. The words are 32-bit numbers; a block of sixty-four octets
gives sixteen of them, which are extended to the sixty-four of the rounds.
-/

namespace Sha256

/-- A word. -/
abbrev Word := BitVec 32

/-- The eight words that a block changes. -/
structure State where
  (a b c d e f g h : Word)
  deriving DecidableEq

/-- The words of the rounds. -/
def constants : List Word :=
  [0x428a2f98, 0x71374491, 0xb5c0fbcf, 0xe9b5dba5, 0x3956c25b, 0x59f111f1, 0x923f82a4, 0xab1c5ed5,
   0xd807aa98, 0x12835b01, 0x243185be, 0x550c7dc3, 0x72be5d74, 0x80deb1fe, 0x9bdc06a7, 0xc19bf174,
   0xe49b69c1, 0xefbe4786, 0x0fc19dc6, 0x240ca1cc, 0x2de92c6f, 0x4a7484aa, 0x5cb0a9dc, 0x76f988da,
   0x983e5152, 0xa831c66d, 0xb00327c8, 0xbf597fc7, 0xc6e00bf3, 0xd5a79147, 0x06ca6351, 0x14292967,
   0x27b70a85, 0x2e1b2138, 0x4d2c6dfc, 0x53380d13, 0x650a7354, 0x766a0abb, 0x81c2c92e, 0x92722c85,
   0xa2bfe8a1, 0xa81a664b, 0xc24b8b70, 0xc76c51a3, 0xd192e819, 0xd6990624, 0xf40e3585, 0x106aa070,
   0x19a4c116, 0x1e376c08, 0x2748774c, 0x34b0bcb5, 0x391c0cb3, 0x4ed8aa4a, 0x5b9cca4f, 0x682e6ff3,
   0x748f82ee, 0x78a5636f, 0x84c87814, 0x8cc70208, 0x90befffa, 0xa4506ceb, 0xbef9a3f7, 0xc67178f2]

/-- The words before the first block. -/
def initial : State where
  a := 0x6a09e667
  b := 0xbb67ae85
  c := 0x3c6ef372
  d := 0xa54ff53a
  e := 0x510e527f
  f := 0x9b05688c
  g := 0x1f83d9ab
  h := 0x5be0cd19

/-- The word after the last sixteen, which stand in reverse order. -/
def extend (w : List Word) : Word :=
  let w15 := w.getD 14 0
  let w2 := w.getD 1 0
  let s0 := w15.rotateRight 7 ^^^ w15.rotateRight 18 ^^^ w15 >>> 3
  let s1 := w2.rotateRight 17 ^^^ w2.rotateRight 19 ^^^ w2 >>> 10
  w.getD 15 0 + s0 + w.getD 6 0 + s1

/-- The words of a block, extended `n` times, in reverse order. -/
def schedule (block : List Word) : ℕ → List Word
  | 0 => block.reverse
  | n + 1 =>
    let w := schedule block n
    extend w :: w

/-- One round. -/
def round (s : State) (k w : Word) : State :=
  let s1 := s.e.rotateRight 6 ^^^ s.e.rotateRight 11 ^^^ s.e.rotateRight 25
  let ch := (s.e &&& s.f) ^^^ (~~~s.e &&& s.g)
  let temp1 := s.h + s1 + ch + k + w
  let s0 := s.a.rotateRight 2 ^^^ s.a.rotateRight 13 ^^^ s.a.rotateRight 22
  let maj := (s.a &&& s.b) ^^^ (s.a &&& s.c) ^^^ (s.b &&& s.c)
  { a := temp1 + (s0 + maj), b := s.a, c := s.b, d := s.c
    e := s.d + temp1, f := s.e, g := s.f, h := s.g }

/-- What a block makes of the words. -/
def compress (s : State) (block : List Word) : State :=
  let t := (constants.zip (schedule block 48).reverse).foldl (fun s kw => round s kw.1 kw.2) s
  { a := s.a + t.a, b := s.b + t.b, c := s.c + t.c, d := s.d + t.d
    e := s.e + t.e, f := s.f + t.f, g := s.g + t.g, h := s.h + t.h }

/-- The message with a set bit, zeros and its length in bits. -/
def pad (message : List UInt8) : List UInt8 :=
  message ++ 0x80 :: List.replicate ((119 - message.length % 64) % 64) 0
    ++ BigEndian.beBytes 8 (8 * message.length)

/-- The words of octets. -/
def words : List UInt8 → List Word
  | a :: b :: c :: d :: rest => BitVec.ofNat 32 (BigEndian.beValue [a, b, c, d]) :: words rest
  | _ => []

/-- The words after each sixteen of the message. -/
def run : ℕ → State → List Word → State
  | 0, s, _ => s
  | n + 1, s, ws => run n (compress s (ws.take 16)) (ws.drop 16)

/-- The octets of the words. -/
def State.bytes (s : State) : List UInt8 :=
  [s.a, s.b, s.c, s.d, s.e, s.f, s.g, s.h].flatMap fun w => BigEndian.beBytes 4 w.toNat

/-- The hash. -/
def hash (message : List UInt8) : List UInt8 :=
  let ws := words (pad message)
  (run (ws.length / 16) initial ws).bytes

theorem hash_length (message : List UInt8) : (hash message).length = 32 := by
  simp [hash, State.bytes]

end Sha256
