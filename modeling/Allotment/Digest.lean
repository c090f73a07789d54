/-!
# The digest of a text

The 160-bit secure hash of a byte string (SHA-1), of which the library uses the
first 60 bits.  It stands for the package `sha1`.
-/

namespace Allotment

namespace Digest

/-- The five words of a digest. -/
structure State where
  a : UInt32
  b : UInt32
  c : UInt32
  d : UInt32
  e : UInt32
deriving DecidableEq, Repr

/-- The state before the first block. -/
def start : State := ⟨0x67452301, 0xEFCDAB89, 0x98BADCFE, 0x10325476, 0xC3D2E1F0⟩

/-- Rotation to the left by `n` bits, for `n` between 1 and 31. -/
def rotate (x n : UInt32) : UInt32 := (x <<< n) ||| (x >>> (32 - n))

/-- The function and the constant of the round `t`. -/
def mix (t : Nat) (s : State) : UInt32 :=
  if t < 20 then ((s.b &&& s.c) ||| (~~~s.b &&& s.d)) + 0x5A827999
  else if t < 40 then (s.b ^^^ s.c ^^^ s.d) + 0x6ED9EBA1
  else if t < 60 then ((s.b &&& s.c) ||| (s.b &&& s.d) ||| (s.c &&& s.d)) + 0x8F1BBCDC
  else (s.b ^^^ s.c ^^^ s.d) + 0xCA62C1D6

/-- The round `t` with the message word `w`. -/
def round (t : Nat) (w : UInt32) (s : State) : State :=
  ⟨rotate s.a 5 + mix t s + s.e + w, s.a, rotate s.b 30, s.c, s.d⟩

/-- Moves the window of sixteen message words on by one. -/
def slide (window : List UInt32) : List UInt32 :=
  let word (i : Nat) : UInt32 := window.getD i 0
  window.drop 1 ++ [rotate (word 0 ^^^ word 2 ^^^ word 8 ^^^ word 13) 1]

/-- The last `n` of the eighty rounds. -/
def rounds : Nat → List UInt32 → State → State
  | 0, _, s => s
  | n + 1, window, s => rounds n (slide window) (round (79 - n) (window.getD 0 0) s)

/-- The state after one block of sixteen words. -/
def compress (h : State) (block : List UInt32) : State :=
  let s := rounds 80 block h
  ⟨h.a + s.a, h.b + s.b, h.c + s.c, h.d + s.d, h.e + s.e⟩

/-- The number whose digits in base 256 are the bytes, the first one leading. -/
def bigEndian (bytes : List UInt8) : Nat := bytes.foldl (fun n b => 256 * n + b.toNat) 0

/-- The last `n` bytes of a number, the leading one first. -/
def bytesOf : Nat → Nat → List UInt8
  | 0, _ => []
  | n + 1, x => UInt8.ofNat (x / Nat.pow 256 n) :: bytesOf n x

/-- The message with a closing bit, zeros up to a multiple of 64 bytes, and its length in bits. -/
def pad (message : List UInt8) : List UInt8 :=
  let zeros := (119 - message.length % 64) % 64
  message ++ 0x80 :: (List.replicate zeros 0 ++ bytesOf 8 (8 * message.length))

/-- The words of a byte string. -/
def words : List UInt8 → List UInt32
  | a :: b :: c :: d :: rest => UInt32.ofNat (bigEndian [a, b, c, d]) :: words rest
  | _ => []

/-- Digests `n` blocks of words. -/
def blocks : Nat → List UInt32 → State → State
  | 0, _, h => h
  | n + 1, ws, h => blocks n (ws.drop 16) (compress h (ws.take 16))

/-- The digest of a byte string. -/
def ofBytes (message : List UInt8) : State :=
  let ws := words (pad message)
  blocks (ws.length / 16) ws start

/-- The first 60 bits of the digest of a text in UTF-8, as a number. -/
def hash60 (text : String) : Nat :=
  let s := ofBytes text.toUTF8.toList
  (s.a.toNat * 0x100000000 + s.b.toNat) / 16

theorem hash60_lt (text : String) : hash60 text < 0x1000000000000000 := by
  have ha := (ofBytes text.toUTF8.toList).a.toNat_lt
  have hb := (ofBytes text.toUTF8.toList).b.toNat_lt
  simp only [hash60]
  omega

end Digest

end Allotment
