import Telepty.Infra.JsonRoundtrip

/-!
# SHA-256

FIPS 180-4 on lists of bytes. Words are natural numbers below `2^32`, so that the kernel evaluates
a digest with its own arithmetic.
-/

namespace Telepty.Infra.Sha256

def wordSize : Nat := 4294967296

def rotr (n x : Nat) : Nat := (x >>> n) ||| (x <<< (32 - n)) % wordSize

def ch (x y z : Nat) : Nat := (x &&& y) ^^^ ((wordSize - 1 - x) &&& z)

def maj (x y z : Nat) : Nat := (x &&& y) ^^^ (x &&& z) ^^^ (y &&& z)

def bigSigma0 (x : Nat) : Nat := rotr 2 x ^^^ rotr 13 x ^^^ rotr 22 x

def bigSigma1 (x : Nat) : Nat := rotr 6 x ^^^ rotr 11 x ^^^ rotr 25 x

def smallSigma0 (x : Nat) : Nat := rotr 7 x ^^^ rotr 18 x ^^^ (x >>> 3)

def smallSigma1 (x : Nat) : Nat := rotr 17 x ^^^ rotr 19 x ^^^ (x >>> 10)

/-- The fractional parts of the cube roots of the first 64 primes. -/
def roundConstants : List Nat :=
  [0x428a2f98, 0x71374491, 0xb5c0fbcf, 0xe9b5dba5, 0x3956c25b, 0x59f111f1, 0x923f82a4,
    0xab1c5ed5, 0xd807aa98, 0x12835b01, 0x243185be, 0x550c7dc3, 0x72be5d74, 0x80deb1fe,
    0x9bdc06a7, 0xc19bf174, 0xe49b69c1, 0xefbe4786, 0x0fc19dc6, 0x240ca1cc, 0x2de92c6f,
    0x4a7484aa, 0x5cb0a9dc, 0x76f988da, 0x983e5152, 0xa831c66d, 0xb00327c8, 0xbf597fc7,
    0xc6e00bf3, 0xd5a79147, 0x06ca6351, 0x14292967, 0x27b70a85, 0x2e1b2138, 0x4d2c6dfc,
    0x53380d13, 0x650a7354, 0x766a0abb, 0x81c2c92e, 0x92722c85, 0xa2bfe8a1, 0xa81a664b,
    0xc24b8b70, 0xc76c51a3, 0xd192e819, 0xd6990624, 0xf40e3585, 0x106aa070, 0x19a4c116,
    0x1e376c08, 0x2748774c, 0x34b0bcb5, 0x391c0cb3, 0x4ed8aa4a, 0x5b9cca4f, 0x682e6ff3,
    0x748f82ee, 0x78a5636f, 0x84c87814, 0x8cc70208, 0x90befffa, 0xa4506ceb, 0xbef9a3f7,
    0xc67178f2]

structure Working where
  a : Nat
  b : Nat
  c : Nat
  d : Nat
  e : Nat
  f : Nat
  g : Nat
  h : Nat

/-- The fractional parts of the square roots of the first eight primes. -/
def initial : Working :=
  ⟨0x6a09e667, 0xbb67ae85, 0x3c6ef372, 0xa54ff53a, 0x510e527f, 0x9b05688c,
    0x1f83d9ab, 0x5be0cd19⟩

def Working.round (s : Working) (k w : Nat) : Working :=
  let t1 := s.h + bigSigma1 s.e + ch s.e s.f s.g + k + w
  let t2 := bigSigma0 s.a + maj s.a s.b s.c
  ⟨(t1 + t2) % wordSize, s.a, s.b, s.c, (s.d + t1) % wordSize, s.e, s.f, s.g⟩

def Working.add (s t : Working) : Working :=
  ⟨(s.a + t.a) % wordSize, (s.b + t.b) % wordSize, (s.c + t.c) % wordSize, (s.d + t.d) % wordSize,
    (s.e + t.e) % wordSize, (s.f + t.f) % wordSize, (s.g + t.g) % wordSize, (s.h + t.h) % wordSize⟩

def Working.words (s : Working) : List Nat := [s.a, s.b, s.c, s.d, s.e, s.f, s.g, s.h]

/-- The rounds of one block; the schedule is kept as a window of its last sixteen words. -/
def rounds (s : Working) (window : List Nat) : List Nat → Working
  | [] => s
  | k :: ks =>
    match window with
    | [] => s
    | w :: rest =>
      let next := (smallSigma1 (rest.getD 13 0) + rest.getD 8 0 + smallSigma0 (rest.getD 0 0) + w)
        % wordSize
      rounds (s.round k w) (rest ++ [next]) ks

def wordsOf : List Nat → List Nat
  | a :: b :: c :: d :: rest => (((a * 256 + b) * 256 + c) * 256 + d) :: wordsOf rest
  | _ => []

def compress (s : Working) (block : List Nat) : Working :=
  s.add (rounds s (wordsOf block) roundConstants)

def blocks : Nat → Working → List Nat → Working
  | 0, s, _ => s
  | n + 1, s, bytes => blocks n (compress s (bytes.take 64)) (bytes.drop 64)

/-- The bytes of a word, most significant first. -/
def wordBytes (w : Nat) : List Nat := [w / 16777216 % 256, w / 65536 % 256, w / 256 % 256, w % 256]

def pad (b : Bytes) : List Nat :=
  let bits := b.length * 8
  b.map UInt8.toNat ++ 128 :: List.replicate ((119 - b.length % 64) % 64) 0
    ++ wordBytes (bits / wordSize) ++ wordBytes bits

/-- The 32 bytes of the digest. -/
def digest (b : Bytes) : List Nat :=
  let padded := pad b
  (blocks (padded.length / 64) initial padded).words.flatMap wordBytes

def hex (bytes : List Nat) : Text :=
  bytes.flatMap fun b => [Json.hexDigit (b / 16 % 16), Json.hexDigit (b % 16)]

theorem length_digest (b : Bytes) : (digest b).length = 32 := rfl

theorem length_hex (bytes : List Nat) : (hex bytes).length = 2 * bytes.length := by
  induction bytes with
  | nil => rfl
  | cons b bytes ih =>
    rw [hex, List.flatMap_cons, List.length_append, ← hex, ih, List.length_cons]
    simp only [List.length_cons, List.length_nil]
    omega

theorem isSome_hexValue_of_mem_hex {bytes : List Nat} {c : Char} (h : c ∈ hex bytes) :
    (Json.hexValue c).isSome := by
  obtain ⟨b, -, hb⟩ := List.mem_flatMap.mp h
  simp only [List.mem_cons, List.not_mem_nil, or_false] at hb
  rcases hb with rfl | rfl
  · rw [Json.hexValue_hexDigit _ (Nat.mod_lt _ (by decide))]
    rfl
  · rw [Json.hexValue_hexDigit _ (Nat.mod_lt _ (by decide))]
    rfl

end Telepty.Infra.Sha256
