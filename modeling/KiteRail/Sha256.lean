import KiteRail.Bytes

/-! SHA-256 as FIPS 180-4 specifies it, executable on byte strings. The proofs of
this development use only that a digest has 32 bytes; resistance to collisions is
always a hypothesis about the finitely many inputs at hand. -/
namespace KiteRail.Sha256

def rotr (x : UInt32) (n : UInt32) : UInt32 := (x >>> n) ||| (x <<< (32 - n))

def bigSigma0 (x : UInt32) : UInt32 := rotr x 2 ^^^ rotr x 13 ^^^ rotr x 22
def bigSigma1 (x : UInt32) : UInt32 := rotr x 6 ^^^ rotr x 11 ^^^ rotr x 25
def smallSigma0 (x : UInt32) : UInt32 := rotr x 7 ^^^ rotr x 18 ^^^ (x >>> 3)
def smallSigma1 (x : UInt32) : UInt32 := rotr x 17 ^^^ rotr x 19 ^^^ (x >>> 10)
def ch (x y z : UInt32) : UInt32 := (x &&& y) ^^^ (~~~x &&& z)
def maj (x y z : UInt32) : UInt32 := (x &&& y) ^^^ (x &&& z) ^^^ (y &&& z)

def roundConstants : List UInt32 :=
  [0x428a2f98, 0x71374491, 0xb5c0fbcf, 0xe9b5dba5, 0x3956c25b, 0x59f111f1, 0x923f82a4, 0xab1c5ed5,
   0xd807aa98, 0x12835b01, 0x243185be, 0x550c7dc3, 0x72be5d74, 0x80deb1fe, 0x9bdc06a7, 0xc19bf174,
   0xe49b69c1, 0xefbe4786, 0x0fc19dc6, 0x240ca1cc, 0x2de92c6f, 0x4a7484aa, 0x5cb0a9dc, 0x76f988da,
   0x983e5152, 0xa831c66d, 0xb00327c8, 0xbf597fc7, 0xc6e00bf3, 0xd5a79147, 0x06ca6351, 0x14292967,
   0x27b70a85, 0x2e1b2138, 0x4d2c6dfc, 0x53380d13, 0x650a7354, 0x766a0abb, 0x81c2c92e, 0x92722c85,
   0xa2bfe8a1, 0xa81a664b, 0xc24b8b70, 0xc76c51a3, 0xd192e819, 0xd6990624, 0xf40e3585, 0x106aa070,
   0x19a4c116, 0x1e376c08, 0x2748774c, 0x34b0bcb5, 0x391c0cb3, 0x4ed8aa4a, 0x5b9cca4f, 0x682e6ff3,
   0x748f82ee, 0x78a5636f, 0x84c87814, 0x8cc70208, 0x90befffa, 0xa4506ceb, 0xbef9a3f7, 0xc67178f2]

structure Words where
  a : UInt32
  b : UInt32
  c : UInt32
  d : UInt32
  e : UInt32
  f : UInt32
  g : UInt32
  h : UInt32

def start : Words :=
  ⟨0x6a09e667, 0xbb67ae85, 0x3c6ef372, 0xa54ff53a, 0x510e527f, 0x9b05688c, 0x1f83d9ab, 0x5be0cd19⟩

/-- The message with its terminator, zero fill and 64-bit length in bits. -/
def pad (msg : Bytes) : Bytes :=
  let zeros := (119 - msg.length % 64) % 64
  let bits := 8 * msg.length
  msg ++ 0x80 :: List.replicate zeros 0 ++
    (List.range 8).map fun i => (bits / 256 ^ (7 - i)).toUInt8

def word (bs : Bytes) (i : ℕ) : UInt32 :=
  (List.range 4).foldl (fun acc j => acc * 256 + (bs.getD (4 * i + j) 0).toUInt32) 0

/-- Extend a message schedule, newest word first, by `n` words. -/
def schedule : ℕ → List UInt32 → List UInt32
  | 0, ws => ws
  | n + 1, ws =>
      schedule n ((smallSigma1 (ws.getD 1 0) + ws.getD 6 0 + smallSigma0 (ws.getD 14 0) +
        ws.getD 15 0) :: ws)

def round (s : Words) (kw : UInt32 × UInt32) : Words :=
  let t₁ := s.h + bigSigma1 s.e + ch s.e s.f s.g + kw.1 + kw.2
  let t₂ := bigSigma0 s.a + maj s.a s.b s.c
  ⟨t₁ + t₂, s.a, s.b, s.c, s.d + t₁, s.e, s.f, s.g⟩

def compress (s : Words) (block : Bytes) : Words :=
  let ws := (schedule 48 ((List.range 16).map (word block)).reverse).reverse
  let r := (roundConstants.zip ws).foldl round s
  ⟨s.a + r.a, s.b + r.b, s.c + r.c, s.d + r.d, s.e + r.e, s.f + r.f, s.g + r.g, s.h + r.h⟩

def wordBytes (w : UInt32) : Bytes :=
  [(w >>> 24).toUInt8, (w >>> 16).toUInt8, (w >>> 8).toUInt8, w.toUInt8]

/-- `crypto/sha256.Sum256`. -/
def sum256 (msg : Bytes) : Bytes :=
  let p := pad msg
  let s := (List.range (p.length / 64)).foldl
    (fun s i => compress s ((p.drop (64 * i)).take 64)) start
  [s.a, s.b, s.c, s.d, s.e, s.f, s.g, s.h].flatMap wordBytes

lemma sum256_length (msg : Bytes) : (sum256 msg).length = 32 := by
  simp [sum256, wordBytes]

example : Bytes.hexEncode (sum256 (Bytes.lit "abc")) =
    Bytes.lit "ba7816bf8f01cfea414140de5dae2223b00361a396177a9cb410ff61f20015ad" := by
  decide +kernel

/-- `crypto/hmac` over SHA-256. -/
def hmac (key msg : Bytes) : Bytes :=
  let key := if 64 < key.length then sum256 key else key
  let key := key ++ List.replicate (64 - key.length) 0
  sum256 (key.map (· ^^^ 0x5c) ++ sum256 (key.map (· ^^^ 0x36) ++ msg))

example : Bytes.hexEncode (hmac (Bytes.lit "key") (Bytes.lit "abc")) =
    Bytes.lit "9c196e32dc0175f86f4b1cb89289d6619de6bee699e4c378e68309ed97a1a6ab" := by
  decide +kernel

end KiteRail.Sha256
