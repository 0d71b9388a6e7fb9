import Aioduct.Sha256

/-!
# MD5

The hash of `digest_auth.rs`: padding as for SHA-256 but with the length in little-endian order,
and the 64 steps of `md5_round`.
-/

namespace Aioduct.Md5

open Wire

structure State where
  a : UInt32
  b : UInt32
  c : UInt32
  d : UInt32

def State.initial : State := ⟨0x67452301, 0xefcdab89, 0x98badcfe, 0x10325476⟩

def rotateLeft (x n : UInt32) : UInt32 := x <<< n ||| x >>> (32 - n)

def toLeBytes (x : UInt32) : Bytes :=
  [x.toUInt8, (x >>> 8).toUInt8, (x >>> 16).toUInt8, (x >>> 24).toUInt8]

def fromLeBytes (word : Bytes) : UInt32 := Sha256.fromBeBytes word.reverse

def pad (data : Bytes) : Bytes :=
  let bitLen := UInt64.ofNat data.length * 8
  Sha256.pushZeros 63 (data ++ [0x80]) ++ (Sha256.toBeBytes64 bitLen).reverse

def s : List (List UInt32) := [[7, 12, 17, 22], [5, 9, 14, 20], [4, 11, 16, 23], [6, 10, 15, 21]]

def k : List UInt32 :=
  [0xd76aa478, 0xe8c7b756, 0x242070db, 0xc1bdceee, 0xf57c0faf, 0x4787c62a, 0xa8304613,
    0xfd469501, 0x698098d8, 0x8b44f7af, 0xffff5bb1, 0x895cd7be, 0x6b901122, 0xfd987193,
    0xa679438e, 0x49b40821, 0xf61e2562, 0xc040b340, 0x265e5a51, 0xe9b6c7aa, 0xd62f105d,
    0x02441453, 0xd8a1e681, 0xe7d3fbc8, 0x21e1cde6, 0xc33707d6, 0xf4d50d87, 0x455a14ed,
    0xa9e3e905, 0xfcefa3f8, 0x676f02d9, 0x8d2a4c8a, 0xfffa3942, 0x8771f681, 0x6d9d6122,
    0xfde5380c, 0xa4beea44, 0x4bdecfa9, 0xf6bb4b60, 0xbebfbc70, 0x289b7ec6, 0xeaa127fa,
    0xd4ef3085, 0x04881d05, 0xd9d4d039, 0xe6db99e5, 0x1fa27cf8, 0xc4ac5665, 0xf4292244,
    0x432aff97, 0xab9423a7, 0xfc93a039, 0x655b59c3, 0x8f0ccc92, 0xffeff47d, 0x85845dd1,
    0x6fa87e4f, 0xfe2ce6e0, 0xa3014314, 0x4e0811a1, 0xf7537e82, 0xbd3af235, 0x2ad7d2bb,
    0xeb86d391]

/-- The mixed words and the index of the message word of step `i`. -/
def mix (st : State) (i : Nat) : UInt32 × Nat :=
  if i < 16 then ((st.b &&& st.c) ||| (~~~st.b &&& st.d), i)
  else if i < 32 then ((st.d &&& st.b) ||| (~~~st.d &&& st.c), (5 * i + 1) % 16)
  else if i < 48 then (st.b ^^^ st.c ^^^ st.d, (3 * i + 5) % 16)
  else (st.c ^^^ (st.b ||| ~~~st.d), 7 * i % 16)

def roundStep (m : List UInt32) (st : State) (i : Nat) : State :=
  let (f, g) := mix st i
  let shift := (s.getD (i / 16) []).getD (i % 4) 0
  ⟨st.d, st.b + rotateLeft (st.a + f + k.getD i 0 + m.getD g 0) shift, st.b, st.c⟩

def round (st : State) (m : List UInt32) : State :=
  let r := (List.range 64).foldl (roundStep m) st
  ⟨st.a + r.a, st.b + r.b, st.c + r.c, st.d + r.d⟩

def State.toBytes (st : State) : Bytes := [st.a, st.b, st.c, st.d].flatMap toLeBytes

def compute (data : Bytes) : Bytes :=
  let padded := pad data
  let st := (Sha256.chunks 64 (padded.length / 64) padded).foldl
    (fun st chunk => round st ((Sha256.chunks 4 16 chunk).map fromLeBytes)) State.initial
  st.toBytes

end Aioduct.Md5
