/-! XXH64, a 64-bit hash of a byte sequence. Four lanes take eight bytes each in turn; what is left over is
mixed in word by word and byte by byte. -/

namespace Blocklist.Digest

abbrev Bytes := List UInt8

namespace XXH64

def prime1 : UInt64 := 0x9E3779B185EBCA87
def prime2 : UInt64 := 0xC2B2AE3D27D4EB4F
def prime3 : UInt64 := 0x165667B19E3779F9
def prime4 : UInt64 := 0x85EBCA77C2B2AE63
def prime5 : UInt64 := 0x27D4EB2F165667C5

def rotate (x n : UInt64) : UInt64 := (x <<< n) ||| (x >>> (64 - n))

def round (acc input : UInt64) : UInt64 := rotate (acc + input * prime2) 31 * prime1

def mergeLane (h lane : UInt64) : UInt64 := (h ^^^ round 0 lane) * prime1 + prime4

/-- The number with these bytes, the lowest first. -/
def ofBytes (bs : Bytes) : UInt64 := bs.foldr (fun b n => (n <<< 8) ||| b.toUInt64) 0

structure Lanes where
  a : UInt64
  b : UInt64
  c : UInt64
  d : UInt64

def Lanes.start (seed : UInt64) : Lanes := ⟨seed + prime1 + prime2, seed + prime2, seed, seed - prime1⟩

def Lanes.merged (v : Lanes) : UInt64 :=
  let h := rotate v.a 1 + rotate v.b 7 + rotate v.c 12 + rotate v.d 18
  mergeLane (mergeLane (mergeLane (mergeLane h v.a) v.b) v.c) v.d

/-- The eight-byte words and the bytes that are left over. -/
def words : Bytes → List UInt64 × Bytes
  | a :: b :: c :: d :: e :: f :: g :: h :: r =>
    let (ws, rest) := words r
    (ofBytes [a, b, c, d, e, f, g, h] :: ws, rest)
  | r => ([], r)

/-- Four words at a time go into the lanes. -/
def stripes (v : Lanes) : List UInt64 → Lanes × List UInt64
  | a :: b :: c :: d :: r => stripes ⟨round v.a a, round v.b b, round v.c c, round v.d d⟩ r
  | r => (v, r)

def mixWord (h w : UInt64) : UInt64 := rotate (h ^^^ round 0 w) 27 * prime1 + prime4

def mixByte (h : UInt64) (b : UInt8) : UInt64 := rotate (h ^^^ b.toUInt64 * prime5) 11 * prime1

/-- Fewer than eight bytes: four of them as one word, then one by one. -/
def mixTail (h : UInt64) : Bytes → UInt64
  | a :: b :: c :: d :: r => r.foldl mixByte (rotate (h ^^^ ofBytes [a, b, c, d] * prime1) 23 * prime2 + prime3)
  | r => r.foldl mixByte h

def avalanche (h : UInt64) : UInt64 :=
  let h := (h ^^^ (h >>> 33)) * prime2
  let h := (h ^^^ (h >>> 29)) * prime3
  h ^^^ (h >>> 32)

def hash (seed : UInt64) (bytes : Bytes) : UInt64 :=
  let (ws, tail) := words bytes
  let (lanes, rest) := stripes (.start seed) ws
  let h := if ws.length < 4 then seed + prime5 else lanes.merged
  avalanche (mixTail (rest.foldl mixWord (h + UInt64.ofNat bytes.length)) tail)

end XXH64

end Blocklist.Digest
