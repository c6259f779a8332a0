/-!
# The 64-bit hash behind every signature

xxHash64 with seed zero over a list of bytes: four accumulators eat 32-byte stripes, the rest is
mixed in by words of eight, four and one byte, and a final avalanche spreads every bit.
-/
namespace CallTargets.Signature

private def prime1 : UInt64 := 0x9E3779B185EBCA87
private def prime2 : UInt64 := 0xC2B2AE3D27D4EB4F
private def prime3 : UInt64 := 0x165667B19E3779F9
private def prime4 : UInt64 := 0x85EBCA77C2B2AE63
private def prime5 : UInt64 := 0x27D4EB2F165667C5

private def rotate (x : UInt64) (r : UInt64) : UInt64 :=
  (x <<< r) ||| (x >>> (64 - r))

private def littleEndian (bs : List UInt8) : UInt64 :=
  bs.foldr (fun b acc => (acc <<< 8) ||| b.toUInt64) 0

private def round (acc lane : UInt64) : UInt64 :=
  rotate (acc + lane * prime2) 31 * prime1

private def mergeRound (acc v : UInt64) : UInt64 :=
  (acc ^^^ round 0 v) * prime1 + prime4

/-- The four accumulators of the striped part. -/
private structure Lanes where
  v1 : UInt64
  v2 : UInt64
  v3 : UInt64
  v4 : UInt64

private def Lanes.seed : Lanes :=
  ⟨prime1 + prime2, prime2, 0, 0 - prime1⟩

private def Lanes.stripe (l : Lanes) (bs : List UInt8) : Lanes :=
  ⟨round l.v1 (littleEndian (bs.take 8)),
   round l.v2 (littleEndian ((bs.drop 8).take 8)),
   round l.v3 (littleEndian ((bs.drop 16).take 8)),
   round l.v4 (littleEndian ((bs.drop 24).take 8))⟩

private def Lanes.eat : Nat → Lanes → List UInt8 → Lanes
  | 0, l, _ => l
  | n + 1, l, bs => Lanes.eat n (l.stripe (bs.take 32)) (bs.drop 32)

private def Lanes.merge (l : Lanes) : UInt64 :=
  let h := rotate l.v1 1 + rotate l.v2 7 + rotate l.v3 12 + rotate l.v4 18
  mergeRound (mergeRound (mergeRound (mergeRound h l.v1) l.v2) l.v3) l.v4

private def eatWords : Nat → UInt64 → List UInt8 → UInt64
  | 0, h, _ => h
  | n + 1, h, bs =>
    let h := h ^^^ round 0 (littleEndian (bs.take 8))
    eatWords n (rotate h 27 * prime1 + prime4) (bs.drop 8)

private def eatHalf (h : UInt64) (bs : List UInt8) : UInt64 :=
  rotate (h ^^^ (littleEndian (bs.take 4) * prime1)) 23 * prime2 + prime3

private def eatBytes (h : UInt64) (bs : List UInt8) : UInt64 :=
  bs.foldl (fun h b => rotate (h ^^^ (b.toUInt64 * prime5)) 11 * prime1) h

private def avalanche (h : UInt64) : UInt64 :=
  let h := (h ^^^ (h >>> 33)) * prime2
  let h := (h ^^^ (h >>> 29)) * prime3
  h ^^^ (h >>> 32)

/-- xxHash64 of a byte string, seed zero. -/
def hashBytes (bs : List UInt8) : UInt64 :=
  let n := bs.length
  let start := if n < 32 then prime5 else (Lanes.seed.eat (n / 32) bs).merge
  let tail := bs.drop (n / 32 * 32)
  let h := eatWords (tail.length / 8) (start + n.toUInt64) tail
  let tail := tail.drop (tail.length / 8 * 8)
  if tail.length < 4 then avalanche (eatBytes h tail)
  else avalanche (eatBytes (eatHalf h tail) (tail.drop 4))

end CallTargets.Signature
