/-! Expanding compressed data. A stream is a list of bits, least significant bit of each byte first,
cut into blocks; a block is stored, or coded with fixed or transmitted prefix codes. Codes are
canonical: shorter ones come first and equal lengths are ordered by symbol. -/
namespace Termwise.Codec.Inflate

/-- The bits of a byte, least significant first. -/
def byteBits (b : UInt8) : List Bool := (List.range 8).map fun i => b.toNat / Nat.pow 2 i % 2 = 1

/-- The next `count` bits as a number, least significant bit first. -/
def bits? : Nat → List Bool → Option (Nat × List Bool)
  | 0, stream => some (0, stream)
  | _ + 1, [] => none
  | count + 1, b :: rest => do
    let (n, after) ← bits? count rest
    return ((if b then 1 else 0) + 2 * n, after)

/-- A canonical code: how many symbols have each length from one on, and the symbols in order. -/
structure Code where
  counts : List Nat
  symbols : Array Nat

namespace Code

def maxLength : Nat := 15

/-- The code in which symbol `i` has length `lengths[i]`, zero standing for an unused symbol. -/
def ofLengths (lengths : List Nat) : Code where
  counts := (List.range maxLength).map fun i => lengths.count (i + 1)
  symbols :=
    ((List.range maxLength).flatMap fun i =>
      lengths.zipIdx.filterMap fun (length, symbol) => if length =
        i + 1 then some symbol else none).toArray

/-- Code words still free after each length has taken its share, `none` when a length takes too
many. -/
def room? : Nat → List Nat → Option Nat
  | free, [] => some free
  | free, n :: rest => if n ≤ 2 * free then room? (2 * free - n) rest else none

/-- Whether every code word is used. -/
def isComplete (code : Code) : Bool := room? 1 code.counts = some 0

/-- Whether the code may be used for a block: complete, or with no code word longer than one bit. -/
def isUsable (code : Code) : Bool :=
  match room? 1 code.counts with
  | some free => free = 0 || (code.counts.drop 1).all (· = 0)
  | none => false

/-- Reads a code word. `word` is what has been read, `first` the first word of the current length
and `index` the place of its symbol. -/
def symbol? (symbols : Array Nat) :
    List Nat → Nat → Nat → Nat → List Bool → Option (Nat × List Bool)
  | [], _, _, _, _ => none
  | _ :: _, _, _, _, [] => none
  | n :: more, word, first, index, b :: rest =>
    let word := 2 * word + if b then 1 else 0
    if word < first + n then (symbols[index + (word - first)]?).map fun s => (s, rest)
    else symbol? symbols more word (2 * (first + n)) (index + n) rest

def next? (code : Code) (stream : List Bool) : Option (Nat × List Bool) :=
  symbol? code.symbols code.counts 0 0 0 stream

end Code

/-- Base length and extra bits of each length symbol, from symbol 257 on. -/
def lengthTable : List (Nat × Nat) :=
  [(3, 0), (4, 0), (5, 0), (6, 0), (7, 0), (8, 0), (9, 0), (10, 0), (11, 1), (13, 1), (15, 1),
    (17, 1), (19, 2), (23, 2), (27, 2), (31, 2), (35, 3), (43, 3), (51, 3), (59, 3), (67, 4),
    (83, 4), (99, 4), (115, 4), (131, 5), (163, 5), (195, 5), (227, 5), (258, 0)]

/-- Base distance and extra bits of each distance symbol. -/
def distanceTable : List (Nat × Nat) :=
  [(1, 0), (2, 0), (3, 0), (4, 0), (5, 1), (7, 1), (9, 2), (13, 2), (17, 3), (25, 3), (33, 4),
    (49, 4), (65, 5), (97, 5), (129, 6), (193, 6), (257, 7), (385, 7), (513, 8), (769, 8),
    (1025, 9), (1537, 9), (2049, 10), (3073, 10), (4097, 11), (6145, 11), (8193, 12),
    (12289, 12), (16385, 13), (24577, 13)]

/-- A base value with its extra bits. -/
def extended? (table : List (Nat × Nat)) (symbol : Nat) (stream : List Bool) :
    Option (Nat × List Bool) := do
  let (base, extra) ← table[symbol]?
  let (n, rest) ← bits? extra stream
  return (base + n, rest)

/-- Appends `length` bytes, each a copy of the byte `distance` places back. -/
def copy (distance : Nat) : Nat → Array UInt8 → Array UInt8
  | 0, out => out
  | length + 1, out => copy distance length (out.push (out.getD (out.size - distance) 0))

/-- The symbols of a block up to its end mark. `fuel` bounds their number. -/
def symbols? (literals distances : Code) :
    Nat → List Bool → Array UInt8 → Option (List Bool × Array UInt8)
  | 0, _, _ => none
  | fuel + 1, stream, out => do
    let (symbol, rest) ← literals.next? stream
    if symbol < 256 then symbols? literals distances fuel rest (out.push (UInt8.ofNat symbol))
    else if symbol = 256 then return (rest, out)
    else
      let (length, rest) ← extended? lengthTable (symbol - 257) rest
      let (place, rest) ← distances.next? rest
      let (distance, rest) ← extended? distanceTable place rest
      if out.size < distance then none
      else symbols? literals distances fuel rest (copy distance length out)

/-- The order in which the lengths of the length code are transmitted. -/
def lengthOrder : List Nat := [16, 17, 18, 0, 8, 7, 9, 6, 10, 5, 11, 4, 12, 3, 13, 2, 14, 1, 15]

/-- `count` numbers of three bits. -/
def triples? : Nat → List Bool → Option (List Nat × List Bool)
  | 0, stream => some ([], stream)
  | count + 1, stream => do
    let (n, rest) ← bits? 3 stream
    let (more, rest) ← triples? count rest
    return (n :: more, rest)

/-- The transmitted code lengths, newest first, until `wanted` of them are there. -/
def lengths? (code : Code) (wanted : Nat) :
    Nat → List Nat → List Bool → Option (List Nat × List Bool)
  | 0, _, _ => none
  | fuel + 1, done, stream =>
    if wanted ≤ done.length then
      if done.length = wanted then some (done, stream) else none
    else do
      let (symbol, rest) ← code.next? stream
      if symbol < 16 then lengths? code wanted fuel (symbol :: done) rest
      else if symbol = 16 then
        let previous ← done.head?
        let (n, rest) ← bits? 2 rest
        lengths? code wanted fuel (List.replicate (3 + n) previous ++ done) rest
      else
        let (base, extra) := if symbol = 17 then (3, 3) else (11, 7)
        let (n, rest) ← bits? extra rest
        lengths? code wanted fuel (List.replicate (base + n) 0 ++ done) rest

/-- The two codes of a block with transmitted codes. -/
def transmitted? (stream : List Bool) : Option (Code × Code × List Bool) := do
  let (hlit, rest) ← bits? 5 stream
  let (hdist, rest) ← bits? 5 rest
  let (hclen, rest) ← bits? 4 rest
  let literalCount := hlit + 257
  let distanceCount := hdist + 1
  if 286 < literalCount ∨ 30 < distanceCount then none
  let (given, rest) ← triples? (hclen + 4) rest
  let lengthCode := Code.ofLengths
    ((List.range 19).map fun symbol => given.getD (lengthOrder.idxOf symbol) 0)
  if !lengthCode.isComplete then none
  let (reversed, rest) ← lengths? lengthCode (literalCount + distanceCount)
      (literalCount + distanceCount + 1) [] rest
  let lengths := reversed.reverse
  if lengths.getD 256 0 = 0 then none
  let literals := Code.ofLengths (lengths.take literalCount)
  let distances := Code.ofLengths (lengths.drop literalCount)
  if !literals.isUsable || !distances.isUsable then none
  return (literals, distances, rest)

def fixedLiterals : Code :=
  Code.ofLengths
    (List.replicate 144 8 ++ List.replicate 112 9 ++ List.replicate 24 7 ++ List.replicate 8 8)

def fixedDistances : Code := Code.ofLengths (List.replicate 32 5)

/-- `count` bytes. -/
def bytes? : Nat → List Bool → Array UInt8 → Option (List Bool × Array UInt8)
  | 0, stream, out => some (stream, out)
  | count + 1, stream, out => do
    let (b, rest) ← bits? 8 stream
    bytes? count rest (out.push (UInt8.ofNat b))

/-- A stored block, which starts at the next byte boundary with its size and the complement of
it. -/
def stored? (stream : List Bool) (out : Array UInt8) : Option (List Bool × Array UInt8) := do
  let aligned := stream.drop (stream.length % 8)
  let (size, rest) ← bits? 16 aligned
  let (complement, rest) ← bits? 16 rest
  if size + complement = 65535 then bytes? size rest out else none

/-- One block: whether it is the last one, what follows, and the output so far. -/
def block? (stream : List Bool) (out : Array UInt8) : Option (Bool × List Bool × Array UInt8) := do
  let (final, rest) ← bits? 1 stream
  let (method, rest) ← bits? 2 rest
  let (rest, out) ←
    match method with
    | 0 => stored? rest out
    | 1 => symbols? fixedLiterals fixedDistances (rest.length + 1) rest out
    | 2 => do
      let (literals, distances, rest) ← transmitted? rest
      symbols? literals distances (rest.length + 1) rest out
    | _ => none
  return (final = 1, rest, out)

/-- The blocks up to the last one. `fuel` bounds their number. -/
def blocks? : Nat → List Bool → Array UInt8 → Option (List Bool × Array UInt8)
  | 0, _, _ => none
  | fuel + 1, stream, out => do
    let (final, rest, out) ← block? stream out
    if final then return (rest, out) else blocks? fuel rest out

/-- Expands a stream: the bytes it stands for, and the bits after it from the next byte boundary
on. -/
def expand? (bytes : List UInt8) : Option (List UInt8 × List Bool) := do
  let stream := bytes.flatMap byteBits
  let (rest, out) ← blocks? (stream.length + 1) stream #[]
  return (out.toList, rest.drop (rest.length % 8))

end Termwise.Codec.Inflate
