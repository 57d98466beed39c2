import Termwise.Codec.Inflate

/-! Compressed data with a header of two bytes and a checksum of four. Writing uses stored blocks,
which every reader accepts. -/
namespace Termwise.Codec.Zlib

/-- The checksum: two sums modulo 65521, of the bytes and of the sums so far. -/
def checksum (bytes : List UInt8) : Nat :=
  let (low, high) := bytes.foldl
    (fun (low, high) b =>
      let low := (low + b.toNat) % 65521
      (low, (high + low) % 65521))
    (1, 0)
  high * 65536 + low

/-- Whether two bytes are a header: the one compression method, a window of at most 32 KiB, a check
of both bytes, and no preset dictionary. -/
def isHeader (method flags : Nat) : Bool :=
  method % 16 = 8 && method / 16 ≤ 7 && (method * 256 + flags) % 31 = 0 && flags / 32 % 2 = 0

/-- A number of four bytes, most significant first. -/
def word? (stream : List Bool) : Option Nat := do
  let (a, rest) ← Inflate.bits? 8 stream
  let (b, rest) ← Inflate.bits? 8 rest
  let (c, rest) ← Inflate.bits? 8 rest
  let (d, _) ← Inflate.bits? 8 rest
  return ((a * 256 + b) * 256 + c) * 256 + d

/-- The bytes that compressed data stands for. Bytes after the checksum are ignored. -/
def decompress? : List UInt8 → Option (List UInt8)
  | method :: flags :: body => do
    if !isHeader method.toNat flags.toNat then none
    let (bytes, rest) ← Inflate.expand? body
    let sum ← word? rest
    if sum = checksum bytes then return bytes else none
  | _ => none

/-- The bytes of a number, least significant first. -/
def littleEndian (n : Nat) : List UInt8 := [UInt8.ofNat (n % 256), UInt8.ofNat (n / 256)]

/-- A stored block of at most 65535 bytes. -/
def storedBlock (final : Bool) (bytes : List UInt8) : List UInt8 :=
  (if final then 1 else 0) ::
    (littleEndian bytes.length ++ littleEndian (65535 - bytes.length) ++ bytes)

def blockSize : Nat := 65535

/-- Stored blocks for all bytes. `fuel` bounds the number of blocks before the last one. -/
def storedBlocks : Nat → List UInt8 → List UInt8
  | 0, bytes => storedBlock true bytes
  | fuel + 1, bytes =>
    if bytes.length ≤ blockSize then storedBlock true bytes
    else storedBlock false (bytes.take blockSize) ++ storedBlocks fuel (bytes.drop blockSize)

def compress (bytes : List UInt8) : List UInt8 :=
  let sum := checksum bytes
  [0x78, 0x01] ++ storedBlocks bytes.length bytes ++
    [UInt8.ofNat (sum / 16777216), UInt8.ofNat (sum / 65536 % 256), UInt8.ofNat (sum / 256 % 256),
      UInt8.ofNat (sum % 256)]

end Termwise.Codec.Zlib
