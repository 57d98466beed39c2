/-! UTF-8. A machine reads one byte at a time; it holds how many bytes of a character are owed, the
range of the next one and the bits so far. Each character and each longest broken beginning is one
piece of the text, so the strict reading and the repairing one differ only in what they make of the
broken pieces. -/
namespace Termwise.Text.Utf8

/-- A character that has begun. -/
structure Pending where
  owed : Nat
  least : Nat
  greatest : Nat
  bits : Nat
deriving DecidableEq

/-- A part of a byte sequence. -/
inductive Piece where
  | char (c : Char)
  | broken
deriving DecidableEq

/-- What a byte does between two characters. -/
def begin (b : Nat) : List Piece × Option Pending :=
  if b < 0x80 then ([.char (Char.ofNat b)], none)
  else if 0xc2 ≤ b ∧ b ≤ 0xdf then ([], some ⟨1, 0x80, 0xbf, b - 0xc0⟩)
  else if b = 0xe0 then ([], some ⟨2, 0xa0, 0xbf, 0⟩)
  else if b = 0xed then ([], some ⟨2, 0x80, 0x9f, 0xd⟩)
  else if 0xe1 ≤ b ∧ b ≤ 0xef then ([], some ⟨2, 0x80, 0xbf, b - 0xe0⟩)
  else if b = 0xf0 then ([], some ⟨3, 0x90, 0xbf, 0⟩)
  else if 0xf1 ≤ b ∧ b ≤ 0xf3 then ([], some ⟨3, 0x80, 0xbf, b - 0xf0⟩)
  else if b = 0xf4 then ([], some ⟨3, 0x80, 0x8f, 4⟩)
  else ([.broken], none)

/-- What a byte does in general. A byte that cannot continue the character breaks it and is read
anew. -/
def step (state : Option Pending) (b : Nat) : List Piece × Option Pending :=
  match state with
  | none => begin b
  | some p =>
    if p.least ≤ b ∧ b ≤ p.greatest then
      let bits := p.bits * 64 + (b - 0x80)
      if p.owed ≤ 1 then ([.char (Char.ofNat bits)], none)
      else ([], some ⟨p.owed - 1, 0x80, 0xbf, bits⟩)
    else
      let (pieces, next) := begin b
      (.broken :: pieces, next)

def pieces (state : Option Pending) : List UInt8 → List Piece
  | [] => if state.isSome then [.broken] else []
  | b :: rest =>
    let (found, next) := step state b.toNat
    found ++ pieces next rest

/-- The text of a byte sequence without broken pieces. -/
def decode? (bytes : List UInt8) : Option (List Char) :=
  (pieces none bytes).mapM fun
    | .char c => some c
    | .broken => none

/-- The text of a byte sequence, with a replacement character for each broken piece. -/
def repair (bytes : List UInt8) : List Char :=
  (pieces none bytes).map fun
    | .char c => c
    | .broken => '\ufffd'

def encodeChar (c : Char) : List UInt8 :=
  let n := c.toNat
  let tail (k : Nat) : UInt8 := UInt8.ofNat (0x80 + k % 64)
  if n < 0x80 then [UInt8.ofNat n]
  else if n < 0x800 then [UInt8.ofNat (0xc0 + n / 64), tail n]
  else if n < 0x10000 then [UInt8.ofNat (0xe0 + n / 4096), tail (n / 64), tail n]
  else [UInt8.ofNat (0xf0 + n / 262144), tail (n / 4096), tail (n / 64), tail n]

def encode (cs : List Char) : List UInt8 := cs.flatMap encodeChar

end Termwise.Text.Utf8
