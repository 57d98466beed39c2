/-! Base64 with the alphabet that is safe in links. Reading is lenient: characters outside the
alphabet are skipped, the letters of the common alphabet are accepted as well, and a complete
padding ends the data. -/
namespace Termwise.Codec.Base64

def letter (n : Nat) : Char :=
  if n < 26 then Char.ofNat (65 + n)
  else if n < 52 then Char.ofNat (71 + n)
  else if n < 62 then Char.ofNat (n - 4)
  else if n = 62 then '-'
  else '_'

/-- The six-bit value of a letter of either alphabet. -/
def sextet? (c : Char) : Option Nat :=
  if 'A' ≤ c ∧ c ≤ 'Z' then some (c.toNat - 65)
  else if 'a' ≤ c ∧ c ≤ 'z' then some (c.toNat - 71)
  else if '0' ≤ c ∧ c ≤ '9' then some (c.toNat + 4)
  else if c = '-' ∨ c = '+' then some 62
  else if c = '_' ∨ c = '/' then some 63
  else none

/-- The letters of a byte sequence, without padding. -/
def encode : List UInt8 → List Char
  | a :: b :: c :: rest =>
    let n := a.toNat * 65536 + b.toNat * 256 + c.toNat
    letter (n / 262144) :: letter (n / 4096 % 64) :: letter (n / 64 % 64) ::
      letter (n % 64) :: encode rest
  | [a, b] =>
    let n := a.toNat * 256 + b.toNat
    [letter (n / 1024), letter (n / 16 % 64), letter (n % 16 * 4)]
  | [a] => [letter (a.toNat / 4), letter (a.toNat % 4 * 16)]
  | [] => []

/-- How far a group of four letters has been read: its place, the bits left over from the letter
before, and the paddings seen since. -/
structure Group where
  place : Nat := 0
  left : Nat := 0
  pads : Nat := 0

/-- The bytes of the letters from a given point on; `none` when they end inside a group. -/
def decodeFrom? (group : Group) : List Char → Option (List UInt8)
  | [] => if group.place = 0 then some [] else none
  | c :: rest =>
    if c = '=' then
      if 2 ≤ group.place then
        if 4 ≤ group.place + (group.pads + 1) then some []
        else decodeFrom? { group with pads := group.pads + 1 } rest
      else decodeFrom? group rest
    else
      match sextet? c with
      | none => decodeFrom? group rest
      | some n =>
        match group.place with
        | 0 => decodeFrom? ⟨1, n, 0⟩ rest
        | 1 => (decodeFrom? ⟨2, n % 16, 0⟩ rest).map (UInt8.ofNat (group.left * 4 + n / 16) :: ·)
        | 2 => (decodeFrom? ⟨3, n % 4, 0⟩ rest).map (UInt8.ofNat (group.left * 16 + n / 4) :: ·)
        | _ => (decodeFrom? ⟨0, 0, 0⟩ rest).map (UInt8.ofNat (group.left * 64 + n) :: ·)

/-- The bytes of a text, which must be ASCII. -/
def decode? (cs : List Char) : Option (List UInt8) :=
  if cs.all fun c => c.toNat < 128 then decodeFrom? {} cs else none

end Termwise.Codec.Base64
