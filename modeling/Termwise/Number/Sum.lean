/-! Sums of many numbers. Up to seven numbers are added in order; up to 128 are added in eight
interleaved columns whose sums are combined in pairs; longer lists are halved at a multiple of
eight. -/
namespace Termwise.Number

/-- Adds the numbers from left to right to a start. -/
def sumFrom (start : Float) (xs : List Float) : Float := xs.foldl (· + ·) start

/-- Adds eight columns element by element, row after row; gives the columns and what is left of the
list. -/
def columns : Nat → List Float → List Float → List Float × List Float
  | 0, sums, rest => (sums, rest)
  | rows + 1, sums, rest => columns rows (List.zipWith (· + ·) sums (rest.take 8)) (rest.drop 8)

/-- Combines eight column sums in pairs. -/
def combine : List Float → Float
  | [a, b, c, d, e, f, g, h] => ((a + b) + (c + d)) + ((e + f) + (g + h))
  | xs => sumFrom 0.0 xs

/-- The sum of at most 128 numbers. -/
def blockSum (xs : List Float) : Float :=
  if xs.length < 8 then sumFrom 0.0 xs
  else
    let (sums, rest) := columns (xs.length / 8 - 1) (xs.take 8) (xs.drop 8)
    sumFrom (combine sums) rest

/-- The sum of a list, halved at most `fuel` times. -/
def sumHalving : Nat → List Float → Float
  | 0, xs => blockSum xs
  | fuel + 1, xs =>
    if xs.length ≤ 128 then blockSum xs
    else
      let half := xs.length / 2 - xs.length / 2 % 8
      sumHalving fuel (xs.take half) + sumHalving fuel (xs.drop half)

def sum (xs : List Float) : Float := sumHalving xs.length xs

end Termwise.Number
