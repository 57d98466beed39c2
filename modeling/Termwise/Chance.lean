/-! A source of chance: an endless stream of digits and an endless stream of numbers in the unit
interval, each read from its own position. Everything random takes and returns such a source, so a
run is a function of the streams. -/
namespace Termwise

/-- Two streams and how much of each has been used. -/
structure Chance where
  digits : Nat → Nat
  uniforms : Nat → Float
  digitsUsed : Nat := 0
  uniformsUsed : Nat := 0

namespace Chance

instance : Inhabited Chance := ⟨⟨fun _ => 0, fun _ => 0.0, 0, 0⟩⟩

/-- The stream that repeats a list; the empty list stands for a single default. -/
def repeating {α : Type} (default : α) (values : List α) (position : Nat) : α :=
  values.getD (position % values.length) default

/-- A source that repeats two lists. -/
def ofLists (digits : List Nat) (uniforms : List Float) : Chance :=
  { digits := repeating 0 digits, uniforms := repeating 0.0 uniforms }

def mix (n : Nat) : UInt64 :=
  let z := UInt64.ofNat n * 0x9e3779b97f4a7c15
  let z := (z ^^^ (z >>> 30)) * 0xbf58476d1ce4e5b9
  let z := (z ^^^ (z >>> 27)) * 0x94d049bb133111eb
  z ^^^ (z >>> 31)

def ofSeed (seed : Nat) : Chance where
  digits i := (mix (seed * 0x100000001b3 + 2 * i + 1)).toNat % 9
  uniforms i := ((mix (seed * 0x100000001b3 + 2 * i + 2)) >>> 11).toFloat / 9007199254740992.0

/-- The next `count` digits. -/
def takeDigits (count : Nat) : StateM Chance (List Nat) := fun chance =>
  ((List.range count).map fun i => chance.digits (chance.digitsUsed + i),
    { chance with digitsUsed := chance.digitsUsed + count })

def takeUniform : StateM Chance Float := fun chance =>
  (chance.uniforms chance.uniformsUsed, { chance with uniformsUsed := chance.uniformsUsed + 1 })

def between (low high : Float) : StateM Chance Float := do
  let u ← takeUniform
  return low + (high - low) * u

end Chance

end Termwise
