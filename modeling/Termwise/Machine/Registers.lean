import Termwise.Number.Decimal

/-! The register file: a fixed number of finite numbers. Reading outside the file gives zero, and
writing outside it is lost. -/
namespace Termwise

/-- The registers in order. -/
structure Registers where
  values : List Float
deriving Inhabited

namespace Registers

/-- A file of zeros; a negative count gives an empty file. -/
def zeros (count : Int) : Registers := ⟨List.replicate count.toNat 0.0⟩

def defaultCount : Int := 10

def place? (r : Registers) (index : Option Int) : Option Nat :=
  match index with
  | some i => if 0 ≤ i ∧ i < r.values.length then some i.toNat else none
  | none => none

def get (r : Registers) (index : Option Int) : Float :=
  match r.place? index with
  | some i => r.values.getD i 0.0
  | none => 0.0

/-- Writes a register. NaN and infinities are written as zero. -/
def set (r : Registers) (index : Option Int) (x : Float) : Registers :=
  match r.place? index with
  | some i => ⟨r.values.set i (Number.sanitize x)⟩
  | none => r

/-- Puts zero into every register. -/
def reset (r : Registers) : Registers := ⟨r.values.map fun _ => 0.0⟩

def named (r : Registers) : List (String × Float) :=
  r.values.zipIdx.map fun (x, i) => ("V" ++ toString i, x)

def text (r : Registers) : String :=
  "\n".intercalate (r.named.map fun (name, x) => name ++ " = " ++ Number.briefText x)

end Registers

end Termwise
