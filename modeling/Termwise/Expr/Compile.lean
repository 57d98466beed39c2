import Termwise.Source
import Termwise.Expr.Basic

/-! From program text to lines. -/
namespace Termwise.Program

/-- The lines of a program text. Each reading draws the digits of wildcards anew. -/
def compile (text : String) : StateM Chance (List Line) := do
  return ofTerms (← Term.parseRows (Source.tokenize text))

end Termwise.Program
