import Termwise.Number.Decimal
import Termwise.Term.Vocabulary

/-! Terms, the classified tokens of a line, and their texts. A term made by the reader carries just
the fields of its kind; a term made by hand may carry any fields, and every function here is total
on those too. -/
namespace Termwise

/-- What a token is. Terms made by hand may have a kind outside the language. -/
inductive Kind where
  | nop | indent | lineEnd
  | number | register | negated | inverted | property
  | function | assignment | flow
  | other (label : String)
deriving Repr, DecidableEq, Inhabited

namespace Kind

def all : List Kind :=
  [.nop, .indent, .lineEnd, .number, .register, .negated, .inverted, .property, .function,
    .assignment, .flow]

def label : Kind → String
  | .nop => "nop"
  | .indent => "indent"
  | .lineEnd => "carriageReturn"
  | .number => "number"
  | .register => "variable"
  | .negated => "variableNegative"
  | .inverted => "variableInvert"
  | .property => "reservedVariable"
  | .function => "function"
  | .assignment => "assignFunction"
  | .flow => "flowFunction"
  | .other s => s

def ofLabel (s : String) : Kind := (all.find? fun k => k.label = s).getD (.other s)

/-- Kinds that are a value by themselves. -/
def isOperand : Kind → Bool
  | .number | .register | .negated | .inverted | .property => true
  | _ => false

def isCall : Kind → Bool
  | .function | .assignment | .flow => true
  | _ => false

end Kind

/-- One classified token. -/
structure Term where
  kind : Kind
  name : Option String := none
  argCount : Int := 0
  index : Option Int := none
  value : Option Float := none
deriving Inhabited

namespace Term

/-- The term without effect. -/
def nop : Term := { kind := .nop }

def ofNumber (x : Float) : Term := { kind := .number, value := some x }

/-- The literal that stands in for a missing argument. -/
def zero : Term := ofNumber 0.0

/-- The text that stands where a field is absent. -/
def absent : String := "None"

/-- The name, or a mark of its absence. -/
def nameText (t : Term) : String := t.name.getD absent

/-- The register index, or a mark of its absence. -/
def indexText (t : Term) : String := (t.index.map toString).getD absent

/-- The number of a numeric term, zero when it has none. A negative zero counts as none. -/
def literal (t : Term) : Float :=
  match t.value with
  | some x => if x == 0.0 then 0.0 else x
  | none => 0.0

/-- What stands before the index of an assignment; a name outside the language is written as a plain
assignment. -/
def assignmentLead (t : Term) : String := ((Assignment.ofName? t.nameText).getD .set).lead

/-- The token that reads back as the term; nothing for a term without a token of its own. -/
def text (t : Term) : String :=
  match t.kind with
  | .number => Number.text t.literal
  | .register => "V" ++ t.indexText
  | .negated => "-V" ++ t.indexText
  | .inverted => "!V" ++ t.indexText
  | .property => t.nameText
  | .function =>
    match Operator.ofName? t.nameText with
    | some op => op.symbol
    | none => t.nameText ++ "/" ++ toString t.argCount
  | .assignment => t.assignmentLead ++ t.indexText
  | .flow => t.nameText
  | .indent => String.ofList (List.replicate indentWidth ' ')
  | .nop | .lineEnd | .other _ => ""

end Term

end Termwise
