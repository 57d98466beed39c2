import Termwise.Chance
import Termwise.Number.Reading
import Termwise.Term.Basic

/-! Classifying tokens. Every rule but the last looks at the token alone; the last one reads a
number and first draws a digit for each wildcard. A token that no rule accepts has no effect. -/
namespace Termwise.Term

/-- The register kinds with what stands before the index. -/
def registerLeads : List (String × Kind) := [("V", .register), ("-V", .negated), ("!V", .inverted)]

/-- A term with a register index after a given start: `none` when the token does not start so, and
the term without effect when no index follows. -/
def indexed? (token : List Char) (lead : String) (make : Nat → Term) : Option Term :=
  (Text.after? lead.toList token).map fun rest =>
    match Text.natural? rest with
    | some n => make n
    | none => nop

def registerRule (token : List Char) : Option Term :=
  registerLeads.findSome? fun (lead, kind) =>
    indexed? token lead fun n => { kind := kind, index := some n }

def propertyRule (token : String) : Option Term :=
  if token ∈ propertyNames then some { kind := .property, name := some token } else none

def operatorRule (token : String) : Option Term :=
  (Operator.ofSymbol? token).map fun op =>
    { kind := .function, name := some op.name, argCount := op.arity }

def assignmentRule (token : List Char) : Option Term :=
  Assignment.all.findSome? fun a =>
    indexed? token a.lead fun n =>
      { kind := .assignment, name := some a.name, argCount := a.arity, index := some n }

def flowRule (token : String) : Option Term :=
  (Flow.ofWord? token).map fun f => { kind := .flow, name := some f.word, argCount := f.arity }

/-- A call with its argument count after the only slash. -/
def callRule (token : List Char) : Option Term :=
  match Text.splitAt '/' token with
  | [name, count] =>
    match name, Text.natural? count with
    | _ :: _, some n => some { kind := .function, name := some (String.ofList name), argCount := n }
    | _, _ => some nop
  | _ => none

/-- What a token is by the rules that need no number: `none` leaves it to the reader of numbers. -/
def classify (token : String) : Option Term :=
  if token = "" then some nop
  else if token = indentToken then some { kind := .indent }
  else if token = returnToken then some { kind := .lineEnd }
  else
    registerRule token.toList
      <|> propertyRule token
      <|> operatorRule token
      <|> assignmentRule token.toList
      <|> flowRule token
      <|> callRule token.toList

/-- A number, or the term without effect. NaN and the infinities are no numbers of the language. -/
def numeral (token : String) : Term :=
  match token with
  | "true" => ofNumber 1.0
  | "false" => ofNumber 0.0
  | _ =>
    match Number.ofString? token with
    | some x => if x.isFinite then ofNumber x else nop
    | none => nop

def wildcards (token : String) : Nat := token.toList.count wildcard

/-- Puts the drawn digits in place of the wildcards, in order. -/
def fill : List Char → List Nat → List Char
  | [], _ => []
  | c :: cs, digits =>
    if c = wildcard then
      match digits with
      | [] => c :: fill cs []
      | d :: more => (toString d).toList ++ fill cs more
    else c :: fill cs digits

/-- Classifies one token, drawing a digit for each wildcard of a number. -/
def parse (token : String) : StateM Chance Term :=
  match classify token with
  | some t => pure t
  | none => do
    let digits ← Chance.takeDigits (wildcards token)
    return numeral (String.ofList (fill token.toList digits))

/-- Classifies the tokens of a row from left to right. -/
def parseRow (row : List String) : StateM Chance (List Term) := row.mapM parse

/-- Classifies all rows in order. -/
def parseRows (rows : List (List String)) : StateM Chance (List (List Term)) := rows.mapM parseRow

end Termwise.Term
