import Termwise.Term.Parse

/-! Expression forests. A line is read from right to left in prefix notation: an operand stands for
itself and a call takes as many of the trees to its right as it has arguments. Missing arguments are
zero. -/
namespace Termwise

/-- A tree of terms: an operand, or a call with its arguments. -/
inductive Expr where
  | operand (term : Term)
  | call (head : Term) (args : List Expr)
deriving Inhabited

namespace Expr

def isCall : Expr → Bool
  | .call _ _ => true
  | .operand _ => false

def head : Expr → Term
  | .operand t => t
  | .call t _ => t

/-- The first `count` trees, zeros standing in for those that are missing. -/
def takeArgs (count : Nat) (forest : List Expr) : List Expr :=
  forest.take count ++ List.replicate (count - forest.length) (.operand Term.zero)

/-- Puts a term in front of a forest. Terms that are neither operands nor calls are left out. -/
def push (t : Term) (forest : List Expr) : List Expr :=
  if t.kind.isOperand then .operand t :: forest
  else if t.kind.isCall then
    .call t (takeArgs t.argCount.toNat forest) :: forest.drop t.argCount.toNat
  else forest

def forest (terms : List Term) : List Expr := terms.foldr push []

mutual

/-- Whether the tree holds operators and operands only, so that it has no effect of its own. -/
def isPure : Expr → Bool
  | .operand _ => true
  | .call t args => t.kind = .function && (Operator.ofName? t.nameText).isSome && allPure args

def allPure : List Expr → Bool
  | [] => true
  | e :: rest => e.isPure && allPure rest

end

/-- How a call of a function is written, given its arguments. -/
def callText (t : Term) (args : List String) : String :=
  match Operator.ofName? t.nameText, args with
  | some op, [left, right] => "(" ++ left ++ " " ++ op.symbol ++ " " ++ right ++ ")"
  | some op, [only] => op.symbol ++ only
  | _, _ => t.nameText ++ "(" ++ ", ".intercalate args ++ ")"

mutual

/-- The tree in the usual notation: operators between their operands, calls with brackets. -/
def render : Expr → String
  | .operand t => t.text
  | .call t args =>
    match t.kind with
    | .flow => " ".intercalate (t.nameText :: renderAll args)
    | .assignment => " ".intercalate (t.text :: renderAll args)
    | _ => callText t (renderAll args)

/-- The trees of a list in the usual notation. -/
def renderAll : List Expr → List String
  | [] => []
  | e :: rest => e.render :: renderAll rest

end

end Expr

/-- Levels of indentation in front of a row; `none` when nothing else follows. -/
def indentLevel? (terms : List Term) : Option Nat := terms.findIdx? fun t => t.kind ≠ .indent

/-- A line of a program. -/
structure Line where
  indent : Option Nat
  terms : List Term
  roots : List Expr
deriving Inhabited

namespace Line

def ofTerms (terms : List Term) : Line := ⟨indentLevel? terms, terms, Expr.forest terms⟩

/-- The calls among the roots, which are what a run executes. -/
def calls (line : Line) : List Expr := line.roots.filter Expr.isCall

def margin (line : Line) : String :=
  String.ofList (List.replicate (indentWidth * line.indent.getD 0) ' ')

/-- The line in the usual notation. -/
def render (line : Line) : String := line.margin ++ " ".intercalate (line.roots.map Expr.render)

/-- The line as tokens, which read back as the same terms. -/
def renderTerms (line : Line) : String :=
  let body := (line.terms.filter fun t => t.kind ≠ .indent).map Term.text
  line.margin ++ " ".intercalate (body.filter fun s => s ≠ "")

/-- The line without the calls that have no effect. -/
def stripPure (line : Line) : Line :=
  { line with roots := line.roots.filter fun e => !(e.isCall && e.isPure) }

end Line

def Program.ofTerms (rows : List (List Term)) : List Line := rows.map Line.ofTerms

/-- A program in the usual notation. -/
def Program.render (lines : List Line) : String := "\n".intercalate (lines.map Line.render)

def Program.renderTerms (lines : List Line) : String :=
  "\n".intercalate (lines.map Line.renderTerms)

end Termwise
