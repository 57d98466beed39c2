import Termwise.Text.Blank
import Termwise.Term.Vocabulary

/-! Program text as rows of tokens: one row for each line that holds anything besides blanks and a
comment. Leading tabs and pairs of spaces become indentation tokens. -/
namespace Termwise.Source

def commentMark : Char := '#'

/-- Levels of indentation at the start of a line, and the rest of the line. `pending` counts spaces
that do not yet make a level. -/
def indentation (pending : Nat) : List Char → Nat × List Char
  | [] => (0, [])
  | c :: rest =>
    if c = '\t' then
      let (levels, body) := indentation 0 rest
      (levels + 1, body)
    else if c = ' ' then
      if pending + 1 = indentWidth then
        let (levels, body) := indentation 0 rest
        (levels + 1, body)
      else indentation (pending + 1) rest
    else (0, c :: rest)

def lineTokens (raw : List Char) : List String :=
  let line := Text.before commentMark raw
  if line.all Text.isBlank then []
  else
    let (levels, body) := indentation 0 line
    List.replicate levels indentToken ++ (Text.words body).map String.ofList

def tokenize (text : String) : List (List String) :=
  ((Text.lines text.toList).map lineTokens).filter fun row => row ≠ []

/-- Number of lines of a text, blank ones included. -/
def lineCount (text : String) : Nat := (Text.lines text.toList).length

end Termwise.Source
