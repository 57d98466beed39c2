import Termwise.Text.Printable

/-! Texts in quotes, as they are shown inside messages: single quotes unless the text has a single
quote and no double one, the usual short escapes, and a numeric escape for every character that is
not shown as itself. -/
namespace Termwise.Text

/-- The digits of a number to base sixteen, in small letters and with zeros in front up to a
width. -/
def hex (width n : Nat) : List Char :=
  let digits := Nat.toDigits 16 n
  List.replicate (width - digits.length) '0' ++ digits

def quotedChar (quote c : Char) : List Char :=
  if c = quote ∨ c = '\\' then ['\\', c]
  else if c = '\n' then ['\\', 'n']
  else if c = '\r' then ['\\', 'r']
  else if c = '\t' then ['\\', 't']
  else if isPrintable c then [c]
  else if c.toNat < 0x100 then '\\' :: 'x' :: hex 2 c.toNat
  else if c.toNat < 0x10000 then '\\' :: 'u' :: hex 4 c.toNat
  else '\\' :: 'U' :: hex 8 c.toNat

def quoted (s : String) : String :=
  let cs := s.toList
  let quote := if '\'' ∈ cs ∧ '"' ∉ cs then '"' else '\''
  String.ofList (quote :: (cs.flatMap (quotedChar quote) ++ [quote]))

end Termwise.Text
