/-! Tables in insertion order: writing a key that is there keeps its place, and a new key goes to
the end. -/
namespace Termwise

/-- Keys with their values, in insertion order. -/
abbrev Table (κ β : Type) := List (κ × β)

namespace Table

variable {κ β : Type} [DecidableEq κ]

def find? (table : Table κ β) (key : κ) : Option β :=
  (List.find? (fun entry => entry.1 = key) table).map (·.2)

/-- The keys in order. -/
def keys (table : Table κ β) : List κ := table.map (·.1)

/-- Writes a key: in its place when it is there, and at the end otherwise. -/
def insert (key : κ) (value : β) : Table κ β → Table κ β
  | [] => [(key, value)]
  | entry :: rest => if entry.1 = key then (key, value) :: rest else entry :: insert key value rest

/-- Writes all entries in order. -/
def ofList (entries : List (κ × β)) : Table κ β :=
  entries.foldl (fun table entry => table.insert entry.1 entry.2) []

end Table

end Termwise
