import RemoteCalc.Text.Blank

/-! The operations that a request can ask for, and their names in messages. -/

namespace RemoteCalc

inductive Method where
  | none
  | getMemory
  | resetMemory
  | add
  | addToMemory
  | sub
  | subFromMemory
  | mul
  | mulIntoMemory
  | div
deriving DecidableEq, Repr

namespace Method

def all : List Method :=
  [getMemory, resetMemory, add, addToMemory, sub, subFromMemory, mul, mulIntoMemory, div]

def name : Method → Text
  | none => ['N', 'O', 'N', 'E']
  | getMemory => ['G', 'E', 'T', 'M', 'E', 'M']
  | resetMemory => ['R', 'E', 'S', 'M', 'E', 'M']
  | add => ['A', 'D', 'D']
  | addToMemory => ['A', 'D', 'D', 'M']
  | sub => ['S', 'U', 'B']
  | subFromMemory => ['S', 'U', 'B', 'M']
  | mul => ['M', 'U', 'L']
  | mulIntoMemory => ['M', 'U', 'L', 'M']
  | div => ['D', 'I', 'V']

/-- The method of exactly this name; a message cannot ask for no operation. -/
def ofName? (t : Text) : Option Method := all.find? (·.name = t)

/-- Whether the operation reads or writes the memory cell. -/
def usesMemory : Method → Bool
  | getMemory | resetMemory | addToMemory | subFromMemory | mulIntoMemory => true
  | none | add | sub | mul | div => false

theorem ofName?_name {m : Method} (h : m ≠ none) : ofName? m.name = some m := by
  revert h
  cases m <;> decide

theorem ofName?_eq_some {t : Text} {m : Method} (h : ofName? t = some m) :
    m ≠ none ∧ t = m.name := by
  have hm : m ∈ all := List.mem_of_find?_eq_some h
  have ht : m.name = t := by simpa using List.find?_some h
  exact ⟨fun he => absurd (he ▸ hm) (by decide), ht.symm⟩

end Method

end RemoteCalc
