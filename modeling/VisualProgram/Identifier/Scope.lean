/-!
# Scopes of identifiers

A scope knows the names that are taken, reserved ones included.  Claiming a base gives the base
itself if it is free, and otherwise `base_n` for the least `n ≥ 2` that is.  Among one more
candidate than there are taken names one is free, so the search ends, and a counter of 32 bits would
do as long as there are fewer names than it has numbers.
-/

namespace VisualProgram

structure Scope where
  taken : List String
deriving DecidableEq, Repr

namespace Scope

def reserving (names : List String) : Scope := ⟨names⟩

def isTaken (s : Scope) (name : String) : Bool := name ∈ s.taken

/-- the `k`-th name tried for a base that is taken -/
def candidate (base : String) (k : Nat) : String := base ++ "_" ++ toString (k + 2)

/-- the first candidate that is free -/
def numbered (s : Scope) (base : String) : String :=
  candidate base (((List.range (s.taken.length + 1)).find? fun k =>
    candidate base k ∉ s.taken).getD 0)

def fresh (s : Scope) (base : String) : String :=
  if s.isTaken base then s.numbered base else base

/-- the name claimed, and the scope in which it is taken -/
def claim (s : Scope) (base : String) : String × Scope :=
  (s.fresh base, ⟨s.fresh base :: s.taken⟩)

end Scope

end VisualProgram
