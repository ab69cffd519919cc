/-! The names declared in the open blocks, innermost block first. A name is known when any open block
declares it. -/

namespace LuauCompiler

structure SymbolStack (α : Type) where
  /-- The names of each open block in order of declaration, innermost block first. -/
  levels : List (List α)
  deriving DecidableEq, Repr

namespace SymbolStack

variable {α : Type}

def new : SymbolStack α := ⟨[[]]⟩

/-- Declares a name in the innermost block; `none` if no block is open. -/
def add? (s : SymbolStack α) (name : α) : Option (SymbolStack α) :=
  match s.levels with
  | [] => none
  | level :: outer => some ⟨(level ++ [name]) :: outer⟩

def knows [BEq α] (s : SymbolStack α) (name : α) : Bool :=
  s.levels.any (·.contains name)

def push (s : SymbolStack α) : SymbolStack α := ⟨[] :: s.levels⟩

/-- Closes the innermost block with all its names; `none` if no block is open. -/
def pop? (s : SymbolStack α) : Option (SymbolStack α) :=
  match s.levels with
  | [] => none
  | _ :: outer => some ⟨outer⟩

def toLists (s : SymbolStack α) : List (List α) := s.levels.reverse

end SymbolStack

end LuauCompiler
