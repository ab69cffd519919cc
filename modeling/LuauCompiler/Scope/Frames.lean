/-! A stack that is never empty. A new frame starts as a changed copy of the frame below it. -/

namespace LuauCompiler

structure Frames (α : Type) where
  top : α
  /-- The frames under the top one, nearest first. -/
  below : List α
  deriving DecidableEq, Repr

namespace Frames

variable {α : Type}

def single (frame : α) : Frames α := ⟨frame, []⟩

def push (s : Frames α) (change : α → α) : Frames α := ⟨change s.top, s.top :: s.below⟩

/-- The stack without its top frame; the last frame stays. -/
def pop? (s : Frames α) : Option (Frames α) :=
  match s.below with
  | [] => none
  | next :: rest => some ⟨next, rest⟩

def depth (s : Frames α) : Nat := s.below.length + 1

def toList (s : Frames α) : List α := (s.top :: s.below).reverse

end Frames

end LuauCompiler
