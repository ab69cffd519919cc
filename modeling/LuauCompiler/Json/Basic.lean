import LuauCompiler.Number.Shortest

/-! JSON values. Integers are kept apart from other numbers, and an object keeps its keys in order of
first arrival. -/

namespace LuauCompiler

inductive Json where
  | null
  | bool (b : Bool)
  | int (n : Int)
  | real (x : Double)
  | str (s : String)
  | arr (items : List Json)
  | obj (fields : List (String × Json))
  deriving Repr

namespace Json

/-- Zero and everything empty count as false, as do `null` and `false`. -/
def truthy : Json → Bool
  | .null => false
  | .bool b => b
  | .int n => n != 0
  | .real (.finite _ m _) => m != 0
  | .real _ => true
  | .str s => !s.isEmpty
  | .arr items => !items.isEmpty
  | .obj fields => !fields.isEmpty

/-- The integer value of a number that has one; truth values count as 0 and 1. -/
def wholeNumber? : Json → Option Int
  | .bool b => some (if b then 1 else 0)
  | .int n => some n
  | .real (.finite negative m e) =>
    let magnitude : Option Nat :=
      if 0 ≤ e then some (m * Double.twoTo e.toNat)
      else if m % Double.twoTo (-e).toNat = 0 then some (m / Double.twoTo (-e).toNat) else none
    magnitude.map fun n => if negative then -n else n
  | _ => none

/-- The value equals `true`, as 1 and 1.0 do. -/
def isTrue (j : Json) : Bool := j.wholeNumber? == some 1

def get? (j : Json) (key : String) : Option Json :=
  match j with
  | .obj fields => fields.lookup key
  | _ => none

end Json

/-- Replaces the value of a key where it stands, or adds the key at the end. -/
def insertField {α : Type} (key : String) (value : α) : List (String × α) → List (String × α)
  | [] => [(key, value)]
  | (k, v) :: rest => if k = key then (k, value) :: rest else (k, v) :: insertField key value rest

theorem lookup_cons_ite {α : Type} (key other : String) (value : α) (fields : List (String × α)) :
    ((key, value) :: fields).lookup other = if other = key then some value else fields.lookup other := by
  rw [List.lookup_cons]
  split <;> simp_all

theorem lookup_insertField {α : Type} (key other : String) (value : α) (fields : List (String × α)) :
    (insertField key value fields).lookup other =
      if other = key then some value else fields.lookup other := by
  induction fields with
  | nil => exact lookup_cons_ite ..
  | cons entry rest ih =>
    rw [insertField]
    split <;> simp only [lookup_cons_ite, ih] <;> grind

end LuauCompiler
