import LuauCompiler.Json.Reader
import LuauCompiler.Text.Quoted

/-! The values that a literal of the source language can have, with their source text. -/

namespace LuauCompiler

inductive Constant where
  | none
  | bool (b : Bool)
  | int (n : Int)
  | float (x : Double)
  | complex (re im : Double)
  | str (s : String)
  | bytes (bs : List UInt8)
  | ellipsis
  deriving DecidableEq, Repr

namespace Constant

def typeName : Constant → String
  | .none => "NoneType"
  | .bool _ => "bool"
  | .int _ => "int"
  | .float _ => "float"
  | .complex .. => "complex"
  | .str _ => "str"
  | .bytes _ => "bytes"
  | .ellipsis => "ellipsis"

def isStr : Constant → Bool
  | .str _ => true
  | _ => false

/-- Decimal digits of an integer. One with too many digits has no text. -/
def intText (n : Int) : Except Failure String :=
  if Json.digitLimit < (Nat.toDigits 10 n.natAbs).length then .error .badValue
  else .ok (toString n)

/-- The text of a value as its literal is written. -/
def literal : Constant → Except Failure String
  | .none => .ok "None"
  | .bool b => .ok (if b then "True" else "False")
  | .int n => intText n
  | .float x => .ok x.text
  | .complex re im => .ok (Double.complexText re im)
  | .str s => .ok (Text.quote s)
  | .bytes bs => .ok (Text.quoteBytes bs)
  | .ellipsis => .ok "Ellipsis"

/-- The text of a value as it is printed: a text stands for itself. -/
def display : Constant → Except Failure String
  | .str s => .ok s
  | c => c.literal

/-- One more than a number; truth values count as 0 and 1. -/
def succ? : Constant → Option Constant
  | .bool b => some (.int (if b then 2 else 1))
  | .int n => some (.int (n + 1))
  | .float x => some (.float (x.add .one))
  | .complex re im => some (.complex (re.add .one) (im.add (.zero false)))
  | _ => Option.none

end Constant

end LuauCompiler
