/-! Operators of the source language. -/

namespace LuauCompiler

inductive BinaryOp where
  | add | sub | mult | matMult | div | mod | pow | lShift | rShift | bitOr | bitXor | bitAnd
  | floorDiv
  deriving DecidableEq, Repr

inductive UnaryOp where
  | invert | not | uAdd | uSub
  deriving DecidableEq, Repr

inductive BoolOp where
  | and | or
  deriving DecidableEq, Repr

inductive CompareOp where
  | eq | notEq | lt | ltE | gt | gtE | is | isNot | isIn | notIn
  deriving DecidableEq, Repr

/-- What is done with the place that an expression denotes. -/
inductive Access where
  | load | store | del
  deriving DecidableEq, Repr

/-- A word of the tree that has no parts of its own. -/
inductive Mark where
  | access (a : Access)
  | bool (op : BoolOp)
  | binary (op : BinaryOp)
  | unary (op : UnaryOp)
  | compare (op : CompareOp)
  deriving DecidableEq, Repr

def Access.className : Access → String
  | .load => "Load"
  | .store => "Store"
  | .del => "Del"

def BoolOp.className : BoolOp → String
  | .and => "And"
  | .or => "Or"

def BinaryOp.className : BinaryOp → String
  | .add => "Add"
  | .sub => "Sub"
  | .mult => "Mult"
  | .matMult => "MatMult"
  | .div => "Div"
  | .mod => "Mod"
  | .pow => "Pow"
  | .lShift => "LShift"
  | .rShift => "RShift"
  | .bitOr => "BitOr"
  | .bitXor => "BitXor"
  | .bitAnd => "BitAnd"
  | .floorDiv => "FloorDiv"

def UnaryOp.className : UnaryOp → String
  | .invert => "Invert"
  | .not => "Not"
  | .uAdd => "UAdd"
  | .uSub => "USub"

def CompareOp.className : CompareOp → String
  | .eq => "Eq"
  | .notEq => "NotEq"
  | .lt => "Lt"
  | .ltE => "LtE"
  | .gt => "Gt"
  | .gtE => "GtE"
  | .is => "Is"
  | .isNot => "IsNot"
  | .isIn => "In"
  | .notIn => "NotIn"

def Mark.className : Mark → String
  | .access a => a.className
  | .bool op => op.className
  | .binary op => op.className
  | .unary op => op.className
  | .compare op => op.className

def Access.all : List Access := [.load, .store, .del]

def BoolOp.all : List BoolOp := [.and, .or]

def BinaryOp.all : List BinaryOp :=
  [.add, .sub, .mult, .matMult, .div, .mod, .pow, .lShift, .rShift, .bitOr, .bitXor, .bitAnd,
    .floorDiv]

def UnaryOp.all : List UnaryOp := [.invert, .not, .uAdd, .uSub]

def CompareOp.all : List CompareOp :=
  [.eq, .notEq, .lt, .ltE, .gt, .gtE, .is, .isNot, .isIn, .notIn]

def Mark.all : List Mark :=
  Access.all.map .access ++ BoolOp.all.map .bool ++ BinaryOp.all.map .binary ++
    UnaryOp.all.map .unary ++ CompareOp.all.map .compare

end LuauCompiler
