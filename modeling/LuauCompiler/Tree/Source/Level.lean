import LuauCompiler.Tree.Operator

/-! How tightly the forms of the source language bind, and the signs of its operators. -/

namespace LuauCompiler.Source

abbrev Level := Nat

namespace Level

def namedExpr : Level := 0
def tuple : Level := 1
def yield : Level := 2
def test : Level := 3
def or : Level := 4
def and : Level := 5
def not : Level := 6
def compare : Level := 7
def bitOr : Level := 8
def bitXor : Level := 9
def bitAnd : Level := 10
def shift : Level := 11
def arith : Level := 12
def term : Level := 13
def factor : Level := 14
def power : Level := 15
def await : Level := 16
def atom : Level := 17

def next (l : Level) : Level := if l < atom then l + 1 else l

end Level

def binarySign : BinaryOp → String
  | .add => "+"
  | .sub => "-"
  | .mult => "*"
  | .matMult => "@"
  | .div => "/"
  | .mod => "%"
  | .pow => "**"
  | .lShift => "<<"
  | .rShift => ">>"
  | .bitOr => "|"
  | .bitXor => "^"
  | .bitAnd => "&"
  | .floorDiv => "//"

def binaryLevel : BinaryOp → Level
  | .add | .sub => Level.arith
  | .mult | .matMult | .div | .mod | .floorDiv => Level.term
  | .pow => Level.power
  | .lShift | .rShift => Level.shift
  | .bitOr => Level.bitOr
  | .bitXor => Level.bitXor
  | .bitAnd => Level.bitAnd

def unarySign : UnaryOp → String
  | .invert => "~"
  | .not => "not "
  | .uAdd => "+"
  | .uSub => "-"

def unaryLevel : UnaryOp → Level
  | .not => Level.not
  | _ => Level.factor

def compareSign : CompareOp → String
  | .eq => "=="
  | .notEq => "!="
  | .lt => "<"
  | .ltE => "<="
  | .gt => ">"
  | .gtE => ">="
  | .is => "is"
  | .isNot => "is not"
  | .isIn => "in"
  | .notIn => "not in"

def boolWord : BoolOp → String
  | .and => "and"
  | .or => "or"

def boolLevel : BoolOp → Level
  | .and => Level.and
  | .or => Level.or

end LuauCompiler.Source
