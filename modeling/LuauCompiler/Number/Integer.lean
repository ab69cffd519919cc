import LuauCompiler.Number.Digit

/-! A numeral is a row of digits with an optional sign. Single underscores may stand between digits, and
blanks around the numeral. -/

namespace LuauCompiler.Integer

/-- Blanks of ASCII other than the separators of records, and all blanks beyond ASCII. -/
def isBlank (c : Char) : Bool :=
  let n := c.toNat
  n = 0x20 || (0x09 ≤ n && n ≤ 0x0d) || n = 0x85 || n = 0xa0 || n = 0x1680 ||
    (0x2000 ≤ n && n ≤ 0x200a) || n = 0x2028 || n = 0x2029 || n = 0x202f || n = 0x205f ||
    n = 0x3000

/-- The values of a row of digits in which single underscores separate digits; `afterDigit` tells
whether the character before was a digit. -/
def digits? : (afterDigit : Bool) → List Char → Option (List Nat)
  | afterDigit, [] => if afterDigit then some [] else none
  | afterDigit, c :: rest =>
    match Digit.value? c with
    | some v => (digits? true rest).map (v :: ·)
    | none => if c = '_' && afterDigit then digits? false rest else none

def trim (cs : List Char) : List Char :=
  ((cs.dropWhile isBlank).reverse.dropWhile isBlank).reverse

def numeral? (text : String) : Option (Bool × List Nat) :=
  match trim text.toList with
  | '-' :: rest => (digits? false rest).map (true, ·)
  | '+' :: rest => (digits? false rest).map (false, ·)
  | rest => (digits? false rest).map (false, ·)

def value (negative : Bool) (digits : List Nat) : Int :=
  let n : Int := Digit.number digits
  if negative then -n else n

end LuauCompiler.Integer
