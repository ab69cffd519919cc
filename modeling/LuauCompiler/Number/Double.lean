/-! Doubles. A finite number is `mantissa * 2 ^ exponent` with its sign. Everything is exact arithmetic on
naturals: a quotient is rounded to the nearest number, a tie going to the even mantissa. -/

namespace LuauCompiler

/-- Finite numbers are kept in the one form with `mantissa < 2 ^ 53`, `-1074 ≤ exponent`, and
`2 ^ 52 ≤ mantissa` unless the exponent is least. -/
inductive Double where
  | finite (negative : Bool) (mantissa : Nat) (exponent : Int)
  | infinite (negative : Bool)
  | nan
  deriving DecidableEq, Repr

namespace Double

def leastExponent : Int := -1074

def greatestExponent : Int := 971

def zero (negative : Bool) : Double := .finite negative 0 leastExponent

def twoTo (n : Nat) : Nat := Nat.pow 2 n

def tenTo (n : Nat) : Nat := Nat.pow 10 n

def one : Double := .finite false (twoTo 52) (-52)

/-- The integer nearest to `num / den`, a half going to the even one. -/
def roundQuotient (num den : Nat) : Nat :=
  let q := num / den
  let r := num % den
  if 2 * r < den then q
  else if den < 2 * r then q + 1
  else if q % 2 = 0 then q else q + 1

/-- `num / den / 2 ^ e` as a quotient of naturals. -/
def scale (num den : Nat) (e : Int) : Nat × Nat :=
  if 0 ≤ e then (num, den * twoTo e.toNat) else (num * twoTo (-e).toNat, den)

def ofRatio (negative : Bool) (num den : Nat) : Double :=
  if num = 0 then zero negative
  else
    -- with this exponent the scaled quotient lies between 2 ^ 52 and 2 ^ 54
    let e : Int := (num.log2 : Int) - den.log2 - 53
    let (n, d) := scale num den e
    let e := if d * twoTo 53 ≤ n then e + 1 else e
    let e := if e < leastExponent then leastExponent else e
    let (n, d) := scale num den e
    let m := roundQuotient n d
    let (m, e) := if m = twoTo 53 then (twoTo 52, e + 1) else (m, e)
    if greatestExponent < e then .infinite negative else .finite negative m e

def ofDecimal (negative : Bool) (digits : Nat) (exponent : Int) : Double :=
  if digits = 0 then zero negative
  else if 400 < exponent then .infinite negative
  else if exponent + (Nat.toDigits 10 digits).length < -400 then zero negative
  else if 0 ≤ exponent then ofRatio negative (digits * tenTo exponent.toNat) 1
  else ofRatio negative digits (tenTo (-exponent).toNat)

/-- `mantissa * 2 ^ (exponent - least)` with the sign. -/
def aligned (negative : Bool) (mantissa : Nat) (exponent least : Int) : Int :=
  let n : Int := ((mantissa * twoTo (exponent - least).toNat : Nat) : Int)
  if negative then -n else n

def add : Double → Double → Double
  | .nan, _ | _, .nan => .nan
  | .infinite a, .infinite b => if a = b then .infinite a else .nan
  | .infinite a, .finite .. => .infinite a
  | .finite .., .infinite b => .infinite b
  | .finite na ma ea, .finite nb mb eb =>
    let least := if ea ≤ eb then ea else eb
    let sum := aligned na ma ea least + aligned nb mb eb least
    if sum = 0 then zero (na && nb)
    else
      let (n, d) := scale sum.natAbs 1 (-least)
      ofRatio (sum < 0) n d

/-- The number is the positive zero, the only value that a complex number leaves unwritten. -/
def isPlainZero : Double → Bool
  | .finite false 0 _ => true
  | _ => false

def digitsValue (cs : List Char) : Nat :=
  cs.foldl (fun n c => 10 * n + (c.toNat - 48)) 0

/-- The number that a decimal numeral stands for: an integer part, a fraction and a signed power of
ten, of which the last two may be missing. -/
def ofNumeral (negative : Bool) (whole fraction : List Char) (power : Int) : Double :=
  ofDecimal negative (digitsValue (whole ++ fraction)) (power - fraction.length)

def readPower? (cs : List Char) : Option Int :=
  let digits (cs : List Char) : Option Nat :=
    if cs.isEmpty || !cs.all Char.isDigit then none else some (digitsValue cs)
  match cs with
  | '+' :: rest => (digits rest).map Int.ofNat
  | '-' :: rest => (digits rest).map fun n => -Int.ofNat n
  | rest => (digits rest).map Int.ofNat

def readNumeral? (negative : Bool) (cs : List Char) : Option Double :=
  let whole := cs.takeWhile Char.isDigit
  let rest := cs.dropWhile Char.isDigit
  let (fraction, rest) := match rest with
    | '.' :: rest => (rest.takeWhile Char.isDigit, rest.dropWhile Char.isDigit)
    | rest => ([], rest)
  if whole.isEmpty && fraction.isEmpty then none
  else match rest with
    | [] => some (ofNumeral negative whole fraction 0)
    | c :: rest =>
      if c = 'e' || c = 'E' then (readPower? rest).map (ofNumeral negative whole fraction)
      else none

/-- Reads what `Double.text` writes. -/
def read? (text : String) : Option Double :=
  let (negative, cs) := match text.toList with
    | '-' :: rest => (true, rest)
    | rest => (false, rest)
  if cs = "inf".toList then some (.infinite negative)
  else if cs = "nan".toList then some .nan
  else readNumeral? negative cs

end Double

end LuauCompiler
