import LuauCompiler.Number.Double

/-! A finite double is written with the fewest digits that read back as the same double, and among those
with the digits nearest to it, a tie going to the even digit. Positional notation serves for decimal
exponents from -4 to 15. -/

namespace LuauCompiler.Double

def ratio (mantissa : Nat) (exponent : Int) : Nat × Nat :=
  scale mantissa 1 (-exponent)

/-- The greatest `k` with `10 ^ k ≤ num / den`, for a positive quotient. -/
def decimalExponent (num den : Nat) : Int :=
  if den ≤ num then ((Nat.toDigits 10 (num / den)).length : Int) - 1
  else -((Nat.toDigits 10 ((den + num - 1) / num - 1)).length : Int)

/-- `num / den / 10 ^ k` as a quotient of naturals. -/
def scaleDecimal (num den : Nat) (k : Int) : Nat × Nat :=
  if 0 ≤ k then (num, den * tenTo k.toNat) else (num * tenTo (-k).toNat, den)

/-- The two neighbours of `num / den` with `count` decimal digits, the nearer one first and of two
equally near ones the even one. -/
def neighbours (num den count : Nat) : List (Nat × Int) :=
  let unit := decimalExponent num den - (count - 1 : Nat)
  let (n, d) := scaleDecimal num den unit
  let below := (n / d, unit)
  let above := if n / d + 1 = tenTo count then (tenTo (count - 1), unit + 1) else (n / d + 1, unit)
  if 2 * (n % d) < d || (2 * (n % d) = d && n / d % 2 = 0) then [below, above]
  else [above, below]

/-- Digits and power of ten of the shortest decimal that reads back. -/
def shortest (mantissa : Nat) (exponent : Int) : Nat × Int :=
  let (num, den) := ratio mantissa exponent
  let readsBack (candidate : Nat × Int) : Bool :=
    ofDecimal false candidate.1 candidate.2 = .finite false mantissa exponent
  let hit := (List.range 17).findSome? fun i => (neighbours num den (i + 1)).find? readsBack
  -- seventeen digits always suffice
  hit.getD (mantissa, exponent)

/-- An exponent has a sign and at least two digits. -/
def powerText (power : Int) : List Char :=
  let digits := Nat.toDigits 10 power.natAbs
  'e' :: (if power < 0 then '-' else '+') ::
    (if digits.length < 2 then '0' :: digits else digits)

/-- The text of `digits * 10 ^ power`. With `point` a whole number keeps one decimal place. -/
def decimalText (point : Bool) (digits : List Char) (power : Int) : List Char :=
  let place : Int := digits.length + power
  if -4 < place && place ≤ 16 then
    if place ≤ 0 then '0' :: '.' :: List.replicate (-place).toNat '0' ++ digits
    else if (digits.length : Int) ≤ place then
      digits ++ List.replicate (place - digits.length).toNat '0' ++
        (if point then ['.', '0'] else [])
    else digits.take place.toNat ++ '.' :: digits.drop place.toNat
  else
    match digits with
    | [] => []
    | [d] => d :: powerText (place - 1)
    | d :: rest => d :: '.' :: rest ++ powerText (place - 1)

def textWith (point : Bool) : Double → String
  | .nan => "nan"
  | .infinite negative => if negative then "-inf" else "inf"
  | .finite negative mantissa exponent =>
    let unsigned :=
      if mantissa = 0 then if point then ['0', '.', '0'] else ['0']
      else
        let (digits, power) := shortest mantissa exponent
        decimalText point (Nat.toDigits 10 digits) power
    String.ofList (if negative then '-' :: unsigned else unsigned)

/-- A whole number is written with one decimal place. -/
def text (x : Double) : String := x.textWith true

def signedText (x : Double) : String :=
  let t := x.textWith false
  if t.toList.head? = some '-' then t else "+" ++ t

/-- The text of a complex number. A real part that is the positive zero is left out. -/
def complexText (re im : Double) : String :=
  if re.isPlainZero then im.textWith false ++ "j"
  else "(" ++ re.textWith false ++ im.signedText ++ "j)"

end LuauCompiler.Double
