import LuauCompiler.Failure
import LuauCompiler.Json.Basic

/-! Reads JSON by the standard grammar, with `NaN`, `Infinity` and `-Infinity` as further numbers. A
repeated key keeps its first place and its last value. An integer of more than 4300 digits is refused
with a cause of its own. -/

namespace LuauCompiler.Json

def isBlank (c : Char) : Bool :=
  c = ' ' || c = '\t' || c = '\n' || c = '\r'

def skipBlank (cs : List Char) : List Char :=
  cs.dropWhile isBlank

def hexValue? (c : Char) : Option Nat :=
  if c.isDigit then some (c.toNat - 48)
  else if 'a' ≤ c && c ≤ 'f' then some (c.toNat - 87)
  else if 'A' ≤ c && c ≤ 'F' then some (c.toNat - 55)
  else none

def hexValues? (cs : List Char) : Option Nat :=
  cs.foldlM (fun n c => (hexValue? c).map (16 * n + ·)) 0

def letterEscape? : Char → Option Char
  | '"' => some '"'
  | '\\' => some '\\'
  | '/' => some '/'
  | 'b' => some '\x08'
  | 'f' => some '\x0c'
  | 'n' => some '\n'
  | 'r' => some '\r'
  | 't' => some '\t'
  | _ => none

/-- The code units of a string up to its closing quote, and what follows. -/
def readUnits : List Nat → List Char → Option (List Nat × List Char)
  | seen, '"' :: rest => some (seen.reverse, rest)
  | seen, '\\' :: 'u' :: a :: b :: c :: d :: rest =>
    match hexValues? [a, b, c, d] with
    | some n => readUnits (n :: seen) rest
    | none => none
  | seen, '\\' :: c :: rest =>
    match letterEscape? c with
    | some e => readUnits (e.toNat :: seen) rest
    | none => none
  | seen, c :: rest => if c.toNat < 0x20 then none else readUnits (c.toNat :: seen) rest
  | _, [] => none

def isHighSurrogate (n : Nat) : Bool := 0xd800 ≤ n && n ≤ 0xdbff

def isLowSurrogate (n : Nat) : Bool := 0xdc00 ≤ n && n ≤ 0xdfff

/-- The character of a code unit. Half of a pair stands for nothing by itself and becomes the
replacement character. -/
def unitChar (n : Nat) : Char :=
  if isHighSurrogate n || isLowSurrogate n then '�' else Char.ofNat n

def joinUnits : List Nat → List Char
  | h :: l :: rest =>
    if isHighSurrogate h && isLowSurrogate l then
      Char.ofNat (0x10000 + (h - 0xd800) * 0x400 + (l - 0xdc00)) :: joinUnits rest
    else unitChar h :: joinUnits (l :: rest)
  | [n] => [unitChar n]
  | [] => []

def readText (cs : List Char) : Except Failure (String × List Char) :=
  match readUnits [] cs with
  | some (units, rest) => .ok (String.ofList (joinUnits units), rest)
  | none => .error .malformedJson

/-- The greatest number of digits that an integer is read from or written with. -/
def digitLimit : Nat := 4300

def readFraction (cs : List Char) : List Char × List Char :=
  match cs with
  | '.' :: rest =>
    match rest.takeWhile Char.isDigit with
    | [] => ([], cs)
    | digits => (digits, rest.dropWhile Char.isDigit)
  | _ => ([], cs)

def readExponent (cs : List Char) : Option Int × List Char :=
  match cs with
  | [] => (none, cs)
  | e :: rest =>
    if e = 'e' || e = 'E' then
      let (negative, rest) := match rest with
        | '-' :: rest => (true, rest)
        | '+' :: rest => (false, rest)
        | rest => (false, rest)
      match rest.takeWhile Char.isDigit with
      | [] => (none, cs)
      | digits =>
        let n : Int := Double.digitsValue digits
        (some (if negative then -n else n), rest.dropWhile Char.isDigit)
    else (none, cs)

/-- A number without its sign. A numeral has no leading zero. -/
def readNumber (negative : Bool) (cs : List Char) : Except Failure (Json × List Char) :=
  let (whole, rest) := match cs with
    | '0' :: rest => (['0'], rest)
    | cs => (cs.takeWhile Char.isDigit, cs.dropWhile Char.isDigit)
  if whole.isEmpty then .error .malformedJson
  else
    let (fraction, rest) := readFraction rest
    let (power, rest) := readExponent rest
    if fraction.isEmpty && power.isNone then
      if digitLimit < whole.length then .error .badValue
      else
        let n : Int := Double.digitsValue whole
        .ok (.int (if negative then -n else n), rest)
    else .ok (.real (Double.ofNumeral negative whole fraction (power.getD 0)), rest)

/-- A value that starts with a letter, a digit or a minus sign. -/
def readAtom (cs : List Char) : Except Failure (Json × List Char) :=
  let word (w : String) (value : Json) : Option (Json × List Char) :=
    if w.toList.isPrefixOf cs then some (value, cs.drop w.length) else none
  let words := [word "null" .null, word "true" (.bool true), word "false" (.bool false),
    word "NaN" (.real .nan), word "Infinity" (.real (.infinite false)),
    word "-Infinity" (.real (.infinite true))]
  match words.findSome? id with
  | some found => .ok found
  | none =>
    match cs with
    | '-' :: rest => readNumber true rest
    | cs => readNumber false cs

mutual

/-- A value in front of the characters, and what follows. Each step reads a character, so fuel for
one more than the characters suffices. -/
def readValue : Nat → List Char → Except Failure (Json × List Char)
  | 0, _ => .error .malformedJson
  | fuel + 1, cs =>
    match cs with
    | [] => .error .malformedJson
    | '"' :: rest => (readText rest).map fun (s, rest) => (.str s, rest)
    | '[' :: rest =>
      match skipBlank rest with
      | ']' :: rest => .ok (.arr [], rest)
      | rest => readItems fuel [] rest
    | c :: rest =>
      if c = '\x7b' then
        match skipBlank rest with
        | [] => .error .malformedJson
        | d :: rest => if d = '\x7d' then .ok (.obj [], rest) else readFields fuel [] (d :: rest)
      else readAtom cs

def readItems : Nat → List Json → List Char → Except Failure (Json × List Char)
  | 0, _, _ => .error .malformedJson
  | fuel + 1, seen, cs =>
    match readValue fuel cs with
    | .error e => .error e
    | .ok (item, rest) =>
      match skipBlank rest with
      | ',' :: rest => readItems fuel (item :: seen) (skipBlank rest)
      | ']' :: rest => .ok (.arr (item :: seen).reverse, rest)
      | _ => .error .malformedJson

def readFields : Nat → List (String × Json) → List Char → Except Failure (Json × List Char)
  | 0, _, _ => .error .malformedJson
  | fuel + 1, seen, cs =>
    match cs with
    | '"' :: rest =>
      match readText rest with
      | .error e => .error e
      | .ok (key, rest) =>
        match skipBlank rest with
        | ':' :: rest =>
          match readValue fuel (skipBlank rest) with
          | .error e => .error e
          | .ok (value, rest) =>
            match skipBlank rest with
            | ',' :: rest => readFields fuel (insertField key value seen) (skipBlank rest)
            | c :: rest =>
              if c = '\x7d' then .ok (.obj (insertField key value seen), rest)
              else .error .malformedJson
            | [] => .error .malformedJson
        | _ => .error .malformedJson
    | _ => .error .malformedJson

end

def parse (text : String) : Except Failure Json :=
  let cs := skipBlank text.toList
  match readValue (2 * cs.length + 1) cs with
  | .error e => .error e
  | .ok (value, rest) => if (skipBlank rest).isEmpty then .ok value else .error .malformedJson

end LuauCompiler.Json
