import LuauCompiler.Failure
import LuauCompiler.Number.Digit
import LuauCompiler.Text.Template.Value

/-! A template is text with fields in braces; a doubled brace stands for one brace. A field names a
value, may take one of its characters by position or a part of it by name, may quote it, and may pad or
cut it: `name`, `name[2]`, `name.part`, `name!r`, `name:>8.3`. The padding rule may itself hold fields,
one level deep. Positions into an argument list can be written too, but the list is always empty here. -/

namespace LuauCompiler.Text.Template

def openBrace : Char := '\x7b'

def closeBrace : Char := '\x7d'

/-- A field as written, cut at the marks that separate its parts. -/
structure Field where
  name : List Char
  /-- The letter after the exclamation mark. -/
  conversion : Option Char
  /-- What follows the colon, empty if there is none. -/
  layout : List Char
  deriving DecidableEq, Repr

/-- The name of a field up to the mark that ends it, that mark, and what follows. Inside square
brackets no mark counts. `none` if an opening brace comes first. -/
def scanName : Bool → List Char → List Char → Option (List Char × Option Char × List Char)
  | _, seen, [] => some (seen.reverse, none, [])
  | true, seen, c :: rest => scanName (c != ']') (c :: seen) rest
  | false, seen, c :: rest =>
    if c = openBrace then none
    else if c = closeBrace || c = ':' || c = '!' then some (seen.reverse, some c, rest)
    else scanName (c = '[') (c :: seen) rest

/-- The padding rule up to the closing brace that matches, and what follows. -/
def scanLayout : Nat → List Char → List Char → Option (List Char × List Char)
  | _, _, [] => none
  | depth, seen, c :: rest =>
    if c = openBrace then scanLayout (depth + 1) (c :: seen) rest
    else if c = closeBrace then
      match depth with
      | 0 => some (seen.reverse, rest)
      | d + 1 => scanLayout d (c :: seen) rest
    else scanLayout depth (c :: seen) rest

/-- The field after an opening brace, and what follows its closing brace. -/
def scanField (cs : List Char) : Except Failure (Field × List Char) :=
  match scanName false [] cs with
  | none | some (_, none, _) => .error .badValue
  | some (name, some mark, rest) =>
    if mark = closeBrace then .ok (⟨name, none, []⟩, rest)
    else if mark = ':' then
      match scanLayout 0 [] rest with
      | none => .error .badValue
      | some (layout, rest) => .ok (⟨name, none, layout⟩, rest)
    else
      match rest with
      | [] => .error .badValue
      | conversion :: ':' :: rest =>
        match scanLayout 0 [] rest with
        | none => .error .badValue
        | some (layout, rest) => .ok (⟨name, some conversion, layout⟩, rest)
      | conversion :: c :: rest =>
        if c = closeBrace then .ok (⟨name, some conversion, []⟩, rest) else .error .badValue
      | [_] => .error .badValue

/-- Positions, widths and precisions go up to here. -/
def largestNumber : Nat := 9223372036854775807

/-- The number that a row of digits denotes; `none` stands for a row that is something else. Digits
are counted from the left, so a row that starts with too many of them is refused whatever follows
them. -/
def number? (cs : List Char) : Except Failure (Option Nat) :=
  let number := Digit.number (cs.takeWhile Digit.isDigit |>.filterMap Digit.value?)
  if largestNumber < number then .error .badValue
  else if cs.isEmpty || !cs.all Digit.isDigit then .ok none
  else .ok (some number)

/-- What the part of a field name behind the first name selects. -/
inductive Accessor where
  | member (name : List Char)
  | index (key : List Char)
  deriving DecidableEq, Repr

def select (value : Value) : Accessor → Except Failure Value
  | .member name => value.member (String.ofList name)
  | .index key =>
    match number? key with
    | .error e => .error e
    | .ok position => value.item position

/-- Reads and applies the accessors behind a name one after another; the second argument is the one
being read. -/
def selectFrom : Value → Option Accessor → List Char → Except Failure Value
  | value, none, [] => .ok value
  | value, none, '.' :: rest => selectFrom value (some (.member [])) rest
  | value, none, '[' :: rest => selectFrom value (some (.index [])) rest
  | _, none, _ :: _ => .error .badValue
  | value, some (.member name), [] =>
    if name.isEmpty then .error .badValue else select value (.member name)
  | value, some (.member name), c :: rest =>
    if c = '.' || c = '[' then
      if name.isEmpty then .error .badValue
      else match select value (.member name) with
        | .error e => .error e
        | .ok value =>
          selectFrom value (some (if c = '.' then .member [] else .index [])) rest
    else selectFrom value (some (.member (name ++ [c]))) rest
  | _, some (.index _), [] => .error .badValue
  | value, some (.index key), c :: rest =>
    if c = ']' then
      if key.isEmpty then .error .badValue
      else match select value (.index key) with
        | .error e => .error e
        | .ok value => selectFrom value none rest
    else selectFrom value (some (.index (key ++ [c]))) rest

def resolve (values : List (String × String)) (name : List Char) : Except Failure Value :=
  let first := name.takeWhile fun c => c != '.' && c != '['
  -- a missing name and a number are positions in the argument list, which is empty
  match number? first with
  | .error e => .error e
  | .ok (some _) => .error .outOfRange
  | .ok none =>
    if first.isEmpty then .error .outOfRange
    else match values.lookup (String.ofList first) with
      | none => .error .unknownKey
      | some value => selectFrom (.ofString value) none (name.drop first.length)

structure Padding where
  fill : Char
  align : Char
  width : Nat
  precision : Option Nat
  deriving DecidableEq, Repr

def isAlignment (c : Char) : Bool :=
  c = '<' || c = '>' || c = '=' || c = '^'

/-- Fill and alignment at the start of a padding rule, and what follows. -/
def scanAlignment : List Char → Option Char × Option Char × List Char
  | fill :: align :: rest =>
    if isAlignment align then (some fill, some align, rest)
    else if isAlignment fill then (none, some fill, align :: rest)
    else (none, none, fill :: align :: rest)
  | [align] => if isAlignment align then (none, some align, []) else (none, none, [align])
  | [] => (none, none, [])

/-- The padding rule of a text: fill, alignment, width, precision and the letter `s`, each of which
may be missing. Whatever only numbers take is refused. -/
def scanPadding (rule : List Char) : Except Failure Padding :=
  let (fill, align, rest) := scanAlignment rule
  let (fill, rest) :=
    match fill, rest with
    | none, '0' :: rest => ('0', rest)
    | fill, rest => (fill.getD ' ', rest)
  let finish (width precision : Option Nat) (rest : List Char) : Except Failure Padding :=
    if (rest = [] || rest = ['s']) && align != some '=' then
      .ok ⟨fill, align.getD '<', width.getD 0, precision⟩
    else .error .badValue
  match number? (rest.takeWhile Digit.isDigit) with
  | .error e => .error e
  | .ok width =>
    match rest.dropWhile Digit.isDigit with
    | '.' :: rest =>
      match number? (rest.takeWhile Digit.isDigit) with
      | .error e => .error e
      | .ok none => .error .badValue
      | .ok precision => finish width precision (rest.dropWhile Digit.isDigit)
    | rest => finish width none rest

def Padding.apply (p : Padding) (value : List Char) : List Char :=
  let value := match p.precision with
    | none => value
    | some n => value.take n
  let room := p.width - value.length
  let left := if p.align = '>' then room else if p.align = '^' then room / 2 else 0
  List.replicate left p.fill ++ value ++ List.replicate (room - left) p.fill

def layOut (rule : List Char) (value : Value) : Except Failure (List Char) :=
  if rule.isEmpty then .ok value.written
  else match value with
    | .text characters => (scanPadding rule).map (·.apply characters)
    | _ => .error .wrongKind

/-- Fills the fields of a template. `depth` bounds how deep fields stand inside padding rules;
`fuel` is at least the number of characters still to read. -/
def fillFrom (values : List (String × String)) :
    (depth fuel : Nat) → List Char → Except Failure (List Char)
  | 0, _, _ => .error .badValue
  | _, 0, _ => .ok []
  | _, _, [] => .ok []
  | depth + 1, fuel + 1, c :: rest =>
    if c = openBrace then
      match rest with
      | [] => .error .badValue
      | d :: rest' =>
        if d = openBrace then (fillFrom values (depth + 1) fuel rest').map (c :: ·)
        else do
          let (field, after) ← scanField rest
          let value ← resolve values field.name
          let value ← value.convert field.conversion
          let rule ←
            if field.layout.contains openBrace then
              fillFrom values depth (field.layout.length + 1) field.layout
            else .ok field.layout
          let written ← layOut rule value
          return written ++ (← fillFrom values (depth + 1) fuel after)
    else if c = closeBrace then
      match rest with
      | [] => .error .badValue
      | d :: rest' =>
        if d = closeBrace then (fillFrom values (depth + 1) fuel rest').map (c :: ·)
        else .error .badValue
    else (fillFrom values (depth + 1) fuel rest).map (c :: ·)

def fill (values : List (String × String)) (template : String) : Except Failure String :=
  (fillFrom values 2 (template.length + 1) template.toList).map String.ofList

end LuauCompiler.Text.Template
