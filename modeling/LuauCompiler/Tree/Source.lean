import LuauCompiler.Tree.Basic
import LuauCompiler.Tree.Source.Page
import LuauCompiler.Tree.TextLiteral

/-! A tree is written back in the source language. A node stands in parentheses when its place asks for
a tighter binding than its own. The statements that may carry a type comment need the number of their
line, which a node does not have: assignments, function definitions, `for` and `with` fail once their
head is written. -/

namespace LuauCompiler.Source

open Writer

/-- Writes a node for a place of the given level. Inside an interpolated expression texts are
written with as few backslashes as possible. -/
abbrev Printer := (inside : Bool) → Level → Writer

def atLevel (inside : Bool) (level : Level) (ps : List Printer) : List Writer :=
  ps.map fun p => p inside level

def plain (inside : Bool) (ps : List Printer) : List Writer := atLevel inside .test ps

/-! ## Constants and texts -/

def valueText (inside : Bool) (c : Constant) : Except Failure String :=
  match c with
  | .str s => .ok (if inside then TextLiteral.write s else Text.quote s)
  | .float _ | .complex .. => c.literal.map fun t =>
    Text.replaceAll "nan" "(1e309-1e309)" (Text.replaceAll "inf" "1e309" t)
  | c => c.literal

def writeValue (inside : Bool) (c : Constant) : Writer := fun page => do
  write (← valueText inside c) page

def kindMark (kind : Option String) : Writer := if kind = some "u" then write "u" else nothing

def constant (inside : Bool) (kind : Option String) (c : Constant) : Writer :=
  match c with
  | .ellipsis => write "..."
  | c => inOrder [kindMark kind, writeValue inside c]

def docstring (kind : Option String) (text : String) : Writer :=
  inOrder [line "", kindMark kind, write (TextLiteral.writeBetween TextLiteral.tripleMarks text)]

def documented (inside : Bool) (body : List Node) (ps : List Printer) : Writer :=
  match body with
  | .exprStmt (.constant (.str text) kind) :: _ =>
    inOrder (docstring kind text :: plain inside (ps.drop 1))
  | _ => inOrder (plain inside ps)

/-- The character that names a conversion; `-1` stands for none. -/
def conversionText : Option Int → Except Failure String
  | none => .error .wrongKind
  | some (-1) => .ok ""
  | some n =>
    if n < 0 || 0x10ffff < n then .error .badValue
    else .ok ("!" ++ String.singleton (Char.ofNat n.toNat))

/-- An interpolated expression in braces. It must not hold a backslash. -/
def interpolation (value : Printer) (conversion : Option Int)
    (spec : Option (Except Failure String)) : Except Failure String := do
  let text ← Writer.text (value true .or)
  if Text.hasChar text '\\' then .error .badValue
  let gap := if text.toList.head? == some '\x7b' then " " else ""
  let conversion ← conversionText conversion
  let spec ← match spec with
    | some s => do pure (":" ++ (← s))
    | none => pure ""
  return "\x7b" ++ gap ++ text ++ conversion ++ spec ++ "\x7d"

/-- Literal text between interpolations: braces are doubled. -/
def doubleBraces (text : String) : String :=
  let doubled (c : Char) := Text.replaceChar c [c, c]
  String.ofList (doubled '\x7d' (doubled '\x7b' text.toList))

def interpolated (inside : Bool) (values : List Node) (texts : List String) : String :=
  if inside then "f" ++ TextLiteral.write (String.join texts)
  else
    let parts := List.zipWith (fun n t => (t.toList, n.constant?.isSome)) values texts
    "f" ++ String.ofList (TextLiteral.writeParts parts)

/-! ## Parts that may be vacant -/

def ifPresent (n : Node) (ws : List Writer) : Writer :=
  if n.isAbsent then nothing else inOrder ws

def present (n : Node) (p : Printer) : Option Printer :=
  if n.isAbsent then none else some p

def named (word : String) : Option String → Writer
  | none => nothing
  | some name => if name.isEmpty then nothing else inOrder [write word, write name]

/-- Each node of a kind without a form of its own is written anew, so that the last one stays. -/
def lastOf (inside : Bool) (ns : List Node) (ps : List Printer) : Writer :=
  inOrder (List.zipWith (fun n p => ifPresent n [anew (p inside .test)]) ns ps)

/-! ## Forms -/

/-- Elements of a tuple: a single one is followed by a comma. -/
def elements (inside : Bool) (ps : List Printer) : Writer :=
  match plain inside ps with
  | [single] => inOrder [single, ","]
  | ws => commaSeparated ws

/-- Operands of a Boolean chain, each at a tighter level than the one before. -/
def rising (inside : Bool) : Level → List Printer → List Writer
  | _, [] => []
  | level, p :: rest => p inside level.next :: rising inside level.next rest

def links (inside : Bool) (ops : List Node) (ps : List Printer) : Writer :=
  inOrder ((ops.zip ps).map fun (op, p) =>
    match op.compareOp? with
    | none => fail .unknownKey
    | some op => inOrder [write (" " ++ compareSign op ++ " "), p inside Level.compare.next])

/-- An entry of a dictionary; without a key it is unpacked. -/
def entry (inside : Bool) (key : Option Printer) (value : Printer) : Writer :=
  match key with
  | none => inOrder ["**", value inside .bitOr]
  | some key => inOrder [key inside .test, ": ", value inside .test]

def comprehension (inside : Bool) (start stop : String) (head : Writer) (clauses : List Printer) :
    Writer :=
  between start stop (inOrder (head :: plain inside clauses))

def wordWith (inside : Bool) (word : String) (n : Node) (p : Printer) : Writer :=
  inOrder [write word, ifPresent n [" ", p inside .atom]]

def parameter (inside : Bool) (p : Printer) (default? : Option Printer) : Writer :=
  match default? with
  | none => p inside .test
  | some d => inOrder [p inside .test, "=", d inside .test]

/-- A parameter list. Defaults belong to the last parameters before the star; the parameters before
the slash are positional only. -/
def parameters (inside : Bool) (posOnly regular : List Printer) (rest : Option Writer)
    (kwOnly : List Printer) (kwDefaults : List (Option Printer)) (kwRest : Option Writer)
    (defaults : List (Option Printer)) : Writer :=
  let all := posOnly ++ regular
  let padded := List.replicate (all.length - defaults.length) none ++ defaults
  let positional := (all.zip padded).mapIdx fun i (p, d) =>
    inOrder [parameter inside p d, if i + 1 = posOnly.length then write ", /" else nothing]
  let star := match rest with
    | some w => [inOrder ["*", w]]
    | none => if kwOnly.isEmpty then [] else ["*"]
  let named := (kwOnly.zip kwDefaults).map fun (p, d) => parameter inside p d
  commaSeparated (positional ++ star ++ named ++ kwRest.toList)

/-- A lambda expression; without parameters no blank follows the keyword. -/
def lambda (params body : Writer) : Writer := fun page => do
  let page ← write "lambda" page
  let (slip, page) ← onSlip params page
  let page ← if slip.isEmpty then .ok page else pieces (some " " :: slip) page
  inOrder [": ", body] page

def hinted (name : Option String) (hint : Node) (w : Writer) : Writer :=
  inOrder [piece name, ifPresent hint [": ", w]]

/-- Pairs of which neither side may run out before the other. -/
def pairs (lefts rights : List Writer) (middle : String) : Writer :=
  let written := commaSeparated
    (List.zipWith (fun l r => inOrder [l, write middle, r]) lefts rights)
  if lefts.length = rights.length then written else inOrder [written, fail .badValue]

/-- The patterns of a class pattern; named ones come last. -/
def classPatterns (patterns : List Writer) (names : List String) (namedPatterns : List Writer) :
    Writer :=
  let positional := commaSeparated patterns
  if names.isEmpty then positional
  else
    inOrder [positional, if patterns.isEmpty then nothing else write ", ",
      pairs (names.map write) namedPatterns "="]

def branch (inside : Bool) (word : String) (test : Printer) (body : List Printer)
    (otherwise : Writer) : Writer :=
  inOrder [line word, test inside .test, block (plain inside body), otherwise]

/-- What follows when a test fails: another test, or a body. -/
def otherwise (inside : Bool) (orElse : List Printer) (elif : Option (Bool → Writer)) : Writer :=
  match elif with
  | some w => w inside
  | none => blockUnder "else" (plain inside orElse)

def decorated (inside : Bool) (decorators : List Printer) : Writer :=
  inOrder (endLine :: (plain inside decorators).flatMap fun w => [line "@", w])

/-- The line that a definition starts with. It must have a name. -/
def heading (word : String) : Option String → Writer
  | none => fail .wrongKind
  | some name => line (word ++ " " ++ name)

/-- The type comment at the end of a head, which cannot be told. -/
def typeComment : Writer := fail .missingPart

/-- The target of an annotated assignment, in parentheses if it is a name that is not simple. -/
def hintedTarget (n : Node) (simple : Option Int) (w : Writer) : Writer :=
  if simple.getD 0 = 0 && n.isName then between "(" ")" w else w

def handlerWord : Writer := fun page =>
  line (if page.grouped then "except*" else "except") page

def isWholeNumber : Node → Bool
  | .constant (.int _) _ | .constant (.bool _) _ => true
  | _ => false

mutual

def print : Node → Printer
  | .absent => fun _ _ => fail .missingPart
  | .module body typeIgnores => fun inside _ =>
    if typeIgnores.isEmpty then documented inside body (printers body) else fail .missingPart
  | .interactive body => fun inside _ => lastOf inside body (printers body)
  | .expression body => fun inside _ => lastOf inside [body] [print body]
  | .functionDef isAsync name params _ decorators returns _ => fun inside _ =>
    inOrder [decorated inside (printers decorators),
      heading (if isAsync then "async def" else "def") name,
      between "(" ")" (print params inside .test),
      ifPresent returns [" -> ", print returns inside .test], typeComment]
  | .classDef name bases keywords body decorators => fun inside _ =>
    let arguments := plain inside (printers bases ++ printers keywords)
    inOrder [decorated inside (printers decorators), heading "class" name,
      if arguments.isEmpty then nothing else between "(" ")" (commaSeparated arguments),
      block [documented inside body (printers body)]]
  | .returnStmt value => fun inside _ =>
    inOrder [line "return", ifPresent value [" ", print value inside .test]]
  | .delete targets => fun inside _ =>
    inOrder [line "del ", commaSeparated (plain inside (printers targets))]
  | .assign targets value _ => fun inside _ =>
    inOrder [line "",
      inOrder ((atLevel inside .tuple (printers targets)).flatMap fun w => [w, " = "]),
      print value inside .test, typeComment]
  | .augAssign target op value => fun inside _ =>
    let sign := match op.binaryOp? with
      | none => fail .unknownKey
      | some op => write (" " ++ binarySign op ++ "= ")
    inOrder [line "", print target inside .test, sign, print value inside .test]
  | .annAssign target hint value simple => fun inside _ =>
    inOrder [line "", hintedTarget target simple (print target inside .test), ": ",
      print hint inside .test, ifPresent value [" = ", print value inside .test]]
  | .forStmt isAsync target iter _ _ _ => fun inside _ =>
    inOrder [line (if isAsync then "async for " else "for "), print target inside .tuple,
      " in ", print iter inside .test, typeComment]
  | .whileStmt test body orElse => fun inside _ =>
    branch inside "while " (print test) (printers body) (otherwise inside (printers orElse) none)
  | .ifStmt test body orElse => fun inside _ =>
    branch inside "if " (print test) (printers body)
      (otherwise inside (printers orElse) (elif? orElse))
  | .withStmt isAsync items _ _ => fun inside _ =>
    inOrder [line (if isAsync then "async with " else "with "),
      commaSeparated (plain inside (printers items)), typeComment]
  | .matchStmt subject cases => fun inside _ =>
    inOrder [line "match ", print subject inside .test,
      block (plain inside (printers cases))]
  | .raise exc cause => fun inside _ =>
    if exc.isAbsent then inOrder [line "raise", ifPresent cause [fail .badValue]]
    else
      inOrder [line "raise", " ", print exc inside .test,
        ifPresent cause [" from ", print cause inside .test]]
  | .tryStmt isStar body handlers orElse finalBody => fun inside _ =>
    withGrouped isStar (inOrder [line "try", block (plain inside (printers body)),
      inOrder (plain inside (printers handlers)),
      blockUnder "else" (plain inside (printers orElse)),
      blockUnder "finally" (plain inside (printers finalBody))])
  | .assert test msg => fun inside _ =>
    inOrder [line "assert ", print test inside .test,
      ifPresent msg [", ", print msg inside .test]]
  | .importStmt names => fun inside _ =>
    inOrder [line "import ", commaSeparated (plain inside (printers names))]
  | .importFrom module names level => fun inside _ =>
    let dots := String.ofList (List.replicate (level.getD 0).toNat '.')
    inOrder [line "from ", write (dots ++ module.getD ""), " import ",
      commaSeparated (plain inside (printers names))]
  | .global names => fun _ _ => inOrder [line "global ", commaSeparated (names.map write)]
  | .nonlocal names => fun _ _ => inOrder [line "nonlocal ", commaSeparated (names.map write)]
  | .exprStmt value => fun inside _ => inOrder [line "", print value inside .yield]
  | .pass => fun _ _ => line "pass"
  | .breakStmt => fun _ _ => line "break"
  | .continueStmt => fun _ _ => line "continue"
  | .boolOp op values => fun inside place =>
    match op.boolOp? with
    | none => fail .unknownKey
    | some op =>
      enclosed (boolLevel op) place (separated (" " ++ boolWord op ++ " ")
        (rising inside (boolLevel op) (printers values)))
  | .namedExpr target value => fun inside place =>
    enclosed .namedExpr place (inOrder [print target inside .atom, " := ",
      print value inside .atom])
  | .binOp left op right => fun inside place =>
    match op.binaryOp? with
    | none => fail .unknownKey
    | some op =>
      let own := binaryLevel op
      let (l, r) := if op = .pow then (own.next, own) else (own, own.next)
      enclosed own place (inOrder [print left inside l, write (" " ++ binarySign op ++ " "),
        print right inside r])
  | .unaryOp op operand => fun inside place =>
    match op.unaryOp? with
    | none => fail .unknownKey
    | some op =>
      let own := unaryLevel op
      enclosed own place (inOrder [write (unarySign op), print operand inside own])
  | .lambda params body => fun inside place =>
    enclosed .test place
      (lambda (print params inside .test) (print body inside .test))
  | .ifExp test body orElse => fun inside place =>
    enclosed .test place (inOrder [print body inside .or, " if ",
      print test inside .or, " else ", print orElse inside .test])
  | .dict keys values => fun inside _ =>
    let keys := List.zipWith present keys (printers keys)
    between "\x7b" "\x7d" (commaSeparated (List.zipWith (entry inside) keys (printers values)))
  | .set elts => fun inside _ =>
    if elts.isEmpty then write "\x7b*()\x7d"
    else between "\x7b" "\x7d" (commaSeparated (plain inside (printers elts)))
  | .listComp elt clauses => fun inside _ =>
    comprehension inside "[" "]" (print elt inside .test) (printers clauses)
  | .setComp elt clauses => fun inside _ =>
    comprehension inside "\x7b" "\x7d" (print elt inside .test) (printers clauses)
  | .generatorExp elt clauses => fun inside _ =>
    comprehension inside "(" ")" (print elt inside .test) (printers clauses)
  | .dictComp key value clauses => fun inside _ =>
    comprehension inside "\x7b" "\x7d" (entry inside (some (print key)) (print value))
      (printers clauses)
  | .await value => fun inside place =>
    enclosed .await place (wordWith inside "await" value (print value))
  | .yield value => fun inside place =>
    enclosed .yield place (wordWith inside "yield" value (print value))
  | .yieldFrom value => fun inside place =>
    if value.isAbsent then fail .badValue
    else enclosed .yield place (wordWith inside "yield from" value (print value))
  | .compare left ops comparators => fun inside place =>
    enclosed .compare place (inOrder [print left inside Level.compare.next,
      links inside ops (printers comparators)])
  | .call func args keywords => fun inside _ =>
    inOrder [print func inside .atom,
      between "(" ")" (commaSeparated (plain inside (printers args ++ printers keywords)))]
  | .formattedValue value conversion formatSpec => fun _ _ page => do
    write (← interpolation (print value) conversion
      (if formatSpec.isAbsent then none else some (fragment formatSpec))) page
  | .joinedStr values => fun inside _ page => do
    write (interpolated inside values (← (fragments values).mapM id)) page
  | .constant value kind => fun inside _ => constant inside kind value
  | .attribute value attr _ => fun inside _ =>
    inOrder [print value inside .atom, if isWholeNumber value then write " " else nothing,
      ".", piece attr]
  | .subscript value slice _ => fun inside _ =>
    let index := match tupleElements slice with
      | [] => print slice inside .test
      | elts => elements inside elts
    inOrder [print value inside .atom, between "[" "]" index]
  | .starred value _ => fun inside _ => inOrder ["*", print value inside .bitOr]
  | .name id _ => fun _ _ => piece id
  | .list elts _ => fun inside _ =>
    between "[" "]" (commaSeparated (plain inside (printers elts)))
  | .tuple elts _ => fun inside place =>
    let written := elements inside (printers elts)
    if elts.isEmpty then between "(" ")" written else enclosed .tuple place written
  | .slice lower upper step => fun inside _ =>
    inOrder [ifPresent lower [print lower inside .test], ":",
      ifPresent upper [print upper inside .test],
      ifPresent step [":", print step inside .test]]
  | .clause target iter filters isAsync => fun inside _ =>
    inOrder [write (if isAsync.getD 0 = 0 then " for " else " async for "),
      print target inside .tuple, " in ", print iter inside .or,
      inOrder ((atLevel inside .or (printers filters)).flatMap fun w => [" if ", w])]
  | .handler type name body => fun inside _ =>
    inOrder [handlerWord, ifPresent type [" ", print type inside .test],
      named " as " name, block (plain inside (printers body))]
  | .params posOnly regular rest kwOnly kwDefaults kwRest defaults => fun inside _ =>
    parameters inside (printers posOnly) (printers regular)
      (if rest.isAbsent then none else some (restParameter rest inside)) (printers kwOnly)
      (List.zipWith present kwDefaults (printers kwDefaults))
      (if kwRest.isAbsent then none else some (namedRestParameter kwRest inside))
      (List.zipWith present defaults (printers defaults))
  | .param name hint _ => fun inside _ => hinted name hint (print hint inside .test)
  | .keyword name value => fun inside _ =>
    let label := match name with
      | none => write "**"
      | some name => write (name ++ "=")
    inOrder [label, print value inside .test]
  | .alias name asName => fun _ _ => inOrder [piece name, named " as " asName]
  | .withItem context vars => fun inside _ =>
    inOrder [print context inside .test,
      ifPresent vars [" as ", print vars inside .test]]
  | .matchCase pattern guard body => fun inside _ =>
    inOrder [line "case ", print pattern inside .test,
      ifPresent guard [" if ", print guard inside .test],
      block (plain inside (printers body))]
  | .matchValue value => fun inside _ => print value inside .test
  | .matchSingleton value => fun inside _ => writeValue inside value
  | .matchSequence patterns => fun inside _ =>
    between "[" "]" (commaSeparated (plain inside (printers patterns)))
  | .matchMapping keys patterns rest => fun inside _ =>
    let remaining := match rest with
      | none => nothing
      | some name => write ((if keys.isEmpty then "" else ", ") ++ "**" ++ name)
    between "\x7b" "\x7d" (inOrder
      [pairs (plain inside (printers keys)) (plain inside (printers patterns)) ": ", remaining])
  | .matchClass cls patterns names namedPatterns => fun inside _ =>
    inOrder [print cls inside .atom,
      between "(" ")" (classPatterns (plain inside (printers patterns)) names
        (plain inside (printers namedPatterns)))]
  | .matchStar name => fun _ _ => write ("*" ++ name.getD "_")
  | .matchAs pattern name => fun inside place =>
    match name with
    | none => write "_"
    | some name =>
      if pattern.isAbsent then write name
      else
        enclosed .test place
          (inOrder [print pattern inside .bitOr, write (" as " ++ name)])
  | .matchOr patterns => fun inside place =>
    enclosed .bitOr place
      (separated " | " (atLevel inside Level.bitOr.next (printers patterns)))
  | .typeAlias name typeParams value => fun inside _ =>
    lastOf inside ([name] ++ typeParams ++ [value])
      ([print name] ++ printers typeParams ++ [print value])
  | .index value => fun inside _ => lastOf inside [value] [print value]
  | .caseBody body => fun inside _ => lastOf inside body (printers body)
  | .patternOf pattern => fun inside _ => lastOf inside [pattern] [print pattern]
  | .patternKeyword pattern => fun inside _ => lastOf inside [pattern] [print pattern]
  | .mark _ => fun _ _ => nothing

def printers : List Node → List Printer
  | [] => []
  | n :: rest => print n :: printers rest

/-- A test that goes on where another one failed: the only statement of the else part. -/
def elif? : List Node → Option (Bool → Writer)
  | [n] => elifOf n
  | _ => none

def elifOf : Node → Option (Bool → Writer)
  | .ifStmt test body orElse => some fun inside =>
    branch inside "elif " (print test) (printers body)
      (otherwise inside (printers orElse) (elif? orElse))
  | _ => none

def restParameter : Node → Bool → Writer
  | .param name hint _ => fun inside => hinted name hint (print hint inside .test)
  | _ => fun _ => fail .missingPart

/-- The parameter that takes the remaining keyword arguments. It must have a name. -/
def namedRestParameter : Node → Bool → Writer
  | .param none _ _ | .keyword none _ => fun _ => fail .wrongKind
  | .param (some name) hint _ => fun inside =>
    hinted (some ("**" ++ name)) hint (print hint inside .test)
  | _ => fun _ => fail .missingPart

/-- The elements of a tuple, which has no parentheses as an index. -/
def tupleElements : Node → List Printer
  | .tuple elts _ => printers elts
  | _ => []

/-- What a node contributes to the inside of an interpolated text. -/
def fragment : Node → Except Failure String
  | .joinedStr values => do return String.join (← (fragments values).mapM id)
  | .constant (.str s) _ => .ok (doubleBraces s)
  | .formattedValue value conversion formatSpec =>
    interpolation (print value) conversion
      (if formatSpec.isAbsent then none else some (fragment formatSpec))
  | _ => .error .badValue

def fragments : List Node → List (Except Failure String)
  | [] => []
  | n :: rest => fragment n :: fragments rest

end

def ofNode (n : Node) : Except Failure String := Writer.text (print n false .test)

end LuauCompiler.Source
