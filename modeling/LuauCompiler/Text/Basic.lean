/-! Searching, cutting and joining. Everything that inspects a text works on its list of characters. -/

namespace LuauCompiler.Text

def occursIn (part : List Char) : List Char → Bool
  | [] => part.isEmpty
  | c :: rest => part.isPrefixOf (c :: rest) || occursIn part rest

def holds (text part : String) : Bool :=
  occursIn part.toList text.toList

def hasChar (text : String) (c : Char) : Bool :=
  text.toList.contains c

/-- The text starts with `first` and ends with `last`; one character may be both. -/
def enclosedBy (first last : Char) (text : String) : Bool :=
  text.toList.head? == some first && text.toList.getLast? == some last

def strip (c : Char) (text : String) : String :=
  let inner := text.toList.dropWhile (· == c)
  String.ofList (inner.reverse.dropWhile (· == c)).reverse

def commaSeparated (parts : List String) : String :=
  String.intercalate ", " parts

/-- The pieces between the given separators, at least one. -/
def pieces (separator : Char) (text : String) : List String :=
  (text.toList.splitOn separator).map String.ofList

/-- Line ends of every convention become a single line feed. -/
def unifyLineEnds : List Char → List Char
  | '\r' :: '\n' :: rest => '\n' :: unifyLineEnds rest
  | '\r' :: rest => '\n' :: unifyLineEnds rest
  | c :: rest => c :: unifyLineEnds rest
  | [] => []

def replaceChar (c : Char) (substitute : List Char) (text : List Char) : List Char :=
  text.flatMap fun d => if d == c then substitute else [d]

/-- Every occurrence of `old`, read from the left, is replaced. `skip` counts the characters of an
occurrence that are still to be passed over. -/
def replaceFrom (old new : List Char) : (skip : Nat) → List Char → List Char
  | _, [] => []
  | skip + 1, _ :: rest => replaceFrom old new skip rest
  | 0, c :: rest =>
    if old.isPrefixOf (c :: rest) then new ++ replaceFrom old new (old.length - 1) rest
    else c :: replaceFrom old new 0 rest

def replaceAll (old new text : String) : String :=
  String.ofList (replaceFrom old.toList new.toList 0 text.toList)

end LuauCompiler.Text
