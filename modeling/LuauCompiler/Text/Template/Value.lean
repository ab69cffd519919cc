import LuauCompiler.Failure
import LuauCompiler.Text.Quoted

/-! A field starts from a text and may go on to what belongs to it: its kind, the kinds above that, one
of its operations, or the notes on its kind. Only texts can be padded and cut; whatever else a field
arrives at is written by its description. -/

namespace LuauCompiler.Text.Template

inductive Value where
  | text (characters : List Char)
  | kind (name : String)
  | kinds (names : List String)
  | operation (name : String)
  | nothing
  deriving DecidableEq, Repr

namespace Value

def operations : List String :=
  ["__add__", "__contains__", "__delattr__", "__dir__", "__eq__", "__format__", "__ge__",
    "__getattribute__", "__getitem__", "__getnewargs__", "__getstate__", "__gt__", "__hash__",
    "__init__", "__init_subclass__", "__iter__", "__le__", "__len__", "__lt__", "__mod__",
    "__mul__", "__ne__", "__new__", "__reduce__", "__reduce_ex__", "__repr__", "__rmod__",
    "__rmul__", "__setattr__", "__sizeof__", "__str__", "__subclasshook__", "capitalize",
    "casefold", "center", "count", "encode", "endswith", "expandtabs", "find", "format",
    "format_map", "index", "isalnum", "isalpha", "isascii", "isdecimal", "isdigit",
    "isidentifier", "islower", "isnumeric", "isprintable", "isspace", "istitle", "isupper",
    "join", "ljust", "lower", "lstrip", "maketrans", "partition", "removeprefix",
    "removesuffix", "replace", "rfind", "rindex", "rjust", "rpartition", "rsplit", "rstrip",
    "split", "splitlines", "startswith", "strip", "swapcase", "title", "translate", "upper",
    "zfill"]

def textNotes : String :=
  "str(object='') -> str\nstr(bytes_or_buffer[, encoding[, errors]]) -> str\n\n" ++
    "Create a new string object from the given object. If encoding or\n" ++
    "errors is specified, then the object must expose a data buffer\n" ++
    "that will be decoded using the given encoding and error handler.\n" ++
    "Otherwise, returns the result of object.__str__() (if defined)\nor repr(object).\n" ++
    "encoding defaults to sys.getdefaultencoding().\nerrors defaults to 'strict'."

def ofString (s : String) : Value := .text s.toList

/-- The name of the kind that a value is of, for the values whose kind can be asked for. -/
def kindName? : Value → Option String
  | .text _ => some "str"
  | .kind _ => some "type"
  | .kinds _ => some "tuple"
  | .operation _ => none
  | .nothing => some "NoneType"

/-- The kinds right above a kind. All kinds stand under the one that holds every value. -/
def kindsAbove (name : String) : List String :=
  if name = "object" then [] else ["object"]

def member (value : Value) (name : String) : Except Failure Value :=
  match value, name with
  | .operation own, "__name__" => .ok (ofString own)
  | .operation _, _ => .error .missingPart
  | value, "__class__" => (value.kindName?.map .kind).elim (.error .missingPart) .ok
  | .text _, "__doc__" | .kind "str", "__doc__" => .ok (ofString textNotes)
  | .text _, name =>
    if operations.contains name then .ok (.operation name) else .error .missingPart
  | .kind own, "__name__" | .kind own, "__qualname__" => .ok (ofString own)
  | .kind _, "__module__" => .ok (ofString "builtins")
  | .kind own, "__base__" => .ok ((kindsAbove own).head?.elim .nothing .kind)
  | .kind own, "__bases__" => .ok (.kinds (kindsAbove own))
  | .kind own, "__mro__" => .ok (.kinds (own :: kindsAbove own))
  | .nothing, "__doc__" => .ok .nothing
  | _, _ => .error .missingPart

/-- What a value has at a position. A key that is no number is `none`. -/
def item (value : Value) (position : Option Nat) : Except Failure Value :=
  let at? {α : Type} (entries : List α) (wrap : α → Value) : Except Failure Value :=
    match position with
    | none => .error .wrongKind
    | some i => entries[i]?.elim (.error .outOfRange) fun entry => .ok (wrap entry)
  match value with
  | .text characters => at? characters fun c => .text [c]
  | .kinds names => at? names .kind
  | .kind _ | .operation _ | .nothing => .error .wrongKind

def kindText (name : String) : String := "<class '" ++ name ++ "'>"

/-- The description of a value, which is a text itself for a text. -/
def written : Value → List Char
  | .text characters => characters
  | .kind name => (kindText name).toList
  | .kinds [name] => ("(" ++ kindText name ++ ",)").toList
  | .kinds names => ("(" ++ ", ".intercalate (names.map kindText) ++ ")").toList
  | .operation name => ("<built-in method " ++ name ++ " of str object>").toList
  | .nothing => "None".toList

/-- The value as the letter behind an exclamation mark asks for it. A text is quoted; all else is
described the same way for every letter. -/
def convert (value : Value) : Option Char → Except Failure Value
  | none => .ok value
  | some 's' => .ok (.text value.written)
  | some 'r' =>
    match value with
    | .text characters => .ok (ofString (quote (String.ofList characters)))
    | _ => .ok (.text value.written)
  | some 'a' =>
    match value with
    | .text characters => .ok (ofString (quoteAscii (String.ofList characters)))
    | _ => .ok (.text value.written)
  | some _ => .error .badValue

end Value

end LuauCompiler.Text.Template
