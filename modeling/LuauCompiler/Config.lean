import LuauCompiler.Console
import LuauCompiler.Json.Reader
import LuauCompiler.Text.Basic

/-! Settings by key with the defaults under whatever a configuration file gives. A file is merged key by
key at the top level only. Its value is an object, or a list of pairs: a pair is a list, a text or an
object of length two, of which an object counts by its keys. -/

namespace LuauCompiler

structure Config where
  /-- Keys are texts, or scalars that a list of pairs may bring. -/
  entries : List (Json × Json)

namespace Config

/-- Two scalars are the same key when they are equal; numbers compare by value. -/
def sameKey : Json → Json → Bool
  | .str a, .str b => a = b
  | .null, .null => true
  | a, b =>
    match a.wholeNumber?, b.wholeNumber? with
    | some m, some n => m = n
    | none, none =>
      match a, b with
      | .real x, .real y => x = y
      | _, _ => false
    | _, _ => false

def put (key value : Json) : List (Json × Json) → List (Json × Json)
  | [] => [(key, value)]
  | (k, v) :: rest => if sameKey k key then (k, value) :: rest else (k, v) :: put key value rest

def defaults : Config :=
  ⟨[(.str "class", .obj [("return_at_the_end", .bool false)]), (.str "luau", .null)]⟩

def set (c : Config) (key value : Json) : Config := ⟨put key value c.entries⟩

def pairOf : Json → Except Failure (Json × Json)
  | .arr [key, value] => .ok (key, value)
  | .arr _ => .error .badValue
  | .str s =>
    match s.toList with
    | [a, b] => .ok (.str (String.singleton a), .str (String.singleton b))
    | _ => .error .badValue
  | .obj [(a, _), (b, _)] => .ok (.str a, .str b)
  | .obj _ => .error .badValue
  | _ => .error .wrongKind

def isKey : Json → Bool
  | .arr _ | .obj _ => false
  | _ => true

def mergePairs (c : Config) : List Json → Except Failure Config
  | [] => .ok c
  | item :: rest =>
    match pairOf item with
    | .error e => .error e
    | .ok (key, value) =>
      if isKey key then mergePairs (c.set key value) rest else .error .wrongKind

def merge (c : Config) : Json → Except Failure Config
  | .obj fields => .ok (fields.foldl (fun c (key, value) => c.set (.str key) value) c)
  | .arr items => c.mergePairs items
  | .str s => if s.isEmpty then .ok c else .error .badValue
  | _ => .error .wrongKind

/-- The configuration of a file's text; the text has any kind of line end. -/
def ofText (text : String) : Except Failure Config :=
  match Json.parse (String.ofList (Text.unifyLineEnds text.toList)) with
  | .error e => .error e
  | .ok value => defaults.merge value

/-- The configuration of a file that may be missing. Text that is no JSON ends the program. -/
def load : Option String → Except Stop Config
  | none => .ok defaults
  | some text =>
    match ofText text with
    | .ok config => .ok config
    | .error .malformedJson => .error (.reject "Config file is not a valid JSON file.")
    | .error cause => .error (.silent cause)

def find? (c : Config) (key : Json) : Option Json :=
  (c.entries.find? fun e => sameKey e.1 key).map (·.2)

def get (c : Config) (key : String) : Except Failure Json :=
  match c.find? (.str key) with
  | some value => .ok value
  | none => .error .unknownKey

end Config

def Config.lookup (config : Option Config) (key : String) : Except Failure Json :=
  match config with
  | none => .error .wrongKind
  | some c => c.get key

def Config.returnsClass (config : Option Config) : Except Failure Bool :=
  match Config.lookup config "class" with
  | .error e => .error e
  | .ok (.obj fields) =>
    match fields.lookup "return_at_the_end" with
    | some value => .ok value.truthy
    | none => .error .unknownKey
  | .ok _ => .error .wrongKind

end LuauCompiler
