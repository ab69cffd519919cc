import LuauCompiler.Failure
import LuauCompiler.Json.Basic
import LuauCompiler.Scope.Frames
import LuauCompiler.Scope.Symbols

/-! A stack of settings by name. A new layer takes over every setting of the layer below that it does
not give itself. Two symbol stacks can be among the settings; a layer that takes one over shares it with
the layer below, so that a name declared through one layer is seen through all. -/

namespace LuauCompiler

inductive SharedStack where
  | locals
  | globals
  deriving DecidableEq, Repr

inductive Setting where
  | data (value : Json)
  | symbols (stack : SharedStack)
  | lineFeed
  deriving Repr

abbrev Layer := List (String × Setting)

structure Layers (α : Type) where
  layers : Frames Layer
  locals : SymbolStack α
  globals : SymbolStack α

namespace Layers

variable {α : Type}

def defaultLayer : Layer :=
  [("token_end_mode", .lineFeed), ("class_name", .data (.str "")), ("locals", .symbols .locals),
    ("globals", .symbols .globals), ("loop_label_name", .data (.str "")),
    ("docstring", .data (.bool false))]

def ofLayer (layer : Layer) : Layers α := ⟨.single layer, .new, .new⟩

/-- The settings of `changes` replace those of the same name. -/
def update (changes : List (String × Json)) (layer : Layer) : Layer :=
  changes.foldl (fun layer (key, value) => insertField key (.data value) layer) layer

def push (s : Layers α) (changes : List (String × Json)) : Layers α :=
  { s with layers := s.layers.push (update changes) }

def last (s : Layers α) : Layer := s.layers.top

def pop (s : Layers α) : Except Failure (Layer × Layers α) :=
  match s.layers.pop? with
  | none => .error .lastFrame
  | some layers => .ok (s.layers.top, { s with layers })

def get (s : Layers α) (key : String) : Except Failure Setting :=
  match s.last.lookup key with
  | none => .error .unknownKey
  | some setting => .ok setting

/-- The symbol stack that a setting of the top layer stands for. -/
def stackAt (s : Layers α) (key : String) : Except Failure SharedStack :=
  match s.get key with
  | .error e => .error e
  | .ok (.symbols stack) => .ok stack
  | .ok _ => .error .missingPart

def stack (s : Layers α) : SharedStack → SymbolStack α
  | .locals => s.locals
  | .globals => s.globals

def setStack (s : Layers α) (which : SharedStack) (value : SymbolStack α) : Layers α :=
  match which with
  | .locals => { s with locals := value }
  | .globals => { s with globals := value }

def knows [BEq α] (s : Layers α) (key : String) (name : α) : Except Failure Bool :=
  match s.stackAt key with
  | .error e => .error e
  | .ok which => .ok ((s.stack which).knows name)

def modifyStack (s : Layers α) (key : String)
    (change : SymbolStack α → Option (SymbolStack α)) : Except Failure (Layers α) :=
  match s.stackAt key with
  | .error e => .error e
  | .ok which =>
    match change (s.stack which) with
    | none => .error .outOfRange
    | some value => .ok (s.setStack which value)

def add (s : Layers α) (key : String) (name : α) : Except Failure (Layers α) :=
  s.modifyStack key (·.add? name)

def pushLevel (s : Layers α) (key : String) : Except Failure (Layers α) :=
  s.modifyStack key fun stack => some stack.push

def popLevel (s : Layers α) (key : String) : Except Failure (Layers α) :=
  s.modifyStack key (·.pop?)

end Layers

end LuauCompiler
