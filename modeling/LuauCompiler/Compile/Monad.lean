import LuauCompiler.Compile.State

/-! A step changes the state and gives a value or a cause of failure. The state is kept in both cases:
what was printed and recorded before a failure stays. -/

namespace LuauCompiler

def Compile (α : Type) : Type := State → Except Failure α × State

namespace Compile

variable {α β : Type}

def run (c : Compile α) (s : State) : Except Failure α × State := c s

instance : Monad Compile where
  pure a := fun s => (.ok a, s)
  bind c f := fun s =>
    match c s with
    | (.ok a, s') => f a s'
    | (.error e, s') => (.error e, s')

def fail (e : Failure) : Compile α := fun s => (.error e, s)

def get : Compile State := fun s => (.ok s, s)

def update (f : State → State) : Compile Unit := fun s => (.ok (), f s)

def ofExcept : Except Failure α → Compile α
  | .ok a => pure a
  | .error e => fail e

def all : List (Compile α) → Compile (List α)
  | [] => pure []
  | c :: rest => do
    let a ← c
    let as ← all rest
    return a :: as

def each : List (Compile Unit) → Compile Unit
  | [] => pure ()
  | c :: rest => do
    c
    each rest

/-! ## Emitting and recording -/

def emitEntries (entries : List Code) : Compile Unit := do
  match (← get).output.append? entries with
  | some output => update fun s => { s with output }
  | none => fail .missingPart

def emitEntry (entry : Code) : Compile Unit := emitEntries [entry]

def emit (text : String) : Compile Unit := emitEntry (.line text)

def needs (helper : String) : Compile Unit :=
  update fun s => { s with ledger := s.ledger.need helper }

/-- Prints an error and ends the program. -/
def reject (message : String) : Compile α := fun s =>
  (.error (.exit (some 1)), { s with console := s.console.print (Diagnostic.error message) })

def warn (message : String) : Compile Unit :=
  update fun s => { s with console := s.console.warn message }

def tagOf (name : String) : Compile (Option String) := do
  return (← get).tags.lookup name

/-! ## Scopes -/

def frame : Compile Frame := do return (← get).frames.top

/-- Runs a step under a changed frame. A failure leaves the frame in place. -/
def within (change : Frame → Frame) (c : Compile α) : Compile α := do
  update fun s => { s with frames := s.frames.push change }
  let a ← c
  match (← get).frames.pop? with
  | some frames => update fun s => { s with frames }
  | none => fail .lastFrame
  return a

def isLocal (name : Option String) : Compile Bool := do return (← get).locals.knows name

def declare (name : Option String) : Compile Unit := do
  match (← get).locals.add? name with
  | some locals => update fun s => { s with locals }
  | none => fail .outOfRange

/-- Declares the name unless it is known, and tells the keyword that introduces it. -/
def introduce (name : Option String) : Compile String := do
  if ← isLocal name then return ""
  declare name
  return "local "

def closeBlock : Compile Unit := do
  match (← get).locals.pop? with
  | some locals => update fun s => { s with locals }
  | none => fail .outOfRange

/-! ## Nested code -/

/-- Runs a step with an output of its own and gives that output. The output of the block at hand
and the function it belongs to are as before, also after a failure. -/
def nested (c : Compile Unit) : Compile Code := fun s =>
  match c { s with output := .block [] } with
  | (.ok _, s') => (.ok s'.output, { s' with output := s.output, current := s.current })
  | (.error e, s') => (.error e, { s' with output := s.output, current := s.current })

/-- The lines of code that holds nothing but lines. -/
def linesOf? : List Code → Option (List String)
  | [] => some []
  | .line text :: rest => (linesOf? rest).map (text :: ·)
  | _ :: _ => none

/-- The code of a step on one line. It must hold no block and no empty entry. -/
def inline (c : Compile Unit) : Compile String := do
  match (← nested c).entries?.bind linesOf? with
  | some texts => return String.intercalate " " texts
  | none => fail .wrongKind

def inlineEach (cs : List (Compile Unit)) : Compile (List String) := all (cs.map inline)

def block (cs : List (Compile Unit)) : Compile Unit := do
  update (·.openBlock)
  emitEntry (← nested (each cs))
  closeBlock

/-- Emits the code of a step entry by entry, in a scope of its own. -/
def spread (c : Compile Unit) : Compile Unit := do
  update (·.openBlock)
  let body ← nested c
  -- an output that takes no entries is refused first
  emitEntries []
  match body.entries? with
  | some entries => emitEntries entries
  | none => fail .wrongKind
  closeBlock

def editLast (change : List Code → List Code) : Compile Unit := do
  match (← get).output with
  | .block entries =>
    match entries.getLast? with
    | none => fail .outOfRange
    | some (.block body) =>
      update fun s => { s with output := .block (entries.dropLast ++ [.block (change body)]) }
    | some _ => fail .missingPart
  | _ => fail .missingPart

def prepend (text : String) : Compile Unit := editLast (.line text :: ·)

end Compile

end LuauCompiler
