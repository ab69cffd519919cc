import LuauCompiler.Compile.Visit

/-! Steps that are built from primitive ones. What a rule reads and changes is named by a few
constructors, so that a property of all compilations is proved by one induction over the way they are
built. No rule reads the ledger or the label of a loop. -/
namespace LuauCompiler

/-- The part of the state that is shared by all the code under compilation. -/
structure Store where
  frames : Frames Frame
  locals : SymbolStack (Option String)
  globals : SymbolStack String
  ledger : Ledger

def State.store (s : State) : Store := ⟨s.frames,s.locals,s.globals,s.ledger⟩

/-- The rest of the state. -/
structure Work where
  console : Console
  nonlocals : Option (SymbolStack String)
  tags : List (String × String)
  functions : List FunctionRecord
  generators : List (Option String)
  output : Code
  current : Option String

def State.work (s : State) : Work :=
  ⟨s.console,s.nonlocals,s.tags,s.functions,s.generators,s.output,s.current⟩

def State.withWork (s : State) (w : Work) : State :=
  ⟨s.ledger,w.console,s.frames,s.locals,s.globals,w.nonlocals,w.tags,w.functions,w.generators,
    w.output,w.current⟩

/-- The frame without the label of its loop. -/
def Frame.unlabelled (f : Frame) : Frame := { f with loopLabel := "" }

def Frames.unlabelled (s : Frames Frame) : Frames Frame := ⟨s.top.unlabelled,s.below.map Frame.unlabelled⟩

/-- The states differ in the ledger and in the labels of loops only. -/
structure State.Alike (s t : State) : Prop where
  work : s.work = t.work
  frames : s.frames.unlabelled = t.frames.unlabelled
  locals : s.locals = t.locals
  globals : s.globals = t.globals

namespace State.Alike

variable {s t : State}

section

variable (alike : s.Alike t)

include alike

theorem nonlocals : s.nonlocals = t.nonlocals := congrArg Work.nonlocals alike.work

theorem tags : s.tags = t.tags := congrArg Work.tags alike.work

theorem functions : s.functions = t.functions := congrArg Work.functions alike.work

theorem generators : s.generators = t.generators := congrArg Work.generators alike.work

theorem output : s.output = t.output := congrArg Work.output alike.work

theorem current : s.current = t.current := congrArg Work.current alike.work

theorem top : s.frames.top.unlabelled = t.frames.top.unlabelled :=
  congrArg Frames.top alike.frames

end

end State.Alike

variable {f g : Frame}

theorem Frame.className_of_unlabelled (same : f.unlabelled = g.unlabelled) : f.className = g.className :=
  (congrArg Frame.className same :)

theorem Frame.docstring_of_unlabelled (same : f.unlabelled = g.unlabelled) : f.docstring = g.docstring :=
  (congrArg Frame.docstring same :)

theorem Frame.unlabelled_className {className : String} (same : f.unlabelled = g.unlabelled) :
    ({ f with className } : Frame).unlabelled = ({ g with className } : Frame).unlabelled :=
  congrArg (fun f : Frame => { f with className }) same

theorem Frame.unlabelled_docstring {docstring : Bool} (same : f.unlabelled = g.unlabelled) :
    ({ f with docstring } : Frame).unlabelled = ({ g with docstring } : Frame).unlabelled :=
  congrArg (fun f : Frame => { f with docstring }) same

/-- The snippets that rules ask for. -/
def requestedHelpers : List String := ["class","dict","complex","generator"]

namespace Compile

variable {c : Compile Unit}

/-- The wordings with which rules refuse a source. -/
inductive IsComplaint : String → Prop
  | assigned (name : String) : IsComplaint (reservedMessage name)
  | subscripted (name : String) : IsComplaint ("'" ++ name ++ "'is a reserved Luau keyword.")
  | sum : IsComplaint "Not supported."
  | sorting : IsComplaint "The key kwarg is not supported."
  | pattern : IsComplaint "Match statement requires a compile-time constant, not a variable."
  | wildcard : IsComplaint "import * is unsupproted"

inductive Built : {α : Type} → Compile α → Prop
  | pure (a : α) : Built (Pure.pure a)
  | bind {c : Compile α} {f : α → Compile β} (first : Built c) (rest : ∀ a, Built (f a)) : Built (c >>= f)
  | fail (e : Failure) : Built (Compile.fail e : Compile α)
  | reject (worded : IsComplaint message) : Built (Compile.reject message : Compile α)
  /-- What follows does not depend on the ledger and the labels. -/
  | ask {f : State → Compile α} (rest : ∀ s, Built (f s))
    (blind : ∀ {s t : State}, s.Alike t → f s = f t) : Built (get >>= f)
  /-- A change that the shared part of the state has no share in. What has been printed as output
  stays. -/
  | put (change : Work → Work) (quiet : ∀ w, (change w).console.out = w.console.out := by intro; rfl) :
    Built (update fun s => s.withWork (change s.work))
  | needs (known : helper ∈ requestedHelpers) : Built (Compile.needs helper)
  | within {c : Compile α} (step : Built c) (blind : ∀ {f g : Frame}, f.unlabelled = g.unlabelled →
      (change f).unlabelled = (change g).unlabelled) : Built (within change c)
  /-- A step under the label of a new loop. -/
  | loop {c : Compile α} (step : Built c) :
    Built (nextLoop >>= fun label => Compile.within (fun f => { f with loopLabel := label }) c)
  | declare (name : Option String) : Built (declare name)
  | publish (name : String) : Built (declareGlobals [name])
  | nested {c : Compile Unit} (step : Built c) : Built (nested c)
  /-- A step in a block of names of its own. -/
  | scope {c : Compile Unit} (step : Built c) :
    Built (update State.openBlock >>= fun _ => c >>= fun _ => closeBlock)

namespace Built

variable {α : Type}

theorem ite [Decidable p] {c d : Compile α} (yes : Built c) (no : Built d) : Built (if p then c else d) := by
  split
  · exact yes
  · exact no

theorem guarded [Decidable p] {c : Compile α} (first : Built c) (rest : Built d) :
    Built (if p then (c >>= fun _ => d) else d) :=
  ite (bind first fun _ => rest) rest

theorem ofExcept (e : Except Failure α) : Built (Compile.ofExcept e) := by
  cases e with
  | ok a => exact pure a
  | error e => exact fail e

theorem each (steps : ∀ c ∈ cs, Built c) : Built (Compile.each cs) := by
  induction cs with
  | nil => exact pure ()
  | cons c rest ih =>
    exact bind (steps c (by simp)) fun _ => ih fun d member => steps d (by simp [member])

theorem all {cs : List (Compile α)} (steps : ∀ c ∈ cs, Built c) : Built (Compile.all cs) := by
  induction cs with
  | nil => exact pure []
  | cons c rest ih =>
    exact bind (steps c (by simp)) fun _ =>
      bind (ih fun d member => steps d (by simp [member])) fun _ => pure _

end Built

theorem bind_assoc (c : Compile α) (f : α → Compile β) (g : β → Compile γ) :
    c >>= f >>= g = c >>= fun a => f a >>= g := by
  funext s
  simp only [Bind.bind]
  cases c s with
  | mk outcome t => cases outcome <;> rfl

theorem emitEntries_built (entries : List Code) : Built (emitEntries entries) := by
  refine .ask (fun s => ?_) fun alike => by rw [alike.output]
  split
  · exact .put fun w => { w with output := _ }
  · exact .fail _

theorem emitEntry_built (entry : Code) : Built (emitEntry entry) := emitEntries_built _

theorem emit_built (text : String) : Built (emit text) := emitEntries_built _

theorem warn_built (message : String) : Built (warn message) :=
  .put fun w => { w with console := w.console.warn message }

theorem introduce_built (name : Option String) : Built (introduce name) := by
  have asked : Built (isLocal name) := .ask (fun _ => .pure _) fun alike => by rw [alike.locals]
  refine .bind asked fun known => ?_
  split
  · exact .pure _
  · exact .bind (.declare name) fun _ => .pure _

theorem inline_built (step : Built c) : Built (inline c) := by
  refine .bind (.nested step) fun code => ?_
  split
  · exact .pure _
  · exact .fail _

theorem inlineEach_built (steps : ∀ c ∈ cs, Built c) : Built (inlineEach cs) := by
  refine .all fun c member => ?_
  obtain ⟨d,inside,rfl⟩ := List.mem_map.mp member
  exact inline_built (steps d inside)

theorem block_built (steps : ∀ c ∈ cs, Built c) : Built (block cs) := by
  have inside : Built (nested (each cs) >>= emitEntry) :=
    .bind (.nested (.each steps)) fun code => emitEntry_built code
  have opened := Built.scope inside
  rw [bind_assoc] at opened
  exact opened

theorem spread_built (step : Built c) : Built (spread c) := by
  have inside : Built (nested c >>= fun body => emitEntries [] >>= fun _ =>
      body.entries?.elim (fail .wrongKind) emitEntries) := by
    refine .bind (.nested step) fun body => .bind (emitEntries_built _) fun _ => ?_
    cases body.entries? with
    | none => exact .fail _
    | some entries => exact emitEntries_built entries
  have opened := Built.scope inside
  simp only [bind_assoc] at opened
  have same : spread c = update State.openBlock >>= fun _ => nested c >>= fun body =>
      emitEntries [] >>= fun _ => body.entries?.elim (fail .wrongKind) emitEntries >>= fun _ =>
        closeBlock := by
    unfold spread
    congr
    funext _
    congr
    funext body
    congr
    funext _
    cases body.entries? <;> rfl
  rw [same]
  exact opened

theorem editLast_built (change : List Code → List Code) : Built (editLast change) := by
  refine .ask (fun s => ?_) fun alike => by rw [alike.output]
  split
  · split
    · exact .fail _
    · exact .put fun w => { w with output := _ }
    · exact .fail _
  · exact .fail _

/-- The step reads the tags of names at most, and leaves the state alone unless it refuses. -/
inductive Idle : {α : Type} → Compile α → Prop
  | pure (a : α) : Idle (Pure.pure a)
  | bind {c : Compile α} {f : α → Compile β} (first : Idle c) (rest : ∀ a, Idle (f a)) : Idle (c >>= f)
  | fail (e : Failure) : Idle (Compile.fail e : Compile α)
  | reject (worded : IsComplaint message) : Idle (Compile.reject message : Compile α)
  | tagOf (name : String) : Idle (Compile.tagOf name)

namespace Idle

variable {α : Type}

theorem ite [Decidable p] {c d : Compile α} (yes : Idle c) (no : Idle d) : Idle (if p then c else d) := by
  split
  · exact yes
  · exact no

theorem guarded [Decidable p] {c : Compile α} (first : Idle c) (rest : Idle d) :
    Idle (if p then (c >>= fun _ => d) else d) :=
  ite (bind first fun _ => rest) rest

theorem ofExcept (e : Except Failure α) : Idle (Compile.ofExcept e) := by
  cases e with
  | ok a => exact pure a
  | error e => exact fail e

theorem built {c : Compile α} (idle : Idle c) : Built c := by
  induction idle with
  | pure a => exact .pure a
  | bind _ _ first rest => exact .bind first rest
  | fail e => exact .fail e
  | reject worded => exact .reject worded
  | tagOf name => exact .ask (fun _ => .pure _) fun alike => by rw [alike.tags]

end Idle

theorem binaryOperator_idle (op : Node) : Idle (binaryOperator op) := by
  unfold binaryOperator
  split
  · exact .ite (.pure _) (.fail _)
  · exact .fail _

theorem plainBinary_idle (op : BinaryOp) (left right : String) : Idle (plainBinary op left right) := by
  unfold plainBinary
  split
  · exact .pure _
  · exact .fail _

theorem isText_idle (n : Node) (text : String) : Idle (isText n text) := .bind (.tagOf _) fun _ => .pure _

theorem isListLike_idle (n : Node) (text : String) : Idle (isListLike n text) :=
  .bind (.tagOf _) fun _ => .pure _

theorem product_idle (leftNode rightNode : Node) (left right : String) :
    Idle (product leftNode rightNode left right) :=
  .bind (isText_idle _ _) fun _ => .ite (.pure _) (.bind (isText_idle _ _) fun _ =>
    .ite (.pure _) (plainBinary_idle ..))

theorem sum_idle (leftNode rightNode : Node) (left right : String) :
    Idle (sum leftNode rightNode left right) := by
  refine .bind (isListLike_idle _ _) fun joined => ?_
  refine .ite (.bind (isListLike_idle _ _) fun alike => .guarded (.reject .sum) ?_) ?_
  all_goals
    refine .bind (isText_idle _ _) fun l => .bind (isText_idle _ _) fun r => ?_
    cases l <;> cases r
    · exact plainBinary_idle ..
    all_goals exact .pure _

theorem membership_idle (container : Node) : Idle (membership container) := by
  unfold membership
  split
  · exact .bind (.tagOf _) fun _ => .guarded (.fail _) (.pure _)
  all_goals exact .pure _

theorem link_idle (op rightNode : Node) (left right : String) : Idle (link op rightNode left right) := by
  unfold link
  split
  · exact .bind (membership_idle _) fun _ => .pure _
  · exact .bind (membership_idle _) fun _ => .pure _
  · exact .pure _

theorem checkElements_idle (target : String) : Idle (checkElements target) := by
  unfold checkElements
  split
  · simp only
    split
    · exact .reject (.assigned _)
    · exact .pure _
  · exact .pure _

theorem iteratesText_idle (iterNode : Node) (iter : String) : Idle (iteratesText iterNode iter) := by
  refine .bind (.tagOf _) fun tag => ?_
  split <;> exact .pure _

end Compile

end LuauCompiler
