import LuauCompiler.Proofs.Answers

/-! Programs that are always translated. Every statement of the supported part of the language keeps
the state in order, and from a state in order it succeeds. -/
namespace LuauCompiler

/-- The place of a node in a program: statements and handlers know whether a function is around
them. -/
inductive Role where
  | expression
  | clause
  | item
  | handler (inside : Bool)
  | statement (inside : Bool)

/-- The nodes that are supported in a place. Parts that no rule looks at may be anything. -/
inductive Supported : Role → Node → Prop
  -- expressions
  | name {id : String} (free : id ∉ reservedWords) : Supported .expression (.name (some id) access)
  | constant (writable : Compile.isWritable value = true) : Supported .expression (.constant value kind)
  | binOp (known : op ≠ .matMult) (addable : op = .add → left.isList = false)
    (first : Supported .expression left) (second : Supported .expression right) :
    Supported .expression (.binOp left (.mark (.binary op)) right)
  | boolOp (parts : ∀ e ∈ values, Supported .expression e) :
    Supported .expression (.boolOp (.mark (.bool op)) values)
  | unaryOp (part : Supported .expression operand) :
    Supported .expression (.unaryOp (.mark (.unary op)) operand)
  | compare (paired : comparators.length = ops.length) (first : Supported .expression left)
    (parts : ∀ e ∈ comparators, Supported .expression e) :
    Supported .expression (.compare left ops comparators)
  | ifExp (first : Supported .expression test) (second : Supported .expression body)
    (third : Supported .expression orElse) : Supported .expression (.ifExp test body orElse)
  | list (parts : ∀ e ∈ elts, Supported .expression e) : Supported .expression (.list elts access)
  | tuple (parts : ∀ e ∈ elts, Supported .expression e) : Supported .expression (.tuple elts access)
  | set (parts : ∀ e ∈ elts, Supported .expression e) : Supported .expression (.set elts)
  | dict (paired : values.length = keys.length) (first : ∀ e ∈ keys, Supported .expression e)
    (second : ∀ e ∈ values, Supported .expression e) : Supported .expression (.dict keys values)
  | lambda (named : ∀ n ∈ regular, Compile.GivenParam n) (part : Supported .expression body) :
    Supported .expression (.lambda (.params posOnly regular rest kwOnly kwDefaults kwRest defaults) body)
  | attribute (part : Supported .expression value) : Supported .expression (.attribute value attr access)
  | subscript (first : Supported .expression value) (second : Supported .expression slice) :
    Supported .expression (.subscript value slice access)
  | listComp (part : Supported .expression elt) (parts : ∀ c ∈ clauses, Supported .clause c) :
    Supported .expression (.listComp elt clauses)
  | setComp (part : Supported .expression elt) (parts : ∀ c ∈ clauses, Supported .clause c) :
    Supported .expression (.setComp elt clauses)
  | generatorExp (part : Supported .expression elt) (parts : ∀ c ∈ clauses, Supported .clause c) :
    Supported .expression (.generatorExp elt clauses)
  | dictComp (first : Supported .expression key) (second : Supported .expression value)
    (parts : ∀ c ∈ clauses, Supported .clause c) :
    Supported .expression (.dictComp key value clauses)
  | call {id : String} (free : id ∉ reservedWords) (parts : ∀ e ∈ args, Supported .expression e) :
    Supported .expression (.call (.name (some id) access) args keywords)
  | clause (first : Supported .expression target) (second : Supported .expression iter)
    (parts : ∀ e ∈ filters, Supported .expression e) :
    Supported .clause (.clause target iter filters isAsync)
  -- statements
  | assign {id : String} (free : id ∉ reservedWords) (own : id ∉ libraryNames)
    (single : ',' ∉ id.toList) (part : Supported .expression value) :
    Supported (.statement inside) (.assign [.name (some id) access] value comment)
  | augAssign {id : String} (known : op ≠ .matMult) (free : id ∉ reservedWords)
    (part : Supported .expression value) :
    Supported (.statement inside) (.augAssign (.name (some id) access) (.mark (.binary op)) value)
  | exprStmt (part : Supported .expression value) : Supported (.statement inside) (.exprStmt value)
  | assert (part : Supported .expression test) : Supported (.statement inside) (.assert test msg)
  | raise (part : Supported .expression exc) : Supported (.statement inside) (.raise exc cause)
  | delete (parts : ∀ e ∈ targets, Supported .expression e) : Supported (.statement inside) (.delete targets)
  | global : Supported (.statement inside) (.global names)
  | pass : Supported (.statement inside) .pass
  | breakStmt : Supported (.statement inside) .breakStmt
  | continueStmt : Supported (.statement inside) .continueStmt
  | ifStmt (first : Supported .expression test)
    (second : ∀ n ∈ body, Supported (.statement inside) n)
    (third : ∀ n ∈ orElse, Supported (.statement inside) n) :
    Supported (.statement inside) (.ifStmt test body orElse)
  | whileStmt (first : Supported .expression test)
    (second : ∀ n ∈ body, Supported (.statement inside) n) :
    Supported (.statement inside) (.whileStmt test body orElse)
  | forStmt {id : String} (free : id ∉ reservedWords) (first : Supported .expression iter)
    (second : ∀ n ∈ body, Supported (.statement inside) n) :
    Supported (.statement inside) (.forStmt false (.name (some id) access) iter body orElse comment)
  | withStmt (first : ∀ n ∈ items, Supported .item n)
    (second : ∀ n ∈ body, Supported (.statement inside) n) :
    Supported (.statement inside) (.withStmt false items body comment)
  | plainItem (part : Supported .expression context) : Supported .item (.withItem context .absent)
  | namedItem {id : String} (free : id ∉ reservedWords) (part : Supported .expression context) :
    Supported .item (.withItem context (.name (some id) access))
  | tryStmt (first : ∀ n ∈ body, Supported (.statement inside) n)
    (second : ∀ n ∈ handlers, Supported (.handler inside) n)
    (third : ∀ n ∈ finalBody, Supported (.statement inside) n) :
    Supported (.statement inside) (.tryStmt false body handlers orElse finalBody)
  | handler {name : Option String} (known : type = .absent ∨ type.isName = true)
    (parts : ∀ n ∈ body, Supported (.statement inside) n) :
    Supported (.handler inside) (.handler type name body)
  | classDef {name : String} (first : ∀ e ∈ bases, Supported .expression e)
    (second : ∀ n ∈ body, Supported (.statement inside) n) :
    Supported (.statement inside) (.classDef (some name) bases keywords body decorators)
  | functionDef {name : String} (named : ∀ n ∈ regular, Compile.GivenParam n)
    (remaining : rest = .absent ∨ Compile.GivenParam rest)
    (enough : defaults.length ≤ regular.length) (first : ∀ e ∈ defaults, Supported .expression e)
    (second : ∀ e ∈ decorators, Supported .expression e)
    (third : ∀ n ∈ body, Supported (.statement true) n) :
    Supported (.statement inside) (.functionDef false (some name)
      (.params posOnly regular rest kwOnly kwDefaults kwRest defaults) body decorators returns comment)
  | returnStmt (part : Supported .expression value) : Supported (.statement true) (.returnStmt value)

namespace Compile

variable {α : Type}

variable {tags : List (String × String)} {names : List String} {c : Compile Unit}

/-! ## States in order -/

/-- What a statement finds and has to leave: whether a function is around it, the frames, and the
number of blocks around the innermost one. -/
structure Setting where
  inside : Bool
  frames : Frames Frame
  depth : Nat

/-- The state is in order, and its output is in `O`. -/
structure Ready (σ : Setting) (O : Code → Prop) (s : State) : Prop where
  output : O s.output
  console : s.console = .empty
  frames : s.frames = σ.frames
  depth : s.locals.levels.length = σ.depth + 1
  globals : s.globals.levels ≠ []
  tags : Tidy s.tags
  generators : s.generators = []
  functions : σ.inside = true → s.functions ≠ []

def IsBlock (code : Code) : Prop := ∃ entries, code = .block entries

/-- The last entry is a block. -/
def EndsInBlock (code : Code) : Prop := ∃ before body, code = .block (before ++ [.block body])

theorem EndsInBlock.isBlock (ends : EndsInBlock code) : IsBlock code := by
  obtain ⟨before,body,rfl⟩ := ends
  exact ⟨_,rfl⟩

variable {σ : Setting} {O : Code → Prop} {s : State} {id name : String} {value : Node}
  {inside : Bool} {depth : Nat} {frames : Frames Frame} {run test : Compile Unit}
  {body decorators values : List (Compile Unit)}

theorem Ready.mono (ready : Ready σ O s) (weaker : ∀ code, O code → O' code) : Ready σ O' s :=
  { ready with output := weaker _ ready.output }

/-- From every state in `pre` the step succeeds, and the result is in `post`. -/
def Leads (pre : State → Prop) (c : Compile α) (post : α → State → Prop) : Prop :=
  ∀ s, pre s → ∃ a t, Gives c s a t ∧ post a t

/-- The step keeps the state in order. -/
abbrev Maintains (σ : Setting) (O : Code → Prop) (c : Compile α) : Prop :=
  Leads (Ready σ O) c fun _ => Ready σ O

namespace Leads

theorem pure (holds : ∀ s, pre s → mid a s) : Leads pre (Pure.pure a) mid :=
  fun s start => ⟨a,s,rfl,holds s start⟩

theorem bind {c : Compile α} (first : Leads pre c mid) (rest : ∀ a, Leads (mid a) (f a) post) :
    Leads pre (c >>= f) post := by
  intro s start
  obtain ⟨a,u,run,reached⟩ := first s start
  obtain ⟨b,t,run',reached'⟩ := rest a u reached
  exact ⟨b,t,gives_bind.mpr ⟨a,u,run,run'⟩,reached'⟩

theorem mono {c : Compile α} (step : Leads pre c mid) (before : ∀ s, pre' s → pre s)
    (behind : ∀ a s, mid a s → mid' a s) : Leads pre' c mid' := by
  intro s start
  obtain ⟨a,t,run,reached⟩ := step s (before s start)
  exact ⟨a,t,run,behind a t reached⟩

theorem update {post : Unit → State → Prop} (holds : ∀ s, pre s → post () (change s)) :
    Leads pre (Compile.update change) post :=
  fun s start => ⟨(),change s,rfl,holds s start⟩

theorem answer {c : Compile α} (first : Answers P c)
    (rest : ∀ a, P a → Leads (Ready σ O) (f a) post) : Leads (Ready σ O) (c >>= f) post := by
  intro s ready
  obtain ⟨a,ledger,run,holds⟩ := first.run s ready.tags
  obtain ⟨b,t,run',reached⟩ := rest a holds { s with ledger } { ready with }
  exact ⟨b,t,gives_bind.mpr ⟨a,_,run,run'⟩,reached⟩

theorem emit : Maintains σ IsBlock (Compile.emit text) := by
  intro s ready
  obtain ⟨before,out⟩ := ready.output
  exact ⟨(),_,gives_emit.mpr ⟨before,out,rfl⟩,{ ready with output := ⟨_,rfl⟩ }⟩

theorem ite [Decidable p] {c d : Compile β} (yes : p → Leads pre c post)
    (no : ¬p → Leads pre d post) : Leads pre (if p then c else d) post := by
  split <;> rename_i h
  · exact yes h
  · exact no h

theorem passing [Decidable p] {c d : Compile β} (passed : ¬p) (rest : Leads pre d post) :
    Leads pre (if p then c else d) post :=
  ite (fun failed => absurd failed passed) fun _ => rest

theorem ended {c : Compile β} (step : Leads (Ready σ IsBlock) c post) : Leads (Ready σ EndsInBlock) c post :=
  step.mono (fun _ ready => ready.mono fun _ ends => ends.isBlock) fun _ _ reached => reached

theorem line (rest : Leads (Ready σ IsBlock) (f ()) post) :
    Leads (Ready σ IsBlock) (Compile.emit text >>= f) post :=
  bind emit fun _ => rest

end Leads

/-! ## Scopes and blocks -/

theorem pure_maintains (a : α) : Maintains σ O (pure a) := .pure fun _ ready => ready

theorem introduce_maintains (name : Option String) : Maintains σ O (introduce name) := by
  intro s ready
  cases known : s.locals.knows name with
  | true => exact ⟨"",s,gives_introduce.mpr (.inl ⟨known,rfl,rfl⟩),ready⟩
  | false =>
    cases levels : s.locals.levels with
    | nil =>
      have depth := ready.depth
      simp [levels] at depth
    | cons level outer =>
      have added : s.locals.add? name = some ⟨(level ++ [name]) :: outer⟩ := by
        simp [SymbolStack.add?,levels]
      refine ⟨"local ",_,gives_introduce.mpr (.inr ⟨known,rfl,_,added,rfl⟩),?_⟩
      have depth := ready.depth
      exact { ready with depth := by simpa [levels] using depth }

theorem within_leads {c : Compile α} (step : Leads (Ready ⟨inside,frames.push change,depth⟩ O) c
      fun _ => Ready ⟨inside,frames.push change,depth⟩ O') :
    Leads (Ready ⟨inside,frames,depth⟩ O) (within change c) fun _ => Ready ⟨inside,frames,depth⟩ O' := by
  intro s ready
  have pushed : s.frames.push change = frames.push change := congrArg (·.push change) ready.frames
  obtain ⟨a,u,run,reached⟩ := step { s with frames := s.frames.push change } { ready with frames := pushed }
  have popped : u.frames.pop? = some frames := by
    rw [reached.frames]
    rfl
  exact ⟨a,_,gives_within.mpr ⟨u,frames,run,popped,rfl⟩,{ reached with frames := rfl }⟩

theorem each_maintains (steps : ∀ c ∈ cs, Maintains σ O c) : Maintains σ O (each cs) := by
  induction cs with
  | nil => exact pure_maintains _
  | cons c rest ih =>
    exact .bind (steps c (by simp)) fun _ => ih fun d member => steps d (by simp [member])

/-- The statement keeps every state in order that has a block for its output. -/
def Proceeds (inside : Bool) (c : Compile Unit) : Prop :=
  ∀ frames depth, Maintains ⟨inside,frames,depth⟩ IsBlock c

theorem nested_ready (ready : Ready ⟨inside,frames,depth⟩ O s) :
    Ready ⟨inside,frames,depth + 1⟩ IsBlock { s with locals := s.locals.push, output := .block [] } :=
  { ready with output := ⟨[],rfl⟩, depth := by simp [SymbolStack.push,ready.depth] }

theorem closed_ready (ready : Ready ⟨inside,frames,depth + 1⟩ O s) :
    ∃ locals, s.locals.pop? = some locals ∧ locals.levels.length = depth + 1 := by
  have depth := ready.depth
  cases levels : s.locals.levels with
  | nil => simp [levels] at depth
  | cons level outer => exact ⟨⟨outer⟩,by simp [SymbolStack.pop?,levels],by simpa [levels] using depth⟩

theorem block_leads (steps : ∀ c ∈ cs, Proceeds σ.inside c) (before : List Code) :
    Leads (Ready σ (· = .block before)) (block cs)
      fun _ => Ready σ fun code => ∃ body, code = .block (before ++ [.block body]) := by
  obtain ⟨inside,frames,depth⟩ := σ
  intro s ready
  have kept : Maintains ⟨inside,frames,depth + 1⟩ IsBlock (each cs) :=
    each_maintains fun c member => steps c member frames (depth + 1)
  obtain ⟨_,u,run,reached⟩ := kept _ (nested_ready ready)
  obtain ⟨locals,popped,length⟩ := closed_ready reached
  obtain ⟨body,out⟩ := reached.output
  refine ⟨(),_,gives_block.mpr ⟨u,locals,before,run,popped,ready.output,rfl⟩,?_⟩
  exact { reached with output := ⟨body,by rw [out]⟩, depth := length }

theorem block_ends (steps : ∀ c ∈ cs, Proceeds σ.inside c) :
    Leads (Ready σ IsBlock) (block cs) fun _ => Ready σ EndsInBlock := by
  intro s ready
  obtain ⟨before,out⟩ := ready.output
  obtain ⟨_,t,run,reached⟩ := block_leads steps before s { ready with output := out }
  exact ⟨(),t,run,reached.mono fun _ ⟨body,same⟩ => ⟨before,body,same⟩⟩

theorem block_maintains (steps : ∀ c ∈ cs, Proceeds σ.inside c) : Maintains σ IsBlock (block cs) :=
  (block_ends steps).mono (fun _ ready => ready) fun _ _ ready => ready.mono fun _ ends => ends.isBlock

theorem editLast_maintains (change : List Code → List Code) : Maintains σ EndsInBlock (editLast change) := by
  intro s ready
  obtain ⟨before,body,out⟩ := ready.output
  exact ⟨(),_,gives_editLast.mpr ⟨before,body,out,rfl⟩, { ready with output := ⟨before,change body,rfl⟩ }⟩

theorem loopBody_maintains (steps : ∀ c ∈ body, Proceeds σ.inside c) :
    Maintains σ IsBlock (loopBody body) := by
  have counted : Maintains σ IsBlock nextLoop := fun s ready => ⟨_,_,rfl,{ ready with }⟩
  exact .bind counted fun label => within_leads (block_maintains steps)

/-! ## Simple statements -/

theorem tidy_insertField (tidy : Tidy tags) (plain : tag ≠ "list" ∧ tag ≠ "Constant") :
    Tidy (insertField name tag tags) := by
  intro other found present
  rw [lookup_insertField] at present
  split at present
  · exact Option.some.inj present ▸ plain
  · exact tidy other found present

theorem tag_plain (supported : Supported .expression value) :
    value.tag ≠ "list" ∧ value.tag ≠ "Constant" := by
  cases supported with
  | @constant value => cases value <;> simp [Node.tag,Node.constant?,Constant.typeName]
  | _ => simp [Node.tag,Node.constant?,Node.className]

theorem tagTargets_maintains (plain : value.tag ≠ "list" ∧ value.tag ≠ "Constant") (id : String)
    (access : Node) : Maintains σ O (tagTargets value [.name (some id) access]) := by
  have tagged : Maintains σ O (update fun s => { s with tags := insertField id value.tag s.tags }) :=
    .update fun s ready => { ready with tags := tidy_insertField ready.tags plain }
  simp only [tagTargets,Node.id?]
  exact .ite (fun _ => .bind tagged fun _ => pure_maintains _) fun _ => pure_maintains _

theorem name_answers (id : String) : Answers (· = id) (inline (nameReference (some id))) :=
  Writes.inline (P := (· = [id])) (.emit rfl) fun _ same => by
    rw [same,String.intercalate_singleton]

theorem checkElements_answers (single : ',' ∉ id.toList) : Answers (fun _ => True) (checkElements id) := by
  have plain : Text.hasChar id ',' = false := by simpa [Text.hasChar] using single
  simp only [checkElements,plain,Bool.false_eq_true,if_false]
  exact .pure trivial

theorem qualified_free (dotless : ∀ word ∈ names, '.' ∉ word.toList) (free : id ∉ names)
    (className : String) : qualified className id ∉ names := by
  unfold qualified
  split
  · exact free
  · intro member
    exact dotless _ member (by simp)

theorem assign_maintains (free : id ∉ reservedWords) (own : id ∉ libraryNames)
    (single : ',' ∉ id.toList) (plain : value.tag ≠ "list" ∧ value.tag ≠ "Constant")
    (step : Fluent run) :
    Maintains σ IsBlock (assign [.name (some id) access] value [nameReference (some id)] run) := by
  refine .bind (tagTargets_maintains plain id access) fun _ => ?_
  refine .answer (name_answers id) fun target same => .answer step.text fun text _ => ?_
  subst same
  refine .answer (checkElements_answers single) fun _ _ => .answer .frame fun frame _ => ?_
  have reserved := qualified_free (by decide) free frame.className
  have library := qualified_free (by decide) own frame.className
  have allowed : ¬ (reservedWords.contains (qualified frame.className target) ||
      libraryNames.contains (qualified frame.className target)) = true := by
    simp [reserved,library]
  exact .ite (fun _ => .bind (introduce_maintains _) fun _ => .passing allowed .emit) fun _ =>
    .bind (pure_maintains _) fun _ => .passing allowed .emit

theorem augmentedAssign_maintains {value : Compile Unit} (known : op ≠ .matMult)
    (step : Fluent value) : Maintains σ IsBlock
      (augmentedAssign (nameReference (some id)) (.mark (.binary op)) value) := by
  refine .answer (binaryOperator_answers known) fun same is => ?_
  subst is
  exact .answer (name_answers id) fun target _ => .answer step.text fun text _ =>
    .answer (plainBinary_answers known target text) fun _ _ => .emit

theorem recordConstant_maintains (c : Constant) : Maintains σ O (recordConstant c) := by
  intro s ready
  cases functions : s.functions.reverse with
  | nil => exact ⟨(),s,by simp [recordConstant,functions],ready⟩
  | cons last earlier =>
    refine ⟨(),{ s with functions :=
      earlier.reverse ++ [{ last with constants := last.constants ++ [c] }] },?_,?_⟩
    · simp [recordConstant,functions]
    · exact { ready with functions := fun _ => by simp }

theorem spread_maintains (step : Fluent c) : Maintains σ IsBlock (spread c) := by
  obtain ⟨inside,frames,depth⟩ := σ
  intro s ready
  have inner := nested_ready ready
  obtain ⟨lines,ledger,run,_⟩ := step.run _ [] inner.tags rfl
  obtain ⟨locals,popped,length⟩ := closed_ready inner
  obtain ⟨before,out⟩ := ready.output
  refine ⟨(),_,gives_spread.mpr ⟨_,locals,before,lines.map .line,run,by simp [Code.entries?],
    popped,out,rfl⟩,?_⟩
  exact { ready with output := ⟨_,rfl⟩, depth := length }

theorem expressionStatement_maintains (value : Node) (step : Fluent run) :
    Maintains σ IsBlock (expressionStatement value run) := by
  have void : Maintains σ IsBlock (emitEntry .void) := by
    intro s ready
    obtain ⟨before,out⟩ := ready.output
    exact ⟨(),_,gives_emitEntry.mpr ⟨before,out,rfl⟩,{ ready with output := ⟨_,rfl⟩ }⟩
  have rest : Maintains σ IsBlock
      (within (fun f => { f with docstring := value.constant?.isSome }) (spread run) >>= fun _ =>
        emitEntry .void) :=
    .bind (within_leads (spread_maintains step)) fun _ => void
  unfold expressionStatement
  split
  · exact .bind (recordConstant_maintains _) fun _ => rest
  · exact rest

theorem delete_maintains (steps : ∀ c ∈ targets, Fluent c) : Maintains σ IsBlock (delete targets) :=
  .answer (inlineEach_answers steps) fun _ _ => .emit

theorem declareGlobals_maintains (names : List String) : Maintains σ O (declareGlobals names) := by
  induction names with
  | nil => exact pure_maintains _
  | cons name rest ih =>
    intro s ready
    cases levels : s.globals.levels with
    | nil => exact absurd levels ready.globals
    | cons level outer =>
      have added : s.globals.add? name = some ⟨(level ++ [name]) :: outer⟩ := by
        simp [SymbolStack.add?,levels]
      obtain ⟨_,t,run,reached⟩ := ih { s with
          globals := ⟨(level ++ [name]) :: outer⟩
          ledger := { s.ledger with exports := s.ledger.exports ++ [name] } }
        { ready with globals := by simp }
      exact ⟨(),t,by simpa [declareGlobals,added] using run,reached⟩

theorem recordReturn_maintains (text : String) (inside : σ.inside = true) :
    Maintains σ O (recordReturn text) := by
  intro s ready
  cases functions : s.functions.reverse with
  | nil => exact absurd (List.reverse_eq_nil_iff.mp functions) (ready.functions inside)
  | cons last earlier =>
    refine ⟨(),{ s with functions := earlier.reverse ++ [{ last with returns := some text }] },?_,?_⟩
    · simp [recordReturn,functions]
    · exact { ready with functions := fun _ => by simp }

theorem returnStatement_maintains (inside : σ.inside = true) (step : Fluent run) :
    Maintains σ IsBlock (returnStatement value run) := by
  have line : Maintains σ IsBlock (inline run >>= fun text => emit ("return " ++ text)) :=
    .answer step.text fun _ _ => .emit
  exact .ite (fun _ => .answer step.text fun _ _ => .bind (recordReturn_maintains _ inside) fun _ => line)
    fun _ => line

/-! ## Statements with blocks -/

theorem withoutEnds_maintains (step : Maintains σ IsBlock c) : Maintains σ IsBlock (withoutEnds c) := by
  intro s ready
  obtain ⟨_,t,run,reached⟩ := step s ready
  obtain ⟨entries,out⟩ := reached.output
  let before := (s.output.entries?.getD []).length
  refine ⟨(),{ t with output := .block (entries.eraseIdx before).dropLast },?_,
    { reached with output := ⟨_,rfl⟩ }⟩
  simp only [withoutEnds,gives_get_bind,gives_unit_bind]
  exact ⟨t,run,by simp [out,before]⟩

/-- What the steps of an else part do. -/
def Otherwise.Maintains (inside : Bool) : Otherwise → Prop
  | .nothing => True
  | .elseIf test statement => Fluent test ∧ Proceeds inside statement
  | .orElse body => ∀ c ∈ body, Proceeds inside c

theorem branch_maintains (first : Fluent test) (second : ∀ c ∈ body, Proceeds σ.inside c)
    (third : otherwise.Maintains σ.inside) : Maintains σ IsBlock (branch test body otherwise) := by
  refine .answer first.text fun _ _ => .line <| .bind (block_maintains second) fun _ => ?_
  cases otherwise with
  | nothing => exact .emit
  | elseIf test statement =>
    obtain ⟨reads,proceeds⟩ := third
    exact .answer reads.text fun _ _ => .line <|
      .bind (withoutEnds_maintains (proceeds σ.frames σ.depth)) fun _ => .emit
  | orElse body => exact .line <| .bind (block_maintains third) fun _ => .emit

theorem whileLoop_maintains (first : Fluent test) (second : ∀ c ∈ body, Proceeds σ.inside c) :
    Maintains σ IsBlock (whileLoop test body) :=
  .answer first.text fun _ _ => .line <| .bind (loopBody_maintains second) fun _ => .emit

theorem iteratesText_answers (iterNode : Node) (iter : String) :
    Answers (fun _ => True) (iteratesText iterNode iter) := by
  refine .bind (.tagOf iter) fun tag _ => ?_
  cases tag with
  | none => exact .pure trivial
  | some tag => exact .pure trivial

theorem forLoop_maintains (first : Fluent target) (second : Fluent iter)
    (third : ∀ c ∈ body, Proceeds σ.inside c) :
    Maintains σ IsBlock (forLoop iterNode target iter body) := by
  refine .answer first.text fun target _ => .answer second.text fun iter _ => ?_
  have plain : Maintains σ IsBlock (do
      emit (loopHeader (← iteratesText iterNode iter) target iter)
      loopBody body
      emit "end") :=
    .answer (iteratesText_answers iterNode iter) fun _ _ => .line <|
      .bind (loopBody_maintains third) fun _ => .emit
  intro s ready
  obtain ⟨a,t,run,reached⟩ := plain s ready
  refine ⟨a,t,?_,reached⟩
  simp only [gives_get_bind,ready.generators]
  exact run

/-- An item whose parts have texts. -/
structure WithItem.Fluent (item : WithItem) : Prop where
  context : Compile.Fluent item.context
  vars : ∀ c ∈ item.vars, Compile.Fluent c

theorem withItemLine_answers (parts : item.Fluent) : Answers (fun _ => True) (withItemLine (some item)) := by
  obtain ⟨context,vars⟩ := item
  have line (binding : String) : Answers (fun _ => True) (do return binding ++ (← inline context)) :=
    .bind parts.context.text fun _ _ => .pure trivial
  cases vars with
  | none => exact line ""
  | some vars => exact .bind (parts.vars vars rfl).text fun name _ => line ("local " ++ name ++ " = ")

theorem withStatement_maintains (first last : String)
    (parts : ∀ i ∈ items, ∃ item, i = some item ∧ item.Fluent)
    (steps : ∀ c ∈ body, Proceeds σ.inside c) :
    Maintains σ IsBlock (withStatement first last items body) := by
  have lines : ∀ c ∈ items.map withItemLine, Answers (fun _ => True) c := by
    intro c member
    obtain ⟨i,inside,rfl⟩ := List.mem_map.mp member
    obtain ⟨item,rfl,fluent⟩ := parts i inside
    exact withItemLine_answers fluent
  refine .line <| .bind (block_ends steps) fun _ => .answer (.all lines) fun texts _ => ?_
  have prepended : Maintains σ EndsInBlock (each (texts.map prepend)) := by
    refine each_maintains fun c member => ?_
    obtain ⟨text,_,rfl⟩ := List.mem_map.mp member
    exact editLast_maintains _
  exact .bind prepended fun _ => Leads.emit.ended

theorem handlerBranch_maintains (isFirst : Bool) (errorName : String) (name : Option String) :
    Maintains σ IsBlock (handlerBranch isFirst errorName name) := by
  refine .line ?_
  cases name with
  | none => exact pure_maintains _
  | some name => exact .emit

theorem handlerBody_maintains (isFirst : Bool) (steps : ∀ c ∈ handler.body, Proceeds σ.inside c) :
    Maintains σ IsBlock (handlerBody isFirst (some handler)) :=
  .ite (fun _ => .bind (handlerBranch_maintains _ _ _) fun _ => block_maintains steps) fun _ =>
    block_maintains steps

theorem handlers_maintains (chained : Bool) (position : Nat)
    (parts : ∀ h ∈ hs, ∃ handler, h = some handler ∧ ∀ c ∈ handler.body, Proceeds σ.inside c) :
    Maintains σ IsBlock (handlers chained position hs) := by
  induction hs generalizing position with
  | nil => exact pure_maintains _
  | cons h rest ih =>
    obtain ⟨handler,rfl,steps⟩ := parts h (by simp)
    have others := ih (position + 1) fun h member => parts h (by simp [member])
    exact .line <| .bind (handlerBody_maintains _ steps) fun _ => .ite (fun _ => .line others) fun _ => others

theorem tryStatement_maintains (first : ∀ c ∈ body, Proceeds σ.inside c)
    (second : ∀ h ∈ hs, ∃ handler, h = some handler ∧ ∀ c ∈ handler.body, Proceeds σ.inside c)
    (third : ∀ c ∈ finalBody, Proceeds σ.inside c) :
    Maintains σ IsBlock (tryStatement body hs finalBody) :=
  .line <| .line <| .bind (block_maintains first) fun _ => .line <|
    .bind (handlers_maintains _ 0 second) fun _ => .line <| .bind (block_maintains third) fun _ => .emit

/-! ## Definitions -/

theorem qualifiedName_ok (className name : String) :
    ∃ full, qualifiedName className (some name) = .ok full := by
  unfold qualifiedName
  split
  · exact ⟨_,rfl⟩
  · exact ⟨_,rfl⟩

theorem classDefinition_maintains (name : String) (first : ∀ c ∈ bases, Fluent c)
    (second : ∀ c ∈ body, Proceeds σ.inside c) :
    Maintains σ IsBlock (classDefinition (some .defaults) (some name) bases body) := by
  have unreturned : Config.returnsClass (some .defaults) = .ok false := rfl
  refine .answer (inlineEach_answers first) fun bases _ => .answer .frame fun frame _ => ?_
  obtain ⟨full,qualifies⟩ := qualifiedName_ok frame.className name
  refine .ite (fun _ => .bind (introduce_maintains _) fun keyword => ?_) fun _ =>
    .bind (pure_maintains _) fun keyword => ?_
  all_goals
    refine .answer (.ofExcept (P := fun _ => True) qualifies trivial) fun full _ => .line <|
      .answer (.needs _) fun _ _ => .bind (within_leads (block_ends second)) fun _ => ?_
    refine .bind (editLast_maintains _) fun _ => .ended <| .line ?_
    exact .answer (.ofExcept (P := (· = false)) unreturned rfl) fun returned no =>
      .passing (by simp [no]) (pure_maintains _)

theorem functionBody_ends (name : String) (steps : ∀ c ∈ body, Proceeds σ.inside c) :
    Leads (Ready σ IsBlock) (functionBody name body) fun _ => Ready σ EndsInBlock := by
  refine within_leads (.bind (block_ends steps) fun _ => ?_)
  intro s ready
  exact ⟨(),s,by simp [ready.generators],ready⟩

theorem prependDefaults_maintains (enough : values.length ≤ names.length)
    (steps : ∀ c ∈ values, Fluent c) : Maintains σ EndsInBlock (prependDefaults values names) := by
  induction values generalizing names with
  | nil => exact pure_maintains _
  | cons value rest ih =>
    cases names with
    | nil => simp at enough
    | cons name names =>
      exact .answer (steps value (by simp)).text fun _ _ => .bind (editLast_maintains _) fun _ =>
        ih (by simpa using enough) fun c member => steps c (by simp [member])

theorem connectDecorators_maintains (name : String) (steps : ∀ c ∈ decorators, Fluent c) :
    Maintains σ IsBlock (connectDecorators name decorators) := by
  induction decorators with
  | nil => exact pure_maintains _
  | cons decorator rest ih =>
    have others := ih fun c member => steps c (by simp [member])
    exact .answer (steps decorator (by simp)).text fun _ _ => .ite (fun _ => .line others) fun _ => others

theorem restLine_ok (remaining : rest = .absent ∨ GivenParam rest) :
    ∃ line, restLine (if rest.isAbsent then none else some rest) = .ok line := by
  rcases remaining with rfl | ⟨name,hint,comment,rfl⟩
  · exact ⟨none,rfl⟩
  · exact ⟨_,rfl⟩

theorem functionEnd_maintains {defaults : List (Compile Unit)} {given : List String} (fullName : String)
    (line : Option String) (enough : defaults.length ≤ given.length) (first : ∀ c ∈ defaults, Fluent c)
    (second : ∀ c ∈ decorators, Fluent c) :
    Leads (Ready σ EndsInBlock) (do
      match line with
      | some line => prepend line
      | none => pure ()
      prependDefaults defaults.reverse given.reverse
      emit "end"
      connectDecorators fullName decorators.reverse
      setCurrent none) fun _ => Ready σ IsBlock := by
  have current : Maintains σ IsBlock (setCurrent none) := .update fun _ ready => { ready with }
  have rest : Leads (Ready σ EndsInBlock) (prependDefaults defaults.reverse given.reverse >>= fun _ =>
      emit "end" >>= fun _ => connectDecorators fullName decorators.reverse >>= fun _ =>
        setCurrent none) fun _ => Ready σ IsBlock := by
    refine .bind (prependDefaults_maintains (by simpa using enough) fun c member =>
      first c (List.mem_reverse.mp member)) fun _ => .ended <| .line ?_
    exact .bind (connectDecorators_maintains fullName fun c member =>
      second c (List.mem_reverse.mp member)) fun _ => current
  cases line with
  | none => exact rest
  | some line => exact .bind (editLast_maintains _) fun _ => rest

theorem functionDefinition_maintains (name : String) {rest kwRest : Node}
    {posOnly regular kwOnly kwDefaults defaults : List Node} (named : ∀ n ∈ regular, GivenParam n)
    (remaining : rest = .absent ∨ GivenParam rest) (enough : values.length ≤ regular.length)
    (first : ∀ c ∈ values, Fluent c) (second : ∀ c ∈ decorators, Fluent c)
    (third : ∀ c ∈ body, Proceeds true c) :
    Maintains σ IsBlock (functionDefinition (some name)
      (.params posOnly regular rest kwOnly kwDefaults kwRest defaults) decorators body values) := by
  obtain ⟨inside,frames,depth⟩ := σ
  obtain ⟨names,length,params⟩ := paramNames_ok named
  have fits : values.length ≤ names.length := by omega
  obtain ⟨line,written⟩ := restLine_ok remaining
  -- From here on a function is known.
  have recorded : Leads (Ready ⟨inside,frames,depth⟩ IsBlock)
      (update fun s => { s with functions := s.functions ++ [⟨some name,names.map some,none,[]⟩] })
      fun _ => Ready ⟨true,frames,depth⟩ IsBlock :=
    .update fun _ ready => { ready with functions := fun _ => by simp }
  have current : Maintains ⟨true,frames,depth⟩ IsBlock (setCurrent (some name)) :=
    .update fun _ ready => { ready with }
  have left : ∀ s, Ready ⟨true,frames,depth⟩ IsBlock s → Ready ⟨inside,frames,depth⟩ IsBlock s :=
    fun _ ready => { ready with functions := fun _ => ready.functions rfl }
  refine .answer (.ofExcept (P := (· = names.map some)) params rfl) fun _ same => same ▸ ?_
  refine .bind recorded fun _ => Leads.mono ?_ (fun _ ready => ready) fun _ => left
  refine .bind current fun _ => .answer .frame fun frame _ => ?_
  refine .answer (inlineEach_answers fun c member => second c (List.mem_reverse.mp member)) fun _ _ => ?_
  obtain ⟨full,qualifies⟩ := qualifiedName_ok frame.className name
  refine .answer (.ofExcept (P := fun _ => True) qualifies trivial) fun _ _ => ?_
  refine .answer (.ofExcept (P := (· = if rest.isAbsent then none else some rest)) rfl rfl) fun _ same =>
    same ▸ ?_
  refine .answer (.ofExcept (P := (· = name)) rfl rfl) fun _ same => same ▸ ?_
  refine .ite (fun _ => .bind (pure_maintains _) fun keyword => ?_) fun _ =>
    .bind (introduce_maintains _) fun keyword => ?_
  all_goals
    refine .answer (.ofExcept (P := (· = names)) (givenNames_some names) rfl) fun _ same => same ▸ ?_
    refine .line <| .bind (functionBody_ends name third) fun _ => ?_
    exact .answer (.ofExcept (P := fun _ => True) written trivial) fun line _ =>
      functionEnd_maintains _ line fits first second

/-! ## Supported programs -/

/-- What holds of the steps of a supported node. -/
def Accepted (config : Option Config) : Role → Node → Prop
  | .expression,n => Fluent (visit config n)
  | .clause,n => (clauseOf config n).Fluent
  | .item,n => ∃ item, itemOf config n = some item ∧ item.Fluent
  | .handler inside,n => ∃ handler, handlerOf config n = some handler ∧ ∀ c ∈ handler.body, Proceeds inside c
  | .statement inside,n => Proceeds inside (visit config n) ∧ ∀ test ∈ testOf config n, Fluent test

section Rows

variable {config : Option Config} {ns : List Node}

theorem visits_fluent (parts : ∀ n ∈ ns, Accepted config .expression n) :
    ∀ c ∈ visits config ns, Fluent c := by
  rw [visits_eq_map]
  exact List.forall_mem_map.mpr parts

theorem visits_proceed (parts : ∀ n ∈ ns, Accepted config (.statement inside) n) :
    ∀ c ∈ visits config ns, Proceeds inside c := by
  rw [visits_eq_map]
  exact List.forall_mem_map.mpr fun n member => (parts n member).1

theorem clauses_fluent (parts : ∀ n ∈ ns, Accepted config .clause n) :
    ∀ c ∈ clausesOf config ns, c.Fluent := by
  rw [clausesOf_eq_map]
  exact List.forall_mem_map.mpr parts

theorem items_fluent (parts : ∀ n ∈ ns, Accepted config .item n) :
    ∀ i ∈ itemsOf config ns, ∃ item, i = some item ∧ item.Fluent := by
  induction ns with
  | nil => simp [itemsOf]
  | cons n rest ih =>
    exact List.forall_mem_cons.mpr ⟨parts n (by simp),ih fun m member => parts m (by simp [member])⟩

theorem handlers_proceed (parts : ∀ n ∈ ns, Accepted config (.handler inside) n) :
    ∀ h ∈ handlersOf config ns, ∃ handler, h = some handler ∧ ∀ c ∈ handler.body, Proceeds inside c := by
  induction ns with
  | nil => simp [handlersOf]
  | cons n rest ih =>
    exact List.forall_mem_cons.mpr ⟨parts n (by simp),ih fun m member => parts m (by simp [member])⟩

theorem otherwise_maintains (parts : ∀ n ∈ ns, Accepted config (.statement inside) n) :
    (otherwiseOf config ns).Maintains inside := by
  cases ns with
  | nil => trivial
  | cons n rest =>
    have first := parts n (by simp)
    unfold otherwiseOf
    cases tests : testOf config n with
    | some test => exact ⟨first.2 test tests,first.1⟩
    | none => exact visits_proceed parts

theorem zip_fluent (parts : ∀ n ∈ ns, Accepted config .expression n) :
    ∀ p ∈ ns.zip (visits config ns), Fluent p.2 := fun p member =>
  visits_fluent parts p.2 (List.of_mem_zip member).2

theorem length_visits : (visits config ns).length = ns.length := by
  simp [visits_eq_map]

end Rows

theorem supported_accepted (supported : Supported role n) : Accepted (some .defaults) role n := by
  induction supported with
  | name free => exact emit_fluent free
  | constant writable => exact constant_fluent writable
  | binOp known addable _ _ first second => exact binaryOperation_fluent known addable first second
  | boolOp _ parts => exact boolOperation_fluent _ (visits_fluent parts)
  | unaryOp _ part => exact unaryOperation_fluent _ part
  | compare paired _ _ first parts =>
    exact comparison_fluent (by simp [length_visits,paired]) first (zip_fluent parts)
  | ifExp _ _ _ first second third => exact conditional_fluent first second third
  | list _ parts | set _ parts => exact listDisplay_fluent (visits_fluent parts)
  | tuple _ parts => exact tupleDisplay_fluent (visits_fluent parts)
  | dict paired _ _ first second =>
    exact dictDisplay_fluent (by simp [length_visits,paired]) (visits_fluent first) (visits_fluent second)
  | lambda named _ part => exact lambda_fluent named part
  | «attribute» _ part => exact memberAccess_fluent _ part
  | subscript _ _ first second => exact subscript_fluent first second
  | listComp _ _ part parts | setComp _ _ part parts | generatorExp _ _ part parts =>
    exact comprehension_fluent (emit_lines _) (clauses_fluent parts)
      (.bind (Fluent.text part) fun _ _ => .pure trivial)
  | dictComp _ _ _ first second parts =>
    exact comprehension_fluent startDict_lines (clauses_fluent parts)
      (.bind (Fluent.text first) fun _ _ => .bind (Fluent.text second) fun _ _ => .pure trivial)
  | call free _ parts => exact call_fluent _ _ rfl (emit_fluent free) (visits_fluent parts)
  | clause _ _ _ first second parts =>
    exact ⟨⟨_,rfl,first⟩,⟨_,rfl,second⟩,⟨_,rfl,visits_fluent parts⟩⟩
  | assign free own single value part =>
    exact ⟨fun _ _ => assign_maintains free own single (tag_plain value) part,nofun⟩
  | augAssign known free _ part => exact ⟨fun _ _ => augmentedAssign_maintains known part,nofun⟩
  | exprStmt _ part => exact ⟨fun _ _ => expressionStatement_maintains _ part,nofun⟩
  | assert _ part | raise _ part => exact ⟨fun _ _ => .answer (Fluent.text part) fun _ _ => .emit,nofun⟩
  | delete _ parts => exact ⟨fun _ _ => delete_maintains (visits_fluent parts),nofun⟩
  | global => exact ⟨fun _ _ => declareGlobals_maintains _,nofun⟩
  | pass => exact ⟨fun _ _ => pure_maintains _,nofun⟩
  | breakStmt | continueStmt => exact ⟨fun _ _ => .emit,nofun⟩
  | ifStmt _ _ _ first second third =>
    refine ⟨fun _ _ => branch_maintains first (visits_proceed second) (otherwise_maintains third),?_⟩
    rintro _ ⟨⟩
    exact first
  | whileStmt _ _ first second =>
    exact ⟨fun _ _ => whileLoop_maintains first (visits_proceed second),nofun⟩
  | forStmt free _ _ first second =>
    exact ⟨fun _ _ => forLoop_maintains (emit_fluent free) first (visits_proceed second),nofun⟩
  | withStmt _ _ first second =>
    exact ⟨fun _ _ => withStatement_maintains _ _ (items_fluent first) (visits_proceed second),nofun⟩
  | plainItem _ part => exact ⟨_,rfl,part,nofun⟩
  | namedItem free _ part =>
    refine ⟨_,rfl,part,?_⟩
    rintro _ ⟨⟩
    exact emit_fluent free
  | tryStmt _ _ _ first second third =>
    exact ⟨fun _ _ => tryStatement_maintains (visits_proceed first) (handlers_proceed second)
      (visits_proceed third),nofun⟩
  | handler _ _ parts => exact ⟨_,rfl,visits_proceed parts⟩
  | classDef _ _ first second =>
    exact ⟨fun _ _ => classDefinition_maintains _ (visits_fluent first) (visits_proceed second),nofun⟩
  | functionDef named remaining enough _ _ _ first second third =>
    refine ⟨fun _ _ => functionDefinition_maintains _ named remaining ?_ (visits_fluent first)
      (visits_fluent second) (visits_proceed third),nofun⟩
    simpa [defaultsOf,length_visits] using enough
  | returnStmt _ part => exact ⟨fun _ _ => returnStatement_maintains rfl part,nofun⟩

theorem initial_ready (ledger : Ledger) :
    Ready ⟨false,.single .outermost,0⟩ (· = .block []) (State.initial ledger) where
  output := rfl
  console := rfl
  frames := rfl
  depth := rfl
  globals := by simp [State.initial,SymbolStack.new]
  tags := nofun
  generators := rfl
  functions := nofun

/-- A supported program is translated, and nothing is printed. -/
theorem supported_module_translated {body typeIgnores : List Node}
    (supported : ∀ n ∈ body, Supported (.statement false) n) (ledger : Ledger) :
    ∃ t entries, visit (some .defaults) (.module body typeIgnores) (State.initial ledger) = (.ok (),t) ∧
      t.output = .block entries ∧ t.console = .empty := by
  have parts : ∀ c ∈ visits (some .defaults) body, Proceeds false c :=
    visits_proceed fun n member => supported_accepted (supported n member)
  obtain ⟨_,t,run,reached⟩ := block_leads parts [] _ (initial_ready ledger)
  obtain ⟨entries,out⟩ := reached.output
  refine ⟨{ t with output := .block entries },entries,?_,rfl,reached.console⟩
  have last : Gives (moduleBody (visits (some .defaults) body)) (State.initial ledger) ()
      { t with output := .block entries } := by
    simp only [moduleBody,gives_unit_bind,gives_get_bind]
    exact ⟨t,run,by simp [out]⟩
  exact last

/-- A method that returns an element of what it is given, in a class. -/
def pickingClass : Node := .classDef (some "Picker") [] [] [
    .assign [.name (some "count") .absent] (.constant (.int 3) none) none,
    .functionDef false (some "pick")
      (.params [] [.param (some "self") .absent none,.param (some "xs") .absent none] .absent [] []
        .absent [.list [] .absent])
      [.ifStmt (.compare (.name (some "xs") .absent) [.mark (.compare .isIn)] [.name (some "count") .absent])
        [.returnStmt (.subscript (.name (some "xs") .absent) (.constant (.int 0) none) .absent)]
        [.exprStmt (.call (.name (some "print") .absent) [.name (some "xs") .absent] [])]]
      [] .absent none] []

theorem pickingClass_supported : Supported (.statement false) pickingClass := by
  have count : Supported .expression (.name (some "count") .absent) := .name (by decide)
  have xs : Supported .expression (.name (some "xs") .absent) := .name (by decide)
  have zero : Supported .expression (.constant (.int 0) none) := .constant (by decide)
  refine .classDef (by simp) (List.forall_mem_cons.mpr ⟨?_,List.forall_mem_singleton.mpr ?_⟩)
  · exact .assign (by decide) (by decide) (by decide) (.constant (by decide))
  refine .functionDef ?_ (.inl rfl) (by decide) (List.forall_mem_singleton.mpr (.list (by simp)))
    (by simp) (List.forall_mem_singleton.mpr (.ifStmt (.compare rfl xs ?_) ?_ ?_))
  · exact List.forall_mem_cons.mpr ⟨⟨_,_,_,rfl⟩,List.forall_mem_singleton.mpr ⟨_,_,_,rfl⟩⟩
  · exact List.forall_mem_singleton.mpr count
  · exact List.forall_mem_singleton.mpr (.returnStmt (.subscript xs zero))
  · exact List.forall_mem_singleton.mpr (.exprStmt (.call (by decide) (List.forall_mem_singleton.mpr xs)))

theorem pickingClass_translated : (∀ n ∈ [pickingClass], Supported (.statement false) n) ∧
    ∃ t entries, visit (some .defaults) (.module [pickingClass] []) (State.initial .empty) = (.ok (),t) ∧
      t.output = .block entries ∧ t.console = .empty :=
  have supported := List.forall_mem_singleton.mpr pickingClass_supported
  ⟨supported,supported_module_translated supported .empty⟩

end Compile

end LuauCompiler
