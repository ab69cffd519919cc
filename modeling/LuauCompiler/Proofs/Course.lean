import LuauCompiler.Proofs.Run
import Mathlib.Logic.Relation

/-! Which parts of a node are compiled and in which order. A run is seen through the helpers that it
asks for and the functions that it marks as generators; what happens to these is told by the turns of
the node, of which one is taken after the other. -/
namespace LuauCompiler

/-! ## Turns -/

/-- The helpers asked for, the functions marked as generators and the function at hand. -/
structure View where
  helpers : List String
  generators : List (Option String)
  current : Option String

namespace View

def ask (v : View) (helper : String) : View := { v with helpers := v.helpers ++ [helper] }

def mark (v : View) : View := { v with generators := v.generators ++ [v.current] }

/-- Asks for the helper of generators if the function is marked. -/
def settle (v : View) (name : Option String) : View :=
  if v.generators.contains name then v.ask "generator" else v

def enter (v : View) (name : Option String) : View := { v with current := name }

end View

/-- The helper of complex numbers is left out: whether it is asked for hangs on a text. -/
def State.view (s : State) : View := ⟨s.ledger.helpers.filter (· != "complex"),s.generators,s.current⟩

inductive Turn where
  | asks (helper : String)
  | yields
  /-- A node in the code at hand. -/
  | here (n : Node)
  /-- Nodes in code of their own each. -/
  | apart (ns : List Node)
  /-- Nodes one after the other in code of their own. -/
  | block (ns : List Node)
  /-- Nodes in code of their own each, and perhaps all of them once more. -/
  | repeats (ns : List Node)
  | definition (name : Option String) (decorators body defaults : List Node)

namespace Turn

def nodes : Turn → List Node
  | .asks _ | .yields => []
  | .here n => [n]
  | .apart ns | .block ns | .repeats ns => ns
  | .definition _ decorators body defaults => decorators ++ body ++ defaults

def defaults : Turn → List Node
  | .definition _ _ _ defaults => defaults
  | _ => []

def heres (ns : List Node) : List Turn := (ns.filter (!·.isAbsent)).map .here

end Turn

namespace Node

def paramDefaults : Node → List Node
  | .params _ _ _ _ _ _ defaults => defaults
  | _ => []

def valueNodes (n : Node) : List Node :=
  match n.value? with
  | some (.node value) => [value]
  | _ => []

/-- The named arguments count for a sorting only. -/
def sortNodes (func : Node) (keywords : List Node) : List Node :=
  match Compile.listMethod? func with
  | some (.sort,_) => keywords.flatMap valueNodes
  | _ => []

def callNodes (func : Node) (args keywords : List Node) : List Node := func :: args ++ sortNodes func keywords

def clauseNodes : Node → List Node
  | .clause target iter filters _ => target :: iter :: filters
  | _ => []

def itemNodes : Node → List Node
  | .withItem context vars => [vars].filter (!·.isAbsent) ++ [context]
  | _ => []

/-- The parts of an interpolated text that are no constants. -/
def isComputed (n : Node) : Bool := n.constant?.isNone

end Node

open Turn

def hintTurn : Node → Turn
  | .call func args keywords => .repeats (Node.callNodes func args keywords)
  | hint => .apart [hint]

def caseTurns (subject : Node) : Node → List Turn
  | .matchCase _ _ body => [.apart [subject],.block body]
  | _ => []

def handlerTurns : Node → List Turn
  | .handler _ _ body => [.block body]
  | _ => []

/-- An else part that starts with a branching statement goes on testing. -/
def otherwiseTurns : List Node → List Turn
  | [] => []
  | .ifStmt test body orElse :: _ => [.apart [test],.here (.ifStmt test body orElse)]
  | n :: rest => [.block (n :: rest)]

/-- Type aliases are compiled if the configuration says so. -/
def exportsTypes (config : Option Config) : Bool :=
  match Config.lookup config "luau" with
  | .ok setting => setting.isTrue
  | .error _ => false

def turns (config : Option Config) : Node → List Turn
  | .module body _ | .caseBody body => [.block body]
  | .interactive body => heres body
  | .functionDef true _ params body decorators returns _ =>
    heres [params] ++ heres body ++ heres decorators ++ heres [returns]
  | .functionDef false name params body decorators _ _ =>
    [.definition name decorators.reverse body params.paramDefaults.reverse]
  | .classDef _ bases _ body _ => [.apart bases,.asks "class",.block body]
  | .returnStmt value => [.apart [value,value]]
  | .delete targets => [.apart targets]
  | .assign targets value _ => [.apart (targets.take 1 ++ [value])]
  | .augAssign target _ value => [.apart [target,value]]
  | .annAssign target hint value _ => [.apart [target],.apart [value],hintTurn hint]
  | .forStmt true target iter body orElse _ =>
    heres [target] ++ heres [iter] ++ heres body ++ heres orElse
  | .forStmt false target iter body _ _ => [.apart [target],.apart [iter],.block body]
  | .whileStmt test body _ => [.apart [test],.block body]
  | .ifStmt test body orElse => [.apart [test],.block body] ++ otherwiseTurns orElse
  | .withStmt _ items body _ => [.block body,.apart (items.flatMap Node.itemNodes)]
  | .matchStmt subject cases => cases.flatMap (caseTurns subject)
  | .tryStmt true body handlers orElse finalBody =>
    heres body ++ heres handlers ++ heres orElse ++ heres finalBody
  | .tryStmt false body handlers _ finalBody =>
    [.block body] ++ handlers.flatMap handlerTurns ++ [.block finalBody]
  | .boolOp _ ns | .set ns | .list ns _ | .tuple ns _ => [.apart ns]
  | .binOp left _ right => [.apart [left,right]]
  | .ifExp test body orElse => [.apart [test,body,orElse]]
  | .dict keys values => [.apart keys,.apart values,.asks "dict",.asks "dict"]
  | .listComp elt clauses | .setComp elt clauses | .generatorExp elt clauses =>
    [.apart (clauses.flatMap Node.clauseNodes ++ [elt])]
  | .dictComp key value clauses =>
    [.asks "dict",.asks "dict",.apart (clauses.flatMap Node.clauseNodes ++ [key,value])]
  | .yield value => [.yields,.apart [value]]
  | .compare left ops comparators => [.apart (left :: comparators.take ops.length)]
  | .call func args keywords => [.apart (Node.callNodes func args keywords)]
  | .joinedStr values => [.apart (values.filter Node.isComputed)]
  | .subscript value slice _ => [.apart [slice,value]]
  | .slice lower upper step => [.apart ([lower,upper,step].filter (!·.isAbsent))]
  | .typeAlias _ _ value => if exportsTypes config then [.apart [value]] else []
  | .expression n | .await n | .param _ n _ | .keyword _ n => heres [n]
  | .namedExpr n m | .withItem n m => heres [n] ++ heres [m]
  | .clause target iter filters _ => heres [target] ++ heres [iter] ++ heres filters
  | .handler type _ body => heres [type] ++ heres body
  | .params posOnly regular rest kwOnly kwDefaults kwRest defaults =>
    heres posOnly ++ heres regular ++ heres [rest] ++ heres kwOnly ++ heres kwDefaults ++
      heres [kwRest] ++ heres defaults
  | .matchCase pattern guard body => heres [pattern] ++ heres [guard] ++ heres body
  | .raise n _ | .assert n _ | .exprStmt n | .unaryOp _ n | .lambda _ n | .yieldFrom n
  | .formattedValue n _ _ | .attribute n _ _ | .starred n _ | .matchValue n | .matchAs n _
  | .patternOf n | .patternKeyword n | .index n => [.apart [n]]
  | _ => []

/-- The nodes that are compiled for a node. -/
def compiledParts (config : Option Config) (n : Node) : List Node := (turns config n).flatMap Turn.nodes

/-- The node is compiled in the course of another one. -/
def Reaches (config : Option Config) : Node → Node → Prop :=
  Relation.ReflTransGen fun n m => m ∈ compiledParts config n

/-! ## Parts are smaller -/

section

variable {m n : Node} {ns : List Node} {turn : Turn}

@[grind →] theorem size_of_mem (member : m ∈ ns) : sizeOf m < sizeOf ns := List.sizeOf_lt_of_mem member

@[grind →] theorem mem_of_heres (inside : turn ∈ heres ns) (part : m ∈ turn.nodes) : m ∈ ns := by
  obtain ⟨n,found,rfl⟩ := List.mem_map.mp inside
  rw [List.mem_singleton.mp part]
  exact (List.mem_filter.mp found).1

@[grind →] theorem size_of_value (part : m ∈ n.valueNodes) : sizeOf m < sizeOf n := by
  cases n <;> simp [Node.valueNodes,Node.value?] at part ⊢ <;> subst part <;> omega

@[grind →] theorem size_of_clause (part : m ∈ n.clauseNodes) : sizeOf m < sizeOf n := by
  cases n <;> simp [Node.clauseNodes] at part ⊢
  grind

@[grind →] theorem size_of_item (part : m ∈ n.itemNodes) : sizeOf m < sizeOf n := by
  cases n <;> simp [Node.itemNodes] at part ⊢
  grind

@[grind →] theorem size_of_default (part : m ∈ n.paramDefaults) : sizeOf m < sizeOf n := by
  cases n <;> simp [Node.paramDefaults] at part ⊢
  grind

@[grind →] theorem size_of_sorting (part : m ∈ Node.sortNodes n ns) : sizeOf m < sizeOf ns := by
  unfold Node.sortNodes at part
  split at part
  · grind
  · cases part

@[grind →] theorem size_of_hint (part : m ∈ (hintTurn n).nodes) : sizeOf m ≤ sizeOf n := by
  cases n with
  | call func args keywords =>
    simp only [hintTurn,Turn.nodes,Node.callNodes,Node.call.sizeOf_spec] at part ⊢
    grind
  | _ => exact Nat.le_of_eq (congrArg sizeOf (List.mem_singleton.mp part))

@[grind →] theorem size_of_case (inside : turn ∈ caseTurns subject n) (part : m ∈ turn.nodes) :
    m = subject ∨ sizeOf m < sizeOf n := by
  cases n <;> simp [caseTurns] at inside ⊢
  grind [Turn.nodes]

@[grind →] theorem size_of_handler (inside : turn ∈ handlerTurns n) (part : m ∈ turn.nodes) :
    sizeOf m < sizeOf n := by
  cases n <;> simp [handlerTurns] at inside ⊢
  grind [Turn.nodes]

@[grind →] theorem size_of_otherwise (inside : turn ∈ otherwiseTurns ns) (part : m ∈ turn.nodes) :
    sizeOf m < sizeOf ns := by
  unfold otherwiseTurns at inside
  split at inside <;> simp at inside ⊢ <;> grind [Turn.nodes]

theorem smaller_of_part (part : m ∈ compiledParts config n) : sizeOf m < sizeOf n := by
  obtain ⟨turn,inside,part⟩ := List.mem_flatMap.mp part
  cases n with
  | functionDef isAsync | forStmt isAsync => cases isAsync <;> simp [turns] at inside ⊢ <;> grind [Turn.nodes]
  | tryStmt isStar => cases isStar <;> simp [turns] at inside ⊢ <;> grind [Turn.nodes]
  | _ => simp [turns] at inside ⊢ <;> grind [Turn.nodes,Node.callNodes]

end

namespace Compile

/-! ## Courses -/

def Inner (config : Option Config) (ns : List Node) (v w : View) : Prop :=
  ∃ s t, Gives (each (visits config ns)) s () t ∧ s.view = v ∧ w = t.view.enter v.current

def Inners (config : Option Config) : List Node → View → View → Prop
  | [], v, w => w = v
  | n :: rest, v, w => ∃ x, Inner config [n] v x ∧ Inners config rest x w

def Closed (config : Option Config) (decorators defaults : List Node) (v w : View) : Prop :=
  ∃ x, Inners config defaults v x ∧ ∃ y, Inners config decorators x y ∧ w = y.enter none

def Bodied (config : Option Config) (name : Option String) (decorators body defaults : List Node)
    (v w : View) : Prop :=
  ∃ x, Inner config body v x ∧ Closed config decorators defaults (x.settle name) w

/-- The turn is taken from one view to another. -/
def Taken (config : Option Config) : Turn → View → View → Prop
  | .asks helper, v, w => w = v.ask helper
  | .yields, v, w => w = v.mark
  | .here n, v, w => ∃ s t, Gives (visit config n) s () t ∧ s.view = v ∧ w = t.view
  | .apart ns, v, w => Inners config ns v w
  | .block ns, v, w => Inner config ns v w
  | .repeats ns, v, w => ∃ x, Inners config ns v x ∧ (w = x ∨ Inners config ns x w)
  | .definition name decorators body defaults, v, w =>
    ∃ x, Inners config decorators (v.enter name) x ∧ Bodied config name decorators body defaults x w

def Course (config : Option Config) : List Turn → View → View → Prop
  | [], v, w => w = v
  | turn :: rest, v, w => ∃ x, Taken config turn v x ∧ Course config rest x w

structure Takes {α : Type} (config : Option Config) (ns : List Node) (c : Compile α) : Prop where
  run : ∀ s a t, Gives c s a t → Inners config ns s.view t.view

/-- The step takes the turns. -/
structure Traces {α : Type} (config : Option Config) (ts : List Turn) (c : Compile α) : Prop where
  run : ∀ s a t, Gives c s a t → Course config ts s.view t.view

theorem inners_append (ns ms : List Node) :
    Inners config (ns ++ ms) v w ↔ ∃ x, Inners config ns v x ∧ Inners config ms x w := by
  induction ns generalizing v with
  | nil => simp [Inners]
  | cons n rest ih => simp only [List.cons_append,Inners,ih]; grind

theorem course_append (ts us : List Turn) :
    Course config (ts ++ us) v w ↔ ∃ x, Course config ts v x ∧ Course config us x w := by
  induction ts generalizing v with
  | nil => simp [Course]
  | cons t rest ih => simp only [List.cons_append,Course,ih]; grind

theorem inners_current (taken : Inners config ns v w) : w.current = v.current := by
  induction ns generalizing v with
  | nil => rw [taken]
  | cons n rest ih =>
    obtain ⟨x,⟨s,t,-,-,rfl⟩,later⟩ := taken
    have kept := ih later
    exact kept

namespace Takes

variable {all : List Node}

theorem pure (a : α) : Takes config [] (Pure.pure a) := by
  refine ⟨fun s b t run => ?_⟩
  obtain ⟨-,rfl⟩ := gives_pure.mp run
  rfl

theorem ofExcept (e : Except Failure α) : Takes config [] (Compile.ofExcept e) := by
  refine ⟨fun s a t run => ?_⟩
  obtain ⟨-,rfl⟩ := gives_ofExcept.mp run
  rfl

theorem update (same : ∀ s, (change s).view = s.view) : Takes config [] (Compile.update change) := by
  refine ⟨fun s a t run => ?_⟩
  rw [gives_update.mp run]
  exact same s

theorem bind (first : Takes config ns c) (rest : ∀ a, Takes config ms (f a)) (same : ns ++ ms = all) :
    Takes config all (c >>= f) := by
  refine ⟨fun s b t run => ?_⟩
  obtain ⟨a,u,front,back⟩ := gives_bind.mp run
  rw [← same,inners_append]
  exact ⟨u.view,first.run s a u front,(rest a).run u b t back⟩

theorem quiet (first : Takes config ns c) (rest : ∀ a, Takes config [] (f a)) : Takes config ns (c >>= f) :=
  first.bind rest (List.append_nil ns)

theorem after (first : Takes config [] c) (rest : ∀ a, Takes config ms (f a)) : Takes config ms (c >>= f) :=
  first.bind rest rfl

theorem ask {f : State → Compile β} (rest : ∀ s, Takes config ns (f s)) : Takes config ns (get >>= f) :=
  ⟨fun s b t run => (rest s).run s b t (gives_get_bind.mp run)⟩

theorem within (step : Takes config ns c) : Takes config ns (Compile.within change c) := by
  refine ⟨fun s a t run => ?_⟩
  obtain ⟨u,frames,inner,-,rfl⟩ := gives_within.mp run
  have taken := step.run _ a u inner
  exact taken

theorem inline {c : Compile Unit} (step : Takes config ns c) : Takes config ns (Compile.inline c) := by
  refine ⟨fun s text t run => ?_⟩
  obtain ⟨u,lines,inner,-,-,rfl⟩ := gives_inline.mp run
  have taken := step.run _ () u inner
  have kept : u.view.current = s.current := inners_current taken
  have same : ({ u with output := s.output,current := s.current } : State).view = u.view := by
    simp only [State.view] at kept ⊢
    rw [kept]
  rw [same]
  exact taken

theorem traces (step : Takes config ns c) : Traces config [.apart ns] c :=
  ⟨fun s a t run => ⟨t.view,step.run s a t run,rfl⟩⟩

end Takes

namespace Traces

variable {all : List Turn}

theorem of_quiet (step : Takes config [] c) : Traces config [] c := ⟨fun s a t run => step.run s a t run⟩

theorem bind (first : Traces config ts c) (rest : ∀ a, Traces config us (f a))
    (same : ts ++ us = all) : Traces config all (c >>= f) := by
  refine ⟨fun s b t run => ?_⟩
  obtain ⟨a,u,front,back⟩ := gives_bind.mp run
  rw [← same,course_append]
  exact ⟨u.view,first.run s a u front,(rest a).run u b t back⟩

theorem after (first : Takes config [] c) (rest : ∀ a, Traces config us (f a)) : Traces config us (c >>= f) :=
  (of_quiet first).bind rest rfl

theorem ask {f : State → Compile β} (rest : ∀ s, Traces config ts (f s)) : Traces config ts (get >>= f) :=
  ⟨fun s b t run => (rest s).run s b t (gives_get_bind.mp run)⟩

theorem ite [Decidable p] (yes : Traces config ts c) (no : Traces config ts d) :
    Traces config ts (if p then c else d) := by
  split
  · exact yes
  · exact no

theorem within (step : Traces config ts c) : Traces config ts (Compile.within change c) := by
  refine ⟨fun s a t run => ?_⟩
  obtain ⟨u,frames,inner,-,rfl⟩ := gives_within.mp run
  have taken := step.run _ a u inner
  exact taken

end Traces

/-- The step does not come to an end. -/
structure Stops {α : Type} (c : Compile α) : Prop where
  never : ∀ s a t, ¬ Gives c s a t

namespace Stops

theorem fail (e : Failure) : Stops (Compile.fail e : Compile α) := ⟨fun _ _ _ => gives_fail⟩

theorem first (stops : Stops c) : Stops (c >>= f) := by
  refine ⟨fun s b t run => ?_⟩
  obtain ⟨a,u,front,-⟩ := gives_bind.mp run
  exact stops.never s a u front

theorem later (stops : ∀ a, Stops (f a)) : Stops (c >>= f) := by
  refine ⟨fun s b t run => ?_⟩
  obtain ⟨a,u,-,back⟩ := gives_bind.mp run
  exact (stops a).never u b t back

theorem inline {c : Compile Unit} (stops : Stops c) : Stops (Compile.inline c) := by
  refine ⟨fun s text t run => ?_⟩
  obtain ⟨u,_,inner,-⟩ := gives_inline.mp run
  exact stops.never _ () u inner

theorem takes (stops : Stops c) : Takes config ns c := ⟨fun s a t run => (stops.never s a t run).elim⟩

theorem traces (stops : Stops c) : Traces config ts c := ⟨fun s a t run => (stops.never s a t run).elim⟩

end Stops

/-! ## Steps that compile nothing -/

theorem emitEntries_takes (entries : List Code) : Takes config [] (emitEntries entries) := by
  refine ⟨fun s a t run => ?_⟩
  obtain ⟨before,-,rfl⟩ := gives_emitEntries.mp run
  rfl

theorem emit_takes (text : String) : Takes config [] (emit text) := emitEntries_takes _

theorem introduce_takes (name : Option String) : Takes config [] (introduce name) := by
  refine ⟨fun s keyword t run => ?_⟩
  rcases gives_introduce.mp run with ⟨-,-,rfl⟩ | ⟨-,-,locals,-,rfl⟩ <;> rfl

theorem editLast_takes (change : List Code → List Code) : Takes config [] (editLast change) := by
  refine ⟨fun s a t run => ?_⟩
  obtain ⟨before,body,-,rfl⟩ := gives_editLast.mp run
  rfl

theorem declareGlobals_takes (names : List String) : Takes config [] (declareGlobals names) := by
  refine ⟨fun s _ t run => ?_⟩
  obtain ⟨_,rfl⟩ := declareGlobals_keeps run
  rfl

theorem silent_takes (step : Silent c) : Takes config [] c := by
  refine ⟨fun s _ t run => ?_⟩
  obtain ⟨_,_,_,rfl,-⟩ := step s t run
  rfl

theorem frame_takes : Takes config [] frame := .ask fun _ => .pure _

theorem tagOf_takes (name : String) : Takes config [] (tagOf name) := .ask fun _ => .pure _

theorem needs_traces (other : helper ≠ "complex") : Traces config [.asks helper] (needs helper) := by
  refine ⟨fun s a t run => ?_⟩
  rw [gives_update.mp run]
  refine ⟨s.view.ask helper,rfl,?_⟩
  simp [Course,State.view,Ledger.need,View.ask,other]

theorem needs_complex_takes : Takes config [] (needs "complex") :=
  .update fun s => by simp [State.view,Ledger.need]

/-! ## Parts -/

section

variable (config : Option Config)

theorem visit_here (n : Node) : Traces config [.here n] (visit config n) :=
  ⟨fun s _ t run => ⟨t.view,⟨s,t,run,rfl,rfl⟩,rfl⟩⟩

theorem inline_takes (n : Node) : Takes config [n] (inline (visit config n)) := by
  refine ⟨fun s text t run => ?_⟩
  obtain ⟨u,lines,inner,-,-,rfl⟩ := gives_inline.mp run
  refine ⟨_,⟨{ s with output := .block [] },u,?_,rfl,?_⟩,rfl⟩
  · simpa [visits] using inner
  · rfl

theorem block_traces (ns : List Node) : Traces config [.block ns] (block (visits config ns)) := by
  refine ⟨fun s a t run => ?_⟩
  obtain ⟨u,locals,before,inner,-,-,rfl⟩ := gives_block.mp run
  exact ⟨_,⟨_,u,inner,rfl,rfl⟩,rfl⟩

theorem spread_takes (n : Node) : Takes config [n] (spread (visit config n)) := by
  refine ⟨fun s a t run => ?_⟩
  obtain ⟨u,locals,before,entries,inner,-,-,-,rfl⟩ := gives_spread.mp run
  refine ⟨_,⟨{ s with locals := s.locals.push,output := .block [] },u,?_,rfl,rfl⟩,rfl⟩
  simpa [visits] using inner

theorem defaultsOf_reverse (params : Node) :
    (defaultsOf config params).reverse = visits config params.paramDefaults.reverse := by
  cases params <;> first | exact visits_reverse config _ | rfl

end

end Compile

end LuauCompiler
