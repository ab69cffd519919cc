import LuauCompiler.Proofs.LoopForms
import LuauCompiler.Proofs.Stability

/-! Two runs in step. The second starts from a state that knows further local names and further
generators, and is like the first in all else that has a say in the code. As long as neither the names
nor the generators are asked for, the runs give the same values and add the same code. -/
namespace LuauCompiler

/-! ## States -/

/-- The part of a state that has a say in the code. -/
structure Outlook where
  frames : Frames Frame
  tags : List (String × String)
  current : Option String
  loops : Nat
  locals : SymbolStack (Option String)
  generators : List (Option String)

def State.outlook (s : State) : Outlook := ⟨s.frames,s.tags,s.current,s.ledger.loops,s.locals,s.generators⟩

/-- What one state has over another: local names and marks of generators. -/
structure Lead where
  names : Option String → Prop
  marks : Option String → Prop

/-- The second state is ahead of the first by the lead. -/
structure Ahead (lead : Lead) (s t : Outlook) : Prop where
  frames : t.frames = s.frames
  tags : t.tags = s.tags
  current : t.current = s.current
  loops : t.loops = s.loops
  locals : ∀ name, t.locals.knows name = true ↔ s.locals.knows name = true ∨ lead.names name
  generators : ∀ name, name ∈ t.generators ↔ name ∈ s.generators ∨ lead.marks name

namespace Ahead

theorem knows (ahead : Ahead lead s t) (other : ¬ lead.names name) :
    t.locals.knows name = s.locals.knows name := by
  rw [Bool.eq_iff_iff,ahead.locals,or_iff_left other]

theorem marked (ahead : Ahead lead s t) (other : ¬ lead.marks name) :
    t.generators.contains name = s.generators.contains name := by
  rw [Bool.eq_iff_iff,List.contains_iff_mem,List.contains_iff_mem,ahead.generators,or_iff_left other]

theorem push (ahead : Ahead lead s t) :
    Ahead lead { s with locals := s.locals.push } { t with locals := t.locals.push } := by
  refine { ahead with locals := fun name => ?_ }
  rw [SymbolStack.knows_push,SymbolStack.knows_push]
  exact ahead.locals name

theorem mark (ahead : Ahead lead s t) (marks : List (Option String)) :
    Ahead lead { s with generators := s.generators ++ marks }
      { t with generators := t.generators ++ marks } := by
  refine { ahead with generators := fun name => ?_ }
  simp only [List.mem_append,ahead.generators name]
  exact or_right_comm

end Ahead

namespace Compile

variable {α : Type} {config : Option Config} {lead : Lead} {c : String}

variable {e : Node} {body : List Node}

/-- The second state is ahead of the first, and the same was emitted behind what each had. -/
structure InStep (lead : Lead) (before earlier : List Code) (s t : State) : Prop where
  ahead : Ahead lead s.outlook t.outlook
  code : ∃ more, s.output = .block (before ++ more) ∧ t.output = .block (earlier ++ more)

/-- From states in step, under the class, the step gives the same value and leaves states in step. -/
structure Agrees (lead : Lead) (c : String) (x : Compile α) : Prop where
  run : ∀ before earlier s t a b u v, IsOpen before → IsOpen earlier → InStep lead before earlier s t →
    s.frames.top.className = c → Gives x s a u → Gives x t b v →
    a = b ∧ InStep lead before earlier u v ∧ u.frames = s.frames

namespace Agrees

theorem given (first : Agrees lead c x) (rest : ∀ a, (∃ u v, Gives x u a v) → Agrees lead c (f a)) :
    Agrees lead c (x >>= f) := by
  refine ⟨fun before earlier s t a b u v free clear step under run run' => ?_⟩
  obtain ⟨d,w,ran,run⟩ := gives_bind.mp run
  obtain ⟨e,y,ran',run'⟩ := gives_bind.mp run'
  obtain ⟨rfl,inner,frames⟩ := first.run before earlier s t d e w y free clear step under ran ran'
  obtain ⟨same,last,kept⟩ := (rest d ⟨s,w,ran⟩).run before earlier w y a b u v free clear
    inner (frames ▸ under) run run'
  exact ⟨same,last,kept.trans frames⟩

theorem bind (first : Agrees lead c x) (rest : ∀ a, Agrees lead c (f a)) : Agrees lead c (x >>= f) :=
  first.given fun a _ => rest a

theorem stops (never : ∀ s a t, ¬ Gives x s a t) : Agrees lead c x :=
  ⟨fun _ _ s _ a _ u _ _ _ _ _ run _ => (never s a u run).elim⟩

theorem silent (a : α) (same : ∀ s b t, Gives x s b t →
    b = a ∧ t.outlook = s.outlook ∧ t.output = s.output) : Agrees lead c x := by
  refine ⟨fun before earlier s t b d u v _ _ step _ run run' => ?_⟩
  obtain ⟨rfl,look,out⟩ := same s b u run
  obtain ⟨rfl,look',out'⟩ := same t d v run'
  refine ⟨rfl,⟨?_,?_⟩,congrArg Outlook.frames look⟩
  · rw [look,look']
    exact step.ahead
  · rw [out,out']
    exact step.code

theorem pure (a : α) : Agrees lead c (Pure.pure a) := .silent a fun _ _ _ run => by
    obtain ⟨rfl,rfl⟩ := gives_pure.mp run
    exact ⟨rfl,rfl,rfl⟩

theorem ofExcept (e : Except Failure α) : Agrees lead c (Compile.ofExcept e) := by
  cases e with
  | ok a => exact pure a
  | error e => exact stops fun _ _ _ => gives_fail

theorem ite [Decidable p] (yes : p → Agrees lead c x) (no : ¬p → Agrees lead c y) :
    Agrees lead c (if p then x else y) := by
  split <;> rename_i h
  · exact yes h
  · exact no h

theorem ask {f : State → Compile β} (same : ∀ s t, Ahead lead s.outlook t.outlook → f s = f t)
    (rest : ∀ s, s.frames.top.className = c → Agrees lead c (f s)) : Agrees lead c (get >>= f) := by
  refine ⟨fun before earlier s t a b u v free clear step under run run' => ?_⟩
  rw [gives_get_bind] at run run'
  rw [← same s t step.ahead] at run'
  exact (rest s under).run before earlier s t a b u v free clear step under run run'

theorem frame {f : Frame → Compile β} (rest : ∀ top, top.className = c → Agrees lead c (f top)) :
    Agrees lead c (Compile.frame >>= f) :=
  ask (f := fun s => f s.frames.top) (fun s t ahead => by rw [show t.frames = s.frames from ahead.frames])
    fun s under => rest _ under

theorem change (moves : ∀ s t, Ahead lead s.outlook t.outlook →
      Ahead lead (g s).outlook (g t).outlook) (frames : ∀ s, (g s).frames = s.frames)
    (output : ∀ s, (g s).output = s.output) : Agrees lead c (update g) := by
  refine ⟨fun before earlier s t a b u v _ _ step _ run run' => ?_⟩
  obtain rfl := gives_update.mp run
  obtain rfl := gives_update.mp run'
  refine ⟨rfl,⟨moves s t step.ahead,?_⟩,frames s⟩
  rw [output,output]
  exact step.code

theorem emitEntries (entries : List Code) : Agrees lead c (Compile.emitEntries entries) := by
  refine ⟨fun before earlier s t a b u v _ _ step _ run run' => ?_⟩
  obtain ⟨more,out,out'⟩ := step.code
  obtain ⟨all,read,rfl⟩ := gives_emitEntries.mp run
  obtain ⟨all',read',rfl⟩ := gives_emitEntries.mp run'
  obtain rfl := Code.block.inj (out.symm.trans read)
  obtain rfl := Code.block.inj (out'.symm.trans read')
  exact ⟨rfl,⟨step.ahead,more ++ entries,by simp,by simp⟩,rfl⟩

theorem emit (text : String) : Agrees lead c (Compile.emit text) := emitEntries _

theorem editLast (change : List Code → List Code) : Agrees lead c (Compile.editLast change) := by
  refine ⟨fun before earlier s t a b u v free clear step _ run run' => ?_⟩
  obtain ⟨more,out,out'⟩ := step.code
  obtain ⟨others,body,rfl,rfl⟩ := editLast_behind free out run
  obtain ⟨others',body',same,rfl⟩ := editLast_behind clear out' run'
  obtain ⟨rfl,single⟩ := List.append_inj' same rfl
  cases List.singleton_inj.mp single
  exact ⟨rfl,⟨step.ahead,_,rfl,rfl⟩,rfl⟩

theorem within {change : Frame → Frame} (under : ∀ f, f.className = c → (change f).className = d)
    (inside : Agrees lead d x) : Agrees lead c (Compile.within change x) := by
  refine ⟨fun before earlier s t a b u v free clear step outside run run' => ?_⟩
  obtain ⟨w,frames,inner,popped,rfl⟩ := gives_within.mp run
  obtain ⟨y,frames',inner',popped',rfl⟩ := gives_within.mp run'
  have same : t.frames = s.frames := step.ahead.frames
  have start : InStep lead before earlier { s with frames := s.frames.push change }
      { t with frames := t.frames.push change } :=
    ⟨{ step.ahead with frames := congrArg (Frames.push · change) same },step.code⟩
  obtain ⟨rfl,last,kept⟩ := inside.run before earlier _ _ a b w y free clear start
    (under _ outside) inner inner'
  have here : frames = s.frames := by
    rw [kept] at popped
    exact (Option.some.inj popped).symm
  have there : frames' = t.frames := by
    rw [show y.frames = w.frames from last.ahead.frames,kept,← same] at popped'
    exact (Option.some.inj popped').symm
  subst here there
  exact ⟨rfl,⟨{ last.ahead with frames := same },last.code⟩,rfl⟩

theorem inline {x : Compile Unit} (inside : Agrees lead c x) : Agrees lead c (Compile.inline x) := by
  refine ⟨fun before earlier s t a b u v _ _ step under run run' => ?_⟩
  obtain ⟨w,lines,inner,read,rfl,rfl⟩ := gives_inline.mp run
  obtain ⟨y,lines',inner',read',rfl,rfl⟩ := gives_inline.mp run'
  have start : InStep lead [] [] { s with output := .block [] } { t with output := .block [] } :=
    ⟨step.ahead,[],rfl,rfl⟩
  obtain ⟨-,⟨ahead,more,out,out'⟩,frames⟩ := inside.run [] [] _ _ () () w y isOpen_nil isOpen_nil start
    under inner inner'
  rw [out] at read
  rw [out',read] at read'
  cases read'
  exact ⟨rfl,⟨{ ahead with current := step.ahead.current },step.code⟩,frames⟩

theorem each (steps : ∀ x ∈ xs, Agrees lead c x) : Agrees lead c (Compile.each xs) := by
  induction xs with
  | nil => exact .pure _
  | cons x rest ih =>
    obtain ⟨first,later⟩ := List.forall_mem_cons.mp steps
    exact .bind first fun _ => ih later

theorem introduce (other : ¬ lead.names name) : Agrees lead c (Compile.introduce name) := by
  refine ⟨fun before earlier s t a b u v _ _ step _ run run' => ?_⟩
  have same : t.locals.knows name = s.locals.knows name := step.ahead.knows other
  rcases gives_introduce.mp run with ⟨known,rfl,rfl⟩ | ⟨unknown,rfl,locals,added,rfl⟩ <;>
    rcases gives_introduce.mp run' with ⟨known',rfl,rfl⟩ | ⟨unknown',rfl,locals',added',rfl⟩
  · exact ⟨rfl,step,rfl⟩
  · rw [same,known] at unknown'
    cases unknown'
  · rw [same,unknown] at known'
    cases known'
  · have after (other : Option String) :
        locals'.knows other = true ↔ locals.knows other = true ∨ lead.names other := by
      have before : t.locals.knows other = true ↔ s.locals.knows other = true ∨ lead.names other :=
        step.ahead.locals other
      rw [SymbolStack.knows_add added,SymbolStack.knows_add added',before,or_assoc]
    exact ⟨rfl,⟨{ step.ahead with locals := after },step.code⟩,rfl⟩

end Agrees

theorem Agrees.repeats (repeats : Repeats x) : Agrees lead c x := by
  refine ⟨fun before earlier s t a b u v _ _ step _ run run' => ?_⟩
  obtain ⟨more,out,out'⟩ := step.code
  obtain ⟨g,again⟩ := repeats.again s a u (.refl out) run
  obtain ⟨-,rfl⟩ := Gives.unique run (again s (.refl out))
  have alike : s.Resembles t := ⟨step.ahead.frames,step.ahead.tags,step.ahead.current,_,out'⟩
  obtain ⟨rfl,rfl⟩ := Gives.unique run' (again t alike)
  refine ⟨rfl,⟨step.ahead.mark g.generators,more ++ g.entries,?_,?_⟩,rfl⟩
  · simp [State.gaining,out,Code.append?]
  · simp [State.gaining,out',Code.append?]

theorem expression_agrees (expr : IsExpr e) : Agrees lead c (visit config e) :=
  .repeats (visit_repeats config e (phrase_isStable expr))

theorem inline_agrees (expr : IsExpr e) : Agrees lead c (inline (visit config e)) :=
  .inline (expression_agrees expr)

theorem agrees_flow : StatementFlow config fun ns x => (∀ e ∈ ns, IsExpr e) → Agrees lead c x where
  pure a _ := .pure a
  tagOf name _ := .repeats (.tagOf name)
  frame _ := .repeats .frame
  stops stops _ := .stops stops.never
  append first rest exprs := by
    rw [List.forall_mem_append] at exprs
    exact .bind (first exprs.1) fun a => rest a exprs.2
  emit text _ := .emit text
  void _ := .emitEntries _
  complex _ := .repeats (.needs _)
  inline n exprs := inline_agrees (exprs n (by simp))
  tag name kind _ := .change
    (fun s t ahead => { ahead with tags := congrArg (insertField name kind) ahead.tags })
    (fun _ => rfl) fun _ => rfl
  silent step _ := .silent () fun s _ t run => by
    obtain ⟨_,_,_,rfl,-⟩ := step s t run
    exact ⟨rfl,rfl,rfl⟩
  prepend _ _ := .editLast _

theorem agrees_graded : GradedFlow () (fun _ _ => ()) fun _ x => Agrees lead c x where
  one_join _ := rfl
  join_one _ := rfl
  pure := .pure
  stops _ stops := .stops stops.never
  bind first rest := first.bind rest
  emit := .emit

theorem Agrees.idle (step : Idle x) : Agrees lead c x := (@agrees_flow none lead c).idle step (by simp)

theorem block_agrees (row : Agrees lead c (each (visits config body))) :
    Agrees lead c (block (visits config body)) := by
  refine ⟨fun before earlier s t a b u v _ _ step under run run' => ?_⟩
  obtain ⟨more,out,out'⟩ := step.code
  obtain ⟨w,all,inner,-,read,rfl⟩ := block_run run
  obtain ⟨y,all',inner',-,read',rfl⟩ := block_run run'
  obtain rfl := Code.block.inj (out.symm.trans read)
  obtain rfl := Code.block.inj (out'.symm.trans read')
  have start : InStep lead [] [] { s with locals := s.locals.push, output := .block [] }
      { t with locals := t.locals.push, output := .block [] } := ⟨step.ahead.push,[],rfl,rfl⟩
  obtain ⟨-,⟨ahead,inside,filled,filled'⟩,frames⟩ := row.run [] [] _ _ () () w y isOpen_nil isOpen_nil
    start under inner inner'
  refine ⟨rfl,⟨{ ahead with current := step.ahead.current, locals := step.ahead.locals },
    more ++ [.block inside],?_,?_⟩,frames⟩
  · rw [filled]
    simp
  · rw [filled']
    simp

theorem loopBody_agrees (row : Agrees lead c (each (visits config body))) :
    Agrees lead c (loopBody (visits config body)) := by
  have counted : Agrees lead c (update fun s => { s with ledger := s.ledger.addLoop }) :=
    .change (fun s t ahead => { ahead with loops := congrArg (· + 1) ahead.loops }) (fun _ => rfl)
      fun _ => rfl
  have label : Agrees lead c (do return (← get).ledger.loopLabel) := by
    refine .ask (fun s t ahead => ?_) fun _ _ => .pure _
    have same : t.ledger.loops = s.ledger.loops := ahead.loops
    simp [Ledger.loopLabel,same]
  exact .bind (.bind counted fun _ => label) fun label => .within (fun _ same => same) (block_agrees row)

theorem spread_agrees (expr : IsExpr e) : Agrees lead c (spread (visit config e)) := by
  refine ⟨fun before earlier s t a b u v _ _ step under run run' => ?_⟩
  obtain ⟨more,out,out'⟩ := step.code
  obtain ⟨w,locals,all,entries,inner,added,popped,read,rfl⟩ := gives_spread.mp run
  obtain ⟨y,locals',all',entries',inner',added',popped',read',rfl⟩ := gives_spread.mp run'
  obtain rfl := Code.block.inj (out.symm.trans read)
  obtain rfl := Code.block.inj (out'.symm.trans read')
  have start : InStep lead [] [] { s with locals := s.locals.push, output := .block [] }
      { t with locals := t.locals.push, output := .block [] } := ⟨step.ahead.push,[],rfl,rfl⟩
  obtain ⟨-,⟨ahead,inside,filled,filled'⟩,frames⟩ := (expression_agrees expr).run [] [] _ _ () () w y
    isOpen_nil isOpen_nil start under inner inner'
  have closes {s u : State} {locals : SymbolStack (Option String)}
      (ran : Gives (visit config e) { s with locals := s.locals.push, output := .block [] } () u)
      (popped : u.locals.pop? = some locals) : locals = s.locals := by
    have kept := (((visit_built config e).follows stackLaw).kept ran).locals.pop_push
    exact (Option.some.inj (kept.symm.trans popped)).symm
  obtain rfl := closes inner popped
  obtain rfl := closes inner' popped'
  rw [filled] at added
  rw [filled',added] at added'
  cases added'
  exact ⟨rfl,⟨{ ahead with current := step.ahead.current, locals := step.ahead.locals },
    more ++ entries,by simp,by simp⟩,frames⟩

/-! ## Statements without blocks -/

section

variable {value first : Node} {others : List Node}

theorem assign_agrees (place : IsExpr first) (expr : IsExpr value)
    (other : ∀ text, (∃ u v, Gives (inline (visit config first)) u text v) →
      ¬ lead.names (some (qualified c text))) :
    Agrees lead c (assign (first :: others) value (visits config (first :: others))
      (visit config value)) := by
  refine .bind (tagTargets_flow (@agrees_flow config lead c) _ _ (by simp)) fun _ => .given (inline_agrees place) fun target given =>
    .bind (inline_agrees expr) fun text => .bind (.idle (checkElements_idle _)) fun _ => .frame fun top same => ?_
  subst same
  refine .ite (fun _ => .bind (.introduce (other target given)) fun keyword => ?_)
    fun _ => .bind (.pure _) fun keyword => ?_ <;>
  exact .ite (fun _ => .stops fun _ _ _ => gives_reject_bind) fun _ => .emit _

theorem annotatedAssign_agrees (place : IsExpr target) (type : IsExpr hint) (expr : IsExpr value)
    (other : ∀ text, (∃ u v, Gives (inline (visit config target)) u text v) →
      ¬ lead.names (some (if c = typeClass then text else qualified c text))) :
    Agrees lead c (annotatedAssign (visit config target) (visit config value) (visit config hint)
      (callOf config hint)) := by
  have calls : ∀ call ∈ callOf config hint, ∀ receiver, Agrees lead c (call receiver) := by
    intro call given receiver
    have stable := phrase_isStable type
    cases hint with
    | call func args keywords =>
      cases given
      refine .repeats (repeats_flow.call _ func args keywords fun m part => ?_)
      exact visit_repeats config m (@isExpression_of_part _ _ config _ stable (.head _) part)
    | _ => cases given
  refine .given (inline_agrees place) fun target given => .bind (inline_agrees expr) fun text =>
    .frame fun top same => ?_
  subst same
  refine .ite (fun _ => .bind (.pure _) fun keyword => ?_)
    fun _ => .bind (.introduce (other target given)) fun keyword => ?_ <;>
  · refine .bind (inline_agrees type) fun _ => .ite (fun _ => .emit _) fun _ => .ite (fun _ => .emit _)
      fun _ => ?_
    cases called : callOf config hint with
    | some call => exact calls call called _
    | none => exact .emit _

theorem declareGlobals_agrees (names : List String) : Agrees lead c (declareGlobals names) :=
  .silent () fun _ _ _ run => by
    obtain ⟨_,rfl⟩ := declareGlobals_keeps run
    exact ⟨rfl,rfl,rfl⟩

end

/-! ## Statements with blocks -/

section

variable {body items : List Node}

theorem whileLoop_agrees (expr : IsExpr test) (row : Agrees lead c (each (visits config body))) :
    Agrees lead c (whileLoop (visit config test) (visits config body)) :=
  .bind (inline_agrees expr) fun _ => .bind (.emit _) fun _ => .bind (loopBody_agrees row) fun _ => .emit _

theorem forLoop_agrees (place : IsExpr target) (expr : IsExpr iter)
    (row : Agrees lead c (each (visits config body)))
    (other : ∀ text, (∃ u v, Gives (inline (visit config iter)) u text v) →
      ¬ lead.marks (some (Text.dropGroups text))) :
    Agrees lead c (forLoop iter (visit config target) (visit config iter) (visits config body)) := by
  refine .bind (inline_agrees place) fun target => .given (inline_agrees expr) fun text given =>
    .ask (fun s t ahead => ?_) fun s _ => .ite (fun _ => ?_) fun _ => ?_
  · have same : t.generators.contains (some (Text.dropGroups text)) =
        s.generators.contains (some (Text.dropGroups text)) := ahead.marked (other text given)
    simp only [same]
  · exact .bind (.ofExcept _) fun _ => .bind (.emit _) fun _ => .bind (loopBody_agrees row) fun _ => .emit _
  · exact .bind (.idle (iteratesText_idle iter text)) fun _ => .bind (.emit _) fun _ => .bind (loopBody_agrees row) fun _ => .emit _

theorem withoutEnds_agrees (expr : IsExpr test)
    (middle : Agrees lead c (do block (visits config body); elsePart other)) :
    Agrees lead c (withoutEnds (branch (visit config test) (visits config body) other)) := by
  refine ⟨fun before earlier s t a b u v free clear step under run run' => ?_⟩
  obtain ⟨more,out,out'⟩ := step.code
  obtain ⟨text,x,y,read,ran,ends⟩ := withoutEnds_branch_run run out
  obtain ⟨text',x',y',read',ran',ends'⟩ := withoutEnds_branch_run run' out'
  obtain ⟨rfl,inner,frames⟩ := (inline_agrees expr).run before earlier s t text text' x x' free clear
    step under read read'
  have start : InStep lead (before ++ more ++ [.line ("if " ++ text ++ " then")])
      (earlier ++ more ++ [.line ("if " ++ text ++ " then")])
      { x with output := .block (before ++ more ++ [.line ("if " ++ text ++ " then")]) }
      { x' with output := .block (earlier ++ more ++ [.line ("if " ++ text ++ " then")]) } :=
    ⟨inner.ahead,[],by simp,by simp⟩
  obtain ⟨-,⟨ahead,mids,wrote,wrote'⟩,kept⟩ := middle.run _ _ _ _ () () y y' (isOpen_concat_line _ _)
    (isOpen_concat_line _ _) start (frames ▸ under) ran ran'
  rw [ends mids wrote,ends' mids wrote']
  exact ⟨rfl,⟨ahead,more ++ mids,by simp,by simp⟩,kept.trans frames⟩

theorem withStatement_agrees (row : Agrees lead c (each (visits config body)))
    (exprs : ∀ e ∈ items.flatMap Node.itemNodes, IsExpr e) :
    Agrees lead c (withStatement first last (itemsOf config items) (visits config body)) := by
  have prepends (lines : List String) : Agrees lead c (each (lines.map prepend)) :=
    (@agrees_flow config lead c).each (@agrees_flow config lead c).prepend lines (by simp)
  exact .bind (.emit _) fun _ => .bind (block_agrees row) fun _ =>
    .bind (agrees_flow.withItemLines items exprs) fun lines =>
    .bind (prepends lines) fun _ => .emit _

theorem setCurrent_agrees (name : Option String) : Agrees lead c (setCurrent name) :=
  .change (fun _ _ ahead => { ahead with current := rfl }) (fun _ => rfl) fun _ => rfl

theorem functionBody_agrees {name : String} (other : ¬ lead.marks (some name))
    (row : Agrees lead "" (each (visits config body))) :
    Agrees lead c (functionBody name (visits config body)) := by
  refine .within (fun _ _ => rfl) (.bind (block_agrees row) fun _ => .ask (fun s t ahead => ?_) fun s _ =>
    .ite (fun _ => .bind ?_ fun _ => .emit _) fun _ => .pure _)
  · have same : t.generators.contains (some name) = s.generators.contains (some name) := ahead.marked other
    simp only [same]
  · exact .change (fun _ _ ahead => { ahead with }) (fun _ => rfl) fun _ => rfl

theorem functionDefinition_agrees
    (other : ∀ own, name = some own → ¬ lead.names (some (qualified c own)) ∧ ¬ lead.marks (some own))
    (row : Agrees lead "" (each (visits config body))) (marked : ∀ e ∈ decorators, IsExpr e)
    (filled : ∀ e ∈ params.paramDefaults, IsExpr e) :
    Agrees lead c (functionDefinition name params (visits config decorators) (visits config body)
      (defaultsOf config params)) := by
  have marked : ∀ e ∈ decorators.reverse, IsExpr e := by simpa using marked
  have filled : ∀ e ∈ params.paramDefaults.reverse, IsExpr e := by simpa using filled
  simp only [functionDefinition,visits_reverse,defaultsOf_reverse config]
  have closed (own : String) (given : List String) :
      Agrees lead c (definitionEnd config params decorators own given) :=
    .bind (prependDefaults_flow agrees_flow _ _ filled) fun _ => .bind (.emit _) fun _ =>
      .bind (agrees_flow.connectDecorators _ _ marked) fun _ => setCurrent_agrees none
  refine .bind (.ofExcept _) fun names =>
    .bind (.change (fun _ _ ahead => ahead) (fun _ => rfl) fun _ => rfl) fun _ =>
    .bind (setCurrent_agrees name) fun _ => .frame fun top same => .bind (agrees_flow.inlineEach _ marked)
      fun texts => .bind (.ofExcept _) fun _ => .bind (.ofExcept _) fun rest =>
      .given (.ofExcept _) fun own given => ?_
  obtain ⟨u,v,given⟩ := given
  obtain rfl : name = some own := by
    have known := (gives_ofExcept.mp given).1
    cases name with
    | none => cases known
    | some name => cases known; rfl
  subst same
  refine .ite (fun _ => .bind (.pure _) fun keyword => ?_)
    fun _ => .bind (.introduce (other own rfl).1) fun keyword => ?_
  all_goals
    refine .bind (.ofExcept _) fun given => .bind (.emit _) fun _ =>
      .bind (functionBody_agrees (other own rfl).2 row) fun _ => .bind (.ofExcept _) fun line => ?_
    cases line with
    | none => exact closed _ _
    | some line => exact .bind (.editLast _) fun _ => closed _ _

theorem classDefinition_agrees (other : c = "" → ¬ lead.names name)
    (row : Agrees lead (name.getD "") (each (visits config body))) (exprs : ∀ e ∈ bases, IsExpr e) :
    Agrees lead c (classDefinition config name (visits config bases) (visits config body)) := by
  refine .bind (agrees_flow.inlineEach _ exprs) fun texts => .frame fun top same => ?_
  subst same
  refine .ite (fun outer => .bind (.introduce (other (by simpa using outer))) fun keyword => ?_)
    fun _ => .bind (.pure _) fun keyword => ?_
  all_goals
    exact .bind (.ofExcept _) fun fullName => .bind (.emit _) fun _ =>
      .bind (.change (fun _ _ ahead => { ahead with }) (fun _ => rfl) fun _ => rfl) fun _ =>
      .bind (.within (fun _ _ => rfl) (block_agrees row)) fun _ => .bind (.editLast _) fun _ =>
      .bind (.emit _) fun _ => .bind (.ofExcept _) fun _ => .ite (fun _ => .emit _) fun _ => .pure _

end

end Compile

/-! ## Trees -/

namespace Node

/-- The node is a loop, and may be over calls of the function. -/
def MayIterate (config : Option Config) (f : String) : Node → Prop
  | .forStmt false _ iter _ _ _ => ∃ text, Text.dropGroups text = f ∧
    ∃ s t, Compile.Gives (Compile.inline (Compile.visit config iter)) s text t
  | _ => False

/-- The node declares a local name, which may be the given one when the node stands in the class. -/
def MayDeclare (config : Option Config) (c : String) (own : Option String) : Node → Prop
  | .assign (first :: _) _ _ => ∃ text, some (Compile.qualified c text) = own ∧
    ∃ s t, Compile.Gives (Compile.inline (Compile.visit config first)) s text t
  | .annAssign place _ _ _ => ∃ text,
    some (if c = Compile.typeClass then text else Compile.qualified c text) = own ∧
    ∃ s t, Compile.Gives (Compile.inline (Compile.visit config place)) s text t
  | .functionDef false id _ _ _ _ _ => ∃ f, id = some f ∧ some (Compile.qualified c f) = own
  | .classDef id _ _ _ _ => c = "" ∧ id = own
  | _ => False

end Node

/-- No statement of the row asks for what is in the lead. -/
structure Spared (config : Option Config) (lead : Lead) (c : String) (ns : List Node) : Prop where
  loops : ∀ d n f, Stands c ns d n → n.MayIterate config f → ¬ lead.marks (some f)
  names : ∀ d n name, Stands c ns d n → n.MayDeclare config d name → ¬ lead.names name

theorem Spared.part (spared : Spared config lead c ns) (member : n ∈ ns)
    (part : (d,body) ∈ n.bodies c) : Spared config lead d body :=
  ⟨fun _ _ _ stands => spared.loops _ _ _ (.inside member part stands),
    fun _ _ _ stands => spared.names _ _ _ (.inside member part stands)⟩

theorem Spared.row (spared : Spared config lead c ns) (part : body ⊆ ns) : Spared config lead c body :=
  ⟨fun _ _ _ stands => spared.loops _ _ _ (stands.mono part),
    fun _ _ _ stands => spared.names _ _ _ (stands.mono part)⟩

theorem Spared.less {less : Lead} (spared : Spared config lead c ns)
    (names : ∀ name, less.names name → lead.names name)
    (marks : ∀ name, less.marks name → lead.marks name) : Spared config less c ns :=
  ⟨fun _ _ _ stands asks held => spared.loops _ _ _ stands asks (marks _ held),
    fun _ _ _ stands asks held => spared.names _ _ _ stands asks (names _ held)⟩

namespace Compile

variable {config : Option Config} {lead : Lead} {c : String} {n : Node}

/-- The statement agrees, with its ends or without them. -/
structure StatementAgrees (config : Option Config) (lead : Lead) (c : String) (n : Node) : Prop where
  whole : Agrees lead c (visit config n)
  cut : n.isBranch = true → Agrees lead c (withoutEnds (visit config n))

theorem row_agrees (steps : ∀ n ∈ ns, StatementAgrees config lead c n) :
    Agrees lead c (each (visits config ns)) := by
  refine .each fun x member => ?_
  rw [visits_eq_map] at member
  obtain ⟨n,inside,rfl⟩ := List.mem_map.mp member
  exact (steps n inside).whole

theorem elsePart_agrees (stmt : ∀ n ∈ Node.compiledOtherwise orElse, n.IsStatement)
    (first : ∀ n ∈ Node.compiledOtherwise orElse, StatementAgrees config lead c n) :
    Agrees lead c (elsePart (otherwiseOf config orElse)) := by
  cases orElse with
  | nil => exact .pure _
  | cons n rest =>
    rw [otherwiseOf]
    cases tested : testOf config n with
    | none =>
      rw [Node.compiledOtherwise,isBranch_of_testOf tested] at first
      exact .bind (.emit _) fun _ => block_agrees (row_agrees first)
    | some test =>
      obtain ⟨test,body,others,rfl,rfl⟩ := eq_branch_of_testOf tested
      have member : Node.ifStmt test body others ∈
          Node.compiledOtherwise (.ifStmt test body others :: rest) := by
        simp [Node.compiledOtherwise,Node.isBranch]
      exact .bind (inline_agrees (stmt _ member)) fun _ => .bind (.emit _) fun _ => (first _ member).cut rfl

/-- A statement that asks for nothing of the lead is compiled the same from states in step. -/
theorem statement_agrees (stmts : AreStatements [n]) (spared : Spared config lead c [n])
    (avoids : ∀ f, lead.marks (some f) → Avoids config (some f) n) :
    StatementAgrees config lead c n := by
  induction size : sizeOf n using Nat.strongRecOn generalizing n c with
  | ind k ih =>
    subst size
    have steps {d : String} {body : List Node} (part : (d,body) ∈ n.bodies c) :
        ∀ m ∈ body, StatementAgrees config lead d m := by
      intro m member
      have compiled : m ∈ compiledParts config n := compiled_of_bodies part member
      exact ih _ (smaller_of_part compiled) ((stmts.part (by simp) part).row (by simpa using member))
        ((spared.part (by simp) part).row (by simpa using member))
        (fun f marked => (avoids f marked).of_part compiled) rfl
    have rows {d : String} {body : List Node} (part : (d,body) ∈ n.bodies c) :
        Agrees lead d (each (visits config body)) := row_agrees (steps part)
    have stmt : n.IsStatement := stmts c c n (.here (by simp))
    have declares {name : Option String} : n.MayDeclare config c name → ¬ lead.names name :=
      spared.names c n name (.here (by simp))
    have iterates {f : String} : n.MayIterate config f → ¬ lead.marks (some f) :=
      spared.loops c n f (.here (by simp))
    have plain (agrees : Agrees lead c (visit config n)) (noBranch : n.isBranch = false) :
        StatementAgrees config lead c n := ⟨agrees,by simp [noBranch]⟩
    cases n
    case functionDef isAsync name params body decorators returns comment =>
      cases isAsync with
      | true => cases stmt
      | false =>
        refine plain (functionDefinition_agrees ?_ (rows (List.mem_singleton_self _)) stmt.1 stmt.2) rfl
        rintro own rfl
        exact ⟨declares ⟨own,rfl,rfl⟩,fun marked => avoids own marked _ .refl rfl⟩
    case classDef name bases keywords body decorators =>
      exact plain (classDefinition_agrees (fun outer => declares ⟨outer,rfl⟩)
        (rows (List.mem_singleton_self _)) stmt) rfl
    case forStmt isAsync target iter body orElse comment =>
      cases isAsync with
      | true => cases stmt
      | false =>
        exact plain (forLoop_agrees stmt.1 stmt.2 (rows (List.mem_singleton_self _)) fun text given =>
          iterates ⟨text,rfl,given⟩) rfl
    case whileStmt => exact plain (whileLoop_agrees stmt (rows (List.mem_singleton_self _))) rfl
    case withStmt isAsync items body comment =>
      have row := rows (List.mem_singleton_self _)
      cases isAsync <;> exact plain (withStatement_agrees row stmt) rfl
    case ifStmt test body orElse =>
      have other := steps (.tail _ List.mem_cons_self)
      have inner : ∀ n ∈ Node.compiledOtherwise orElse, n.IsStatement := fun n member =>
        stmts c c n (.inside (List.mem_singleton_self _) (.tail _ List.mem_cons_self) (.here member))
      have middle : Agrees lead c (do
          block (visits config body)
          elsePart (otherwiseOf config orElse)) :=
        .bind (block_agrees (rows List.mem_cons_self)) fun _ => elsePart_agrees inner other
      exact ⟨agrees_graded.branch (g := ()) (inline_agrees stmt) middle,fun _ => withoutEnds_agrees stmt middle⟩
    case matchStmt subject cases =>
      refine plain (.bind (agrees_graded.matchCases (fun _ => ()) (fun _ => ()) rfl (fun _ _ => rfl) true
        fun n member body taken => ⟨inline_agrees stmt,block_agrees (rows ?_)⟩) fun _ => .emit _) rfl
      exact List.mem_map.mpr ⟨body,List.mem_filterMap.mpr ⟨n,member,taken⟩,rfl⟩
    case tryStmt isStar body hs orElse finalBody =>
      cases isStar with
      | true => cases stmt
      | false =>
        refine plain (agrees_graded.tryStatement (g := ()) (h := ()) (k := ())
          (block_agrees (rows List.mem_cons_self))
          (fun chained position => agrees_graded.handlers (fun _ => ()) (fun _ => ()) rfl (fun _ _ => rfl)
            chained position fun n member body taken => block_agrees (rows ?_))
          (block_agrees (rows (List.mem_append_right _ (List.mem_singleton_self _))))) rfl
        exact List.mem_append_left _ (.tail _ (List.mem_map.mpr
          ⟨body,List.mem_filterMap.mpr ⟨n,member,taken⟩,rfl⟩))
    case assign targets value comment =>
      cases targets with
      | nil => exact plain (.bind (.pure _) fun _ => .stops fun _ _ _ => gives_fail) rfl
      | cons first others =>
        exact plain (assign_agrees (stmt.1 first (by simp)) stmt.2 fun text given =>
          declares ⟨text,rfl,given⟩) rfl
    case annAssign target hint value simple =>
      exact plain (annotatedAssign_agrees stmt.1 stmt.2.1 stmt.2.2 fun text given =>
        declares ⟨text,rfl,given⟩) rfl
    case global => exact plain (declareGlobals_agrees _) rfl
    case exprStmt | augAssign | returnStmt | delete | raise | assert | typeAlias | importStmt | importFrom
      | nonlocal | pass | breakStmt | continueStmt =>
      exact plain (simple_visit agrees_flow stmt rfl id fun _ _ expr _ =>
        .within (fun _ same => same) (spread_agrees expr)) rfl
    all_goals cases stmt

end Compile

end LuauCompiler
