import LuauCompiler.Proofs.Flow

/-! Every rule takes the turns of its construct, and so does the compilation of every node. -/
namespace LuauCompiler.Compile

variable {config : Option Config}

section

theorem takes_flow : StatementFlow config (Takes config) where
  pure := .pure
  tagOf := tagOf_takes
  frame := frame_takes
  stops := Stops.takes
  append first rest := .bind first rest rfl
  emit := emit_takes
  void := emitEntries_takes _
  complex := needs_complex_takes
  inline := inline_takes config
  tag _ _ := .update fun _ => rfl
  silent := silent_takes
  prepend _ := editLast_takes _

theorem Ruled.traces {c : (Node → Compile Unit) → Compile α} (rule : Ruled (fun _ => True) k ts c) :
    Traces config ts (c (visit config)) := by
  induction rule with
  | quiet rule => exact .of_quiet (rule.flow takes_flow.toFlow)
  | apart rule => exact (rule.flow takes_flow.toFlow).traces
  | append _ _ first rest => exact .bind first rest rfl
  | dead _ stops => exact (stops _).traces
  | ask _ _ rest => exact .ask rest
  | step _ taken => exact ⟨fun s a t run => taken.run s a t run⟩
  | asks _ other => exact needs_traces other
  | here n => exact visit_here config n
  | block ns =>
    have blocked := block_traces config ns
    rwa [visits_eq_map] at blocked
  | inClass _ _ step => exact .within step
  | loop _ step =>
    have label : Takes config [] nextLoop := .after (.update fun _ => rfl) fun _ => .ask fun _ => .pure _
    exact .after label fun _ => .within step

theorem hint_once (hint : Node) (quiet : Takes config [] c) :
    Traces config [hintTurn hint] (inline (visit config hint) >>= fun _ => c) := by
  cases hint with
  | call func args keywords =>
    have called : Takes config (Node.callNodes func args keywords)
        (inline (visit config (.call func args keywords))) := (takes_flow.call none ..).inline
    exact ⟨fun s a t run => ⟨t.view,⟨t.view,(called.quiet fun _ => quiet).run s a t run,.inl rfl⟩,rfl⟩⟩
  | _ => exact ((inline_takes config _).quiet fun _ => quiet).traces

theorem hint_again (func : Node) (args keywords : List Node) (receiver : String) :
    Traces config [hintTurn (.call func args keywords)]
      (inline (visit config (.call func args keywords)) >>= fun _ =>
        call (some receiver) func args (visit config func) (visits config args)
          (keywordsOf config keywords)) := by
  have called : Takes config (Node.callNodes func args keywords)
      (inline (visit config (.call func args keywords))) := (takes_flow.call none ..).inline
  refine ⟨fun s a t run => ?_⟩
  obtain ⟨text,u,first,second⟩ := gives_bind.mp run
  exact ⟨t.view,⟨u.view,called.run s text u first,.inr ((takes_flow.call (some receiver) ..).run u a t second)⟩,
    rfl⟩

theorem annotatedAssign_traces (target hint value : Node) :
    Traces config [.apart [target],.apart [value],hintTurn hint]
      (annotatedAssign (visit config target) (visit config value) (visit config hint)
        (callOf config hint)) := by
  have written (isType : Prop) [Decidable isType] (keyword target text : String) {bare : Compile Unit}
      (other : Traces config [hintTurn hint] (inline (visit config hint) >>= fun _ => bare)) :
      Traces config [hintTurn hint] (do
        let _ ← inline (visit config hint)
        if !text.isEmpty then emit (keyword ++ target ++ " = " ++ text)
        else if isType then emit (target ++ ",")
        else bare) := by
    by_cases given : (!text.isEmpty) = true
    · simp only [given,if_true]
      exact hint_once hint (emit_takes _)
    · by_cases inType : isType
      · simp only [given,inType,if_true]
        exact hint_once hint (emit_takes _)
      · simp only [given,inType,if_false]
        exact other
  refine .bind (inline_takes config target).traces (fun target => .bind (inline_takes config value).traces
    (fun text => .after frame_takes fun f => ?_) rfl) rfl
  refine .ite (written _ _ _ _ ?_) (.after (introduce_takes _) fun _ => written _ _ _ _ ?_)
  all_goals
    cases hint with
    | call func args keywords => exact hint_again func args keywords _
    | _ => exact hint_once _ (emit_takes _)

theorem functionBody_settles (run : Gives (functionBody name (visits config body)) s () t) :
    ∃ v, Inner config body s.view v ∧ t.view = v.settle (some name) := by
  obtain ⟨u,frames,inner,-,rfl⟩ := gives_within.mp run
  obtain ⟨_,w,compiled,settled⟩ := gives_bind.mp inner
  obtain ⟨_,taken,rfl⟩ := (block_traces config body).run _ () w compiled
  refine ⟨w.view,taken,?_⟩
  rw [gives_get_bind] at settled
  change u.view = _
  by_cases marked : w.generators.contains (some name) = true
  · rw [if_pos marked,gives_needs_bind] at settled
    have emitted : Inners config [] _ u.view := (emit_takes _).run _ () u settled
    rw [show u.view = _ from emitted,View.settle,if_pos (by exact marked)]
    simp [State.view,View.ask,Ledger.need]
  · rw [if_neg marked] at settled
    obtain ⟨-,rfl⟩ := gives_pure.mp settled
    rw [View.settle,if_neg (by exact marked)]

/-- The step changes the view as the relation says. -/
structure Moves {α : Type} (R : View → View → Prop) (c : Compile α) : Prop where
  run : ∀ s a t, Gives c s a t → R s.view t.view

namespace Moves

variable {α β : Type} {R : View → View → Prop} {f : α → Compile β}

theorem after (first : Takes config [] c) (rest : ∀ a, Moves R (f a)) : Moves R (c >>= f) := by
  refine ⟨fun s b t run => ?_⟩
  obtain ⟨a,u,front,back⟩ := gives_bind.mp run
  have same : Inners config [] s.view u.view := first.run s a u front
  rw [← show u.view = s.view from same]
  exact (rest a).run u b t back

theorem ofExcept (rest : ∀ a, e = .ok a → Moves R (f a)) : Moves R (Compile.ofExcept e >>= f) := by
  refine ⟨fun s b t run => ?_⟩
  obtain ⟨a,known,back⟩ := gives_ofExcept_bind.mp run
  exact (rest a known).run s b t back

theorem ite [Decidable p] (yes : Moves R c) (no : Moves R d) : Moves R (if p then c else d) := by
  split
  · exact yes
  · exact no

theorem taking (first : Takes config ns c) (rest : ∀ a, Moves R (f a)) :
    Moves (fun v w => ∃ x, Inners config ns v x ∧ R x w) (c >>= f) := by
  refine ⟨fun s b t run => ?_⟩
  obtain ⟨a,u,front,back⟩ := gives_bind.mp run
  exact ⟨u.view,first.run s a u front,(rest a).run u b t back⟩

theorem entering {f : Unit → Compile β} (rest : Moves R (f ())) :
    Moves (fun v w => R (v.enter name) w) (setCurrent name >>= f) :=
  ⟨fun s b t run => rest.run { s with current := name } b t run⟩

theorem body {f : Unit → Compile β} (rest : Moves R (f ())) :
    Moves (fun v w => ∃ x, Inner config ns v x ∧ R (x.settle (some name)) w)
      (functionBody name (visits config ns) >>= f) := by
  refine ⟨fun s b t run => ?_⟩
  obtain ⟨_,u,front,back⟩ := gives_bind.mp run
  obtain ⟨x,inner,settled⟩ := functionBody_settles front
  refine ⟨x,inner,?_⟩
  rw [← settled]
  exact rest.run u b t back

end Moves

theorem functionDefinition_traces (name : Option String) (params : Node) (decorators body : List Node) :
    Traces config [.definition name decorators.reverse body params.paramDefaults.reverse]
      (functionDefinition name params (visits config decorators) (visits config body)
        (defaultsOf config params)) := by
  suffices moves : Moves (fun v w => ∃ x, Inners config decorators.reverse (v.enter name) x ∧
      Bodied config name decorators.reverse body params.paramDefaults.reverse x w)
      (functionDefinition name params (visits config decorators) (visits config body)
        (defaultsOf config params)) from
    ⟨fun s a t run => ⟨t.view,moves.run s a t run,rfl⟩⟩
  simp only [functionDefinition,visits_reverse,defaultsOf_reverse config]
  have skip {α β : Type} {R : View → View → Prop} {c : Compile α} {f : α → Compile β}
      (first : Takes config [] c) (rest : ∀ a, Moves R (f a)) : Moves R (c >>= f) :=
    .after first rest
  have closed (own : String) (given : List String) :
      Moves (Closed config decorators.reverse params.paramDefaults.reverse)
        (definitionEnd config params decorators own given) := by
    have left : Moves (fun v w => w = v.enter none) (setCurrent none) :=
      ⟨fun s _ t run => by rw [gives_update.mp run]; rfl⟩
    exact .taking (prependDefaults_flow takes_flow _ _) fun _ => skip (emit_takes _) fun _ =>
      .taking (takes_flow.connectDecorators _ _) fun _ => left
  refine skip (.ofExcept _) fun names => skip (.update fun _ => rfl) fun _ => .entering
    (R := fun v w => ∃ x, Inners config decorators.reverse v x ∧
      Bodied config name decorators.reverse body params.paramDefaults.reverse x w)
    (skip frame_takes fun f => .taking (takes_flow.inlineEach _) fun texts =>
      skip (.ofExcept _) fun _ => skip (.ofExcept _) fun rest => .ofExcept fun own known => ?_)
  obtain rfl : name = some own := by
    cases name with
    | none => cases known
    | some name => cases known; rfl
  refine .ite (skip (.pure _) fun _ => ?_) (skip (introduce_takes _) fun _ => ?_)
  all_goals
    refine skip (.ofExcept _) fun given => skip (emit_takes _) fun _ => .body
      (R := Closed config decorators.reverse params.paramDefaults.reverse)
      (skip (.ofExcept _) fun line => ?_)
    cases line with
    | some line => exact skip (editLast_takes _) fun _ => closed _ _
    | none => exact closed _ _

theorem yieldValue_traces (value : Node) :
    Traces config [.yields,.apart [value]] (yieldValue (visit config value)) := by
  refine ⟨fun s a t run => ?_⟩
  have rest : Takes config [value] (do
      let text ← inline (visit config value)
      emit ("yieldGenerator('" ++ s.current.getD "None" ++ "', " ++ text ++ ")")) :=
    (inline_takes config value).quiet fun _ => emit_takes _
  exact ⟨_,rfl,t.view,rest.run _ a t run,rfl⟩

end

/-- Each node takes its turns. -/
theorem visit_traces (config : Option Config) (n : Node) :
    Traces config (turns config n) (visit config n) := by
  cases regular : isRegular n with
  | true =>
    rw [visit_eq_visitWith]
    exact (visitWith_ruled config regular fun _ _ => trivial).traces
  | false =>
    cases n with
    | functionDef isAsync name params body decorators =>
      obtain rfl : isAsync = false := regular
      exact functionDefinition_traces name params decorators body
    | returnStmt value => exact (returnStatement_flow takes_flow value).traces
    | assign targets value => exact (assign_flow takes_flow introduce_takes targets value).traces
    | annAssign target hint value => exact annotatedAssign_traces target hint value
    | exprStmt value =>
      exact (expressionStatement_flow takes_flow fun _ => .within (spread_takes config value)).traces
    | yield value => exact yieldValue_traces value
    | typeAlias name _ value =>
      have written := typeAlias_flow (@takes_flow config) name value
      rw [turns]
      split at written <;> rename_i exported
      · rw [if_pos exported]
        exact written.traces
      · rw [if_neg exported]
        exact .of_quiet written
    | _ => cases regular

end LuauCompiler.Compile
