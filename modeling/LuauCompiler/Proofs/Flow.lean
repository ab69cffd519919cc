import LuauCompiler.Proofs.Composition

/-! Properties of steps that go from the parts of a rule to the rule. A property that the nodes hand on,
that small steps have and that sequences keep is one of all rules that compile some nodes in code of their
own, so it is followed through them once for all. -/
namespace LuauCompiler.Compile

/-- The property, of a step and of the nodes that it compiles in code of their own, holds of what the
rules of expressions are made of, and of sequences. -/
structure Flow (config : Option Config) (P : {α : Type} → List Node → Compile α → Prop) : Prop where
  pure : ∀ {α : Type} (a : α), P [] (pure a)
  tagOf : ∀ name, P [] (tagOf name)
  frame : P [] frame
  stops : ∀ {α : Type} {ns : List Node} {c : Compile α}, Stops c → P ns c
  append : ∀ {α β : Type} {ns ms : List Node} {c : Compile α} {f : α → Compile β}, P ns c →
    (∀ a, P ms (f a)) → P (ns ++ ms) (c >>= f)
  emit : ∀ text, P [] (emit text)
  void : P [] (emitEntry .void)
  complex : P [] (needs "complex")
  inline : ∀ n, P [n] (inline (visit config n))

/-- The property holds of what statements without blocks are made of, too. -/
structure StatementFlow (config : Option Config) (P : {α : Type} → List Node → Compile α → Prop) : Prop
    extends Flow config P where
  tag : ∀ name kind, P [] (update fun s => { s with tags := insertField name kind s.tags })
  silent : ∀ {c : Compile Unit}, Silent c → P [] c
  prepend : ∀ line, P [] (prepend line)

section

variable {config : Option Config} {P : {α : Type} → List Node → Compile α → Prop} (F : Flow config P)

namespace Flow

theorem ite (_ : Flow config P) [Decidable p] (yes : P ns c) (no : P ns d) : P ns (if p then c else d) := by
  split
  · exact yes
  · exact no

include F

theorem fail (e : Failure) : P ns (Compile.fail e : Compile α) := F.stops (.fail e)

theorem reject (message : String) : P ns (Compile.reject message : Compile α) :=
  F.stops ⟨fun _ _ _ => gives_reject⟩

theorem bind (first : P ns c) (rest : ∀ a, P ms (f a)) (same : ns ++ ms = whole) : P whole (c >>= f) :=
  same ▸ F.append first rest

theorem quiet (first : P ns c) (rest : ∀ a, P [] (f a)) : P ns (c >>= f) :=
  F.bind first rest (List.append_nil ns)

theorem after (first : P [] c) (rest : ∀ a, P ms (f a)) : P ms (c >>= f) := F.append first rest

theorem guarded [Decidable p] (first : P [] c) (rest : P ns d) : P ns (if p then (c >>= fun _ => d) else d) :=
  F.ite (F.after first fun _ => rest) rest

theorem line (n : Node) (write : String → String) :
    P [n] (do Compile.emit (write (← Compile.inline (visit config n)))) :=
  F.quiet (F.inline n) fun _ => F.emit _

theorem each {step : ι → Compile Unit} (steps : ∀ i, P [] (step i)) (is : List ι) :
    P [] (Compile.each (is.map step)) := by
  induction is with
  | nil => exact F.pure _
  | cons i rest ih => exact F.after (steps i) fun _ => ih

end Flow

include F

theorem Composed.flow {c : (Node → Compile Unit) → Compile α} (rule : Composed (fun _ => True) ns c) :
    P ns (c (visit config)) := by
  induction rule with
  | pure a => exact F.pure a
  | append _ _ first rest => exact F.append first rest
  | fail e => exact F.fail e
  | reject => exact F.reject _
  | tagOf name => exact F.tagOf name
  | frame _ _ rest => exact F.after F.frame rest
  | emit text => exact F.emit text
  | void => exact F.void
  | complex => exact F.complex
  | inline n => exact F.inline n
  | dead _ _ stops => exact F.stops (stops _)

theorem Flow.idle {c : Compile α} (step : Idle c) : P [] c := (Composed.idle step).flow F

theorem Flow.inlineEach (ns : List Node) : P ns (Compile.inlineEach (visits config ns)) := by
  rw [visits_eq_map]
  exact (Composed.inlineEach ns).flow F

theorem Flow.withItemLines (items : List Node) :
    P (items.flatMap Node.itemNodes) (all ((itemsOf config items).map withItemLine)) := by
  rw [itemsOf_eq]
  exact (withItemLines_composed items).flow F

theorem Flow.connectDecorators (name : String) (decorators : List Node) :
    P decorators (Compile.connectDecorators name (visits config decorators)) := by
  rw [visits_eq_map]
  exact (connectDecorators_composed name decorators).flow F

theorem Flow.call (receiver : Option String) (func : Node) (args keywords : List Node) :
    P (Node.callNodes func args keywords) (Compile.call receiver func args (visit config func)
      (visits config args) (keywordsOf config keywords)) := by
  rw [visits_eq_map,keywordsOf_eq_map,funext (keywordOf_eq config)]
  exact (call_composed receiver func args keywords).flow F

end

section

variable {config : Option Config} {P : {α : Type} → List Node → Compile α → Prop} (F : StatementFlow config P)

include F

theorem tagTargets_flow (value : Node) (targets : List Node) : P [] (tagTargets value targets) := by
  induction targets with
  | nil => exact F.pure _
  | cons target rest ih =>
    rw [tagTargets]
    split
    · exact F.guarded (F.tag _ _) ih
    · exact ih

theorem assign_flow (introduces : ∀ name, P [] (introduce name)) (targets : List Node) (value : Node) :
    P (targets.take 1 ++ [value]) (assign targets value (visits config targets) (visit config value)) := by
  refine F.after (tagTargets_flow F _ _) fun _ => ?_
  cases targets with
  | nil => exact F.fail _
  | cons target rest =>
    refine F.bind (F.inline target) (fun target => F.quiet (F.inline value) fun text =>
      F.after (F.idle (checkElements_idle _)) fun _ => F.after F.frame fun f => ?_) rfl
    have written (keyword target : String) : P [] (do
        if reservedWords.contains target || libraryNames.contains target then
          reject (reservedMessage target)
        emit (keyword ++ target ++ " = " ++ text)) :=
      F.guarded (F.reject _) (F.emit _)
    exact F.ite (F.after (introduces _) fun _ => written _ _) (written _ _)

theorem expressionStatement_flow (spread : ∀ docstring,
      P [value] (within (fun f => { f with docstring }) (spread (visit config value)))) :
    P [value] (expressionStatement value (visit config value)) := by
  unfold expressionStatement
  split
  · exact F.after (F.silent (recordConstant_silent _)) fun _ => F.quiet (spread _) fun _ => F.void
  · exact F.quiet (spread _) fun _ => F.void

theorem returnStatement_flow (value : Node) :
    P [value,value] (returnStatement value (visit config value)) := by
  unfold returnStatement
  cases absent : value.isAbsent with
  | true =>
    obtain rfl : value = .absent := by cases value <;> first | rfl | cases absent
    exact F.stops (.first (.inline (.fail _)))
  | false =>
    exact F.bind (F.inline value) (fun _ => F.after (F.silent (recordReturn_silent _)) fun _ => F.line value _) rfl

theorem typeAlias_flow (name value : Node) :
    P (if exportsTypes config then [value] else []) (typeAlias config name (visit config value)) := by
  unfold exportsTypes typeAlias
  cases Config.lookup config "luau" with
  | error e => exact F.stops (.first (.fail e))
  | ok setting =>
    have stated : P (if setting.isTrue then [value] else []) (do
        if setting.isTrue then
          if !name.isName then fail .missingPart
          emit ("type " ++ shownName name.id? ++ " = " ++ (← inline (visit config value)))) := by
      cases setting.isTrue with
      | true => exact F.guarded (F.fail _) (F.line value _)
      | false => exact F.pure _
    cases setting with
    | null => exact F.silent (warn_silent _)
    | _ => exact stated

theorem prependDefaults_flow (defaults : List Node) (names : List String) :
    P defaults (prependDefaults (visits config defaults) names) := by
  induction defaults generalizing names with
  | nil => cases names <;> exact F.pure _
  | cons value rest ih =>
    cases names with
    | nil => exact F.fail _
    | cons name names =>
      exact F.bind (F.inline value) (fun _ => F.after (F.prepend _) fun _ => ih names) rfl

end

/-- What a function writes behind its body. -/
def definitionEnd (config : Option Config) (params : Node) (decorators : List Node) (name : String)
    (given : List String) : Compile Unit := do
  prependDefaults (visits config params.paramDefaults.reverse) given
  emit "end"
  connectDecorators name (visits config decorators.reverse)
  setCurrent none

end LuauCompiler.Compile
