import LuauCompiler.Proofs.Composition

/-! A relation between steps that primitive steps keep is kept by every rule: from related parts a rule
makes related steps. To be built from primitive steps is such a relation of a step with itself, so every
compilation is built from them. -/
namespace LuauCompiler.Compile

/-- Every step of a row is built from primitive ones. -/
abbrev AllBuilt (cs : List (Compile Unit)) : Prop := ∀ c ∈ cs, Built c

/-! ## Steps without parts -/

theorem tagTargets_built (value : Node) (targets : List Node) : Built (tagTargets value targets) := by
  induction targets with
  | nil => exact .pure _
  | cons target rest ih =>
    rw [tagTargets]
    split
    · split
      · exact .bind (.put fun w => { w with tags := insertField _ _ w.tags }) fun _ => ih
      · exact ih
    · exact ih

theorem recordConstant_built (c : Constant) : Built (recordConstant c) := by
  refine .ask (fun s => ?_) fun alike => by rw [alike.functions]
  split
  · exact .pure _
  · exact .put fun w => { w with functions := _ }

theorem expressionStatement_built (value : Node) {run : Compile Unit} (step : Built run) :
    Built (expressionStatement value run) := by
  unfold expressionStatement
  split
  · exact .bind (recordConstant_built _) fun _ =>
      .bind (.within (spread_built step) Frame.unlabelled_docstring) fun _ => emitEntry_built _
  · exact .bind (.within (spread_built step) Frame.unlabelled_docstring) fun _ => emitEntry_built _

theorem recordReturn_built (text : String) : Built (recordReturn text) := by
  refine .ask (fun s => ?_) fun alike => by rw [alike.functions]
  split
  · exact .fail _
  · exact .put fun w => { w with functions := _ }

/-! ## Relations -/

/-- The relation holds of the steps without parts and is kept by those with parts. -/
structure Congruence (R : {α : Type} → Compile α → Compile α → Prop) : Prop where
  closed : ∀ {α : Type} {c : Compile α}, Built c → R c c
  bind : ∀ {α β : Type} {c d : Compile α} {f g : α → Compile β}, R c d → (∀ a, R (f a) (g a)) →
    R (c >>= f) (d >>= g)
  ask : ∀ {α : Type} {f g : State → Compile α}, (∀ s, R (f s) (g s)) →
    (∀ {s t : State}, s.Alike t → f s = f t) → R (get >>= f) (get >>= g)
  nested : ∀ {c d : Compile Unit}, R c d → R (nested c) (nested d)
  inClass : ∀ {α : Type} {c d : Compile α} (className : String), R c d →
    R (within (fun f => { f with className }) c) (within (fun f => { f with className }) d)
  loop : ∀ {α : Type} {c d : Compile α}, R c d →
    R (nextLoop >>= fun label => within (fun f => { f with loopLabel := label }) c)
      (nextLoop >>= fun label => within (fun f => { f with loopLabel := label }) d)
  scope : ∀ {c d : Compile Unit}, R c d → R (update State.openBlock >>= fun _ => c >>= fun _ => closeBlock)
      (update State.openBlock >>= fun _ => d >>= fun _ => closeBlock)

theorem congruence_built : Congruence fun c d => Built c ∧ c = d where
  closed built := ⟨built,rfl⟩
  bind first rest := ⟨.bind first.1 fun a => (rest a).1,by rw [first.2,funext fun a => (rest a).2]⟩
  ask rest blind := ⟨.ask (fun s => (rest s).1) blind,by rw [funext fun s => (rest s).2]⟩
  nested step := ⟨.nested step.1,by rw [step.2]⟩
  inClass _ step := ⟨.within step.1 Frame.unlabelled_className,by rw [step.2]⟩
  loop step := ⟨.loop step.1,by rw [step.2]⟩
  scope step := ⟨.scope step.1,by rw [step.2]⟩

section

variable {R : {α : Type} → Compile α → Compile α → Prop} (C : Congruence R)
  {part part' : Node → Compile Unit} {ns ms : List Node}

namespace Congruence

variable {α : Type}

theorem ite (_ : Congruence R) [Decidable p] {c c' d d' : Compile α} (yes : R c d) (no : R c' d') :
    R (if p then c else c') (if p then d else d') := by
  split
  · exact yes
  · exact no
include C

theorem emit (text : String) : R (Compile.emit text) (Compile.emit text) := C.closed (emit_built text)

theorem guarded [Decidable p] {c c' : Compile α} {d d' : Compile β} (first : R c c') (rest : R d d') :
    R (if p then (c >>= fun _ => d) else d) (if p then (c' >>= fun _ => d') else d') :=
  C.ite (C.bind first fun _ => rest) rest

theorem frame (rest : ∀ a, R (f a) (g a)) (blind : ∀ {a b : Frame}, a.className = b.className → f a = f b) :
    R (Compile.frame >>= f) (Compile.frame >>= g) :=
  C.ask (fun s => rest s.frames.top) fun alike => blind (Frame.className_of_unlabelled alike.top)

theorem each {is : List ι} (steps : ∀ i ∈ is, R (f i) (g i)) :
    R (Compile.each (is.map f)) (Compile.each (is.map g)) := by
  induction is with
  | nil => exact C.closed (.pure _)
  | cons i rest ih =>
    obtain ⟨first,later⟩ := List.forall_mem_cons.mp steps
    exact C.bind first fun _ => ih later

theorem inline (step : R c d) : R (Compile.inline c) (Compile.inline d) := by
  refine C.bind (C.nested step) fun code => C.closed ?_
  split
  · exact .pure _
  · exact .fail _

theorem line (step : R c d) (text : String → String) :
    R (do Compile.emit (text (← Compile.inline c))) (do Compile.emit (text (← Compile.inline d))) :=
  C.bind (C.inline step) fun _ => C.emit _

end Congruence

include C

theorem Composed.alike {c : (Node → Compile Unit) → Compile α} (rule : Composed Q ns c)
    (parts : ∀ k ∈ ns, R (part k) (part' k)) (others : ∀ k, Q k → R (part k) (part' k)) :
    R (c part) (c part') := by
  induction rule with
  | pure a => exact C.closed (.pure a)
  | append _ _ first rest =>
    obtain ⟨own,later⟩ := List.forall_mem_append.mp parts
    exact C.bind (first own) fun a => rest a later
  | fail e => exact C.closed (.fail e)
  | reject worded => exact C.closed (.reject worded)
  | tagOf name => exact C.closed (Idle.tagOf name).built
  | frame _ blind rest => exact C.ask (fun s => rest s.frames.top parts) fun alike => blind alike.top
  | emit text => exact C.emit text
  | void => exact C.closed (emitEntry_built _)
  | complex => exact C.closed (.needs (by decide))
  | inline n => exact C.inline (parts n (by simp))
  | dead _ low _ ih => exact ih fun k member => others k (low k member)

theorem block_alike (row : ∀ k ∈ ns, R (part k) (part' k)) : R (block (ns.map part)) (block (ns.map part')) := by
  have opened := C.scope (C.bind (C.nested (C.each row)) fun code => C.closed (emitEntry_built code))
  rw [bind_assoc,bind_assoc] at opened
  exact opened

theorem Ruled.alike {c : (Node → Compile Unit) → Compile α} (rule : Ruled Q k ts c)
    (parts : ∀ turn ∈ ts, ∀ k ∈ turn.nodes, R (part k) (part' k)) (others : ∀ k, Q k → R (part k) (part' k)) :
    R (c part) (c part') := by
  induction rule with
  | quiet rule | dead rule => exact rule.alike C (by simp) others
  | apart rule => exact rule.alike C (parts _ (.head _)) others
  | append _ _ first rest =>
    obtain ⟨own,later⟩ := List.forall_mem_append.mp parts
    exact C.bind (first own) fun a => rest a later
  | ask _ blind rest => exact C.ask (fun s => rest s parts) blind
  | step built => exact C.closed built
  | asks known => exact C.closed (.needs known)
  | here n => exact parts _ (.head _) n (.head _)
  | block ns => exact block_alike C (parts _ (.head _))
  | inClass className _ step => exact C.inClass className (step parts)
  | loop _ step => exact C.loop (step parts)

/-! ## Rules with single parts -/

theorem returnStatement_alike (value : Node) (step : R c c') :
    R (returnStatement value c) (returnStatement value c') :=
  C.ite (C.bind (C.inline step) fun _ => C.bind (C.closed (recordReturn_built _)) fun _ => C.line step _)
    (C.line step _)

theorem yieldValue_alike (step : R c c') : R (yieldValue c) (yieldValue c') :=
  C.ask (fun s => C.bind (C.closed (.put fun w => { w with generators := w.generators ++ [s.current] }))
    fun _ => C.line step _) fun alike => by rw [alike.current]

theorem typeAlias_alike (config : Option Config) (name : Node) (step : R c c') :
    R (typeAlias config name c) (typeAlias config name c') := by
  refine C.bind (C.closed (.ofExcept _)) fun setting => ?_
  split
  · exact C.closed (warn_built _)
  · exact C.ite (C.guarded (C.closed (.fail _)) (C.line step _)) (C.closed (.pure _))

section

variable {value : Node}

/-! ## Statements and definitions -/

theorem assign_alike (targets : List Node) (row : ∀ k ∈ targets, R (part k) (part' k))
    (last : R (part value) (part' value)) : R (assign targets value (targets.map part) (part value))
      (assign targets value (targets.map part') (part' value)) := by
  refine C.bind (C.closed (tagTargets_built _ _)) fun _ => ?_
  cases targets with
  | nil => exact C.closed (.fail _)
  | cons target rest =>
    refine C.bind (C.inline (row target (by simp))) fun target => C.bind (C.inline last) fun text =>
      C.bind (C.closed (checkElements_idle _).built) fun _ => C.frame (fun f => C.closed ?_) fun same => by rw [same]
    have written (keyword target : String) : Built (do
        if reservedWords.contains target || libraryNames.contains target then
          reject (reservedMessage target)
        emit (keyword ++ target ++ " = " ++ text)) :=
      .guarded (.reject (.assigned _)) (emit_built _)
    exact .ite (.bind (introduce_built _) fun _ => written _ _) (written _ _)

theorem callWith_alike (hint : Node) (parts : ∀ k, sizeOf k < sizeOf hint → R (part k) (part' k)) :
    callWith part hint = none ∧ callWith part' hint = none ∨
    ∃ call call', callWith part hint = some call ∧ callWith part' hint = some call' ∧
      ∀ receiver, R (call receiver) (call' receiver) := by
  cases hint with
  | call func args keywords =>
    exact .inr ⟨_,_,rfl,rfl,fun receiver => (call_composed _ func args keywords).alike C (fun k member =>
      parts k (@smaller_of_part k _ none (by simpa [compiledParts,turns,Turn.nodes] using member))) parts⟩
  | _ => exact .inl ⟨rfl,rfl⟩

theorem annotatedAssign_alike (first : R (part target) (part' target))
    (second : R (part value) (part' value)) (third : R (part hint) (part' hint))
    (parts : ∀ k, sizeOf k < sizeOf hint → R (part k) (part' k)) :
    R (annotatedAssign (part target) (part value) (part hint) (callWith part hint))
      (annotatedAssign (part' target) (part' value) (part' hint) (callWith part' hint)) := by
  have written (isType : Prop) [Decidable isType] (keyword target text : String)
      {bare bare' : Compile Unit} (other : R bare bare') : R
      (do
        let _ ← inline (part hint)
        if !text.isEmpty then emit (keyword ++ target ++ " = " ++ text)
        else if isType then emit (target ++ ",")
        else bare)
      (do
        let _ ← inline (part' hint)
        if !text.isEmpty then emit (keyword ++ target ++ " = " ++ text)
        else if isType then emit (target ++ ",")
        else bare') :=
    C.bind (C.inline third) fun _ => C.ite (C.emit _) (C.ite (C.emit _) other)
  refine C.bind (C.inline first) fun target => C.bind (C.inline second) fun text =>
    C.frame (fun f => C.ite (written _ _ _ _ ?_)
      (C.bind (C.closed (introduce_built _)) fun _ => written _ _ _ _ ?_)) fun same => by rw [same]
  all_goals
    obtain ⟨absent,absent'⟩ | ⟨call,call',given,given',called⟩ := callWith_alike C hint parts
    · rw [absent,absent']
      exact C.emit _
    · rw [given,given']
      exact called _

theorem prependDefaults_alike (row : ∀ k ∈ ns, R (part k) (part' k)) (names : List String) :
    R (prependDefaults (ns.map part) names) (prependDefaults (ns.map part') names) := by
  induction ns generalizing names with
  | nil => cases names <;> exact C.closed (.pure _)
  | cons n rest ih =>
    obtain ⟨first,later⟩ := List.forall_mem_cons.mp row
    cases names with
    | nil => exact C.closed (.fail _)
    | cons name names =>
      exact C.bind (C.inline first) fun _ => C.bind (C.closed (editLast_built _)) fun _ => ih later names

theorem functionBody_alike (name : String) (row : ∀ k ∈ ns, R (part k) (part' k)) :
    R (functionBody name (ns.map part)) (functionBody name (ns.map part')) := by
  refine C.inClass _ (C.bind (block_alike C row) fun _ => C.closed (.ask (fun _ => ?_) fun alike => by
    rw [alike.generators]))
  exact .ite (.bind (.needs (by decide)) fun _ => emit_built _) (.pure _)

theorem functionDefinition_alike (name : Option String) (params : Node)
    (body : ∀ k ∈ ns, R (part k) (part' k)) (decorators : ∀ k ∈ ms, R (part k) (part' k))
    (parts : ∀ k, sizeOf k < sizeOf params → R (part k) (part' k)) :
    R (functionDefinition name params (ms.map part) (ns.map part) (defaultsWith part params))
      (functionDefinition name params (ms.map part') (ns.map part') (defaultsWith part' params)) := by
  obtain ⟨defaults,given,given',filled⟩ : ∃ defaults : List Node, defaultsWith part params = defaults.map part ∧
      defaultsWith part' params = defaults.map part' ∧ ∀ k ∈ defaults, R (part k) (part' k) := by
    cases params with
    | params _ _ _ _ _ _ defaults => exact ⟨defaults,rfl,rfl,fun k member => parts k (by decreasing_tactic)⟩
    | _ => exact ⟨[],rfl,rfl,by simp⟩
  replace decorators : ∀ k ∈ ms.reverse, R (part k) (part' k) := by simpa using decorators
  replace filled : ∀ k ∈ defaults.reverse, R (part k) (part' k) := by simpa using filled
  rw [given,given']
  simp only [functionDefinition,← List.map_reverse]
  have closed (fullName : String) (names : List String) : R (do
        prependDefaults (defaults.reverse.map part) names
        emit "end"
        connectDecorators fullName (ms.reverse.map part)
        setCurrent none)
      (do
        prependDefaults (defaults.reverse.map part') names
        emit "end"
        connectDecorators fullName (ms.reverse.map part')
        setCurrent none) :=
    C.bind (prependDefaults_alike C filled names) fun _ => C.bind (C.emit _) fun _ =>
      C.bind ((connectDecorators_composed fullName _).alike C decorators decorators) fun _ =>
        C.closed (.put fun w => { w with current := none })
  refine C.bind (C.closed (.ofExcept _)) fun names =>
    C.bind (C.closed (.put fun w => { w with functions := w.functions ++ _ })) fun _ =>
    C.bind (C.closed (.put fun w => { w with current := name })) fun _ => C.frame (fun f =>
    C.bind ((Composed.inlineEach _).alike C decorators decorators) fun _ => C.bind (C.closed (.ofExcept _)) fun _ =>
    C.bind (C.closed (.ofExcept _)) fun rest => C.bind (C.closed (.ofExcept _)) fun name => ?_)
      fun same => by rw [same]
  refine C.ite (C.bind (C.closed (.pure _)) fun _ => C.bind (C.closed (.ofExcept _)) fun _ =>
      C.bind (C.emit _) fun _ => C.bind (functionBody_alike C _ body) fun _ =>
        C.bind (C.closed (.ofExcept _)) fun line => ?_)
    (C.bind (C.closed (introduce_built _)) fun _ => C.bind (C.closed (.ofExcept _)) fun _ =>
      C.bind (C.emit _) fun _ => C.bind (functionBody_alike C _ body) fun _ =>
        C.bind (C.closed (.ofExcept _)) fun line => ?_)
  all_goals
    cases line with
    | some line => exact C.bind (C.closed (editLast_built _)) fun _ => closed _ _
    | none => exact closed _ _

end

/-! ## Nodes -/

/-- From related parts the rule of a node makes related steps. The rule of expression statements, which
changes the mark of the frame, is left out. -/
theorem visitWith_alike (config : Option Config) {n : Node} (other : ∀ value, n ≠ .exprStmt value)
    (parts : ∀ k, sizeOf k < sizeOf n → R (part k) (part' k)) :
    R (visitWith part config n) (visitWith part' config n) := by
  cases regular : isRegular n with
  | true =>
    exact (visitWith_ruled config regular fun _ low => low).alike C (fun turn inside k member =>
      parts k (smaller_of_part (List.mem_flatMap.mpr ⟨turn,inside,member⟩))) parts
  | false =>
    have own (k : Node) (low : sizeOf k < sizeOf n := by decreasing_tactic) : R (part k) (part' k) :=
      parts k low
    have row {ns : List Node} (low : sizeOf ns < sizeOf n := by decreasing_tactic) :
        ∀ k ∈ ns, R (part k) (part' k) :=
      fun k member => parts k (Nat.lt_trans (List.sizeOf_lt_of_mem member) low)
    cases n with
    | exprStmt value => exact absurd rfl (other value)
    | functionDef isAsync name params =>
      obtain rfl : isAsync = false := regular
      exact functionDefinition_alike C name params row row
        fun k low => parts k (Nat.lt_trans low (by decreasing_tactic))
    | returnStmt value => exact returnStatement_alike C value (own value)
    | assign targets value => exact assign_alike C targets row (own value)
    | annAssign target hint value =>
      exact annotatedAssign_alike C (own target) (own value) (own hint)
        fun k low => parts k (Nat.lt_trans low (by decreasing_tactic))
    | yield value => exact yieldValue_alike C (own value)
    | typeAlias name _ value => exact typeAlias_alike C config name (own value)
    | _ => cases regular

end

/-- The compilation of every tree is built from primitive steps. -/
theorem visit_built (config : Option Config) (n : Node) : Built (visit config n) := by
  induction size : sizeOf n using Nat.strongRecOn generalizing n with
  | _ m ih =>
    subst size
    by_cases stated : ∃ value, n = .exprStmt value
    · obtain ⟨value,rfl⟩ := stated
      exact expressionStatement_built _ (ih _ (by decreasing_tactic) value rfl)
    · rw [visit_eq_visitWith]
      exact (visitWith_alike congruence_built config (fun value same => stated ⟨value,same⟩)
        fun k low => ⟨ih _ low k rfl,rfl⟩).1

theorem visits_built (config : Option Config) (ns : List Node) : AllBuilt (visits config ns) := by
  intro c member
  rw [visits_eq_map] at member
  obtain ⟨n,-,rfl⟩ := List.mem_map.mp member
  exact visit_built config n

end LuauCompiler.Compile
