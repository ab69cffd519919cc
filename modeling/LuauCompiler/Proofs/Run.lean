import LuauCompiler.Compile.Visit

/-! Successful runs of compilation steps. Each combinator has one inversion lemma, so that a rule is
taken apart by rewriting and never by unfolding the state monad. -/
namespace LuauCompiler.Compile

variable {α : Type} {s t : State} {a : α} {c : Compile α}

/-- From `s` the step succeeds with the value `a` and leaves the state `t`. -/
def Gives (c : Compile α) (s : State) (a : α) (t : State) : Prop := c s = (.ok a, t)

theorem gives_of_isOk {c : Compile Unit} (done : (c s).1.isOk = true) : Gives c s () (c s).2 := by
  cases ran : c s with
  | mk result t =>
    cases result with
    | error e => rw [ran] at done; cases done
    | ok => exact ran

theorem gives_of_toOption (done : (c s).1.toOption = some a) : Gives c s a (c s).2 := by
  cases ran : c s with
  | mk outcome t =>
    rw [ran] at done
    cases outcome with
    | error e => cases done
    | ok b =>
      cases done
      exact ran

@[simp] theorem gives_pure {a b : α} : Gives (pure a) s b t ↔ b = a ∧ t = s := by
  simp only [Gives,pure,Prod.mk.injEq,Except.ok.injEq]
  constructor <;> rintro ⟨rfl,rfl⟩ <;> exact ⟨rfl,rfl⟩

theorem gives_bind : Gives (c >>= f) s b t ↔ ∃ a u, Gives c s a u ∧ Gives (f a) u b t := by
  simp only [Gives,bind]
  split <;> rename_i result
  · constructor
    · intro run
      exact ⟨_,_,result,run⟩
    · rintro ⟨a,u,first,rest⟩
      rw [result] at first
      cases first
      exact rest
  · constructor
    · intro run
      cases run
    · rintro ⟨a,u,first,_⟩
      rw [result] at first
      cases first

@[simp] theorem gives_map {f : α → β} : Gives (f <$> c) s b t ↔ ∃ a, Gives c s a t ∧ b = f a := by
  change Gives (c >>= fun a => pure (f a)) s b t ↔ _
  simp [gives_bind]

@[simp] theorem gives_fail : ¬ Gives (fail e) s a t := by
  simp [Gives,fail]

@[simp] theorem gives_reject : ¬ Gives (reject message) s a t := by
  simp [Gives,reject]

@[simp] theorem gives_get {a : State} : Gives get s a t ↔ a = s ∧ t = s := by
  simp only [Gives,get,Prod.mk.injEq,Except.ok.injEq]
  constructor <;> rintro ⟨rfl,rfl⟩ <;> exact ⟨rfl,rfl⟩

@[simp] theorem gives_update {f : State → State} {a : Unit} : Gives (update f) s a t ↔ t = f s := by
  simp only [Gives,update,Prod.mk.injEq,true_and]
  exact eq_comm

@[simp] theorem gives_ofExcept : Gives (ofExcept e) s a t ↔ e = .ok a ∧ t = s := by
  cases e with
  | error e => simp [ofExcept]
  | ok b => simp [ofExcept,eq_comm]

@[simp] theorem gives_pure_bind : Gives (pure a >>= f) s b t ↔ Gives (f a) s b t := Iff.rfl

@[simp] theorem gives_get_bind {f : State → Compile β} :
    Gives (get >>= f) s b t ↔ Gives (f s) s b t := Iff.rfl

@[simp] theorem gives_update_bind {f : Unit → Compile β} :
    Gives (update g >>= f) s b t ↔ Gives (f ()) (g s) b t := Iff.rfl

@[simp] theorem gives_fail_bind : ¬ Gives (fail e >>= f) s b t := by
  simp [gives_bind]

@[simp] theorem gives_reject_bind : ¬ Gives (reject message >>= f) s b t := by
  simp [gives_bind]

@[simp] theorem gives_ofExcept_bind :
    Gives (ofExcept e >>= f) s b t ↔ ∃ a, e = .ok a ∧ Gives (f a) s b t := by
  cases e with
  | error e => simp [ofExcept]
  | ok a => simp [ofExcept]

@[simp] theorem gives_frame_bind {f : Frame → Compile β} :
    Gives (frame >>= f) s b t ↔ Gives (f s.frames.top) s b t := Iff.rfl

@[simp] theorem gives_tagOf_bind {f : Option String → Compile β} :
    Gives (tagOf name >>= f) s b t ↔ Gives (f (s.tags.lookup name)) s b t := Iff.rfl

@[simp] theorem gives_needs_bind {f : Unit → Compile β} : Gives (needs helper >>= f) s b t ↔
      Gives (f ()) { s with ledger := s.ledger.need helper } b t := Iff.rfl

@[simp low] theorem gives_unit_bind {c : Compile Unit} {f : Unit → Compile β} :
    Gives (c >>= f) s b t ↔ ∃ u, Gives c s () u ∧ Gives (f ()) u b t := by
  rw [gives_bind]
  exact ⟨fun ⟨_,u,first,rest⟩ => ⟨u,first,rest⟩,fun ⟨u,first,rest⟩ => ⟨(),u,first,rest⟩⟩

@[simp] theorem gives_all_nil : Gives (all ([] : List (Compile α))) s as t ↔ as = [] ∧ t = s := by
  simp [all]

@[simp] theorem gives_all_cons : Gives (all (c :: rest)) s as t ↔
      ∃ a u, Gives c s a u ∧ ∃ later, Gives (all rest) u later t ∧ as = a :: later := by
  simp [all,gives_bind]

@[simp] theorem gives_each_nil {a : Unit} : Gives (each []) s a t ↔ t = s := by
  simp [each]

@[simp] theorem gives_each_cons {c : Compile Unit} {a : Unit} :
    Gives (each (c :: rest)) s a t ↔ ∃ u, Gives c s () u ∧ Gives (each rest) u () t := by
  simp [each]

@[simp] theorem gives_emitEntries {a : Unit} : Gives (emitEntries entries) s a t ↔
      ∃ before, s.output = .block before ∧ t = { s with output := .block (before ++ entries) } := by
  simp only [emitEntries,gives_get_bind]
  cases out : s.output <;> simp [Code.append?]

@[simp] theorem gives_emitEntry {a : Unit} : Gives (emitEntry entry) s a t ↔
      ∃ before, s.output = .block before ∧ t = { s with output := .block (before ++ [entry]) } := by
  simp [emitEntry]

@[simp] theorem gives_emit {a : Unit} : Gives (emit text) s a t ↔ ∃ before, s.output = .block before ∧
      t = { s with output := .block (before ++ [.line text]) } := by
  simp [emit]

theorem gives_within : Gives (within change c) s a t ↔ ∃ u frames,
      Gives c { s with frames := s.frames.push change } a u ∧
      u.frames.pop? = some frames ∧ t = { u with frames } := by
  simp only [within,gives_update_bind,gives_bind (c := c),gives_get_bind]
  constructor
  · rintro ⟨b,u,run,last⟩
    cases popped : u.frames.pop? with
    | none => simp [popped] at last
    | some frames =>
      simp only [popped,gives_update_bind,gives_pure] at last
      obtain ⟨rfl,rfl⟩ := last
      exact ⟨u,frames,run,popped,rfl⟩
  · rintro ⟨u,frames,run,popped,rfl⟩
    exact ⟨a,u,run,by simp [popped]⟩

theorem gives_introduce : Gives (introduce name) s keyword t ↔
      (s.locals.knows name = true ∧ keyword = "" ∧ t = s) ∨
      (s.locals.knows name = false ∧ keyword = "local " ∧
        ∃ locals, s.locals.add? name = some locals ∧ t = { s with locals }) := by
  have test : Gives (introduce name) s keyword t ↔
      Gives (if s.locals.knows name = true then pure "" else do declare name; return "local ")
        s keyword t := Iff.rfl
  rw [test]
  cases known : s.locals.knows name with
  | true => simp
  | false =>
    simp only [declare,Bool.false_eq_true,if_false,gives_unit_bind,gives_get_bind,gives_pure]
    cases added : s.locals.add? name <;> simp [and_comm]

theorem gives_nested {c : Compile Unit} :
    Gives (nested c) s code t ↔ ∃ u, Gives c { s with output := .block [] } () u ∧
      code = u.output ∧ t = { u with output := s.output, current := s.current } := by
  simp only [Gives,nested]
  cases result : c { s with output := .block [] } with
  | mk outcome u =>
    cases outcome with
    | error e => simp
    | ok a =>
      simp only [Prod.mk.injEq,Except.ok.injEq,true_and]
      constructor
      · rintro ⟨rfl,rfl⟩
        exact ⟨u,rfl,rfl,rfl⟩
      · rintro ⟨_,rfl,rfl,rfl⟩
        exact ⟨rfl,rfl⟩

theorem gives_inline {c : Compile Unit} :
    Gives (inline c) s text t ↔ ∃ u lines, Gives c { s with output := .block [] } () u ∧
      u.output.entries?.bind linesOf? = some lines ∧ text = String.intercalate " " lines ∧
      t = { u with output := s.output, current := s.current } := by
  simp only [inline,gives_bind,gives_nested]
  constructor
  · rintro ⟨_,_,⟨u,run,rfl,rfl⟩,last⟩
    cases lines : u.output.entries?.bind linesOf? with
    | none => simp [lines] at last
    | some texts =>
      simp only [lines,gives_pure] at last
      exact ⟨u,texts,run,lines,last⟩
  · rintro ⟨u,lines,run,read,rfl,rfl⟩
    exact ⟨_,_,⟨u,run,rfl,rfl⟩,by simp [read]⟩

theorem gives_closeBlock {a : Unit} :
    Gives closeBlock s a t ↔ ∃ locals, s.locals.pop? = some locals ∧ t = { s with locals } := by
  simp only [closeBlock,gives_get_bind]
  cases popped : s.locals.pop? <;> simp

theorem gives_block {a : Unit} : Gives (block cs) s a t ↔ ∃ u locals before,
      Gives (each cs) { s with locals := s.locals.push, output := .block [] } () u ∧
      u.locals.pop? = some locals ∧ s.output = .block before ∧
      t = { u with output := .block (before ++ [u.output]), current := s.current, locals } := by
  simp only [block,gives_update_bind,gives_bind (c := nested _),gives_nested,
    gives_unit_bind (c := emitEntry _),gives_emitEntry,gives_closeBlock,State.openBlock]
  constructor
  · rintro ⟨_,_,⟨u,run,rfl,rfl⟩,_,⟨before,out,rfl⟩,locals,popped,rfl⟩
    exact ⟨u,locals,before,run,popped,out,rfl⟩
  · rintro ⟨u,locals,before,run,popped,out,rfl⟩
    exact ⟨_,_,⟨u,run,rfl,rfl⟩,_,⟨before,out,rfl⟩,locals,popped,rfl⟩

theorem gives_spread {c : Compile Unit} {a : Unit} : Gives (spread c) s a t ↔ ∃ u locals before entries,
      Gives c { s with locals := s.locals.push, output := .block [] } () u ∧
      u.output.entries? = some entries ∧ u.locals.pop? = some locals ∧ s.output = .block before ∧
      t = { u with output := .block (before ++ entries), current := s.current, locals } := by
  simp only [spread,gives_update_bind,gives_bind (c := nested _),gives_nested,
    gives_unit_bind (c := emitEntries _),gives_emitEntries,State.openBlock,List.append_nil]
  constructor
  · rintro ⟨_,_,⟨u,run,rfl,rfl⟩,_,⟨before,out,rfl⟩,last⟩
    cases read : u.output.entries? with
    | none => simp [read] at last
    | some entries =>
      simp only [read,gives_unit_bind,gives_emitEntries,gives_closeBlock] at last
      obtain ⟨_,⟨_,rest,rfl⟩,locals,popped,rfl⟩ := last
      cases rest
      exact ⟨u,locals,before,entries,run,read,popped,out,rfl⟩
  · rintro ⟨u,locals,before,entries,run,read,popped,out,rfl⟩
    refine ⟨_,_,⟨u,run,rfl,rfl⟩,_,⟨before,out,rfl⟩,?_⟩
    simp [read,gives_closeBlock,popped]

theorem gives_editLast {a : Unit} :
    Gives (editLast change) s a t ↔ ∃ before body, s.output = .block (before ++ [.block body]) ∧
      t = { s with output := .block (before ++ [.block (change body)]) } := by
  simp only [editLast,gives_get_bind]
  constructor
  · intro run
    cases out : s.output with
    | line | void => simp [out] at run
    | block entries =>
      rw [out] at run
      cases last : entries.getLast? with
      | none => simp [last] at run
      | some entry =>
        obtain ⟨before,rfl⟩ := List.getLast?_eq_some_iff.mp last
        cases entry with
        | line | void => simp at run
        | block body =>
          simp only [List.getLast?_concat,List.dropLast_concat,gives_update] at run
          exact ⟨before,body,rfl,run⟩
  · rintro ⟨before,body,out,rfl⟩
    simp [out]

/-- The step changes the console, the names of outer functions and the records of functions only. The
functions that are on record stay the same. -/
def Silent (c : Compile Unit) : Prop := ∀ s t, Gives c s () t → ∃ console nonlocals functions,
  t = { s with console, nonlocals, functions } ∧
    functions.map (fun r => (r.name,r.params)) = s.functions.map (fun r => (r.name,r.params))

theorem heads_of_last {records earlier : List FunctionRecord} {last other : FunctionRecord}
    (ends : records.reverse = last :: earlier)
    (head : (other.name,other.params) = (last.name,last.params)) :
    (earlier.reverse ++ [other]).map (fun r => (r.name,r.params)) =
      records.map (fun r => (r.name,r.params)) := by
  rw [← List.reverse_reverse records,ends]
  simp [head]

theorem recordConstant_silent (c : Constant) : Silent (recordConstant c) := by
  intro s t run
  rw [recordConstant,gives_get_bind] at run
  split at run
  · obtain ⟨-,rfl⟩ := gives_pure.mp run
    exact ⟨_,_,_,rfl,rfl⟩
  · rename_i ends
    obtain rfl := gives_update.mp run
    exact ⟨_,_,_,rfl,heads_of_last ends rfl⟩

theorem recordReturn_silent (text : String) : Silent (recordReturn text) := by
  intro s t run
  rw [recordReturn,gives_get_bind] at run
  split at run
  · exact (gives_fail run).elim
  · rename_i ends
    obtain rfl := gives_update.mp run
    exact ⟨_,_,_,rfl,heads_of_last ends rfl⟩

theorem declareNonlocals_silent (names : List String) : Silent (declareNonlocals names) := by
  intro s t run
  induction names generalizing s with
  | nil =>
    obtain ⟨-,rfl⟩ := gives_pure.mp run
    exact ⟨_,_,_,rfl,rfl⟩
  | cons name rest ih =>
    rw [declareNonlocals,gives_get_bind] at run
    split at run
    · exact (gives_fail run).elim
    · split at run
      · exact (gives_fail run).elim
      · obtain ⟨_,_,_,rfl,same⟩ := ih _ (gives_update_bind.mp run)
        exact ⟨_,_,_,rfl,same⟩

theorem warn_silent (message : String) : Silent (warn message) := by
  intro s t run
  obtain rfl := gives_update.mp run
  exact ⟨_,_,_,rfl,rfl⟩

theorem tagTargets_keeps {a : Unit} (run : Gives (tagTargets value targets) s a t) :
    ∃ tags, t = { s with tags } := by
  induction targets generalizing s with
  | nil =>
    obtain ⟨-,rfl⟩ := gives_pure.mp run
    exact ⟨_,rfl⟩
  | cons target rest ih =>
    rw [tagTargets] at run
    split at run
    · split at run
      · obtain ⟨tags,rfl⟩ := ih (gives_update_bind.mp run)
        exact ⟨tags,rfl⟩
      · exact ih run
    · exact ih run

theorem declareGlobals_keeps {a : Unit} (run : Gives (declareGlobals names) s a t) : ∃ globals, t = { s with
      globals, ledger := { s.ledger with exports := s.ledger.exports ++ names } } := by
  induction names generalizing s with
  | nil =>
    obtain ⟨-,rfl⟩ := gives_pure.mp run
    exact ⟨t.globals,by simp⟩
  | cons name rest ih =>
    rw [declareGlobals,gives_get_bind] at run
    split at run
    · exact (gives_fail run).elim
    · obtain ⟨globals,rfl⟩ := ih (gives_update_bind.mp run)
      exact ⟨globals,by simp⟩

theorem visits_eq_map (config : Option Config) (ns : List Node) :
    visits config ns = ns.map (visit config) := by
  induction ns with
  | nil => rfl
  | cons n rest ih => simpa [visits] using ih

theorem visits_reverse (config : Option Config) (ns : List Node) :
    (visits config ns).reverse = visits config ns.reverse := by
  simp [visits_eq_map]

theorem clausesOf_eq_map (config : Option Config) (ns : List Node) :
    clausesOf config ns = ns.map (clauseOf config) := by
  induction ns with
  | nil => rfl
  | cons n rest ih => simpa [clausesOf] using ih

theorem keywordsOf_eq_map (config : Option Config) (ns : List Node) :
    keywordsOf config ns = ns.map (keywordOf config) := by
  induction ns with
  | nil => rfl
  | cons n rest ih => simpa [keywordsOf] using ih

end LuauCompiler.Compile
