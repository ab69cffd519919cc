import LuauCompiler.Proofs.Assembly

/-! Every statement of the language emits what the emission relation says. -/
namespace LuauCompiler

inductive Form where
  | statement
  | handler
  | case

/-- Statements with their handlers and cases, over expressions that hold no statement. The parts that
are never translated are free. -/
inductive Sentence : Form → Node → Prop
  | pass : Sentence .statement .pass
  | global : Sentence .statement (.global names)
  | breakStmt : Sentence .statement .breakStmt
  | continueStmt : Sentence .statement .continueStmt
  | exprStmt (expr : IsExpr value) : Sentence .statement (.exprStmt value)
  | assign (target : IsExpr first) (expr : IsExpr value) :
    Sentence .statement (.assign (first :: others) value typeComment)
  | augAssign (place : IsExpr target) (expr : IsExpr value) : Sentence .statement (.augAssign target op value)
  | annAssign (place : IsExpr target) (type : IsExpr hint) (expr : IsExpr value) :
    Sentence .statement (.annAssign target hint value simple)
  | returnStmt (expr : IsExpr value) : Sentence .statement (.returnStmt value)
  | delete (exprs : ∀ e ∈ targets, IsExpr e) : Sentence .statement (.delete targets)
  | assert (expr : IsExpr test) : Sentence .statement (.assert test msg)
  | raise (expr : IsExpr exc) : Sentence .statement (.raise exc cause)
  | ifStmt (expr : IsExpr test) (inside : ∀ n ∈ body, Sentence .statement n)
    (others : ∀ n ∈ orElse, Sentence .statement n) : Sentence .statement (.ifStmt test body orElse)
  | whileStmt (expr : IsExpr test) (inside : ∀ n ∈ body, Sentence .statement n) :
    Sentence .statement (.whileStmt test body orElse)
  | forStmt (place : IsExpr target) (expr : IsExpr iter)
    (inside : ∀ n ∈ body, Sentence .statement n) :
    Sentence .statement (.forStmt false target iter body orElse typeComment)
  | functionDef (exprs : ∀ e ∈ defaults, IsExpr e) (markers : ∀ e ∈ decorators, IsExpr e)
    (inside : ∀ n ∈ body, Sentence .statement n) :
    Sentence .statement (.functionDef false name
      (.params posOnly regular rest kwOnly kwDefaults kwRest defaults) body decorators returns
      typeComment)
  | classDef (exprs : ∀ e ∈ bases, IsExpr e) (inside : ∀ n ∈ body, Sentence .statement n) :
    Sentence .statement (.classDef (some name) bases keywords body decorators)
  | withStmt
    (exprs : ∀ i ∈ items, ∃ context vars, i = .withItem context vars ∧ IsExpr context ∧ IsExpr vars)
    (inside : ∀ n ∈ body, Sentence .statement n) :
    Sentence .statement (.withStmt false items body typeComment)
  | tryStmt (inside : ∀ n ∈ body, Sentence .statement n)
    (handled : ∀ h ∈ handlers, Sentence .handler h)
    (finally_inside : ∀ n ∈ finalBody, Sentence .statement n) :
    Sentence .statement (.tryStmt false body handlers orElse finalBody)
  | handler (inside : ∀ n ∈ body, Sentence .statement n) : Sentence .handler (.handler type name body)
  | matchStmt (expr : IsExpr subject) (inside : ∀ c ∈ cases, Sentence .case c) :
    Sentence .statement (.matchStmt subject cases)
  | matchCase {pattern guard : Node} (inside : ∀ n ∈ body, Sentence .statement n) :
    Sentence .case (.matchCase pattern guard body)

abbrev IsStmt (n : Node) : Prop := Sentence .statement n

namespace Compile

variable {config : Option Config} {s t : State} {before : List Code} {a : Unit} {name : String}
  {typeComment : Option String} {body decorators defaults : List Node}

variable {ns items : List Node} {names after lines : List String}

/-! ## Running a rule piece by piece -/

theorem inline_reads (expr : IsExpr e) (run : Gives (inline (visit config e)) s text t) :
    Reads config s.scene e text t.scene ∧ Quiet s t ∧ t.output = s.output := by
  obtain ⟨quiet,out,_⟩ := (expr_speaks expr).text.run s text t trivial run
  refine ⟨⟨?_,s,t,rfl,rfl,run⟩,quiet,out⟩
  simp [State.scene,Scene.resume,quiet.frames,quiet.locals]

theorem name_reads {a b : Scene} (reads : Reads config a (.name (some name) access) text b) :
    text = name := by
  obtain ⟨_,s,t,_,_,run⟩ := reads
  have step : Tells Quiet (fun _ => True) (· = name) (inline (nameReference (some name))) := name_tells name
  exact (step.run s text t trivial run).2.2

theorem read_bind_run {f : String → Compile α} {a : α} (expr : IsExpr e)
    (run : Gives (inline (visit config e) >>= f) s a t) : ∃ text u,
      Reads config s.scene e text u.scene ∧ Quiet s u ∧ u.output = s.output ∧
      Gives (f text) u a t := by
  obtain ⟨text,u,reading,rest⟩ := gives_bind.mp run
  obtain ⟨reads,quiet,out⟩ := inline_reads expr reading
  exact ⟨text,u,reads,quiet,out,rest⟩

theorem inlineEach_reads (exprs : ∀ e ∈ es, IsExpr e)
    (run : Gives (inlineEach (visits config es)) s texts t) :
    ReadsAll config s.scene es texts t.scene ∧ Quiet s t ∧ t.output = s.output := by
  induction es generalizing s texts with
  | nil =>
    obtain ⟨rfl,rfl⟩ := gives_all_nil.mp run
    exact ⟨.nil,Calm.refl _,rfl⟩
  | cons e es ih =>
    obtain ⟨text,u,reading,later,rest,rfl⟩ := gives_all_cons.mp run
    obtain ⟨reads,quiet,out⟩ := inline_reads (exprs e (by simp)) reading
    obtain ⟨others,quiet',out'⟩ := ih (fun e member => exprs e (by simp [member])) rest
    exact ⟨.cons reads others,Calm.trans quiet quiet',out'.trans out⟩

theorem readAll_bind_run {f : List String → Compile α} {a : α} (exprs : ∀ e ∈ es, IsExpr e)
    (run : Gives (inlineEach (visits config es) >>= f) s a t) :
    ∃ texts u, ReadsAll config s.scene es texts u.scene ∧ Quiet s u ∧ u.output = s.output ∧
      Gives (f texts) u a t := by
  obtain ⟨texts,u,reading,rest⟩ := gives_bind.mp run
  obtain ⟨reads,quiet,out⟩ := inlineEach_reads exprs reading
  exact ⟨texts,u,reads,quiet,out,rest⟩

/-! ## Blocks -/

/-- Every run of the statement emits what the relation says. -/
def StatementEmits (config : Option Config) (n : Node) : Prop :=
  ∀ s before t, s.output = .block before → Gives (visit config n) s () t →
    ∃ code, t.output = .block (before ++ code) ∧ Emits config .statement s.scene [n] code t.scene

def BodyEmits (config : Option Config) (ns : List Node) : Prop :=
  ∀ s before t, s.output = .block before → Gives (each (visits config ns)) s () t →
    ∃ code, t.output = .block (before ++ code) ∧ Emits config .body s.scene ns code t.scene

theorem body_emits (steps : ∀ n ∈ ns, StatementEmits config n) : BodyEmits config ns := by
  induction ns with
  | nil =>
    intro s before t out run
    obtain rfl := gives_each_nil.mp run
    exact ⟨[],by simpa using out,.nil⟩
  | cons n ns ih =>
    intro s before t out run
    obtain ⟨u,first,rest⟩ := gives_each_cons.mp run
    obtain ⟨code,out',emits⟩ := steps n (by simp) s before u out first
    obtain ⟨more,out'',others⟩ := ih (fun n member => steps n (by simp [member])) u _ t out' rest
    exact ⟨code ++ more,by simpa using out'',.cons emits others⟩

section

variable (steps : BodyEmits config body)

include steps

theorem bodyCode_emits (coded : Gives (bodyCode config body) s code t) :
    ∃ entries b, code = .block entries ∧ Emits config .body s.scene.inner body entries b ∧
      t.scene = s.scene.resume b := by
  obtain ⟨u,inside,rfl,frames,rfl⟩ := (gives_bodyCode ..).mp coded
  obtain ⟨entries,filled,emits⟩ := steps _ [] u rfl inside
  refine ⟨entries,u.scene,filled,emits,?_⟩
  simp [State.scene,Scene.resume,frames]

theorem codeWithin_emits (coded : Gives (within change (bodyCode config body)) s code t) :
    ∃ entries b, code = .block entries ∧
      Emits config .body { s with frames := s.frames.push change }.scene.inner body entries b ∧
      t.scene = s.scene.resume b := by
  obtain ⟨u,inside,rfl,rfl⟩ := codeWithin_run coded
  obtain ⟨entries,filled,emits⟩ := steps _ [] u rfl inside
  exact ⟨entries,u.scene,filled,emits,rfl⟩

theorem block_emits (run : Gives (block (visits config body)) s a t)
    (out : s.output = .block before) :
    ∃ code b, Emits config .body s.scene.inner body code b ∧ t.scene = s.scene.resume b ∧
      t.output = .block (before ++ [.block code]) := by
  obtain ⟨_,u,coded,rfl⟩ := bodyCode_of_block run out
  obtain ⟨code,b,rfl,emits,scene⟩ := bodyCode_emits steps coded
  exact ⟨code,b,emits,scene,rfl⟩

theorem block_bind_run {f : Unit → Compile α} {a : α}
    (out : s.output = .block before) (run : Gives (block (visits config body) >>= f) s a t) :
    ∃ code b u, Emits config .body s.scene.inner body code b ∧ u.scene = s.scene.resume b ∧
      u.output = .block (before ++ [.block code]) ∧ Gives (f ()) u a t := by
  obtain ⟨u,inside,rest⟩ := gives_unit_bind.mp run
  obtain ⟨code,b,emits,scene,out'⟩ := block_emits steps inside out
  exact ⟨code,b,u,emits,scene,out',rest⟩

theorem loopBody_bind_run {f : Unit → Compile α} {a : α}
    (out : s.output = .block before) (run : Gives (loopBody (visits config body) >>= f) s a t) :
    ∃ code b u, Emits config .body s.scene.inner body code b ∧ u.scene = s.scene.resume b ∧
      u.output = .block (before ++ [.block code]) ∧ Gives (f ()) u a t := by
  obtain ⟨u,looped,rest⟩ := gives_unit_bind.mp run
  obtain ⟨_,w,coded,rfl⟩ := (gives_within_block (s := { s with ledger := s.ledger.addLoop }) out).mp looped
  obtain ⟨code,b,rfl,emits,scene⟩ := codeWithin_emits steps coded
  exact ⟨code,b,{ w with output := .block (before ++ [.block code]) },emits,scene,rfl,rest⟩

end

/-! ## Statements of one line -/

theorem checkElements_run {target : String} (run : Gives (checkElements target) s a t) : t = s := by
  unfold checkElements at run
  split at run
  · simp only at run
    split at run
    · exact absurd run gives_reject
    · exact (gives_pure.mp run).2
  · exact (gives_pure.mp run).2

theorem assign_emits (target : IsExpr first) (expr : IsExpr value) :
    StatementEmits config (.assign (first :: others) value typeComment) := by
  intro s before t out run
  obtain ⟨u,tagged,run⟩ := gives_unit_bind.mp run
  obtain ⟨tags,rfl⟩ := tagTargets_keeps tagged
  obtain ⟨place,v,place_read,quiet,out1,run⟩ := read_bind_run target run
  obtain ⟨text,w,text_read,quiet',out2,run⟩ := read_bind_run expr run
  obtain ⟨x,checked,run⟩ := gives_unit_bind.mp run
  rw [checkElements_run checked,gives_frame_bind] at run
  obtain ⟨keyword,locals,introduced,run⟩ := introduceIf_run (p := _ = true) run
  have class_name : w.frames.top.className = s.scene.className := by
    rw [quiet'.frames,quiet.frames]; rfl
  rw [class_name,Bool.decide_eq_true] at introduced
  rw [class_name] at run
  split at run
  · exact absurd run gives_reject_bind
  · obtain rfl := emit_run run (out2.trans (out1.trans out))
    exact ⟨_,rfl,.line (.assign place_read text_read introduced)⟩

theorem augAssign_emits (place : IsExpr target) (expr : IsExpr value) :
    StatementEmits config (.augAssign target op value) := by
  intro s before t out run
  obtain ⟨binary,u,operator,run⟩ := gives_bind.mp run
  obtain ⟨known,same⟩ : op.binaryOp? = some binary ∧ u = s := by
    unfold binaryOperator at operator
    split at operator
    · split at operator
      · obtain ⟨rfl,rfl⟩ := gives_pure.mp operator
        exact ⟨‹_›,rfl⟩
      · exact absurd operator gives_fail
    · exact absurd operator gives_fail
  rw [same] at run
  obtain ⟨place,v,place_read,_,out1,run⟩ := read_bind_run place run
  obtain ⟨text,w,text_read,_,out2,run⟩ := read_bind_run expr run
  obtain ⟨operation,x,written,run⟩ := gives_bind.mp run
  unfold plainBinary at written
  split at written
  · obtain ⟨same1,same2⟩ := gives_pure.mp written
    rw [same1,same2] at run
    obtain rfl := emit_run run (out2.trans (out1.trans out))
    exact ⟨_,rfl,.line (.augAssign known place_read text_read ‹_›)⟩
  · exact absurd written gives_fail

theorem callOf_writes (expr : IsExpr hint) : ∀ call ∈ callOf config hint, ∀ receiver,
    Says Quiet (fun _ => True) (fun lines => ∃ text, lines = [text]) (call receiver) := by
  intro call given receiver
  cases expr
  case call func parts named =>
    cases given
    refine call_writes _ _ _ (expr_speaks func).text
      (texts_of_visits fun e member => expr_speaks (parts e member)) (fun k member => ?_)
      fun text => ⟨text,rfl⟩
    rw [keywordsOf_eq_map] at member
    obtain ⟨n,inside,rfl⟩ := List.mem_map.mp member
    exact phrase_uttered config (named n inside)
  all_goals cases given

theorem annAssign_emits (place : IsExpr target) (type : IsExpr hint) (expr : IsExpr value) :
    StatementEmits config (.annAssign target hint value simple) := by
  intro s before t out run
  obtain ⟨place,u,place_read,quiet,out1,run⟩ := read_bind_run place run
  obtain ⟨text,v,text_read,quiet',out2,run⟩ := read_bind_run expr run
  rw [gives_frame_bind] at run
  have class_name : v.frames.top.className = s.scene.className := by
    rw [quiet'.frames,quiet.frames]; rfl
  obtain ⟨keyword,locals,introduced,run⟩ := introduceUnless_run (p := _ = true) run
  obtain ⟨hintText,x,hint_read,_,out3,run⟩ := read_bind_run type run
  rw [class_name,Bool.decide_eq_true] at introduced
  rw [class_name] at run
  have out4 := out3.trans (out2.trans (out1.trans out))
  have line (text' : String) (nothing : text = "") (emitted : Gives (emit text') x () t) :
      ∃ code, t.output = .block (before ++ code) ∧
        Emits config .statement s.scene [.annAssign target hint value simple] code t.scene := by
    obtain rfl := emit_run emitted out4
    exact ⟨_,rfl,.line (.annAssign place_read text_read rfl introduced hint_read rfl
      fun written => absurd nothing written)⟩
  by_cases nothing : text = ""
  · rw [if_neg (by simp [nothing])] at run
    split at run
    · exact line _ nothing run
    · cases given : callOf config hint with
      | none => rw [given] at run; exact line _ nothing run
      | some call =>
        rw [given] at run
        obtain ⟨quiet'',lines,added,called,rfl⟩ :=
          (callOf_writes type call given _).run x before t trivial out4 run
        refine ⟨[.line called],added,.line (.annAssign place_read text_read rfl introduced hint_read
          ?_ fun written => absurd nothing written)⟩
        simp [State.scene,Scene.resume,quiet''.frames,quiet''.locals]
  · rw [if_pos (by simpa using nothing)] at run
    obtain rfl := emit_run run out4
    exact ⟨_,rfl,.line (.annAssign place_read text_read rfl introduced hint_read rfl fun _ => ⟨rfl,rfl⟩)⟩

theorem return_emits (expr : IsExpr value) : StatementEmits config (.returnStmt value) := by
  intro s before t out run
  change Gives (returnStatement value (visit config value)) s () t at run
  unfold returnStatement at run
  split at run
  · obtain ⟨recorded,u,first,_,out1,run⟩ := read_bind_run expr run
    obtain ⟨v,kept,run⟩ := gives_unit_bind.mp run
    obtain ⟨_,_,_,rfl,-⟩ := recordReturn_silent _ _ _ kept
    obtain ⟨text,w,second,_,out3,run⟩ := read_bind_run expr run
    obtain rfl := emit_run run (out3.trans (out1.trans out))
    exact ⟨_,rfl,.line (.returned first second)⟩
  · obtain ⟨text,u,reading,_⟩ := gives_bind.mp run
    obtain ⟨v,lines,failed,_⟩ := gives_inline.mp reading
    have absent : value = .absent := by
      cases value with
      | absent => rfl
      | _ => simp [Node.isAbsent] at *
    rw [absent] at failed
    exact absurd failed gives_fail

theorem delete_emits (exprs : ∀ e ∈ targets, IsExpr e) : StatementEmits config (.delete targets) := by
  intro s before t out run
  obtain ⟨texts,u,reads,_,out1,run⟩ := readAll_bind_run exprs run
  obtain rfl := emit_run run (out1.trans out)
  exact ⟨_,rfl,.line (.deleted reads)⟩

theorem assert_emits (expr : IsExpr test) : StatementEmits config (.assert test msg) := by
  intro s before t out run
  obtain ⟨text,u,reads,_,out1,run⟩ := read_bind_run expr run
  obtain rfl := emit_run run (out1.trans out)
  exact ⟨_,rfl,.line (.asserted reads)⟩

theorem raise_emits (expr : IsExpr exc) : StatementEmits config (.raise exc cause) := by
  intro s before t out run
  obtain ⟨text,u,reads,_,out1,run⟩ := read_bind_run expr run
  obtain rfl := emit_run run (out1.trans out)
  exact ⟨_,rfl,.line (.raised reads)⟩

theorem global_emits : StatementEmits config (.global names) := by
  intro s before t out run
  obtain ⟨_,rfl⟩ := declareGlobals_keeps run
  exact ⟨[],by simpa using out,.global⟩

theorem expression_emits (expr : IsExpr value) : StatementEmits config (.exprStmt value) := by
  have spread_emits {s t : State} {before : List Code} (out : s.output = .block before) (run : Gives (do
        within (fun f => { f with docstring := value.constant?.isSome }) (spread (visit config value))
        emitEntry .void) s () t) : ∃ code, t.output = .block (before ++ code) ∧
        Emits config .statement s.scene [.exprStmt value] code t.scene := by
    obtain ⟨u,spreads,run⟩ := gives_unit_bind.mp run
    obtain ⟨old,last,rfl⟩ := gives_emitEntry.mp run
    obtain ⟨v,frames,inside,popped,rfl⟩ := gives_within.mp spreads
    obtain ⟨w,locals,old',entries,inner,added,closed,same,rfl⟩ := gives_spread.mp inside
    obtain ⟨quiet,lines,lines_out,_⟩ := (expr_speaks expr).run _ [] w trivial rfl inner
    obtain rfl : lines.map .line = entries := by simpa [lines_out,Code.entries?] using added
    obtain rfl : s.locals = locals := by
      simpa [quiet.locals,SymbolStack.push,SymbolStack.pop?] using closed
    obtain rfl : s.frames = frames := by simpa [quiet.frames,Frames.push,Frames.pop?] using popped
    have whole : before = old' := by simpa [out] using same
    have ended : old = before ++ lines.map .line := by simpa [whole] using last.symm
    refine ⟨lines.map .line ++ [.void],by simp [ended],?_⟩
    refine .expression (b := w.scene) ⟨?_,_,w,rfl,rfl,rfl,inner,by simpa using lines_out⟩
    simp [State.scene,Scene.resume,Scene.inner,quiet.frames,quiet.locals,Frames.push]
  intro s before t out run
  change Gives (expressionStatement value (visit config value)) s () t at run
  unfold expressionStatement at run
  split at run
  · obtain ⟨u,recorded,run⟩ := gives_unit_bind.mp run
    obtain ⟨_,_,_,rfl,-⟩ := recordConstant_silent _ _ _ recorded
    have emitted := spread_emits (by exact out) run
    exact emitted
  · exact spread_emits out run

/-! ## Branches and loops -/

theorem eraseIdx_dropLast (before mid : List α) (first last : α) :
    ((before ++ (first :: mid ++ [last])).eraseIdx before.length).dropLast = before ++ mid := by
  rw [List.eraseIdx_append_of_length_le (Nat.le_refl _),Nat.sub_self,List.cons_append,
    List.eraseIdx_cons_zero,← List.append_assoc,List.dropLast_concat]

theorem withoutEnds_run (run : Gives (withoutEnds statement) s a t) (out : s.output = .block before) :
    ∃ u, Gives statement s () u ∧ ∃ entries, u.output = .block entries ∧
      t = { u with output := .block (entries.eraseIdx before.length).dropLast } := by
  rw [withoutEnds,gives_get_bind,gives_unit_bind] at run
  obtain ⟨u,ran,run⟩ := run
  rw [gives_get_bind] at run
  split at run
  · rename_i entries added
    refine ⟨u,ran,entries,added,?_⟩
    rw [gives_update.mp run]
    simp [out,Code.entries?]
  · exact absurd run gives_fail

theorem otherwise_emits (steps : ∀ n ∈ orElse, StatementEmits config n)
    (run : Gives (proceed (otherwiseOf config orElse)) s a t) (out : s.output = .block before)
    (exprs : ∀ n ∈ orElse, IsStmt n) :
    ∃ code, t.output = .block (before ++ code ++ [.line "end"]) ∧
      Emits config .otherwise s.scene orElse code t.scene := by
  cases orElse with
  | nil =>
    obtain rfl := emit_run run out
    exact ⟨[],by simp,.nothing⟩
  | cons n ns =>
    rw [otherwiseOf] at run
    cases tested : testOf config n with
    | none =>
      simp only [tested] at run
      have run := emit_bind_run run out
      have inside : BodyEmits config (n :: ns) := body_emits steps
      obtain ⟨code,b,u,emits,scene,out',run⟩ := block_bind_run inside rfl run
      obtain rfl := emit_run run out'
      refine ⟨[.line "else",.block code],by simp,?_⟩
      change Emits config .otherwise s.scene (n :: ns) _ u.scene
      rw [scene]
      exact .orElse tested emits
    | some test =>
      simp only [tested] at run
      obtain ⟨test,body,orElse,rfl,rfl⟩ := eq_branch_of_testOf tested
      have expr : IsExpr test := by
        cases exprs _ (List.mem_cons_self ..)
        assumption
      obtain ⟨text,u,reads,_,same,run⟩ := read_bind_run expr run
      have run := emit_bind_run run (same.trans out)
      obtain ⟨v,kept,run⟩ := gives_unit_bind.mp run
      obtain ⟨w,whole,entries,added,rfl⟩ := withoutEnds_run kept rfl
      obtain ⟨code,out',emits⟩ := steps _ (List.mem_cons_self ..) _ _ w rfl whole
      obtain rfl := emit_run run rfl
      cases emits
      case line written => cases written
      case branch again inside others =>
        refine ⟨_,?_,.elseIf reads again inside others⟩
        rw [added] at out'
        cases out'
        simp only [eraseIdx_dropLast]
        simp

theorem branch_emits (expr : IsExpr test) (steps : BodyEmits config body)
    (exprs : ∀ n ∈ orElse, IsStmt n) (others : ∀ n ∈ orElse, StatementEmits config n) :
    StatementEmits config (.ifStmt test body orElse) := by
  intro s before t out run
  change Gives (branch _ _ _) _ _ _ at run
  rw [branch_proceeds] at run
  obtain ⟨text,u,reads,_,same,run⟩ := read_bind_run expr run
  have run := emit_bind_run run (same.trans out)
  obtain ⟨code,b,v,emits,scene,out',run⟩ := block_bind_run steps rfl run
  obtain ⟨more,out'',chain⟩ := otherwise_emits others run out' exprs
  rw [scene] at chain
  exact ⟨_,by simpa using out'',.branch reads emits chain⟩

theorem while_emits (expr : IsExpr test) (steps : BodyEmits config body) :
    StatementEmits config (.whileStmt test body orElse) := by
  intro s before t out run
  obtain ⟨text,u,reads,_,same,run⟩ := read_bind_run expr run
  have run := emit_bind_run run (same.trans out)
  obtain ⟨code,b,v,emits,scene,out',run⟩ := loopBody_bind_run steps rfl run
  obtain rfl := emit_run run out'
  refine ⟨_,by simp; rfl,?_⟩
  change Emits config .statement s.scene _ _ v.scene
  rw [scene]
  exact .whileLoop reads emits

theorem for_emits (place : IsExpr target) (expr : IsExpr iter) (steps : BodyEmits config body) :
    StatementEmits config (.forStmt false target iter body orElse typeComment) := by
  intro s before t out run
  obtain ⟨place,u,place_read,_,out1,run⟩ := read_bind_run place run
  obtain ⟨text,v,text_read,_,out2,run⟩ := read_bind_run expr run
  rw [gives_get_bind] at run
  have out3 := out2.trans (out1.trans out)
  split at run
  · rename_i known
    obtain ⟨header,written,run⟩ := gives_ofExcept_bind.mp run
    have run := emit_bind_run run out3
    obtain ⟨code,b,w,emits,scene,out',run⟩ := loopBody_bind_run steps rfl run
    obtain rfl := emit_run run out'
    refine ⟨[.line header,.block code,.line "end)"],by simp,?_⟩
    change Emits config .statement s.scene _ _ w.scene
    rw [scene]
    exact .generatorLoop place_read text_read known written emits
  · rename_i unknown
    obtain ⟨overText,w,decided,run⟩ := gives_bind.mp run
    have kept : w = v := by
      rw [iteratesText,gives_tagOf_bind] at decided
      split at decided <;> exact (gives_pure.mp decided).2
    rw [kept] at run
    have run := emit_bind_run run out3
    obtain ⟨code,b,x,emits,scene,out',run⟩ := loopBody_bind_run steps rfl run
    obtain rfl := emit_run run out'
    refine ⟨[.line (loopHeader overText place text),.block code,.line "end"],by simp,?_⟩
    change Emits config .statement s.scene _ _ x.scene
    rw [scene]
    exact .forLoop place_read text_read (Bool.eq_false_iff.mpr unknown) emits

/-! ## Functions -/

theorem function_emits {name : Option String} (exprs : ∀ e ∈ defaults, IsExpr e)
    (markers : ∀ e ∈ decorators, IsExpr e) (steps : BodyEmits config body) :
    StatementEmits config (.functionDef false name
      (.params posOnly regular rest kwOnly kwDefaults kwRest defaults) body decorators returns
      typeComment) := by
  intro s before t out run
  obtain ⟨own,rfl⟩ := definition_named run
  obtain ⟨_,_,u,_,v,restText,values,w,connected,x,same,signed,coded,rest_given,read,enough,-,again,rfl⟩ :=
    gives_definition.mp run
  obtain rfl := Code.block.inj (out.symm.trans same)
  obtain ⟨names,texts,y,_,given,keyword,locals,params,marked,taken,shown,introduced,rfl,rfl⟩ :=
    signature_run signed
  cases taken
  obtain rfl := givenNames_ok shown
  have reversed : ∀ e ∈ decorators.reverse, IsExpr e := by simpa using markers
  rw [visits_reverse] at marked
  obtain ⟨marked_read,-⟩ := inlineEach_reads reversed marked
  obtain ⟨code,b,rfl,emits,scene⟩ := codeWithin_emits steps coded
  obtain ⟨values_read,-⟩ := inlineEach_reads (fun e inside => exprs e (List.mem_reverse.mp inside)) read
  obtain ⟨connected_read,-⟩ := inlineEach_reads reversed again
  have settled : (settled v own).scene = v.scene := rfl
  rw [settled,scene] at values_read
  have generators : v.generators = b.generators := congrArg Scene.generators scene
  refine ⟨_,?_,.function params rest_given marked_read introduced emits values_read connected_read enough⟩
  cases absent : rest.isAbsent <;> by_cases yields : some own ∈ b.generators <;>
    simp [State.scene,yields,endLines,generators,Code.led]

/-! ## Classes, items, handlers and cases -/

theorem class_emits (exprs : ∀ e ∈ bases, IsExpr e) (steps : BodyEmits config body) :
    StatementEmits config (.classDef (some name) bases keywords body decorators) := by
  intro s before t out run
  obtain ⟨_,texts,u,keyword,locals,_,v,returns,same,read,introduced,coded,rfl⟩ := class_run run
  obtain rfl := Code.block.inj (out.symm.trans same)
  obtain ⟨texts_read,quiet,-⟩ := inlineEach_reads exprs read
  obtain ⟨code,b,filled,emits,scene⟩ := codeWithin_emits steps coded
  obtain rfl := Code.block.inj filled
  have class_name : u.frames.top.className = s.scene.className := by rw [quiet.frames]; rfl
  rw [class_name] at introduced ⊢
  exact ⟨_,by simp [classEntries],scene ▸ Emits.classOf (r := returns) texts_read introduced emits⟩

theorem itemLines_of_texts (texts : ItemTexts config s items lines t)
    (exprs : ∀ i ∈ items, ∃ context vars, i = .withItem context vars ∧ IsExpr context ∧ IsExpr vars) :
    ItemLines config s.scene items lines t.scene := by
  induction texts with
  | nil => exact .nil
  | bare read _ ih =>
    obtain ⟨⟨_,_,⟨⟩,context,-⟩,others⟩ := List.forall_mem_cons.mp exprs
    exact .bare (inline_reads context read).1 (ih others)
  | bound _ named read _ ih =>
    obtain ⟨⟨_,_,⟨⟩,context,vars⟩,others⟩ := List.forall_mem_cons.mp exprs
    exact .bound (inline_reads vars named).1 (inline_reads context read).1 (ih others)

theorem with_emits
    (exprs : ∀ i ∈ items, ∃ context vars, i = .withItem context vars ∧ IsExpr context ∧ IsExpr vars)
    (steps : BodyEmits config body) :
    StatementEmits config (.withStmt false items body typeComment) := by
  intro s before t out run
  obtain ⟨_,_,lines,u,v,same,coded,texts,-,rfl⟩ := with_run run
  obtain rfl := Code.block.inj (out.symm.trans same)
  obtain ⟨code,b,rfl,emits,scene⟩ := bodyCode_emits steps coded
  have lines_read := itemLines_of_texts texts exprs
  rw [scene] at lines_read
  exact ⟨_,rfl,.withItems emits lines_read⟩

def HandlerEmits (config : Option Config) (n : Node) : Prop :=
  ∃ type name body, n = .handler type name body ∧ BodyEmits config body

theorem handlers_emit {position : Nat} (steps : ∀ n ∈ ns, HandlerEmits config n)
    (run : Gives (handlers chained position (handlersOf config ns)) s a t)
    (out : s.output = .block before) : ∃ code, t.output = .block (before ++ code) ∧
      Emits config (.handlers chained position) s.scene ns code t.scene := by
  induction ns generalizing s before position with
  | nil =>
    rw [(gives_pure.mp run).2]
    exact ⟨[],by simpa using out,.noHandlers⟩
  | cons n ns ih =>
    obtain ⟨type,name,body,rfl,inside⟩ := steps n (by simp)
    obtain ⟨u,ran,run⟩ := gives_unit_bind.mp (emit_bind_run run out)
    obtain ⟨_,v,coded,rfl⟩ := handlerBody_run (h := ⟨type,name,body⟩) rfl ran
    obtain ⟨code,b,rfl,emits,scene⟩ := bodyCode_emits inside coded
    have others := fun n member => steps n (List.mem_cons_of_mem _ member)
    have head : (⟨type,name,body⟩ : Catcher).head position =
      if type.isName then (handlerHead position (shownName type.id?) name).map .line else [] := rfl
    have empty : (handlersOf config ns).isEmpty = ns.isEmpty := by cases ns <;> rfl
    rw [empty] at run
    split at run
    · rename_i closes
      obtain ⟨rest,out2,handled⟩ := ih others (emit_bind_run run rfl) rfl
      refine ⟨_,?_,.handler emits (scene ▸ handled)⟩
      rw [if_pos closes]
      simpa [head] using out2
    · rename_i stays
      obtain ⟨rest,out2,handled⟩ := ih others run rfl
      refine ⟨_,?_,.handler emits (scene ▸ handled)⟩
      rw [if_neg stays]
      simpa [head] using out2

theorem try_emits {handlers finalBody : List Node} (steps : BodyEmits config body)
    (handled : ∀ h ∈ handlers, HandlerEmits config h) (last : BodyEmits config finalBody) :
    StatementEmits config (.tryStmt false body handlers orElse finalBody) := by
  intro s before t out run
  have run := emit_bind_run run out
  have run := emit_bind_run run rfl
  obtain ⟨code,b,u,emits,scene,out1,run⟩ := block_bind_run steps rfl run
  have run := emit_bind_run run out1
  obtain ⟨v,ran,run⟩ := gives_unit_bind.mp run
  obtain ⟨handling,out2,handles⟩ := handlers_emit handled ran rfl
  have run := emit_bind_run run out2
  obtain ⟨final,c,w,finals,scene',out3,run⟩ := block_bind_run last rfl run
  obtain rfl := emit_run run out3
  have scene'' : w.scene = v.scene.resume c := scene'
  have tried : Emits config .statement s.scene [.tryStmt false body handlers orElse finalBody] _
      w.scene := scene'' ▸ Emits.tried emits (scene ▸ handles) finals
  exact ⟨_,by simp,tried⟩

def CaseEmits (config : Option Config) (n : Node) : Prop :=
  ∃ pattern guard body, n = .matchCase pattern guard body ∧ BodyEmits config body

theorem cases_emit (expr : IsExpr subject) (steps : ∀ n ∈ ns, CaseEmits config n)
    (run : Gives (matchCases (visit config subject) isFirst (casesOf config ns)) s a t)
    (out : s.output = .block before) : ∃ code, t.output = .block (before ++ code) ∧
      Emits config (.cases subject isFirst) s.scene ns code t.scene := by
  induction ns generalizing s before isFirst with
  | nil =>
    rw [(gives_pure.mp run).2]
    exact ⟨[],by simpa using out,.noCases⟩
  | cons n ns ih =>
    obtain ⟨pattern,guard,body,rfl,inside⟩ := steps n (by simp)
    have others := fun n member => steps n (List.mem_cons_of_mem _ member)
    obtain ⟨u,first,run⟩ := gives_unit_bind.mp run
    simp only [caseOf,matchCase] at first
    split at first
    · exact absurd first gives_reject
    · obtain ⟨text,v,reads,_,same,first⟩ := read_bind_run expr first
      obtain ⟨literal,written,first⟩ := gives_ofExcept_bind.mp first
      have first := emit_bind_run first (same.trans out)
      obtain ⟨code,b,emits,scene,out1⟩ := block_emits inside first rfl
      obtain ⟨rest,out2,cases⟩ := ih others run out1
      exact ⟨_,by simpa using out2,.case reads ‹_› written emits (scene ▸ cases)⟩
    · exact absurd first gives_fail

theorem match_emits (expr : IsExpr subject) (steps : ∀ c ∈ cases, CaseEmits config c) :
    StatementEmits config (.matchStmt subject cases) := by
  intro s before t out run
  obtain ⟨u,ran,run⟩ := gives_unit_bind.mp run
  obtain ⟨code,out1,emits⟩ := cases_emit expr steps ran out
  obtain rfl := emit_run run out1
  exact ⟨_,by simp,.matched emits⟩

/-! ## Trees -/

/-- What holds of a statement, of a handler and of a case. -/
def Translated (config : Option Config) : Form → Node → Prop
  | .statement, n => StatementEmits config n
  | .handler, n => HandlerEmits config n
  | .case, n => CaseEmits config n

theorem sentence_translated (config : Option Config) (sentence : Sentence form n) :
    Translated config form n := by
  induction sentence with
  | pass =>
    intro s before t out run
    rw [(gives_pure.mp run).2]
    exact ⟨[],by simpa using out,.pass⟩
  | global => exact global_emits
  | breakStmt =>
    intro s before t out run
    obtain rfl := emit_run run out
    exact ⟨_,rfl,.line .broken⟩
  | continueStmt =>
    intro s before t out run
    obtain rfl := emit_run run out
    exact ⟨_,rfl,.line .continued⟩
  | exprStmt expr => exact expression_emits expr
  | assign target expr => exact assign_emits target expr
  | augAssign place expr => exact augAssign_emits place expr
  | annAssign place type expr => exact annAssign_emits place type expr
  | returnStmt expr => exact return_emits expr
  | delete exprs => exact delete_emits exprs
  | assert expr => exact assert_emits expr
  | raise expr => exact raise_emits expr
  | ifStmt expr _ others inside chained =>
    exact branch_emits expr (body_emits inside) others chained
  | whileStmt expr _ inside => exact while_emits expr (body_emits inside)
  | forStmt place expr _ inside => exact for_emits place expr (body_emits inside)
  | functionDef exprs markers _ inside => exact function_emits exprs markers (body_emits inside)
  | classDef exprs _ inside => exact class_emits exprs (body_emits inside)
  | withStmt exprs _ inside => exact with_emits exprs (body_emits inside)
  | tryStmt _ _ _ inside handled last => exact try_emits (body_emits inside) handled (body_emits last)
  | handler _ inside | matchCase _ inside => exact ⟨_,_,_,rfl,body_emits inside⟩
  | matchStmt expr _ inside => exact match_emits expr inside

theorem statement_emits (stmt : IsStmt n) : StatementEmits config n := sentence_translated config stmt

theorem module_emits (stmts : ∀ n ∈ body, IsStmt n) (out : s.output = .block [])
    (run : Gives (visit config (.module body typeIgnores)) s () t) :
    ∃ code b, t.output = .block code ∧ Emits config .body s.scene.inner body code b := by
  obtain ⟨u,ran,run⟩ := gives_unit_bind.mp run
  obtain ⟨code,b,emits,_,out'⟩ :=
    block_emits (body_emits fun n member => statement_emits (stmts n member)) ran out
  rw [gives_get_bind,out'] at run
  rw [gives_update.mp run]
  exact ⟨code,b,rfl,emits⟩

end Compile

end LuauCompiler
