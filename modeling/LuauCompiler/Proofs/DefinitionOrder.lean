import LuauCompiler.Proofs.Lockstep
import LuauCompiler.Proofs.Provision

/-! Two definitions in either order. Behind the definition of a generator a loop over its calls is
written in another form than before it. -/
namespace LuauCompiler

/-- All that a state knows. -/
def State.lead (s : State) : Lead := ⟨(s.locals.knows · = true),(· ∈ s.generators)⟩

/-! ## Loops over calls -/

theorem Text.dropGroups_call (plain : '(' ∉ f.toList) : dropGroups (f ++ "()") = f := by
  have chars (cs : List Char) (plain : '(' ∉ cs) : dropGroupsFrom none (cs ++ ['(',')']) = cs := by
    induction cs with
    | nil => rfl
    | cons c rest ih =>
      rw [List.mem_cons,not_or] at plain
      rw [List.cons_append,dropGroupsFrom,ih plain.2]
      exact fun same => plain.1 same.symm
  have group : "()".toList = ['(',')'] := rfl
  rw [dropGroups,String.toList_append,group,chars _ plain,String.ofList_toList]

namespace Compile

variable {config : Option Config} {ledger : Ledger} {s t : State} {before : List Code}

variable {name : String} {n : Node}

theorem call_loopsOver (plain : '(' ∉ f.toList) : Node.LoopsOver config f
      (.forStmt false target (.call (.name (some f) access) [] []) body orElse comment) := by
  intro s text t run
  obtain ⟨u,texts,inside,out,rfl,-⟩ := gives_inline.mp run
  obtain ⟨name,v,read,inside⟩ := gives_bind.mp inside
  obtain ⟨rfl,rfl⟩ := Gives.unique (name_gives config _ f access) read
  have shown {w : State} (empty : w.output = .block [])
      (last : Gives (emit (f ++ "(" ++ Text.commaSeparated [] ++ ")")) w () u) :
      Text.dropGroups (String.intercalate " " texts) = f := by
    obtain ⟨old,start,rfl⟩ := gives_emit.mp last
    cases empty.symm.trans start
    cases out
    have text : String.intercalate " " [f ++ "(" ++ Text.commaSeparated [] ++ ")"] = f ++ "()" := by
      simp [← String.toList_inj,Text.commaSeparated]
    rw [text,Text.dropGroups_call plain]
  dsimp only at inside
  split at inside
  · rw [gives_needs_bind] at inside
    exact shown rfl inside
  · exact shown rfl inside

/-! ## One definition -/

theorem isOpen_lines (front : List Code) (text : String) (lines : List String) :
    IsOpen (front ++ .line text :: lines.map .line) := by
  rcases List.eq_nil_or_concat lines with rfl | ⟨others,last,rfl⟩
  · exact isOpen_concat_line front text
  · rw [List.concat_eq_append,List.map_append,← List.cons_append,← List.append_assoc]
    exact isOpen_concat_line _ last

theorem row_output (stmts : AreStatements ns) (free : IsOpen before)
    (start : s.output = .block before) (run : Gives (each (visits config ns)) s () t) :
    ∃ more, t.output = .block (before ++ more) := by
  -- With nothing in the lead a run is in step with itself.
  have agrees : Agrees ⟨fun _ => False,fun _ => False⟩ s.frames.top.className (each (visits config ns)) :=
    row_agrees fun n member => statement_agrees (stmts.row (by simpa using member))
      ⟨fun _ _ _ _ _ => id,fun _ _ _ _ _ => id⟩ fun _ => False.elim
  obtain ⟨-,⟨-,more,out,-⟩,-⟩ := agrees.run before before s s () () t t free free
    ⟨⟨rfl,rfl,rfl,rfl,by simp,by simp⟩,[],by simpa using start,by simpa using start⟩ rfl run run
  exact ⟨more,out⟩

theorem IntroducesIf.knows {keyword : String} (introduced : IntroducesIf condition a name keyword b)
    (known : b.locals.knows other = true) : a.locals.knows other = true ∨ other = some name := by
  unfold IntroducesIf at introduced
  split at introduced
  · cases introduced with
    | known => exact .inl known
    | unknown _ added => exact ((SymbolStack.knows_add added).mp known).symm
  · rw [introduced.2] at known
    exact .inl known

theorem definition_run (stmts : AreStatements [n]) (defined : n.definition? = some (some own))
    (out : s.output = .block before) (run : Gives (visit config n) s () t) :
    (∃ more, t.output = .block (before ++ more) ∧ IsOpen (before ++ more)) ∧
      ∀ name, t.locals.knows name = true → s.locals.knows name = true ∨
        name = some (qualified s.frames.top.className own) := by
  obtain ⟨params,body,decorators,returns,comment,rfl⟩ := eq_of_definition defined
  obtain ⟨marked,filled⟩ := stmts "" "" _ (.here (List.mem_singleton_self _))
  have reversed : ∀ e ∈ decorators.reverse, IsExpr e := by simpa using marked
  have backwards : ∀ e ∈ params.paramDefaults.reverse, IsExpr e := by simpa using filled
  obtain ⟨_,head,u,code,v,line,values,w,connected,x,same,signed,coded,-,read,-,-,again,rfl⟩ :=
    gives_definition.mp run
  cases out.symm.trans same
  constructor
  · refine ⟨_,congrArg Code.block (List.append_assoc ..),?_⟩
    rw [← List.append_assoc]
    exact isOpen_lines _ "end" _
  · intro name known
    obtain ⟨names,texts,y,rest,given,keyword,locals,-,first,-,-,introduced,rfl,-⟩ := signature_run signed
    obtain ⟨z,-,-,rfl⟩ := codeWithin_run coded
    rw [visits_reverse] at first
    have behind : x.locals = locals := calc
      x.locals = w.locals := (inlineEach_reads reversed again).2.1.locals
      _ = locals := (inlineEach_reads backwards read).2.1.locals
    have kept : y.locals = s.locals := (inlineEach_reads reversed first).2.1.locals
    rw [← kept]
    exact introduced.knows (behind ▸ known)

/-! ## Two definitions -/

def moduleStart (ledger : Ledger) : State := (State.initial ledger).openBlock

def CodeBehind (config : Option Config) (ledger : Ledger) (row : List Node) (n : Node)
    (code : List Code) : Prop :=
  ∃ s before t, Gives (each (visits config row)) (moduleStart ledger) () s ∧
    s.output = .block before ∧ Gives (visit config n) s () t ∧ t.output = .block (before ++ code)

/-- What was noted about the values of names has no say in the code of the statement. -/
def TagsIdle (config : Option Config) (s : State) (n : Node) : Prop := ∀ t, Gives (visit config n) s () t →
    ∃ u, Gives (visit config n) { s with tags := [] } () u ∧ u.output = t.output

theorem tagsIdle_of_nil (untagged : s.tags = []) : TagsIdle config s n := by
  intro t run
  have same : { s with tags := [] } = s := by rw [← untagged]
  exact ⟨t,by rwa [same],rfl⟩

structure Defines (config : Option Config) (ledger : Ledger) (m n : Node) (u v : State)
    (xs ys : List Code) : Prop where
  first : Gives (visit config m) (moduleStart ledger) () u
  code : u.output = .block xs
  free : IsOpen xs
  second : Gives (visit config n) u () v
  whole : v.output = .block (xs ++ ys)

theorem module_defines (stmts : AreStatements [m,n]) (defined : m.definition? = some (some own))
    (defined' : n.definition? = some (some other))
    (run : Gives (visit config (.module [m,n] ignores)) (State.initial ledger) () t) :
    ∃ u v xs ys, Defines config ledger m n u v xs ys ∧ t.output = .block (xs ++ ys) := by
  obtain ⟨w,blocked,run⟩ := gives_unit_bind.mp run
  obtain ⟨v,old,row,-,empty,rfl⟩ := block_run blocked
  cases empty
  obtain ⟨u,first,row⟩ := gives_each_cons.mp row
  obtain ⟨v',second,last⟩ := gives_each_cons.mp row
  cases last
  have start : (moduleStart ledger).output = .block [] := rfl
  obtain ⟨⟨xs,code,free⟩,-⟩ := definition_run (stmts.row (by simp)) defined start first
  obtain ⟨⟨ys,whole,-⟩,-⟩ := definition_run (stmts.row (by simp)) defined' code second
  refine ⟨u,v,xs,ys,⟨first,code,free,second,whole⟩,?_⟩
  rw [gives_get_bind] at run
  cases run
  exact whole

theorem gives_of_ledger (run : Gives (visit config n) s () t) (ledger : Ledger) :
    ∃ u, Gives (visit config n) { s with ledger } () u ∧ u.output = t.output := by
  have beside : State.Beside s.ledger ledger s { s with ledger } := ⟨⟨rfl,rfl,rfl,rfl⟩,.empty,by simp,by simp⟩
  obtain ⟨outcome,after⟩ := (visit_built config n).blind.run beside
  rw [run] at outcome after
  exact ⟨(visit config n { s with ledger }).2,Prod.ext outcome.symm rfl,after.alike.output.symm⟩

variable {g h : Node} {u v w x : State} {gs hs hs' gs' : List Code}

theorem struck_code (stmts : AreStatements [h]) (avoids : Avoids config (some f) h)
    (struck : Struck config f [h]) (marked : Marked config (none,g) (some f))
    (behind : Defines config ledger g h u v gs hs) (ahead : Defines config ledger h g w x hs' gs') :
    hs ≠ hs' := by
  have known : some f ∈ u.generators := (marked_iff behind.first _).mpr (.inr marked)
  have unknown : Known f false (moduleStart ledger).view := ⟨List.not_mem_nil,nofun⟩
  obtain ⟨xs,ys,wrote,added,differ⟩ := struck_differs stmts avoids struck unknown known rfl behind.code
    isOpen_nil behind.free ahead.first behind.second
  obtain rfl : hs' = xs := Code.block.inj (ahead.code.symm.trans wrote)
  obtain rfl : hs = ys := List.append_cancel_left (Code.block.inj (behind.whole.symm.trans added))
  exact differ.symm

theorem visit_lead (run : Gives (visit config g) (moduleStart ledger) () u) :
    Ahead u.lead (moduleStart ledger).outlook { u with ledger, tags := [] : State }.outlook where
  frames := (((visit_built config g).follows stackLaw).kept run).frames
  tags := rfl
  current := (visit_current g run).trans (by cases g.exits <;> rfl)
  loops := rfl
  locals _ := ⟨.inr,(·.resolve_left Bool.false_ne_true)⟩
  generators _ := ⟨.inr,(·.resolve_left List.not_mem_nil)⟩

theorem spared_code (stmts : AreStatements [g,h]) (defined : g.definition? = some (some name))
    (avoids : ∀ f, Marked config (none,g) (some f) → Avoids config (some f) h)
    (spared : Spared config ⟨(· = some name),Marked config (none,g)⟩ "" [h])
    (idle : TagsIdle config u h) (behind : Defines config ledger g h u v gs hs)
    (ahead : Defines config ledger h g w x hs' gs') : hs = hs' := by
  have fresh : (moduleStart ledger).output = .block [] := rfl
  have marks (f : Option String) (marked : f ∈ u.generators) : Marked config (none,g) f :=
    ((marked_iff behind.first f).mp marked).resolve_left List.not_mem_nil
  have spared : Spared config u.lead "" [h] := by
    refine spared.less (fun own known => ?_) marks
    exact ((definition_run (stmts.row (by simp)) defined fresh behind.first).2 own known).resolve_left
      Bool.false_ne_true
  obtain ⟨y,ran,same⟩ := idle v behind.second
  obtain ⟨z,again,kept⟩ := gives_of_ledger ran ledger
  have agrees := (statement_agrees (stmts.row (by simp)) spared
    fun f marked => avoids f (marks _ marked)).whole
  obtain ⟨-,⟨-,more,left,right⟩,-⟩ := agrees.run [] gs _ _ () () w z isOpen_nil behind.free
    ⟨visit_lead behind.first,[],rfl,by simpa using behind.code⟩ rfl ahead.first again
  calc
    hs = more := List.append_cancel_left
      (Code.block.inj (behind.whole.symm.trans (same.symm.trans (kept.symm.trans right))))
    _ = hs' := Code.block.inj (left.symm.trans ahead.code)

/-- A loop over calls of a generator is written in one form behind the definition of the generator and
in another one before it. So the code of a function in which such a loop stands depends on which of the
two definitions comes first. The code of a function that has no loop over calls of the generators, does
not declare the name of the other function and has no use for the notes on its values does not. -/
theorem order_shows_in_loops {ignores : List Node} {name other : String}
    (stmts : AreStatements [g,h]) (generator : g.definition? = some (some name))
    (user : h.definition? = some (some other))
    (avoids : ∀ f, Marked config (none,g) (some f) → Avoids config (some f) h)
    (first : Gives (visit config (.module [g,h] ignores)) (State.initial ledger) () s)
    (second : Gives (visit config (.module [h,g] ignores)) (State.initial ledger) () t) :
    ∃ gs hs hs' gs', s.output = .block (gs ++ hs) ∧ t.output = .block (hs' ++ gs') ∧
      CodeBehind config ledger [g] h hs ∧ CodeBehind config ledger [] h hs' ∧
      (∀ f, Marked config (none,g) (some f) → Struck config f [h] → hs ≠ hs') ∧
      (Spared config ⟨(· = some name),Marked config (none,g)⟩ "" [h] →
        (∀ u, Gives (visit config g) (moduleStart ledger) () u → TagsIdle config u h) → hs = hs') := by
  obtain ⟨u,v,gs,hs,behind,out⟩ := module_defines stmts generator user first
  obtain ⟨w,x,hs',gs',ahead,out'⟩ := module_defines (stmts.row (by simp)) user generator second
  refine ⟨gs,hs,hs',gs',out,out',?_,?_,fun f marked struck => ?_,fun spared idle => ?_⟩
  · exact ⟨u,gs,v,gives_each_cons.mpr ⟨u,behind.first,rfl⟩,behind.code,behind.second,behind.whole⟩
  · exact ⟨_,[],w,rfl,rfl,ahead.first,ahead.code⟩
  · exact struck_code (stmts.row (by simp)) (avoids f marked) struck marked behind ahead
  · exact spared_code stmts generator avoids spared (idle u behind.first) behind ahead

theorem areStatements_of_parts (own : ∀ n ∈ ns, n.IsStatement)
    (inner : ∀ n ∈ ns, ∀ c, ∀ part ∈ n.bodies c, AreStatements part.2) : AreStatements ns := by
  rintro c d n (member | ⟨member,part,stands⟩)
  · exact own n member
  · exact inner _ member c _ part _ _ _ stands

def sevenUser : Node := plainFunction "h" [sevenLoop]

def sevenUserSteps : Compile Unit :=
  functionDefinition (some "h") (.params [] [] .absent [] [] .absent []) [] [sevenSteps] []

theorem sevenUser_steps : visit none sevenUser = sevenUserSteps := by
  have unfolded : visit none sevenUser = functionDefinition (some "h")
      (.params [] [] .absent [] [] .absent []) (visits none []) (visits none [sevenLoop])
      (defaultsOf none (.params [] [] .absent [] [] .absent [])) := rfl
  have inner : visits none [sevenLoop] = [sevenSteps] := by
    rw [← sevenLoop_steps none]
    rfl
  have nothing : defaultsOf none (.params [] [] .absent [] [] .absent []) = [] := rfl
  rw [unfolded,inner,nothing]
  rfl

theorem modules_steps :
    visit none (.module [sevens,sevenUser] []) = moduleBody [visit none sevens,sevenUserSteps] ∧
    visit none (.module [sevenUser,sevens] []) = moduleBody [sevenUserSteps,visit none sevens] := by
  rw [← sevenUser_steps]
  exact ⟨rfl,rfl⟩

theorem sevens_marked : Marked none (none,sevens) f ↔ f = some "sevens" := by
  have run : Gives (visit none sevens) (moduleStart .empty) () _ := gives_of_isOk (by decide +kernel)
  have marks : (visit none sevens (moduleStart .empty)).2.generators = [some "sevens"] := by
    decide +kernel
  have marked := marked_iff run f
  rw [marks,List.mem_singleton] at marked
  exact ⟨fun comes => marked.mpr (.inr comes),fun same => (marked.mp same).resolve_left List.not_mem_nil⟩

theorem sevens_statements (inner : AreStatements body) : AreStatements [sevens,plainFunction "h" body] := by
  have yields : AreStatements [.exprStmt (.yield (.constant (.int 7) none))] := by
    refine areStatements_of_parts ?_ (by simp [Node.bodies])
    simpa [Node.IsStatement] using Phrase.yield .constant
  refine areStatements_of_parts ?_ ?_
  · simp [sevens,plainFunction,Node.IsStatement,Node.paramDefaults]
  · simp [sevens,plainFunction,Node.bodies,yields,inner]

theorem pass_statements : AreStatements [.pass] :=
  areStatements_of_parts (by simp [Node.IsStatement]) (by simp [Node.bodies])

theorem sevenLoop_statements : AreStatements [sevenLoop] := by
  have call : IsExpr callSevens := .call .name (by simp) (by simp)
  refine areStatements_of_parts ?_ (by simp [sevenLoop,Node.bodies,pass_statements])
  simpa [sevenLoop,Node.IsStatement,call] using Phrase.name

theorem plainFunction_avoids (inner : ∀ n ∈ body, Avoids none (some "sevens") n) :
    Avoids none (some "sevens") (plainFunction "h" body) := by
  refine avoids_of_parts (by simp [plainFunction,Node.definition?]) fun m part => ?_
  simp [plainFunction,compiledParts,turns,Turn.nodes,Node.paramDefaults] at part
  exact inner m part

theorem pass_avoids : Avoids none (some "sevens") .pass :=
  avoids_of_parts (by simp [Node.definition?]) (by simp [compiledParts,turns])

theorem sevenLoop_avoids : Avoids none (some "sevens") sevenLoop := by
  have name (id : String) : Avoids none (some "sevens") (.name (some id) .absent) :=
    avoids_of_parts (by simp [Node.definition?]) (by simp [compiledParts,turns])
  have call : Avoids none (some "sevens") callSevens := by
    refine avoids_of_parts (by simp [callSevens,Node.definition?]) ?_
    simpa [callSevens,compiledParts,turns,Turn.nodes,Node.callNodes,Node.sortNodes,listMethod?]
      using name "sevens"
  refine avoids_of_parts (by simp [sevenLoop,Node.definition?]) ?_
  simpa [sevenLoop,compiledParts,turns,Turn.nodes] using ⟨name "i",call,pass_avoids⟩

theorem pass_stands (stands : Stands "" [plainFunction "h" [.pass]] d n) :
    d = "" ∧ (n = plainFunction "h" [.pass] ∨ n = .pass) := by
  cases stands with
  | here member => exact ⟨rfl,.inl (List.mem_singleton.mp member)⟩
  | inside member part inner =>
    obtain rfl := List.mem_singleton.mp member
    cases List.mem_singleton.mp part
    cases inner with
    | here member => exact ⟨rfl,.inr (List.mem_singleton.mp member)⟩
    | inside member part =>
      obtain rfl := List.mem_singleton.mp member
      cases part

theorem pass_spared : Spared none ⟨(· = some "sevens"),Marked none (none,sevens)⟩ ""
    [plainFunction "h" [.pass]] := by
  refine ⟨fun d n f stands iterates => ?_,fun d n name stands declares => ?_⟩
  · rcases (pass_stands stands).2 with rfl | rfl <;> cases iterates
  · obtain ⟨rfl,rfl | rfl⟩ := pass_stands stands
    · obtain ⟨_,own,rfl⟩ := declares
      cases own
      decide
    · cases declares

theorem sevens_untagged (run : Gives (visit none sevens) (moduleStart .empty) () u) : u.tags = [] := by
  have ran : Gives (visit none sevens) (moduleStart .empty) () _ := gives_of_isOk (by decide +kernel)
  rw [← (ran.unique run).2]
  decide +kernel

/-- A function with a loop over the numbers depends on the order, and one that does nothing does
not. -/
theorem sevens_order_shows :
    let s := (visit none (.module [sevens,sevenUser] []) (.initial .empty)).2
    let t := (visit none (.module [sevenUser,sevens] []) (.initial .empty)).2
    let idle := plainFunction "h" [.pass]
    (∃ gs hs hs' gs', s.output = .block (gs ++ hs) ∧ t.output = .block (hs' ++ gs') ∧
      CodeBehind none .empty [sevens] sevenUser hs ∧ CodeBehind none .empty [] sevenUser hs' ∧
      hs ≠ hs') ∧
    ∃ code, CodeBehind none .empty [sevens] idle code ∧ CodeBehind none .empty [] idle code := by
  intro s t idle
  have avoids {h : Node} (other : Avoids none (some "sevens") h) (f : String)
      (marked : Marked none (none,sevens) (some f)) : Avoids none (some f) h := by
    rwa [sevens_marked.mp marked]
  constructor
  · have first : Gives (visit none (.module [sevens,sevenUser] [])) (.initial .empty) () s := by
      refine gives_of_isOk ?_
      rw [modules_steps.1]
      decide +kernel
    have second : Gives (visit none (.module [sevenUser,sevens] [])) (.initial .empty) () t := by
      refine gives_of_isOk ?_
      rw [modules_steps.2]
      decide +kernel
    obtain ⟨gs,hs,hs',gs',out,out',behind,ahead,differ,-⟩ := order_shows_in_loops
      (sevens_statements sevenLoop_statements) rfl rfl
      (avoids (plainFunction_avoids (by simpa using sevenLoop_avoids))) first second
    refine ⟨gs,hs,hs',gs',out,out',behind,ahead,differ "sevens" (sevens_marked.mpr rfl) ?_⟩
    exact ⟨"","",sevenLoop,.inside (List.mem_singleton_self _) (List.mem_singleton_self _)
      (.here (List.mem_singleton_self _)),call_loopsOver (by decide)⟩
  · have first : Gives (visit none (.module [sevens,idle] [])) (.initial .empty) () _ :=
      gives_of_isOk (by decide +kernel)
    have second : Gives (visit none (.module [idle,sevens] [])) (.initial .empty) () _ :=
      gives_of_isOk (by decide +kernel)
    obtain ⟨-,hs,hs',-,-,-,behind,ahead,-,same⟩ := order_shows_in_loops
      (sevens_statements pass_statements) rfl rfl
      (avoids (plainFunction_avoids (by simpa using pass_avoids))) first second
    refine ⟨hs,behind,?_⟩
    rwa [same pass_spared fun u run => tagsIdle_of_nil (sevens_untagged run)]

/-- The same loop is written in two forms, as the generator is defined before it or behind it. -/
theorem loop_form_follows_order : (visit none (.module [sevens,sevenUser] []) (.initial .empty)).2.output =
      .block [.line "local  function sevens()",.block [.line "yieldGenerator('sevens', 7)",.void],
        .line "\tyieldGenerator('sevens', '__END')",.line "end",.line "local  function h()",
        .block [.line "generatorLoop('sevens', sevens, nil)(function(i)",.block [],.line "end)"],
        .line "end"] ∧
    (visit none (.module [sevenUser,sevens] []) (.initial .empty)).2.output =
      .block [.line "local  function h()",.block [.line "for i in sevens() do",.block [],.line "end"],
        .line "end",.line "local  function sevens()",.block [.line "yieldGenerator('sevens', 7)",.void],
        .line "\tyieldGenerator('sevens', '__END')",.line "end"] := by
  rw [modules_steps.1,modules_steps.2]
  decide +kernel

end Compile

end LuauCompiler
