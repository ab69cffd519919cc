import LuauCompiler.Proofs.Accounts

/-! Every statement that is reached is compiled exactly once, under the class where it stands: a
successful compilation of a module leaves the account of these statements and nothing else. -/
namespace LuauCompiler

namespace Compile

variable {config : Option Config} {d : String} {s t : State}

variable {f : String → Compile Unit}

/-! ## Statements without blocks -/

theorem says_books (step : Says Quiet (fun _ => True) P c) : Books d .empty c := by
  intro before start earlier s x t _ _ booked run
  obtain ⟨more,out,shows⟩ := booked.code
  obtain ⟨quiet,lines,added,-⟩ := step.run s _ t trivial out run
  have still := quiet.unbooked
  rw [Account.append_empty]
  refine ⟨still.frames.trans booked.frames,still.loops.trans booked.loops,
    still.exports.trans booked.exports,still.functions.trans booked.functions,
    more ++ lines.map .line,by simp [added],shows.mono ?_⟩
  simp

theorem spread_books (expr : IsExpr n) : Books d .empty (spread (visit config n)) := by
  intro before start earlier s x t _ _ booked run
  obtain ⟨more,out,shows⟩ := booked.code
  obtain ⟨u,locals,all,entries,inner,-,-,same,rfl⟩ := gives_spread.mp run
  obtain rfl := Code.block.inj (out.symm.trans same)
  obtain ⟨quiet,-⟩ := (expr_speaks expr).run { s with
    locals := s.locals.push, output := .block [] } [] u trivial rfl inner
  have still := quiet.unbooked
  rw [Account.append_empty]
  refine ⟨still.frames.trans booked.frames,still.loops.trans booked.loops,
    still.exports.trans booked.exports,still.functions.trans booked.functions,
    more ++ entries,by simp,shows.mono ?_⟩
  simp

theorem books_flow : StatementFlow config fun ns c => (∀ e ∈ ns, IsExpr e) → Books d .empty c where
  pure x _ := .pure x
  tagOf _ _ := .ask fun _ => .pure _
  frame _ := .ask fun _ => .pure _
  stops stops _ := .stops stops.never
  append first rest exprs := by
    rw [List.forall_mem_append] at exprs
    exact .after (first exprs.1) fun x => rest x exprs.2
  emit text _ := .emit text
  void _ := .emitEntries shows_nil
  complex _ := .needs _
  inline n exprs := .inline (exprs n (by simp))
  tag _ _ _ := .update (fun _ => ⟨rfl,rfl,rfl,rfl⟩) fun _ => rfl
  silent step _ := .aside fun s _ t run => by
    obtain ⟨_,_,_,rfl,heads⟩ := step s t run
    exact ⟨⟨rfl,rfl,rfl,heads⟩,rfl⟩
  prepend line _ := .prepend line

theorem books_graded (d : String) : GradedFlow .empty (· ++ ·) fun a c => Books d a c where
  one_join _ := Account.empty_append
  join_one _ := Account.append_empty
  pure := .pure
  stops _ stops := .stops stops.never
  bind first rest := first.bind fun x _ => rest x
  emit := .emit

theorem Books.idle (step : Idle c) : Books d .empty c := (@books_flow none d).idle step (by simp)

theorem qualified_eq (owner name : String) : qualified owner name = memberName owner name := by
  simp [qualified,memberName]

theorem ofExcept_given (given : ∃ u v, Gives (ofExcept e) u x v) : e = .ok x := by
  obtain ⟨u,v,given⟩ := given
  exact (gives_ofExcept.mp given).1

theorem introduceIf_books [Decidable p] (outside : p → d = "")
    (rest : ∀ keyword, Introducing d keyword → Books d a (f keyword)) :
    Books d a (if p then introduce name >>= f else pure "" >>= f) := by
  refine .ite (fun holds => .given (.introduce _) fun keyword given => rest keyword ?_)
    fun _ => .given (.pure _) fun keyword given => rest keyword ?_
  · obtain ⟨u,v,given⟩ := given
    rcases gives_introduce.mp given with ⟨-,rfl,-⟩ | ⟨-,rfl,-⟩
    · exact .inl rfl
    · exact .inr ⟨rfl,outside holds⟩
  · obtain ⟨u,v,given⟩ := given
    exact .inl (gives_pure.mp given).1

theorem introduceUnless_books [Decidable p] (outside : ¬p → d = "")
    (rest : ∀ keyword, Introducing d keyword → Books d a (f keyword)) :
    Books d a (if p then pure "" >>= f else introduce name >>= f) := by
  rw [← ite_not]
  exact introduceIf_books outside rest

theorem assignLine_books (introduces : Introducing d keyword)
    (named : ∀ id access, first = .name (some id) access → place = id) :
    Books d (.of [(d,.assign (first :: others) value comment)])
      (emit (keyword ++ qualified d place ++ " = " ++ text)) := by
  cases first
  case name id access =>
    cases id with
    | none => exact .emit _
    | some id =>
      obtain rfl := named id access rfl
      rw [qualified_eq]
      exact .heads ⟨keyword,text,introduces,rfl⟩
  all_goals exact .emit _

theorem assign_books (places : ∀ e ∈ targets.take 1, IsExpr e) (expr : IsExpr value) :
    Books d (.of [(d,.assign targets value comment)])
      (assign targets value (visits config targets) (visit config value)) := by
  refine .after (tagTargets_flow (@books_flow config d) value targets (by simp)) fun _ => ?_
  cases targets with
  | nil => exact .stops fun _ _ _ => gives_fail
  | cons first others =>
    refine .given (.inline (places first (by simp))) fun place placed => .after (.inline expr) fun text =>
      .after (.idle (checkElements_idle place)) fun _ => .frame fun top under => ?_
    have named (id : String) (access : Node) (same : first = .name (some id) access) : place = id := by
      subst same
      obtain ⟨u,v,placed⟩ := placed
      exact (Gives.unique placed (name_gives config u id access)).1
    rw [under]
    refine introduceIf_books (fun word => ?_) fun keyword introduces =>
      .ite (fun _ => .stops fun _ _ _ => gives_reject_bind) fun _ => assignLine_books introduces named
    by_contra inside
    rw [isWord_of_qualified (by simpa using inside)] at word
    cases word

theorem annotatedAssign_books (place : IsExpr target) (expr : IsExpr value) (type : IsExpr hint) :
    Books d .empty (annotatedAssign (visit config target) (visit config value)
      (visit config hint) (callOf config hint)) := by
  refine .after (.inline place) fun target => .after (.inline expr) fun text => .frame fun top _ =>
    .ite (fun _ => .after (.pure _) fun keyword => ?_) fun _ => .after (.introduce _) fun keyword => ?_
  all_goals
    refine .after (.inline type) fun _ => .ite (fun _ => .emit _) fun _ => .ite (fun _ => .emit _) fun _ => ?_
    cases called : callOf config hint with
    | some call => exact says_books (callOf_writes type call called _)
    | none => exact .emit _

theorem declareGlobals_books (names : List String) : Books d ⟨0,names,[],[]⟩ (declareGlobals names) := by
  induction names with
  | nil => exact .pure _
  | cons name rest ih =>
    have own (globals : SymbolStack String) : Books d ⟨0,[name],[],[]⟩ (update fun s =>
        { s with globals, ledger := { s.ledger with exports := s.ledger.exports ++ [name] } }) :=
      .records (fun _ => rfl) (fun _ => rfl) (fun _ => rfl) (fun _ => by simp) (fun _ => rfl) rfl
    refine .ask fun s => ?_
    split
    · exact .stops fun _ _ _ => gives_fail
    · exact (own _).bind fun _ _ => ih

/-! ## Bodies -/

theorem block_books (row : Books d a (each (visits config body))) :
    Books d a (block (visits config body)) := by
  intro before start earlier s x t under _ booked run
  obtain ⟨u,locals,all,inner,-,out,rfl⟩ := gives_block.mp run
  obtain ⟨more,read,shows⟩ := booked.code
  obtain rfl := Code.block.inj (read.symm.trans out)
  have filled := row [] { s with locals := s.locals.push, output := .block [] } .empty _ () u
    (by simpa [booked.frames] using under) isOpen_nil (booked_start rfl) inner
  rw [Account.empty_append] at filled
  obtain ⟨inside,wrote,showing⟩ := filled.code
  refine ⟨filled.frames.trans booked.frames,?_,?_,?_,more ++ [.block inside],?_,?_⟩
  · rw [filled.loops,booked.loops,Account.loops_append,Nat.add_assoc]
  · rw [filled.exports,booked.exports,Account.exports_append,List.append_assoc]
  · rw [filled.functions,booked.functions,Account.functions_append,List.append_assoc]
  · simp [wrote]
  · exact shows.append (showing.mono (by simp))

theorem loopBody_books (row : Books d a (each (visits config body))) :
    Books d (⟨1,[],[],[]⟩ ++ a) (loopBody (visits config body)) := by
  have counted : Books d ⟨1,[],[],[]⟩ nextLoop :=
    .ahead (.records (fun _ => rfl) (fun _ => rfl) (fun _ => by simp [Ledger.addLoop])
      (fun _ => by simp) (fun _ => rfl) rfl) fun _ => .ask fun _ => .pure _
  exact counted.bind fun _ _ => .within (fun _ same => same) (block_books row)

theorem functionBody_books {name : String} (row : Books "" a (each (visits config body))) :
    Books d a (functionBody name (visits config body)) :=
  .within (fun _ _ => rfl) (.ahead (block_books row) fun _ => .ask fun _ => .ite
    (fun _ => .after (.needs _) fun _ => .emit _) fun _ => .pure _)

/-! ## Statements with blocks -/

theorem whileLoop_books (read : IsExpr test) (row : Books d a (each (visits config body))) :
    Books d (⟨1,[],[],[]⟩ ++ a) (whileLoop (visit config test) (visits config body)) :=
  .after (.inline read) fun _ => .after (.emit _) fun _ => .ahead (loopBody_books row) fun _ => .emit _

theorem forLoop_books (place : IsExpr target) (read : IsExpr iter)
    (row : Books d a (each (visits config body))) : Books d (⟨1,[],[],[]⟩ ++ a)
      (forLoop iter (visit config target) (visit config iter) (visits config body)) := by
  refine .after (.inline place) fun target => .after (.inline read) fun text => .ask fun s =>
    .ite (fun _ => ?_) fun _ => ?_
  · exact .after (.ofExcept _) fun _ => .after (.emit _) fun _ => .ahead (loopBody_books row) fun _ => .emit _
  · exact .after (.idle (iteratesText_idle iter text)) fun _ => .after (.emit _) fun _ => .ahead (loopBody_books row) fun _ => .emit _

theorem withoutEnds_books (read : IsExpr test)
    (middle : Books d a (do block (visits config body); elsePart other)) :
    Books d a (withoutEnds (branch (visit config test) (visits config body) other)) := by
  intro before start earlier s x t under isOpen booked run
  obtain ⟨front,out,shows⟩ := booked.code
  obtain ⟨text,v,w,reading,ran,shut⟩ := withoutEnds_branch_run run out
  have still := ((expr_speaks read).text.run s text v trivial reading).1.unbooked
  have ends := middle (before ++ front ++ [.line ("if " ++ text ++ " then")]) _ .empty _ () w
    (by rw [still.frames,booked.frames,under]) (isOpen_concat_line _ _) (booked_start rfl) ran
  rw [Account.empty_append] at ends
  obtain ⟨mids,wrote,showing⟩ := ends.code
  rw [shut mids wrote]
  refine ⟨ends.frames.trans (still.frames.trans booked.frames),?_,?_,?_,front ++ mids,by simp,
    shows.append showing⟩
  · rw [ends.loops,still.loops,booked.loops,Account.loops_append,Nat.add_assoc]
  · rw [ends.exports,still.exports,booked.exports,Account.exports_append,List.append_assoc]
  · rw [ends.functions,still.functions,booked.functions,Account.functions_append,List.append_assoc]

theorem withStatement_books (exprs : ∀ e ∈ items.flatMap Node.itemNodes, IsExpr e)
    (row : Books d a (each (visits config body))) :
    Books d a (withStatement first last (itemsOf config items) (visits config body)) := by
  have prepends (lines : List String) : Books d .empty (each (lines.map prepend)) :=
    (@books_flow config d).each (@books_flow config d).prepend lines (by simp)
  exact .after (.emit _) fun _ => .ahead (block_books row) fun _ =>
    .after (books_flow.withItemLines items exprs) fun lines =>
    .after (prepends lines) fun _ => .emit _

theorem setCurrent_books (name : Option String) : Books d .empty (setCurrent name) :=
  .update (fun _ => ⟨rfl,rfl,rfl,rfl⟩) fun _ => rfl

theorem hasDot_of_qualified {owner name : String} (inside : owner ≠ "") :
    Text.hasChar (qualified owner name) '.' = true := by
  simp [Text.hasChar,qualified_eq,memberName,inside]

/-- A function is recorded before its decorators are compiled, and headed behind them. -/
theorem functionDefinition_books (known : paramNames params = .ok names)
    (marked : ∀ e ∈ decorators, IsExpr e) (filled : ∀ e ∈ params.paramDefaults, IsExpr e)
    (row : Books "" a (each (visits config body))) :
    Books d (⟨0,[],[(some own,names)],[]⟩ ++ (⟨0,[],[],[.ofFunction d own]⟩ ++ a))
      (functionDefinition (some own) params (visits config decorators) (visits config body)
        (defaultsOf config params)) := by
  have marked : ∀ e ∈ decorators.reverse, IsExpr e := by simpa using marked
  have filled : ∀ e ∈ params.paramDefaults.reverse, IsExpr e := by simpa using filled
  simp only [functionDefinition,visits_reverse,defaultsOf_reverse config]
  have recorded : Books d ⟨0,[],[(some own,names)],[]⟩
      (update fun s => { s with functions := s.functions ++ [⟨some own,names,none,[]⟩] }) :=
    .records (fun _ => rfl) (fun _ => rfl) (fun _ => by simp) (fun _ => by simp [FunctionRecord.head])
      (fun _ => rfl) rfl
  have closed (own : String) (given : List String) : Books d .empty (definitionEnd config params decorators own given) :=
    .after (prependDefaults_flow books_flow _ _ filled) fun _ => .after (.emit _) fun _ =>
      .after (books_flow.connectDecorators _ _ marked) fun _ => setCurrent_books none
  refine .given (.ofExcept _) fun given found => ?_
  obtain rfl : given = names := Except.ok.inj ((ofExcept_given found).symm.trans known)
  refine recorded.bind fun _ _ => .after (setCurrent_books _) fun _ => .frame fun top under =>
    .after (.inlineEach marked) fun texts => .after (.ofExcept _) fun _ => .after (.ofExcept _) fun rest =>
    .given (.ofExcept _) fun name found => ?_
  obtain rfl : own = name := Except.ok.inj (ofExcept_given found)
  rw [under]
  refine introduceUnless_books (fun plain => ?_) fun keyword introduces =>
    .after (.ofExcept _) fun given => .bind (.heads ⟨keyword,_,introduces,by rw [qualified_eq]⟩)
      fun _ _ => .ahead (functionBody_books row) fun _ => .after (.ofExcept _) fun line => ?_
  · by_contra inside
    exact plain (hasDot_of_qualified inside)
  · cases line with
    | none => exact closed _ _
    | some line => exact .after (.prepend line) fun _ => closed _ _

theorem classDefinition_books (read : ∀ e ∈ bases, IsExpr e)
    (row : Books (name.getD "") a (each (visits config body))) :
    Books d (.of [(d,.classDef name bases keywords body decorators)] ++ a)
      (classDefinition config name (visits config bases) (visits config body)) := by
  refine .after (.inlineEach read) fun texts => .frame fun top under => ?_
  rw [under]
  refine introduceIf_books (fun outside => by simpa using outside) fun keyword introduces =>
    .given (.ofExcept _) fun fullName found => ?_
  have headed : Books d (.of [(d,.classDef name bases keywords body decorators)])
      (emit (keyword ++ shownName fullName ++ " = class(function(" ++ shownName name ++ ")")) := by
    cases name with
    | none => exact .emit _
    | some own =>
      have full : shownName fullName = memberName d own := by
        have found := ofExcept_given found
        unfold qualifiedName at found
        split at found
        · rename_i outside
          cases found
          simp_all [shownName,memberName]
        · rename_i inside
          cases found
          simp_all [shownName,qualified_eq]
      rw [full]
      exact .heads ⟨keyword,introduces,rfl⟩
  exact headed.bind fun _ _ => .after (.needs _) fun _ =>
    .ahead (.within (fun _ _ => rfl) (block_books row)) fun _ =>
    .after (.editLast fun body => by simp) fun _ => .after (.emit _) fun _ =>
    .after (.ofExcept _) fun _ => .ite (fun _ => .emit _) fun _ => .pure _

/-! ## Trees -/

section

variable {n : Node}

/-- The statement leaves its own account and then that of the statements inside of it, with its ends
or without them. -/
structure StatementBooks (config : Option Config) (n : Node) : Prop where
  whole : ∀ d, Books d (.of ((d,n) :: n.standing d)) (visit config n)
  endless : n.isBranch = true → ∀ d, Books d (.of ((d,n) :: n.standing d)) (withoutEnds (visit config n))

theorem row_books (steps : ∀ n ∈ ns, StatementBooks config n) (d : String) :
    Books d (.of (rowStanding d ns)) (each (visits config ns)) := by
  induction ns with
  | nil => exact .pure _
  | cons n rest ih =>
    obtain ⟨first,later⟩ := List.forall_mem_cons.mp steps
    rw [rowStanding,Account.of_append]
    exact (first.whole d).bind fun _ _ => ih later

theorem elsePart_books (exprs : ∀ n ∈ Node.compiledOtherwise orElse, n.IsStatement)
    (steps : ∀ n ∈ Node.compiledOtherwise orElse, StatementBooks config n) (d : String) :
    Books d (.of (otherwiseStanding d orElse)) (elsePart (otherwiseOf config orElse)) := by
  have row := row_books steps d
  rw [otherwiseStanding_eq]
  cases orElse with
  | nil => exact .pure _
  | cons n rest =>
    rw [otherwiseOf]
    cases tested : testOf config n with
    | none =>
      rw [Node.compiledOtherwise,isBranch_of_testOf tested] at row ⊢
      exact .after (.emit _) fun _ => block_books row
    | some test =>
      obtain ⟨test,body,others,rfl,rfl⟩ := eq_branch_of_testOf tested
      have alone : Node.compiledOtherwise (.ifStmt test body others :: rest) =
          [.ifStmt test body others] := rfl
      rw [alone] at exprs steps ⊢
      have read : IsExpr test := exprs (.ifStmt test body others) (List.mem_singleton_self _)
      have step := steps (.ifStmt test body others) (List.mem_singleton_self _)
      rw [rowStanding,rowStanding,List.append_nil]
      exact .after (.inline read) fun _ => .after (.emit _) fun _ => step.endless rfl d

theorem around_books (step : ∀ d, Books d (.of [(d,n)] ++ .of (n.standing d)) (visit config n))
    (noBranch : n.isBranch = false) : StatementBooks config n := by
  refine ⟨fun d => ?_,by simp [noBranch]⟩
  rw [Account.of_cons]
  exact step d

theorem inside_books (own : ∀ d, Account.of [(d,n)] = .empty)
    (step : ∀ d, Books d (.of (n.standing d)) (visit config n)) (noBranch : n.isBranch = false) :
    StatementBooks config n := by
  refine around_books (fun d => ?_) noBranch
  rw [own,Account.empty_append]
  exact step d

theorem plain_books (step : ∀ d, Books d (.of [(d,n)]) (visit config n)) (noBranch : n.isBranch = false)
    (noBody : ∀ d, n.standing d = []) : StatementBooks config n := by
  refine around_books (fun d => ?_) noBranch
  rw [noBody,Account.of_nil,Account.append_empty]
  exact step d

theorem function_books
    (stmt : Node.IsStatement (.functionDef false name params body decorators returns comment))
    (row : ∀ d, Books d (.of (rowStanding d body)) (each (visits config body))) :
    StatementBooks config (.functionDef false name params body decorators returns comment) := by
  refine around_books (fun d => ?_) rfl
  cases known : paramNames params with
  | error e =>
    have stops : Stops (functionDefinition name params (visits config decorators) (visits config body)
        (defaultsOf config params)) := by
      rw [functionDefinition,known]
      exact .first (.fail e)
    exact .stops stops.never
  | ok names =>
    cases name with
    | none =>
      have stops : Stops (functionDefinition none params (visits config decorators)
          (visits config body) (defaultsOf config params)) :=
        .later fun _ => .later fun _ => .later fun _ => .later fun _ => .later fun _ => .later fun _ =>
          .later fun _ => .first (.fail _)
      exact .stops stops.never
    | some own =>
      have account : Account.of [(d,.functionDef false (some own) params body decorators returns comment)] =
          ⟨0,[],[(some own,names)],[]⟩ ++ ⟨0,[],[],[.ofFunction d own]⟩ := by
        change (⟨0,[],[(some own,(paramNames params).toOption.getD [])],[.ofFunction d own]⟩ : Account) = _
        rw [known]
        rfl
      rw [account,Account.append_assoc]
      exact functionDefinition_books known stmt.1 stmt.2 (row "")

theorem if_books (read : IsExpr test)
    (row : ∀ d, Books d (.of (rowStanding d body)) (each (visits config body)))
    (exprs : ∀ n ∈ Node.compiledOtherwise orElse, n.IsStatement)
    (steps : ∀ n ∈ Node.compiledOtherwise orElse, StatementBooks config n) :
    StatementBooks config (.ifStmt test body orElse) := by
  have middle (d : String) : Books d (.of ((d,.ifStmt test body orElse) ::
      Node.standing d (.ifStmt test body orElse)))
      (do block (visits config body); elsePart (otherwiseOf config orElse)) := by
    have own : Account.of [(d,.ifStmt test body orElse)] = .empty := rfl
    rw [Account.of_cons,own,Account.empty_append,Node.standing,Account.of_append]
    exact .bind (block_books (row d)) fun _ _ => elsePart_books exprs steps d
  exact ⟨fun d => (books_graded d).branch (.inline read) (middle d),fun _ d => withoutEnds_books read (middle d)⟩

theorem try_books (row : ∀ d, Books d (.of (rowStanding d body)) (each (visits config body)))
    (rows : ∀ body ∈ hs.filterMap Node.handlerBody?, ∀ d,
      Books d (.of (rowStanding d body)) (each (visits config body)))
    (last : ∀ d, Books d (.of (rowStanding d finalBody)) (each (visits config finalBody))) :
    StatementBooks config (.tryStmt false body hs orElse finalBody) := by
  refine inside_books (fun _ => rfl) (fun d => ?_) rfl
  rw [Node.standing,Account.of_append,Account.of_append]
  refine (books_graded d).tryStatement (block_books (row d)) (fun chained position =>
    (books_graded d).handlers (fun n => .of (n.handlerStanding d)) (fun ns => .of (handlersStanding d ns)) rfl
      (fun n ns => ?_) chained position fun n member body taken => ?_) (block_books (last d))
  · rw [handlersStanding]
    exact Account.of_append ..
  · cases n with
    | handler => cases taken; exact block_books (rows _ (List.mem_filterMap.mpr ⟨_,member,rfl⟩) d)
    | _ => cases taken

end

theorem statement_books (stmts : AreStatements [n]) : StatementBooks config n := by
  induction size : sizeOf n using Nat.strongRecOn generalizing n with
  | ind k ih =>
    subst size
    have inner {d : String} {body : List Node} (part : (d,body) ∈ n.bodies "") : AreStatements body :=
      stmts.part (by simp) part
    have steps {d : String} {body : List Node} (part : (d,body) ∈ n.bodies "") :
        ∀ m ∈ body, StatementBooks config m := by
      intro m member
      have compiled : m ∈ compiledParts none n := compiled_of_bodies part member
      exact ih _ (smaller_of_part compiled) ((inner part).row (by simpa using member)) rfl
    have rows {d : String} {body : List Node} (part : (d,body) ∈ n.bodies "") (d : String) :
        Books d (.of (rowStanding d body)) (each (visits config body)) := row_books (steps part) d
    have stmt : n.IsStatement := stmts "" "" n (.here (by simp))
    cases n
    case functionDef isAsync _ _ _ _ _ _ =>
      cases isAsync with
      | true => cases stmt
      | false => exact function_books stmt (rows (List.mem_singleton_self _))
    case classDef =>
      exact around_books (fun d => classDefinition_books stmt (rows (List.mem_singleton_self _) _)) rfl
    case whileStmt =>
      exact around_books (fun d => whileLoop_books stmt (rows (List.mem_singleton_self _) _)) rfl
    case withStmt isAsync _ _ _ =>
      refine inside_books (fun _ => rfl) (fun d => ?_) rfl
      cases isAsync <;> exact withStatement_books stmt (rows (List.mem_singleton_self _) _)
    case forStmt isAsync _ _ _ _ _ =>
      cases isAsync with
      | true => cases stmt
      | false =>
        exact around_books (fun d => forLoop_books stmt.1 stmt.2 (rows (List.mem_singleton_self _) _)) rfl
    case ifStmt test body orElse =>
      have other : (("" : String),Node.compiledOtherwise orElse) ∈
          Node.bodies "" (.ifStmt test body orElse) := .tail _ List.mem_cons_self
      exact if_books stmt (rows List.mem_cons_self)
        (fun n member => inner other "" "" n (.here member)) (steps other)
    case matchStmt subject cases =>
      refine inside_books (fun _ => rfl) (fun d => ?_) rfl
      refine .ahead ((books_graded d).matchCases (fun n => .of (n.caseStanding d))
        (fun ns => .of (casesStanding d ns)) rfl (fun n ns => ?_) true fun n member body taken => ⟨.inline stmt,?_⟩) fun _ => .emit _
      · rw [casesStanding]
        exact Account.of_append ..
      · cases n with
        | matchCase =>
          cases taken
          exact block_books (rows (List.mem_map.mpr ⟨_,List.mem_filterMap.mpr ⟨_,member,rfl⟩,rfl⟩) d)
        | _ => cases taken
    case tryStmt isStar body hs orElse finalBody =>
      cases isStar with
      | true => cases stmt
      | false =>
        exact try_books (rows List.mem_cons_self) (fun body member => rows
          (List.mem_append_left _ (.tail _ (List.mem_map.mpr ⟨body,member,rfl⟩))))
          (rows (List.mem_append_right _ (List.mem_singleton_self _)))
    case annAssign =>
      exact plain_books (fun _ => annotatedAssign_books stmt.1 stmt.2.2 stmt.2.1) rfl fun _ => rfl
    case assign => exact plain_books (fun _ => assign_books stmt.1 stmt.2) rfl fun _ => rfl
    case global names =>
      refine plain_books (fun d => ?_) rfl fun _ => rfl
      have own : Account.of [(d,.global names)] = ⟨0,names,[],[]⟩ := by
        simp [Account.of,Node.isLoop,Node.exportedNames,Node.functionHead?,Node.heading?]
      rw [own]
      exact declareGlobals_books names
    case exprStmt | augAssign | returnStmt | delete | raise | assert | typeAlias | importStmt | importFrom
      | nonlocal | pass | breakStmt | continueStmt =>
      exact plain_books (fun _ => simple_visit books_flow stmt rfl id fun _ _ expr _ =>
        .within (fun _ same => same) (spread_books expr)) rfl fun _ => rfl
    all_goals cases stmt

/-- A module that compiles leaves the account of its body; what was emitted before it stays only in
front of its code. -/
theorem module_books (stmts : AreStatements body) (run : Gives (visit config (.module body ignores)) s () t) :
    ∃ u, Booked [] { s with locals := s.locals.push, output := .block [] }
        (.of (rowStanding s.frames.top.className body)) u ∧
      t.ledger = u.ledger ∧ t.functions = u.functions ∧
      (s.output = .block [] → t.output = u.output) := by
  obtain ⟨v,blocked,run⟩ := gives_unit_bind.mp run
  obtain ⟨u,locals,before,inner,-,out,rfl⟩ := gives_block.mp blocked
  have steps : ∀ n ∈ body, StatementBooks config n :=
    fun n member => statement_books (stmts.row (by simpa using member))
  have booked := row_books steps s.frames.top.className []
    { s with locals := s.locals.push, output := .block [] } .empty _ () u rfl isOpen_nil
    (booked_start rfl) inner
  rw [Account.empty_append] at booked
  refine ⟨u,booked,?_⟩
  rw [gives_get_bind] at run
  split at run
  · rename_i first rest filled
    obtain rfl := gives_update.mp run
    refine ⟨rfl,rfl,fun empty => ?_⟩
    obtain rfl := Code.block.inj (empty.symm.trans out)
    exact (List.cons.inj (Code.block.inj filled)).1.symm
  · exact (gives_fail run).elim

/-! ## Results -/

/-- Each reached statement is compiled exactly once: the loops are counted, and the exported names and
the functions are recorded, in the order of the source. -/
theorem statements_visited_once {body ignores : List Node} (stmts : AreStatements body)
    (run : Gives (visit config (.module body ignores)) s () t) :
    let reached := (rowStanding s.frames.top.className body).map (·.2)
    t.ledger.loops = s.ledger.loops + (reached.filter Node.isLoop).length ∧
    t.ledger.exports = s.ledger.exports ++ reached.flatMap Node.exportedNames ∧
    t.functions.map FunctionRecord.head =
      s.functions.map FunctionRecord.head ++ reached.filterMap Node.functionHead? := by
  obtain ⟨u,booked,ledger,functions,-⟩ := module_books stmts run
  refine ⟨?_,?_,?_⟩
  · rw [ledger,booked.loops,Account.of,List.filter_map,List.length_map]
    rfl
  · rw [ledger,booked.exports,Account.of,List.flatMap_map]
  · rw [functions,booked.functions,Account.of,List.filterMap_map]
    rfl

/-- The definitions of a module, each with the class where it stands. -/
def definitions (body : List Node) : List Heading := (rowStanding "" body).filterMap fun p => p.2.heading? p.1

/-- Names are qualified by the innermost class and by it only: each definition is headed, in the order
of the source, by a line with its name under the class where it stands. -/
theorem definitions_qualified {ledger : Ledger} {body ignores : List Node} (stmts : AreStatements body)
    (run : Gives (visit config (.module body ignores)) (.initial ledger) () t) :
    ∃ entries lines, t.output = .block entries ∧ lines.Sublist (Code.lineTexts entries) ∧
      List.Forall₂ Heading.Heads (definitions body) lines ∧
      ∀ owner n heading, Stands "" body owner n → n.heading? owner = some heading →
        heading ∈ definitions body := by
  obtain ⟨u,booked,-,-,out⟩ := module_books stmts run
  obtain ⟨entries,filled,lines,inside,heads⟩ := booked.code
  refine ⟨entries,lines,(out rfl).trans filled,inside,heads,fun owner n heading stands own => ?_⟩
  exact List.mem_filterMap.mpr ⟨(owner,n),mem_rowStanding.mpr stands,own⟩

/-! ## A module with classes in branches -/

/-- A class with a method under a branch, and with an inner class where the branch goes on testing. The
loop behind the inner branch is dropped. -/
def nestedModule : List Node := [.classDef (some "A") [] [] [
  .assign [.name (some "x") .absent] (.constant (.int 1) none) none,
  .ifStmt (.name (some "c") .absent)
    [.functionDef false (some "f") (.params [] [.param (some "p") .absent none] .absent [] [] .absent [])
      [.assign [.name (some "y") .absent] (.constant (.int 2) none) none,
        .forStmt false (.name (some "i") .absent) (.name (some "p") .absent) [.global ["z"]] [] none]
      [] .absent none]
    [.ifStmt (.name (some "d") .absent) [.classDef (some "B") [] []
        [.assign [.name (some "w") .absent] (.constant (.int 3) none) none] []] [],
      .whileStmt (.name (some "d") .absent) [.pass] []],
  .whileStmt (.name (some "c") .absent) [.pass] []] []]

def nestedEnd : State := (visit (some .defaults) (.module nestedModule []) (.initial .empty)).2

theorem nestedModule_runs :
    Gives (visit (some .defaults) (.module nestedModule [])) (.initial .empty) () nestedEnd :=
  gives_of_isOk (by decide +kernel)

theorem nestedModule_statements : AreStatements nestedModule := by
  have name (id : String) : IsExpr (.name (some id) .absent) := .name
  have number (value : Constant) : IsExpr (.constant value none) := .constant
  refine areStatements_of_standing ?_
  simp [nestedModule,rowStanding,Node.standing,otherwiseStanding,Node.isBranch,Node.IsStatement,
    Node.paramDefaults,name,number]

theorem nestedModule_counted : nestedEnd.ledger.loops = 2 ∧ nestedEnd.ledger.exports = ["z"] ∧
    nestedEnd.functions.map FunctionRecord.head = [(some "f",[some "p"])] :=
  statements_visited_once nestedModule_statements nestedModule_runs

theorem nestedModule_qualified : ∃ entries lines, nestedEnd.output = .block entries ∧
    lines.Sublist (Code.lineTexts entries) ∧
    List.Forall₂ Heading.Heads [.ofClass "" "A",.ofAssign "A" "x",.ofFunction "A" "f",.ofAssign "" "y",
      .ofClass "A" "B",.ofAssign "B" "w"] lines := by
  obtain ⟨entries,lines,out,inside,heads,-⟩ := definitions_qualified nestedModule_statements nestedModule_runs
  exact ⟨entries,lines,out,inside,heads⟩

end Compile

end LuauCompiler
