import LuauCompiler.Proofs.FunctionAtHand
import LuauCompiler.Proofs.Leftovers
import LuauCompiler.Proofs.LostStatements
import LuauCompiler.Proofs.TemplatePieces

/-! Every helper that the code of a program refers to is defined before the code: the snippets of
classes, dictionaries and generators, the functions of the errors that are raised and the lines for the
names of the library. -/
namespace LuauCompiler

variable {piece text : String}

namespace Compile

theorem loop_output (start : s.output = .block before)
    (run : Gives (do emit header; loopBody body; emit closing) s () t) :
    ∃ code, t.output = .block (before ++ [.line header,code,.line closing]) := by
  obtain ⟨_,u,opened,run⟩ := gives_bind.mp run
  obtain ⟨_,v,looped,closed⟩ := gives_bind.mp run
  obtain ⟨before',out,rfl⟩ := gives_emit.mp opened
  obtain rfl : before' = before := by simpa [start] using out.symm
  obtain ⟨w,frames,inner,-,rfl⟩ := gives_within.mp looped
  obtain ⟨x,locals,inside,-,-,out,rfl⟩ := gives_block.mp inner
  obtain ⟨after,out',rfl⟩ := gives_emit.mp closed
  refine ⟨x.output,?_⟩
  simp at out out'
  simp [← out',← out]

theorem iteratesText_same (run : Gives (iteratesText n text) s overText t) : t = s := by
  rw [iteratesText,gives_tagOf_bind] at run
  split at run <;> exact (gives_pure.mp run).2

theorem marked_of_loop (run : Gives (visit config (.forStmt false target iter body orElse comment)) s () t)
    (start : s.output = .block before) (stop : t.output = .block (before ++ .line header :: rest))
    (shown : "generatorLoop(".toList <+: header.toList) : ∃ g, some g ∈ t.generators := by
  obtain ⟨name,u,aimed,run⟩ := gives_bind.mp run
  obtain ⟨text,v,read,run⟩ := gives_bind.mp run
  obtain ⟨u',_,-,-,-,rfl⟩ := gives_inline.mp aimed
  obtain ⟨v',_,-,-,-,rfl⟩ := gives_inline.mp read
  rw [gives_get_bind] at run
  by_cases marked : v'.generators.contains (some (Text.dropGroups text)) = true
  · refine ⟨Text.dropGroups text,?_⟩
    rw [if_pos marked] at run
    have traced : Ruled (fun _ => True) none [.block body] fun part => (do
        emit (← ofExcept (generatorHeader (Text.dropGroups text) name text))
        loopBody (body.map part)
        emit "end)") :=
      .ofExcept _ fun _ => .emit (.ends (loopBody_ruled body))
    rw [visits_eq_map] at run
    exact (course_grows (traced.traces.run _ () t run)).generators (by simpa [State.view] using marked)
  · rw [if_neg marked] at run
    obtain ⟨overText,w,decided,run⟩ := gives_bind.mp run
    obtain rfl := iteratesText_same decided
    obtain ⟨code,out⟩ := loop_output (by exact start) run
    have line : header = loopHeader overText name text := by
      rw [out] at stop
      simp at stop
      exact stop.1.symm
    have other : ¬ "generatorLoop(".toList <+: header.toList := by
      rw [line,loopHeader]
      split <;> simp [String.toList_append]
    exact (other shown).elim

end Compile

theorem Occurs.trans (first : Occurs piece text) (second : Occurs text whole) :
    Occurs piece whole :=
  List.IsInfix.trans first second

theorem Occurs.before (found : Occurs piece text) (after : String) : Occurs piece (text ++ after) := by
  rw [Occurs,String.toList_append]
  exact List.infix_append_of_infix_left found

theorem Occurs.behind (found : Occurs piece text) (before : String) : Occurs piece (before ++ text) := by
  rw [Occurs,String.toList_append]
  exact List.infix_append_of_infix_right found

theorem occurs_join (member : piece ∈ pieces) : Occurs piece (String.join pieces) := by
  induction pieces with
  | nil => cases member
  | cons first rest ih =>
    rw [String.join_cons]
    rcases List.mem_cons.mp member with rfl | later
    · exact Occurs.before (List.infix_refl _) _
    · exact (ih later).behind _

theorem Text.holds_iff : Text.holds text part = true ↔ Occurs part text := by
  unfold Text.holds Occurs
  generalize text.toList = chars
  induction chars with
  | nil => simp [Text.occursIn]
  | cons c rest ih => simp [Text.occursIn,List.infix_cons_iff,ih]

namespace Program

variable {options : Options} {order : Order}

def libraryLine (name : String) : String := "\n" ++ name ++ " = py." ++ name

theorem line_occurs {names : List String} (member : name ∈ names) (rest : String) :
    Occurs (libraryLine name ++ "\n") (String.join (names.map libraryLine) ++ ("\n" ++ rest)) := by
  induction names with
  | nil => cases member
  | cons first names ih =>
    rw [List.map_cons,String.join_cons,String.append_assoc]
    rcases List.mem_cons.mp member with rfl | later
    · have next : ∃ after, String.join (names.map libraryLine) ++ ("\n" ++ rest) = "\n" ++ after := by
        cases names with
        | nil => exact ⟨rest,by simp⟩
        | cons second names =>
          rw [List.map_cons,String.join_cons,libraryLine]
          simp only [String.append_assoc]
          exact ⟨_,rfl⟩
      obtain ⟨after,same⟩ := next
      rw [same,← String.append_assoc]
      exact Occurs.before (List.infix_refl _) _
    · exact (ih later).behind _

def opening (order : Order) (options : Options) (preamble : String) (ledger : Ledger) (code : String) : String :=
  header ++ errorFunctions code ++
    (preamble ++ snippets order options ledger.helpers ++ libraryLines code ++ "\n\n--> code start\n")

theorem snippet_provided (included : options.useRequire = false) (asked : helper ∈ ledger.helpers)
    (known : snippet? helper = some piece) :
    Occurs piece (opening order options preamble ledger code) := by
  have chosen : piece ∈ (order.list ledger.helpers ++
      if options.functions then ["fn"] else []).filterMap snippet? :=
    List.mem_filterMap.mpr ⟨helper,List.mem_append_left _ (order.mem_list.mpr asked),known⟩
  have inside : Occurs piece (snippets order options ledger.helpers) := by
    rw [snippets,if_neg (by simp [included])]
    exact occurs_join chosen
  exact (((inside.behind preamble).before _).before _).behind _

theorem error_provided (known : name ∈ errorNames) (raised : Occurs ("error(" ++ name ++ "(") code) :
    Occurs (errorFunction name) (opening order options preamble ledger code) := by
  have chosen : name ∈ errorNames.filter fun name => Text.holds code ("error(" ++ name ++ "(") :=
    List.mem_filter.mpr ⟨known,Text.holds_iff.mpr raised⟩
  exact (((occurs_join (List.mem_map_of_mem chosen)).behind _).behind _).before _

theorem library_provided {name : String} (known : name ∈ libraryNames) (used : Occurs name code) :
    Occurs (libraryLine name ++ "\n") (opening order options preamble ledger code) := by
  have chosen : name ∈ libraryNames.filter fun name => Text.holds code name :=
    List.mem_filter.mpr ⟨known,Text.holds_iff.mpr used⟩
  have inside : Occurs (libraryLine name ++ "\n") (libraryLines code ++ "\n\n--> code start\n") :=
    line_occurs chosen "\n--> code start\n"
  have regrouped : preamble ++ snippets order options ledger.helpers ++ libraryLines code ++
      "\n\n--> code start\n" = preamble ++ snippets order options ledger.helpers ++
        (libraryLines code ++ "\n\n--> code start\n") := String.append_assoc
  rw [opening,regrouped]
  exact (inside.behind _).behind _

theorem addSnippets_ok (added : addSnippets preamble helpers = .ok result) :
    ∀ helper ∈ helpers, (snippet? helper).isSome := by
  induction helpers generalizing preamble with
  | nil => nofun
  | cons first rest ih =>
    rw [addSnippets] at added
    cases found : snippet? first with
    | none => simp [found] at added
    | some piece =>
      rw [found] at added
      exact List.forall_mem_cons.mpr ⟨by rw [found]; rfl,ih added⟩

theorem assemble_ok {text : String} (included : options.useRequire = false)
    (done : (assemble options output console session).result = .ok text) :
    ∃ entries, output.entries? = some entries ∧
      text = opening session.order options session.preamble session.ledger (Code.layOut 0 entries) ++
        Code.layOut 0 entries ++ footer session.order options session.ledger.exports := by
  simp only [assemble,included,Bool.false_eq_true,if_false] at done
  cases added : addSnippets session.preamble (helpersOf options session) with
  | error stop => simp [added] at done
  | ok preamble =>
    have known : preamble = session.preamble ++ snippets session.order options session.ledger.helpers := by
      have full := addSnippets_known session.preamble (addSnippets_ok added)
      rw [added] at full
      simpa [snippets,included,helpersOf] using full
    rw [added] at done
    cases held : output.entries? with
    | none => simp [held] at done
    | some entries =>
      rw [held] at done
      cases done
      rw [known]
      exact ⟨entries,rfl,rfl⟩

theorem ofTree_ok {text : String} (included : options.useRequire = false)
    (done : (ofTree config options session root).result = .ok text) :
    ∃ console t entries, Compile.Gives (Compile.visit (some config) root)
        { State.initial session.ledger with console } () t ∧ t.output.entries? = some entries ∧
      text = opening session.order options session.preamble t.ledger (Code.layOut 0 entries) ++
        Code.layOut 0 entries ++ footer session.order options t.ledger.exports := by
  unfold ofTree at done
  split at done
  · simp at done
  · rename_i console _
    simp only [Compile.run] at done
    split at done
    · simp at done
    · rename_i t run
      obtain ⟨entries,held,same⟩ := assemble_ok included done
      exact ⟨console,t,entries,run,held,same⟩

end Program

namespace Compile

/-- What the code of the tree relies on stands before it. The run of the tree goes from `s` to `t`. -/
structure Provided (config : Option Config) (root : Node) (s t : State) (entries : List Code)
    (opening : String) : Prop where
  runs : ∀ n, Reaches config root n → Runs config n s.view t.view
  classes : ∀ name bases keywords body decorators,
    Runs config (.classDef name bases keywords body decorators) s.view t.view → Occurs Snippet.classes opening
  dicts : ∀ keys values, Runs config (.dict keys values) s.view t.view → Occurs Snippet.dict opening
  dictComprehensions : ∀ key value clauses,
    Runs config (.dictComp key value clauses) s.view t.view → Occurs Snippet.dict opening
  /-- The header of a loop is the first line that it emits. -/
  loops : ∀ target iter body orElse comment u v before header rest,
    Gives (visit config (.forStmt false target iter body orElse comment)) u () v →
    v.view.Grows t.view → u.output = .block before →
    v.output = .block (before ++ .line header :: rest) →
    "generatorLoop(".toList <+: header.toList → Occurs Snippet.generator opening
  errors : ∀ name ∈ errorNames, ∀ line ∈ Code.lines entries,
    Occurs ("error(" ++ name ++ "(") line.1 → Occurs (Program.errorFunction name) opening
  library : ∀ name ∈ libraryNames, ∀ line ∈ Code.lines entries, Occurs name line.1 →
    Occurs ("\n" ++ name ++ " = py." ++ name ++ "\n") opening

/-- Every helper that the code refers to is defined before it, in any session. -/
theorem helpers_provided (config : Config) (options : Options) (session : Session) (root : Node)
    (text : String) (included : options.useRequire = false) (straight : ¬ Strays (some config) root)
    (done : (Program.ofTree config options session root).result = .ok text) :
    ∃ console t entries opening,
      Gives (visit (some config) root) { State.initial session.ledger with console } () t ∧
      t.output.entries? = some entries ∧
      text = opening ++ Code.layOut 0 entries ++ Program.footer session.order options t.ledger.exports ∧
      Provided (some config) root { State.initial session.ledger with console } t entries opening := by
  obtain ⟨console,t,entries,run,held,same⟩ := Program.ofTree_ok included done
  refine ⟨console,t,entries,_,run,held,same,?_⟩
  have snippet {helper piece : String} (known : Program.snippet? helper = some piece)
      (asked : helper ∈ t.view.helpers) :
      Occurs piece (Program.opening session.order options session.preamble t.ledger (Code.layOut 0 entries)) :=
    Program.snippet_provided included (List.mem_filter.mp asked).1 known
  have emitted {line : String × Bool} (member : line ∈ Code.lines entries) {piece : String}
      (found : Occurs piece line.1) : Occurs piece (Code.layOut 0 entries) :=
    found.trans ((Code.lines_inOrder 0 entries).occurs (List.mem_map_of_mem member))
  refine ⟨fun n reached => reached_runs run reached,?_,?_,?_,?_,?_,?_⟩
  · intro name bases keywords body decorators runs
    have asked : "class" ∈ t.view.helpers := runs.helper (by simp [turns])
    exact snippet rfl asked
  · intro keys values runs
    have asked : "dict" ∈ t.view.helpers := runs.helper (by simp [turns])
    exact snippet rfl asked
  · intro key value clauses runs
    have asked : "dict" ∈ t.view.helpers := runs.helper (by simp [turns])
    exact snippet rfl asked
  · intro target iter body orElse comment u v before header rest loop kept start stop shown
    obtain ⟨g,marked⟩ := marked_of_loop loop start stop shown
    exact snippet rfl (helper_of_generator run straight rfl rfl (kept.generators marked))
  · intro name known line member raised
    exact Program.error_provided known (emitted member raised)
  · intro name known line member used
    exact Program.library_provided known (emitted member used)

def sevens : Node := .functionDef false (some "sevens") (.params [] [] .absent [] [] .absent [])
    [.exprStmt (.yield (.constant (.int 7) none))] [] .absent none

def waiting : Node :=
  .functionDef false (some "wait") (.params [] [.param (some "n") .absent none] .absent [] [] .absent
    [.constant (.int 7) none]) [.pass] [] .absent none

def waiter : Node := .classDef (some "Waiter") [] [] [waiting] []

def callSevens : Node := .call (.name (some "sevens") .absent) [] []

def sevenLoop : Node := .forStmt false (.name (some "i") .absent) callSevens [.pass] [] none

def sevenTree : Node := .module [sevens,waiter,sevenLoop] []

def sevenSteps : Compile Unit := do
  if (← get).generators.contains (some "sevens") then
    emit "generatorLoop('sevens', sevens, nil)(function(i)"
    loopBody [pure ()]
    emit "end)"
  else
    emit (loopHeader (← iteratesText callSevens "sevens()") "i" "sevens()")
    loopBody [pure ()]
    emit "end"

open Text.Template in
theorem sevenHeader : generatorHeader (Text.dropGroups "sevens()") "i" "sevens()" =
    .ok "generatorLoop('sevens', sevens, nil)(function(i)" := by
  have target : FieldText [("target","i"),("iter","sevens()")] "target\x7d)".toList ['i'] [')'] :=
    ⟨⟨"target".toList,none,[]⟩,.ofString "i",.ofString "i",[],rfl,rfl,rfl,rfl,rfl⟩
  have front : Fills [("target","i"),("iter","sevens()")]
      "generatorLoop('sevens', sevens, nil)(function(".toList
      "generatorLoop('sevens', sevens, nil)(function(".toList :=
    .plainText (by simp [openBrace,closeBrace])
  exact fill_iff.mpr (front.append (.field (by decide) target (.plain (by decide) (by decide) .nil)))

theorem sevenLoop_steps (config : Option Config) : visit config sevenLoop = sevenSteps := by
  have unfolded : visit config sevenLoop = (do
      if (← get).generators.contains (some "sevens") then
        emit (← ofExcept (generatorHeader (Text.dropGroups "sevens()") "i" "sevens()"))
        loopBody [pure ()]
        emit "end)"
      else
        emit (loopHeader (← iteratesText callSevens "sevens()") "i" "sevens()")
        loopBody [pure ()]
        emit "end") := rfl
  rw [unfolded,sevenHeader]
  rfl

theorem sevenTree_compiles : (Program.ofTree .defaults {} .fresh sevenTree).result.isOk = true := by
  have steps : visit (some .defaults) sevenTree =
      moduleBody [visit (some .defaults) sevens,visit (some .defaults) waiter,sevenSteps] := by
    rw [← sevenLoop_steps]
    rfl
  rw [Program.ofTree,steps]
  decide +kernel

theorem sevenTree_reaches (reached : Reaches config sevenTree m) :
    m ∈ [sevenTree,sevens,.exprStmt (.yield (.constant (.int 7) none)),.yield (.constant (.int 7) none),
      .constant (.int 7) none,waiter,waiting,.pass,sevenLoop,.name (some "i") .absent,callSevens,
      .name (some "sevens") .absent] := by
  induction reached with
  | refl => simp
  | tail _ part ih =>
    simp only [List.mem_cons,List.not_mem_nil,or_false] at ih
    rcases ih with rfl | rfl | rfl | rfl | rfl | rfl | rfl | rfl | rfl | rfl | rfl | rfl <;>
      simp [compiledParts,turns,Turn.nodes,sevenTree,sevens,waiter,waiting,sevenLoop,callSevens,
        Node.paramDefaults,Node.callNodes,Node.sortNodes,listMethod?] at part ⊢ <;> grind

theorem sevenTree_straight (config : Option Config) : ¬ Strays config sevenTree := by
  rintro ⟨name,params,body,decorators,returns,comment,reached,d,given,value,yields⟩
  have member := sevenTree_reaches reached
  simp only [sevenTree,sevens,waiter,waiting,sevenLoop,callSevens,List.mem_cons,reduceCtorEq,
    Node.functionDef.injEq,List.not_mem_nil,or_false,false_or,true_and] at member
  rcases member with ⟨-,rfl,-⟩ | ⟨-,rfl,-⟩
  · cases given
  · obtain rfl := List.mem_singleton.mp given
    rcases yields.cases_head with same | ⟨m,part,-⟩
    · cases same
    · cases part

/-- The program of a generator, a class and a loop has the helpers of all three. -/
theorem sevens_provided : ¬ Strays (some .defaults) sevenTree ∧
    ∃ text, (Program.ofTree .defaults {} .fresh sevenTree).result = .ok text ∧ ∃ console t entries opening,
        Gives (visit (some .defaults) sevenTree) { State.initial .empty with console } () t ∧
        t.output.entries? = some entries ∧
        text = opening ++ Code.layOut 0 entries ++ Program.footer .sorted {} t.ledger.exports ∧
        Provided (some .defaults) sevenTree { State.initial .empty with console } t entries opening ∧
        Occurs Snippet.classes opening := by
  have straight := sevenTree_straight (some .defaults)
  cases done : (Program.ofTree .defaults {} .fresh sevenTree).result with
  | error e =>
    have compiles := sevenTree_compiles
    rw [done] at compiles
    cases compiles
  | ok text =>
    obtain ⟨console,t,entries,opening,run,held,same,provided⟩ :=
      helpers_provided .defaults {} .fresh sevenTree text rfl straight done
    have inside : waiter ∈ compiledParts (some .defaults) sevenTree := by
      simp [compiledParts,turns,Turn.nodes,sevenTree]
    have classes : Occurs Snippet.classes opening :=
      provided.classes _ _ _ _ _ (provided.runs waiter (.single inside))
    exact ⟨straight,text,rfl,console,t,entries,opening,run,held,same,provided,classes⟩

end Compile

end LuauCompiler
