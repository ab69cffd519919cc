import LuauCompiler.Proofs.Layout
import LuauCompiler.Proofs.Statements

/-! The emitted code is balanced: every construct that it opens is closed by its own keyword and in
its turn, however statements and expressions are nested. -/
namespace LuauCompiler

open Luau

/-! ## Tame statements -/

/-- Statements over plain expressions, with names that are not reserved. Handlers go by the names of
errors, and cases compare with integers. -/
inductive Tame : Form → Node → Prop
  | pass : Tame .statement .pass
  | global : Tame .statement (.global names)
  | breakStmt : Tame .statement .breakStmt
  | continueStmt : Tame .statement .continueStmt
  | exprStmt (expr : Plain .expression value) : Tame .statement (.exprStmt value)
  | assign (target : Plain .expression first) (expr : Plain .expression value) :
    Tame .statement (.assign (first :: others) value typeComment)
  | augAssign (place : Plain .expression target) (expr : Plain .expression value) :
    Tame .statement (.augAssign target op value)
  | annAssign (place : Plain .expression target) (type : Plain .expression hint)
    (expr : Plain .expression value) : Tame .statement (.annAssign target hint value simple)
  | returnStmt (expr : Plain .expression value) : Tame .statement (.returnStmt value)
  | delete (exprs : ∀ e ∈ targets, Plain .expression e) : Tame .statement (.delete targets)
  | assert (expr : Plain .expression test) : Tame .statement (.assert test msg)
  | raise (expr : Plain .expression exc) : Tame .statement (.raise exc cause)
  | ifStmt (expr : Plain .expression test) (inside : ∀ n ∈ body, Tame .statement n)
    (others : ∀ n ∈ orElse, Tame .statement n) : Tame .statement (.ifStmt test body orElse)
  | whileStmt (expr : Plain .expression test) (inside : ∀ n ∈ body, Tame .statement n) :
    Tame .statement (.whileStmt test body orElse)
  | forStmt (place : Plain .expression target) (expr : Plain .expression iter)
    (inside : ∀ n ∈ body, Tame .statement n) :
    Tame .statement (.forStmt false target iter body orElse typeComment)
  | functionDef (identifier : IsIdentifier name) (params : ∀ p ∈ regular, IsParam p)
    (remaining : rest = .absent ∨ IsParam rest) (exprs : ∀ e ∈ defaults, Plain .expression e)
    (markers : ∀ e ∈ decorators, Plain .expression e) (inside : ∀ n ∈ body, Tame .statement n) :
    Tame .statement (.functionDef false (some name)
      (.params posOnly regular rest kwOnly kwDefaults kwRest defaults) body decorators returns
      typeComment)
  | classDef {keywords : List Node} (identifier : IsIdentifier name)
    (exprs : ∀ e ∈ bases, Plain .expression e)
    (inside : ∀ n ∈ body, Tame .statement n) :
    Tame .statement (.classDef (some name) bases keywords body decorators)
  | withStmt
    (exprs : ∀ i ∈ items, ∃ context vars, i = .withItem context vars ∧ Plain .expression context ∧
      Plain .expression vars) (inside : ∀ n ∈ body, Tame .statement n) :
    Tame .statement (.withStmt false items body typeComment)
  | tryStmt (inside : ∀ n ∈ body, Tame .statement n) (handled : ∀ h ∈ handlers, Tame .handler h)
    (last : ∀ n ∈ finalBody, Tame .statement n) :
    Tame .statement (.tryStmt false body handlers orElse finalBody)
  | handler (identifier : IsIdentifier errorName) (binding : ∀ n ∈ name, IsIdentifier n)
    (inside : ∀ n ∈ body, Tame .statement n) :
    Tame .handler (.handler (.name (some errorName) access) name body)
  | matchStmt (expr : Plain .expression subject) (some_case : cases ≠ [])
    (inside : ∀ c ∈ cases, Tame .case c) : Tame .statement (.matchStmt subject cases)
  | matchCase {guard : Node} (inside : ∀ n ∈ body, Tame .statement n) :
    Tame .case (.matchCase (.matchValue (.constant (.int n) kind)) guard body)

theorem Tame.sentence (tame : Tame form n) : Sentence form n := by
  induction tame with
  | pass | global | breakStmt | continueStmt => constructor
  | exprStmt expr => exact .exprStmt expr.phrase
  | assign target expr => exact .assign target.phrase expr.phrase
  | augAssign place expr => exact .augAssign place.phrase expr.phrase
  | annAssign place type expr => exact .annAssign place.phrase type.phrase expr.phrase
  | returnStmt expr => exact .returnStmt expr.phrase
  | delete exprs => exact .delete fun e member => (exprs e member).phrase
  | assert expr => exact .assert expr.phrase
  | raise expr => exact .raise expr.phrase
  | ifStmt expr _ _ inside others => exact .ifStmt expr.phrase inside others
  | whileStmt expr _ inside => exact .whileStmt expr.phrase inside
  | forStmt place expr _ inside => exact .forStmt place.phrase expr.phrase inside
  | functionDef _ _ _ exprs markers _ inside =>
    exact .functionDef (fun e member => (exprs e member).phrase)
      (fun e member => (markers e member).phrase) inside
  | classDef _ exprs _ inside => exact .classDef (fun e member => (exprs e member).phrase) inside
  | withStmt exprs _ inside =>
    refine .withStmt (fun i member => ?_) inside
    obtain ⟨context,vars,rfl,expr,bound⟩ := exprs i member
    exact ⟨context,vars,rfl,expr.phrase,bound.phrase⟩
  | tryStmt _ _ _ inside handled last => exact .tryStmt inside handled last
  | handler _ _ _ inside => exact .handler inside
  | matchStmt expr _ _ inside => exact .matchStmt expr.phrase inside
  | matchCase _ inside => exact .matchCase inside

/-! ## Scenes and texts -/

/-- Outside of documentation, without generators, and in a class with a proper name or in none. -/
structure Scene.Regular (a : Scene) : Prop where
  docstring : a.docstring = false
  generators : a.generators = []
  className : a.className = "" ∨ Word a.className

theorem Scene.Regular.inner {a : Scene} (regular : a.Regular) : a.inner.Regular :=
  ⟨regular.docstring,regular.generators,regular.className⟩

theorem Scene.Regular.resume {a b : Scene} (regular : a.Regular) (inside : b.Regular) :
    (a.resume b).Regular :=
  ⟨regular.docstring,inside.generators,regular.className⟩

namespace Compile

variable {config : Option Config} {a b : Scene} {name : String}

variable {lines given : List String} {code : List Code} {ns : List Node}

theorem reads_neat (plain : Plain .expression e) (regular : a.Regular)
    (reads : Reads config a e text b) : Neat text ∧ b = a := by
  obtain ⟨same,s,t,rfl,rfl,run⟩ := reads
  have spelled : SaysNeatly (visit config e) := plain_spelled config plain
  obtain ⟨still,_,neat⟩ := spelled.text.run s text t regular.docstring run
  refine ⟨neat,same.trans ?_⟩
  simp [Scene.resume,State.scene,still.generators]

theorem readsAll_neat (plain : ∀ e ∈ es, Plain .expression e) (regular : a.Regular)
    (reads : ReadsAll config a es texts b) : (∀ text ∈ texts, Neat text) ∧ b = a := by
  induction reads with
  | nil => simp
  | cons first _ ih =>
    obtain ⟨neat,rfl⟩ := reads_neat (plain _ (by simp)) regular first
    obtain ⟨others,same⟩ := ih (fun e member => plain e (by simp [member])) regular
    exact ⟨List.forall_mem_cons.mpr ⟨neat,others⟩,same⟩

theorem introduced_regular (regular : a.Regular) (introduced : IntroducesIf condition a name keyword b) :
    b.Regular ∧ b.className = a.className ∧ (keyword = "" ∨ keyword = "local ") := by
  unfold IntroducesIf at introduced
  split at introduced
  · cases introduced with
    | known => exact ⟨regular,rfl,.inl rfl⟩
    | unknown =>
      exact ⟨⟨regular.docstring,regular.generators,regular.className⟩,rfl,.inr rfl⟩
  · obtain ⟨rfl,rfl⟩ := introduced
    exact ⟨regular,rfl,.inl rfl⟩

theorem neat_qualified (class_word : className = "" ∨ Word className) (neat : Neat name) :
    Neat (qualified className name) := by
  rcases class_word with rfl | word
  · exact neat
  · have nonempty : className.isEmpty = false := by
      have := word.nonempty
      simpa [String.isEmpty_iff] using this
    rw [qualified,nonempty]
    exact neat_render [.word className,.fixed ".",.phrase name] (by simp [*]) rfl fun _ => rfl

theorem smooth_assignment (known : keyword = "" ∨ keyword = "local ") (target : Neat place)
    (value : Neat text) : Smooth (keyword ++ place ++ " = " ++ text) := by
  rcases known with rfl | rfl <;>
    exact smooth_render [.fixed _,.phrase place,.fixed " = ",.phrase text] (by simp [*]) rfl fun _ => rfl

theorem smooth_deletion (all : ∀ text ∈ texts, Neat text) : Smooth (Text.commaSeparated texts ++ " = " ++
      Text.commaSeparated (texts.map fun _ => "nil")) := by
  have places := smooth_commaSeparated fun text member => (all text member).smooth
  have nothing : Smooth "nil" := smooth_render [.fixed "nil"] (by simp [*]) rfl fun _ => rfl
  have nothings : Smooth (Text.commaSeparated (texts.map fun _ => "nil")) :=
    smooth_commaSeparated fun text member => by
      obtain ⟨_,_,rfl⟩ := List.mem_map.mp member
      exact nothing
  exact smooth_render [.row (Text.commaSeparated texts),.fixed " = ",
    .row (Text.commaSeparated (texts.map fun _ => "nil"))]
    (by simpa [places] using nothings) rfl fun _ => rfl

theorem lineOf_smooth (tame : Tame .statement n) (regular : a.Regular)
    (written : LineOf config a n text b) : Smooth text ∧ b.Regular := by
  cases written with
  | assign target_read value_read introduced =>
    cases tame with
    | assign target expr =>
      obtain ⟨place,rfl⟩ := reads_neat target regular target_read
      obtain ⟨value,rfl⟩ := reads_neat expr regular value_read
      obtain ⟨regular',_,known⟩ := introduced_regular regular introduced
      exact ⟨smooth_assignment known (neat_qualified regular.className place) value,regular'⟩
  | augAssign _ target_read value_read written =>
    cases tame with
    | augAssign target expr =>
      obtain ⟨place,rfl⟩ := reads_neat target regular target_read
      obtain ⟨value,rfl⟩ := reads_neat expr regular value_read
      have result : Neat (parenthesised _) := neat_parenthesised (neat_binaryText place value written).smooth
      refine ⟨?_,regular⟩
      simpa using smooth_assignment (.inl rfl) place result
  | annAssign target_read value_read full_name introduced hint_read aside written =>
    cases tame with
    | annAssign target type expr =>
      obtain ⟨place,rfl⟩ := reads_neat target regular target_read
      obtain ⟨value,rfl⟩ := reads_neat expr regular value_read
      obtain ⟨regular',_,known⟩ := introduced_regular regular introduced
      obtain ⟨_,rfl⟩ := reads_neat type regular' hint_read
      obtain ⟨rfl,rfl⟩ := written value.nonempty
      refine ⟨smooth_assignment known ?_ value,regular'⟩
      rw [full_name]
      split
      · exact place
      · exact neat_qualified regular.className place
  | returned first_read second_read =>
    cases tame with
    | returnStmt expr =>
      obtain ⟨_,rfl⟩ := reads_neat expr regular first_read
      obtain ⟨value,rfl⟩ := reads_neat expr regular second_read
      exact ⟨smooth_render [.fixed "return ",.phrase _] (by simp [*]) rfl fun _ => rfl, regular⟩
  | deleted targets_read =>
    cases tame with
    | delete exprs =>
      obtain ⟨all,rfl⟩ := readsAll_neat exprs regular targets_read
      exact ⟨smooth_deletion all,regular⟩
  | asserted test_read =>
    cases tame with
    | assert expr =>
      obtain ⟨test,rfl⟩ := reads_neat expr regular test_read
      exact ⟨smooth_render [.fixed "assert(",.phrase _,.fixed ")"] (by simp [*]) rfl fun _ => rfl,regular⟩
  | raised exc_read =>
    cases tame with
    | raise expr =>
      obtain ⟨exc,rfl⟩ := reads_neat expr regular exc_read
      exact ⟨smooth_render [.fixed "error(",.phrase _,.fixed ")"] (by simp [*]) rfl fun _ => rfl,regular⟩
  | broken =>
    exact ⟨smooth_render [.fixed "break"] (by simp [*]) rfl fun _ => rfl,regular⟩
  | continued =>
    exact ⟨smooth_render [.fixed "continue"] (by simp [*]) rfl fun _ => rfl,regular⟩

/-! ## Expression statements -/

theorem constant_documents (plain : c.IsPlain) : Says Still (fun f => f.docstring = true)
      (fun lines => ∃ ws, Listed Runs lines ws ∧ ∀ opened, followAll opened ws = some opened)
      (constant c) := by
  have word {text : String} (smooth : Smooth text) : ∃ ws, Listed Runs [text] ws ∧
      ∀ opened, followAll opened ws = some opened := ⟨_,.cons smooth.runs .nil,fun _ => rfl⟩
  cases c with
  | none => exact .emit (word (smooth_render [.fixed _] (by simp [*]) rfl fun _ => rfl))
  | bool b =>
    cases b <;>
      exact .emit (word (smooth_render [.fixed _] (by simp [*]) rfl fun _ => rfl))
  | int n =>
    exact .after (.ofExcept fun _ written => written) fun _ written =>
      .emit (word (intText_neat written).smooth)
  | str text =>
    refine textConstant_writes text fun f documents => ?_
    rw [documents]
    exact word (smooth_render [.fixed "--[[ ",.inert text,.fixed " ]]"]
      (by simpa using inert_of_isSimple plain) rfl fun _ => rfl)
  | float | complex | bytes | ellipsis => exact plain.elim

theorem expression_moves (plain : Plain .expression value) (regular : a.Regular)
    (spelled : Spells config { a.inner with docstring := value.constant?.isSome } value lines b) :
    Moves (lines.map .line) [] [] ∧ b.generators = [] := by
  obtain ⟨_,s,t,scene,rfl,out,run,written⟩ := spelled
  obtain ⟨still,lines',added,ws,listed,neutral⟩ : Still s t ∧ ∃ lines',
      t.output = .block ([] ++ lines'.map .line) ∧
      ∃ ws, Listed Runs lines' ws ∧ ∀ opened, followAll opened ws = some opened := by
    have documents := congrArg Scene.docstring scene
    cases constant : value.constant? with
    | none =>
      rw [constant] at documents
      have step : SaysNeatly (visit config value) := plain_spelled config plain
      exact (step.mono fun lines neat => neat.runs).run s [] t documents out run
    | some c =>
      rw [constant] at documents
      cases plain <;> cases constant
      exact (constant_documents ‹_›).run s [] t documents out run
  have same : lines = lines' := by
    rw [written] at added
    have lists : lines.map Code.line = lines'.map .line := by simpa using added
    exact (List.map_inj_right fun _ _ same => Code.line.inj same).mp lists
  subst same
  refine ⟨⟨ws,worded_lines listed,fun opened _ => neutral opened⟩,?_⟩
  exact still.generators.trans ((congrArg Scene.generators scene).trans regular.generators)

/-! ## Lines that open and close constructs -/

theorem comment_moves (ps : List Piece) (holds : ∀ piece ∈ ps, piece.Holds)
    (route : routes .start ps = some ([],.known .comment comma)) :
    Moves [.line (render ps)] xs xs :=
  .line (runs_render ps holds route rfl) fun _ _ => rfl

theorem if_moves (test : Neat text) : Moves [.line ("if " ++ text ++ " then")] [] [.branch] :=
  .pieces [.fixed "if ",.phrase text,.fixed " then"] (by simp [*]) rfl fun _ _ => rfl

theorem elseif_moves (test : Neat text) : Moves [.line ("elseif " ++ text ++ " then")] [.branch] [.branch] :=
  .pieces [.fixed "elseif ",.phrase text,.fixed " then"] (by simp [*]) rfl fun _ _ => rfl

theorem case_moves {isFirst : Bool} {literal : String} (subject : Neat text) (value : Neat literal) :
    Moves [.line ((if isFirst then "" else "else") ++ "if " ++ text ++ " == " ++ literal ++ " then")]
      (if isFirst then [] else [.branch]) [.branch] := by
  cases isFirst <;>
    exact .pieces [.fixed _,.fixed "if ",.phrase text,.fixed " == ",.phrase literal,.fixed " then"] (by simp [*]) rfl fun _ _ => rfl

theorem while_moves (test : Neat text) : Moves [.line ("while " ++ text ++ " do")] [] [.body] :=
  .pieces [.fixed "while ",.phrase text,.fixed " do"] (by simp [*]) rfl fun _ _ => rfl

theorem do_moves : Moves [.line "do"] [] [.body] := by
  have passes : Passes .start "do" ["do"] .token := settled_render [.fixed "do"] (by simp) rfl
  exact .line passes.runs fun opened ready => by simp [followAll,follow_do ready]

theorem loopHeader_moves (target : Neat place) (iter : Neat text) :
    Moves [.line (loopHeader overText place text)] [] [.body] := by
  cases overText with
  | true =>
    exact .pieces [.fixed "for ",.phrase place,.fixed " in string.gmatch(",.phrase text,
      .fixed ",\".\") do"] (by simp [*]) rfl fun _ _ => rfl
  | false =>
    exact .pieces [.fixed "for ",.phrase place,.fixed " in ",.phrase text,.fixed " do"] (by simp [*]) rfl fun _ _ => rfl

theorem functionHeader_moves (known : keyword = "" ∨ keyword = "local ") (neat : Neat name)
    (all : ∀ param ∈ params, Smooth param) :
    Moves [.line (keyword ++ " function " ++ name ++ "(" ++ Text.commaSeparated params ++ ")")]
      [] [.function] := by
  have row := smooth_commaSeparated all
  rcases known with rfl | rfl <;>
    exact .pieces [.fixed _,.fixed " function ",.phrase name,.fixed "(",
      .row (Text.commaSeparated params),.fixed ")"] (by simpa [neat] using row) rfl fun _ _ => rfl

theorem classHeader_moves (known : keyword = "" ∨ keyword = "local ") (neat : Neat fullName)
    (word : Word name) :
    Moves [.line (keyword ++ fullName ++ " = class(function(" ++ name ++ ")")] [] [.function] := by
  rcases known with rfl | rfl <;>
    exact .pieces [.fixed _,.phrase fullName,.fixed " = class(function(",.word name,.fixed ")"] (by simp [*]) rfl fun _ _ => rfl

theorem headerParams_smooth {rest : Node} (words : ∀ name ∈ given, Word name) :
    ∀ param ∈ (if takesSelf markers then ["self"] else []) ++ given ++
      (if rest.isAbsent then [] else ["..."]), Smooth param := by
  intro param member
  rcases List.mem_append.mp member with named | dots
  · rcases List.mem_append.mp named with self | name
    · split at self
      · obtain rfl := List.mem_singleton.mp self
        exact smooth_render [.fixed "self"] (by simp [*]) rfl fun _ => rfl
      · cases self
    · exact (words param name).neat.smooth
  · split at dots
    · cases dots
    · obtain rfl := List.mem_singleton.mp dots
      exact smooth_render [.fixed "..."] (by simp [*]) rfl fun _ => rfl

theorem return_smooth (neat : Neat text) : Smooth ("return " ++ text) :=
  smooth_render [.fixed "return ",.phrase text] (by simp [*]) rfl fun _ => rfl

theorem classEnd_moves (all : ∀ text ∈ bases, Neat text) :
    Moves [.line ("end, \x7b" ++ Text.commaSeparated bases ++ "\x7d)")] [.function] [] :=
  have row := smooth_commaSeparated fun text member => (all text member).smooth
  .pieces [.fixed "end, \x7b",.row (Text.commaSeparated bases),.fixed "\x7d)"]
    (by simpa using row) rfl fun _ _ => rfl

theorem tryHead_moves :
    Moves [.line "--> try statement start:",.line "xpcall(function()"] [] [.function] := by
  have comment : Moves [.line "--> try statement start:"] [] [] := comment_moves [.fixed _] (by simp) rfl
  exact comment.append (.pieces [.fixed "xpcall(function()"] (by simp [*]) rfl fun _ _ => rfl)

theorem tryMiddle_moves : Moves [.line "end, function(err)"] [.function] [.function] :=
  .pieces [.fixed "end, function(err)"] (by simp [*]) rfl fun _ _ => rfl

theorem tryEnd_moves : Moves [.line "end)"] [.function] [] :=
  .pieces [.fixed "end)"] (by simp [*]) rfl fun _ _ => rfl

theorem tried_moves : Moves [.line "--> try statement end"] [] [] := comment_moves [.fixed _] (by simp) rfl

theorem leadLines_smooth (names : ∀ name ∈ given, Word name) (texts : ∀ text ∈ values, Neat text)
    (remaining : rest = .absent ∨ IsParam rest)
    (rest_given : restLine (if rest.isAbsent then none else some rest) = .ok restText) :
    ∀ line ∈ leadLines given values restText, Smooth line := by
  intro line member
  rcases List.mem_append.mp member with default | table
  · rw [List.mem_reverse,← List.map_uncurry_zip_eq_zipWith] at default
    obtain ⟨⟨name,value⟩,pair,rfl⟩ := List.mem_map.mp default
    have name_word := names name (by simpa using (List.of_mem_zip pair).1)
    have value_neat := texts value (List.of_mem_zip pair).2
    exact smooth_render [.word name,.fixed " = ",.word name,.fixed " or ",.phrase value] (by simp [*]) rfl fun _ => rfl
  · rcases remaining with rfl | param
    · cases rest_given
      cases table
    · obtain ⟨identifier⟩ := param
      cases rest_given
      obtain rfl : line = _ := by simpa using table
      exact smooth_render [.fixed "local ",.word _,.fixed " = \x7b...\x7d"]
        (by simpa [shownName] using identifier.word) rfl fun _ => rfl

theorem connections_smooth (neat : Neat name) (all : ∀ text ∈ decorators, Neat text) :
    ∀ line ∈ connections name decorators, Smooth line := by
  intro line member
  obtain ⟨text,inside,rfl⟩ := List.mem_map.mp member
  have decorator := all text (List.mem_filter.mp inside).1
  exact smooth_render [.phrase name,.fixed " = ",.phrase text,.fixed ":Connect(",.phrase name,
    .fixed ")"] (by simp [*]) rfl fun _ => rfl

theorem itemLines_smooth
    (exprs : ∀ i ∈ items, ∃ context vars, i = .withItem context vars ∧ Plain .expression context ∧
      Plain .expression vars) (regular : a.Regular) (read : ItemLines config a items lines b) :
    (∀ line ∈ lines, Smooth line) ∧ b = a := by
  induction read with
  | nil => simp
  | bare context_read _ ih =>
    obtain ⟨_,_,same,expr,_⟩ := exprs _ List.mem_cons_self
    cases same
    obtain ⟨neat,rfl⟩ := reads_neat expr regular context_read
    obtain ⟨others,same⟩ := ih (fun i member => exprs i (by simp [member])) regular
    exact ⟨List.forall_mem_cons.mpr ⟨neat.smooth,others⟩,same⟩
  | bound vars_read context_read _ ih =>
    obtain ⟨_,_,same,expr,bound⟩ := exprs _ List.mem_cons_self
    cases same
    obtain ⟨place,rfl⟩ := reads_neat bound regular vars_read
    obtain ⟨value,rfl⟩ := reads_neat expr regular context_read
    obtain ⟨others,same⟩ := ih (fun i member => exprs i (by simp [member])) regular
    exact ⟨List.forall_mem_cons.mpr ⟨smooth_assignment (.inr rfl) place value,others⟩,same⟩

/-! ## Rows -/

/-- The constructs that a row of nodes starts in, as far as the row is concerned. -/
def Row.before : Row → List Node → List Open
  | .statement, _ | .body, _ => []
  | .otherwise, _ => [.branch]
  | .handlers _ position, ns => if position = 0 || ns.isEmpty then [] else [.branch]
  | .cases _ isFirst, _ => if isFirst then [] else [.branch]

/-- What has become of them after the row. -/
def Row.After : Row → List Node → List Open → Prop
  | .statement, _, ys | .body, _, ys | .handlers .., _, ys => ys = []
  | .otherwise, _, ys => ∃ o, o.ends = true ∧ ys = [o]
  | .cases _ isFirst, ns, ys => ys = if ns.isEmpty && isFirst then [] else [.branch]

def Row.IsTame : Row → List Node → Prop
  | .statement, ns | .body, ns | .otherwise, ns => ∀ n ∈ ns, Tame .statement n
  | .handlers chained _, ns => (ns ≠ [] → chained = true) ∧ ∀ n ∈ ns, Tame .handler n
  | .cases subject _, ns => Plain .expression subject ∧ ∀ n ∈ ns, Tame .case n

theorem handlers_chained {handlers : List Node} (all : ∀ h ∈ handlers, Tame .handler h) :
    handlers ≠ [] → (handlersOf config handlers).head?.any isNamed = true := by
  intro nonempty
  cases handlers with
  | nil => exact absurd rfl nonempty
  | cons h rest =>
    cases all h (by simp) with
    | handler => rfl

theorem handlerHead_worded (position : Nat) {name : Option String} (inert : Inert errorName)
    (letters : ∀ n ∈ name, n.toList ≠ [] ∧ ∀ c ∈ n.toList, isWordChar c = true) :
    Worded ((handlerHead position errorName name).map .line)
      ((if position = 0 then "if" else "elseif") :: "err" :: "find" :: "then" ::
        name.elim [] fun name => ["local",name,"err"]) := by
  have head : Runs ((if position = 0 then "if" else "elseif") ++ " err:find('" ++ errorName ++ "') then")
      ((if position = 0 then "if" else "elseif") :: ["err","find","then"]) := by
    split <;>
      exact (settled_render [.fixed _,.fixed " err:find('",.inert errorName,.fixed "') then"]
        (by simpa using inert) rfl).runs
  cases name with
  | none => exact .line head .nil
  | some name =>
    have first : Passes .start "\tlocal " ["local"] .start := @Piece.passes _ _ _ (.fixed _) trivial rfl
    have bound := first.append (letters_pass (letters name rfl).1 (letters name rfl).2 (.inl rfl))
    have last : Passes .token " = err" [] (.known (.word "err".toList) false) :=
      @Piece.passes _ _ _ (.fixed _) trivial rfl
    exact .line head (.line ((bound.append last).settle rfl).runs .nil)

theorem handlerHead_moves {position : Nat} {name : Option String} (inert : Inert errorName)
    (binding : ∀ n ∈ name, Word n) :
    Moves ((handlerHead position errorName name).map .line)
      (if position = 0 then [] else [.branch]) [.branch] := by
  refine ⟨_,handlerHead_worded position inert fun n member => ⟨(binding n member).nonempty,
    (binding n member).letters⟩,fun opened _ => ?_⟩
  have rest : followAll (.branch :: opened) (name.elim [] fun name => ["local",name,"err"]) =
      some (.branch :: opened) := by
    cases name with
    | none => rfl
    | some name =>
      change (follow (.branch :: opened) name).bind (followAll · ["err"]) = _
      rw [(binding name rfl).harmless]
      rfl
  split <;> exact rest

theorem position_moves (position : Nat) : Moves [.line ("--> try: " ++ toString position)] xs xs := by
  have inert : Inert (toString position) := fun c member => by
    simp [isInert,(word_digits position).letters c member]
  exact comment_moves [.fixed "--> try: ",.inert _] (by simpa using inert) rfl

theorem handler_moves {position : Nat} {name : Option String} (identifier : IsIdentifier errorName)
    (binding : ∀ n ∈ name, IsIdentifier n) (chain : chained = true) (inside : Moves code [] [])
    (others : Moves rest (Row.before (.handlers chained (position + 1)) ns) []) :
    Moves (.line ("--> try: " ++ toString position) :: (handlerHead position errorName name).map .line ++
        .block code :: (if ns.isEmpty && chained then [.line "end"] else []) ++ rest)
      (Row.before (.handlers chained position)
        (.handler (.name (some errorName) access) name body :: ns)) [] := by
  have inert : Inert errorName := fun c member => by
    simp [isInert,identifier.word.letters c member]
  have head : Moves _ (if position = 0 then [] else [.branch]) [.branch] :=
    (position_moves position).append (handlerHead_moves inert fun n member => (binding n member).word)
  -- Behind the last handler the chain ends; otherwise the next handler goes on with it.
  have ending : Moves (if ns.isEmpty && chained then [.line "end"] else []) [.branch]
      (Row.before (.handlers chained (position + 1)) ns) := by
    cases ns with
    | nil => simpa [Row.before,chain] using Moves.ended (o := .branch) rfl
    | cons => exact .nil
  have all := (head.append ((inside.block.under (by decide)).append ending)).append others
  simpa [Row.before] using all

/-- Every row of tame nodes closes what it opens. -/
theorem emits_moves {row : Row} (emits : Emits config row a ns code b) (tame : row.IsTame ns)
    (regular : a.Regular) : b.Regular ∧ ∃ ys, row.After ns ys ∧ Moves code (row.before ns) ys := by
  induction emits with
  | nil => exact ⟨regular,[],rfl,.nil⟩
  | cons _ _ first others =>
    obtain ⟨regular',_,rfl,moves⟩ := first (by simpa [Row.IsTame] using tame _ List.mem_cons_self) regular
    obtain ⟨regular'',_,rfl,moves'⟩ := others (fun n member => tame n (by simp [member])) regular'
    exact ⟨regular'',[],rfl,moves.append moves'⟩
  | pass | global => exact ⟨regular,[],rfl,.nil⟩
  | line written =>
    obtain ⟨smooth,regular'⟩ := lineOf_smooth (tame _ List.mem_cons_self) regular written
    exact ⟨regular',[],rfl,.smooth smooth⟩
  | expression spelled =>
    cases tame _ List.mem_cons_self with
    | exprStmt expr =>
      obtain ⟨moves,generators⟩ := expression_moves expr regular spelled
      exact ⟨⟨regular.docstring,generators,regular.className⟩,[],rfl,moves.append .void⟩
  | branch test_read _ _ inside others =>
    cases tame _ List.mem_cons_self with
    | ifStmt expr body orElse =>
      obtain ⟨test,rfl⟩ := reads_neat expr regular test_read
      obtain ⟨regular',_,rfl,moves⟩ := inside body regular.inner
      obtain ⟨regular'',_,⟨o,ends,rfl⟩,chain⟩ := others orElse (regular.resume regular')
      exact ⟨regular'',[],rfl,(if_moves test).append ((moves.block.under (by decide)).append
        (chain.append (.ended ends)))⟩
  | nothing => exact ⟨regular,_,⟨.branch,rfl,rfl⟩,.nil⟩
  | elseIf test_read second_read _ _ inside others =>
    cases tame _ List.mem_cons_self with
    | ifStmt expr body orElse =>
      obtain ⟨test,rfl⟩ := reads_neat expr regular test_read
      obtain ⟨_,rfl⟩ := reads_neat expr regular second_read
      obtain ⟨regular',_,rfl,moves⟩ := inside body regular.inner
      obtain ⟨regular'',ys,after,chain⟩ := others orElse (regular.resume regular')
      exact ⟨regular'',ys,after,(elseif_moves test).append ((moves.block.under (by decide)).append chain)⟩
  | orElse _ _ inside =>
    obtain ⟨regular',_,rfl,moves⟩ := inside tame regular.inner
    have head : Moves [.line "else"] [.branch] [.otherwise] :=
      .pieces [.fixed "else"] (by simp [*]) rfl fun _ _ => rfl
    exact ⟨regular.resume regular',_,⟨.otherwise,rfl,rfl⟩, head.append (moves.block.under (by decide))⟩
  | whileLoop test_read _ inside =>
    cases tame _ List.mem_cons_self with
    | whileStmt expr body =>
      obtain ⟨test,rfl⟩ := reads_neat expr regular test_read
      obtain ⟨regular',_,rfl,moves⟩ := inside body regular.inner
      exact ⟨regular.resume regular',[],rfl,
        (while_moves test).append ((moves.block.under (by decide)).append (.ended rfl))⟩
  | forLoop target_read iter_read _ _ inside =>
    cases tame _ List.mem_cons_self with
    | forStmt place expr body =>
      obtain ⟨target,rfl⟩ := reads_neat place regular target_read
      obtain ⟨iter,rfl⟩ := reads_neat expr regular iter_read
      obtain ⟨regular',_,rfl,moves⟩ := inside body regular.inner
      exact ⟨regular.resume regular',[],rfl,(loopHeader_moves target iter).append
        ((moves.block.under (by decide)).append (.ended rfl))⟩
  | generatorLoop target_read iter_read isGenerator =>
    cases tame _ List.mem_cons_self with
    | forStmt place expr body =>
      obtain ⟨_,rfl⟩ := reads_neat place regular target_read
      obtain ⟨_,rfl⟩ := reads_neat expr regular iter_read
      simp [regular.generators] at isGenerator
  | function params_given rest_given decorators_read introduced _ defaults_read decorators_again _
      inside =>
    cases tame _ List.mem_cons_self with
    | functionDef identifier params remaining exprs markers body =>
      have markers' := fun e member => markers e (List.mem_reverse.mp member)
      obtain ⟨_,rfl⟩ := readsAll_neat markers' regular decorators_read
      obtain ⟨regular',_,known⟩ := introduced_regular regular introduced
      obtain ⟨regular'',_,rfl,moves⟩ := inside body ⟨regular'.docstring,regular'.generators,.inl rfl⟩
      have after := regular'.resume regular''
      obtain ⟨values,rfl⟩ := readsAll_neat (fun e member => exprs e (List.mem_reverse.mp member))
        after defaults_read
      obtain ⟨connected,rfl⟩ := readsAll_neat markers' after decorators_again
      have name := neat_qualified regular.className identifier.word.neat
      have words := params_words params params_given
      have body_moves := Moves.append (.smooths (leadLines_smooth words values remaining rest_given)) moves
      rw [regular''.generators]
      refine ⟨after,[],rfl,?_⟩
      exact (functionHeader_moves known name (headerParams_smooth words)).append
        ((body_moves.block.under (by decide)).append (Moves.append (.ended rfl)
          (.smooths (connections_smooth name connected))))
  | classOf bases_read introduced _ inside =>
    cases tame _ List.mem_cons_self with
    | classDef identifier exprs body =>
      obtain ⟨bases,rfl⟩ := readsAll_neat exprs regular bases_read
      obtain ⟨regular',_,known⟩ := introduced_regular regular introduced
      obtain ⟨regular'',_,rfl,moves⟩ :=
        inside body ⟨regular'.docstring,regular'.generators,.inr identifier.word⟩
      have name := neat_qualified regular.className identifier.word.neat
      have body_moves := moves.append (.smooth (return_smooth identifier.word.neat))
      refine ⟨regular'.resume regular'',[],rfl,?_⟩
      refine ((classHeader_moves known name identifier.word).append
        ((body_moves.block.under (by decide)).append (classEnd_moves bases))).append ?_
      split
      · exact .smooth (return_smooth name)
      · exact .nil
  | withItems _ items_read inside =>
    cases tame _ List.mem_cons_self with
    | withStmt exprs body =>
      obtain ⟨regular',_,rfl,moves⟩ := inside body regular.inner
      have after := regular.resume regular'
      obtain ⟨lines,rfl⟩ := itemLines_smooth exprs after items_read
      have body_moves := Moves.append
        (.smooths fun line member => lines line (List.mem_reverse.mp member)) moves
      exact ⟨after,[],rfl,do_moves.append ((body_moves.block.under (by decide)).append (.ended rfl))⟩
  | tried _ _ _ inside handled last =>
    cases tame _ List.mem_cons_self with
    | tryStmt body handlers final =>
      obtain ⟨regular',_,rfl,moves⟩ := inside body regular.inner
      obtain ⟨regular'',_,rfl,handling⟩ := handled ⟨handlers_chained handlers,handlers⟩
        (regular.resume regular')
      obtain ⟨last_regular,_,rfl,finals⟩ := last final regular''.inner
      refine ⟨regular''.resume last_regular,[],rfl,?_⟩
      exact (tryHead_moves.append ((moves.block.under (by decide)).append tryMiddle_moves)).append
        (handling.under (by decide)) |>.append (tryEnd_moves.append (finals.block.append tried_moves))
  | noHandlers =>
    refine ⟨regular,[],rfl,?_⟩
    simpa [Row.before] using Moves.nil
  | handler _ _ inside others =>
    obtain ⟨chain,handlers⟩ := tame
    cases handlers _ List.mem_cons_self with
    | handler identifier binding body =>
      obtain ⟨regular',_,rfl,moves⟩ := inside body regular.inner
      obtain ⟨regular'',_,rfl,rest⟩ := others
        ⟨fun _ => chain (by simp),fun n member => handlers n (by simp [member])⟩
        (regular.resume regular')
      exact ⟨regular'',[],rfl,handler_moves identifier binding (chain (by simp)) moves rest⟩
  | matched _ inside =>
    cases tame _ List.mem_cons_self with
    | matchStmt expr some_case cases =>
      obtain ⟨regular',_,rfl,moves⟩ := inside ⟨expr,cases⟩ regular
      refine ⟨regular',[],rfl,moves.append ?_⟩
      simpa [some_case] using Moves.ended (o := .branch) rfl
  | noCases => exact ⟨regular,_,rfl,.nil⟩
  | case subject_read compared written _ _ inside others =>
    obtain ⟨expr,cases⟩ := tame
    cases cases _ List.mem_cons_self with
    | matchCase body =>
      cases compared
      obtain ⟨subject,rfl⟩ := reads_neat expr regular subject_read
      obtain ⟨regular',_,rfl,moves⟩ := inside body regular.inner
      obtain ⟨regular'',_,rfl,rest⟩ := others ⟨expr,fun n member => cases n (by simp [member])⟩
        (regular.resume regular')
      refine ⟨regular'',[.branch],by simp [Row.After],?_⟩
      exact (case_moves subject (intText_neat written)).append
        ((moves.block.under (by decide)).append (by simpa [Row.before] using rest))

/-! ## Modules -/

/-- The code of a module of tame statements is balanced. -/
theorem module_code_balanced {config : Option Config} {ledger : Ledger} {body typeIgnores : List Node}
    {s : State} (tame : ∀ n ∈ body, Tame .statement n)
    (run : visit config (.module body typeIgnores) (State.initial ledger) = (.ok (),s)) :
    ∃ code, s.output = .block code ∧ Balanced (Code.layOut 0 code) := by
  obtain ⟨code,b,out,emits⟩ := module_emits (fun n member => (tame n member).sentence) rfl run
  have regular : (State.initial ledger).scene.inner.Regular := ⟨rfl,rfl,.inl rfl⟩
  obtain ⟨_,_,rfl,moves⟩ := emits_moves emits tame regular
  exact ⟨code,out,moves.balanced 0⟩

def nestedFunction : Node := .functionDef false (some "f")
    (.params [] [.param (some "x") .absent none] .absent [] [] .absent [])
    [.ifStmt (.name (some "x") .absent) [.returnStmt (.listComp (.name (some "y") .absent)
        [.clause (.name (some "y") .absent) (.name (some "x") .absent) [.name (some "y") .absent] none])]
      [.exprStmt (.call (.name (some "g") .absent) [] [])],
    .tryStmt false [.pass] [.handler (.name (some "E") .absent) (some "e") [.pass]] [] []]
    [] .absent none

theorem nestedFunction_balanced :
    (visit none (.module [nestedFunction] []) (State.initial .empty)).1.isOk = true ∧
    ∃ code, (visit none (.module [nestedFunction] []) (State.initial .empty)).2.output =
      .block code ∧ Balanced (Code.layOut 0 code) := by
  have done : (visit none (.module [nestedFunction] []) (State.initial .empty)).1.isOk = true := by
    decide +kernel
  have x : Plain .expression (.name (some "x") .absent) := .name (by decide)
  have y : Plain .expression (.name (some "y") .absent) := .name (by decide)
  have g : Plain .expression (.name (some "g") .absent) := .name (by decide)
  refine ⟨done,module_code_balanced (fun n member => ?_) (gives_of_isOk done)⟩
  obtain rfl := List.mem_singleton.mp member
  refine .functionDef (by decide) ?_ (.inl rfl) (by simp) (by simp) ?_
  · exact List.forall_mem_singleton.mpr (.intro (by decide))
  · refine List.forall_mem_cons.mpr ⟨.ifStmt x ?_ ?_,List.forall_mem_singleton.mpr (.tryStmt ?_ ?_ ?_)⟩
    · refine List.forall_mem_singleton.mpr (.returnStmt (.listComp y ?_))
      exact List.forall_mem_singleton.mpr (.clause y x (List.forall_mem_singleton.mpr y))
    · exact List.forall_mem_singleton.mpr (.exprStmt (.call g (by simp) (by simp) (by simp)))
    · exact List.forall_mem_singleton.mpr .pass
    · exact List.forall_mem_singleton.mpr (.handler (by decide)
        (fun n given => by cases given; decide) (List.forall_mem_singleton.mpr .pass))
    · simp

end Compile

end LuauCompiler
