import LuauCompiler.Proofs.Statements

/-! The symbol stack mirrors the scopes of the emitted code. Read as blocks, the code declares a name
where no declaration of the name is visible, and nowhere else. -/
namespace LuauCompiler

open Compile

/-! ## Code with its declarations -/

/-- An entry of emitted code. A declaration is the line of an assignment to a name, or the first line
of a function or a class; its keyword comes before the rest of the line. -/
inductive Entry where
  | declaration (keyword name rest : String)
  | line (text : String)
  | void
  | block (body : List Entry)

namespace Entry

mutual

def code : Entry → Code
  | .declaration keyword _ rest => .line (keyword ++ rest)
  | .line text => .line text
  | .void => .void
  | .block body => .block (codes body)

def codes : List Entry → List Code
  | [] => []
  | entry :: rest => entry.code :: codes rest

end

/-- The name that the entry makes visible to the entries behind it and to their blocks. -/
def declared : Entry → List String
  | .declaration keyword name _ => if keyword = "local " then [name] else []
  | _ => []

def seen (visible : List String) : List Entry → List String
  | [] => visible
  | entry :: rest => seen (entry.declared ++ visible) rest

mutual

/-- Where the names are visible, the entry has the keyword if and only if its own name is not. -/
def Fits (visible : List String) : Entry → Prop
  | .declaration keyword name _ => keyword = if name ∈ visible then "" else "local "
  | .line _ | .void => True
  | .block body => Fit visible body

/-- Each entry fits in with the names that are visible at its place. A block sees the names that are
visible in front of it, and its own names end with it. -/
def Fit (visible : List String) : List Entry → Prop
  | [] => True
  | entry :: rest => entry.Fits visible ∧ Fit (entry.declared ++ visible) rest

end

/-- The entries are those of the code, each fits in, and behind them the second names are visible. -/
structure Read (visible : List String) (output : List Code) (entries : List Entry)
    (after : List String) : Prop where
  codes : codes entries = output
  fit : Fit visible entries
  seen : seen visible entries = after

namespace Read

theorem nil : Read visible [] [] visible := ⟨rfl,trivial,rfl⟩

theorem append (first : Read visible output entries between) (second : Read between more others after) :
    Read visible (output ++ more) (entries ++ others) after := by
  obtain ⟨rfl,fit,rfl⟩ := first
  induction entries generalizing visible with
  | nil => exact second
  | cons entry entries ih =>
    obtain ⟨same,fit',seen⟩ := ih fit.2 second
    exact ⟨congrArg (entry.code :: ·) same,⟨fit.1,fit'⟩,seen⟩

theorem line : Read visible [.line text] [.line text] visible := ⟨rfl,⟨trivial,trivial⟩,rfl⟩

theorem lines {texts : List String} : Read visible (texts.map .line) (texts.map .line) visible := by
  induction texts with
  | nil => exact nil
  | cons text texts ih => exact line.append ih

theorem void : Read visible [.void] [.void] visible := ⟨rfl,⟨trivial,trivial⟩,rfl⟩

theorem declaration (fits : keyword = if name ∈ visible then "" else "local ")
    (written : text = keyword ++ rest) :
    Read visible [.line text] [.declaration keyword name rest]
      ((if keyword = "local " then [name] else []) ++ visible) :=
  ⟨by rw [written]; rfl,⟨fits,trivial⟩,rfl⟩

theorem block (inside : Read visible output entries after) :
    Read visible [.block output] [.block entries] visible := by
  obtain ⟨rfl,fit,_⟩ := inside
  exact ⟨rfl,⟨fit,trivial⟩,rfl⟩

end Read

end Entry

/-! ## Statements and their entries -/

/-- Statements that declare names by assignments to single names, functions and classes. -/
inductive Lexical : Node → Prop
  | pass : Lexical .pass
  | breakStmt : Lexical .breakStmt
  | continueStmt : Lexical .continueStmt
  | exprStmt (expr : IsExpr value) : Lexical (.exprStmt value)
  | returnStmt (expr : IsExpr value) : Lexical (.returnStmt value)
  | assign (word : Text.isWord name = true) (expr : IsExpr value) :
    Lexical (.assign [.name (some name) access] value typeComment)
  | ifStmt (expr : IsExpr test) (inside : ∀ n ∈ body, Lexical n)
    (others : ∀ n ∈ orElse, Lexical n) : Lexical (.ifStmt test body orElse)
  | whileStmt (expr : IsExpr test) (inside : ∀ n ∈ body, Lexical n) : Lexical (.whileStmt test body orElse)
  | forStmt (place : IsExpr target) (expr : IsExpr iter) (inside : ∀ n ∈ body, Lexical n) :
    Lexical (.forStmt false target iter body orElse typeComment)
  | functionDef (simple : Text.hasChar name '.' = false) (exprs : ∀ e ∈ defaults, IsExpr e)
    (markers : ∀ e ∈ decorators, IsExpr e) (inside : ∀ n ∈ body, Lexical n) :
    Lexical (.functionDef false (some name)
      (.params posOnly regular .absent kwOnly kwDefaults kwRest defaults) body decorators returns
      typeComment)
  | classDef (given : name ≠ "") (exprs : ∀ e ∈ bases, IsExpr e) (inside : ∀ n ∈ body, Lexical n) :
    Lexical (.classDef (some name) bases keywords body decorators)

theorem Lexical.stmt (lexical : Lexical n) : IsStmt n := by
  induction lexical with
  | assign _ expr => exact .assign .name expr
  | _ => constructor <;> assumption

/-- The entries of a row of statements, in the body of a class or elsewhere. -/
inductive Annotated : Bool → Row → List Node → List Entry → Prop
  | nil : Annotated inClass row [] []
  | cons (first : Annotated inClass .statement [n] entries)
    (others : Annotated inClass .body ns rest) : Annotated inClass .body (n :: ns) (entries ++ rest)
  | pass : Annotated inClass .statement [.pass] []
  | breakStmt : Annotated inClass .statement [.breakStmt] [.line "break"]
  | continueStmt : Annotated inClass .statement [.continueStmt] [.line "continue"]
  | returnStmt : Annotated inClass .statement [.returnStmt value] [.line ("return " ++ text)]
  | exprStmt {inClass : Bool} {value : Node} {lines : List String} :
    Annotated inClass .statement [.exprStmt value] (lines.map .line ++ [.void])
  | assign : Annotated false .statement [.assign [.name (some name) access] value typeComment]
      [.declaration keyword name (name ++ " = " ++ text)]
  | attribute : Annotated true .statement [.assign [.name (some name) access] value typeComment] [.line text]
  | branch {body orElse : List Node} (inside : Annotated inClass .body body entries)
    (others : Annotated inClass .otherwise orElse rest) :
    Annotated inClass .statement [.ifStmt test body orElse]
      (.line ("if " ++ text ++ " then") :: .block entries :: rest ++ [.line "end"])
  | elseIf {body orElse dropped : List Node} (inside : Annotated inClass .body body entries)
    (others : Annotated inClass .otherwise orElse rest) :
    Annotated inClass .otherwise (.ifStmt test body orElse :: dropped)
      (.line ("elseif " ++ text ++ " then") :: .block entries :: rest)
  | orElse (inside : Annotated inClass .body (n :: ns) entries) :
    Annotated inClass .otherwise (n :: ns) [.line "else",.block entries]
  | whileStmt {body orElse : List Node} (inside : Annotated inClass .body body entries) :
    Annotated inClass .statement [.whileStmt test body orElse]
      [.line ("while " ++ text ++ " do"),.block entries,.line "end"]
  | forStmt {body orElse : List Node} (inside : Annotated inClass .body body entries) :
    Annotated inClass .statement [.forStmt false target iter body orElse typeComment]
      [.line header,.block entries,.line footer]
  | function {name keyword given : String} {params returns : Node} {body decorators : List Node}
    {typeComment : Option String} {leads closing connected : List String} {entries : List Entry}
    (inside : Annotated false .body body entries) :
    Annotated false .statement [.functionDef false (some name) params body decorators returns typeComment]
      (.declaration keyword name (" function " ++ name ++ "(" ++ given ++ ")") ::
        .block (leads.map .line ++ entries) :: closing.map .line ++
        .line "end" :: connected.map .line)
  | method {name : Option String} {header : String} {params returns : Node}
    {body decorators : List Node} {typeComment : Option String}
    {leads closing connected : List String} {entries : List Entry}
    (inside : Annotated false .body body entries) :
    Annotated true .statement [.functionDef false name params body decorators returns typeComment]
      (.line header :: .block (leads.map .line ++ entries) :: closing.map .line ++
        .line "end" :: connected.map .line)
  | class {name keyword : String} {bases keywords body decorators : List Node}
    {last closing : String} {results : List String} {entries : List Entry}
    (inside : Annotated true .body body entries) :
    Annotated false .statement [.classDef (some name) bases keywords body decorators]
      (.declaration keyword name (name ++ " = class(function(" ++ name ++ ")") ::
        .block (entries ++ [.line last]) :: .line closing :: results.map .line)
  | innerClass {name : Option String} {header last closing : String}
    {bases keywords body decorators : List Node} {results : List String} {entries : List Entry}
    (inside : Annotated true .body body entries) :
    Annotated true .statement [.classDef name bases keywords body decorators]
      (.line header :: .block (entries ++ [.line last]) :: .line closing :: results.map .line)

/-! ## The names that are known -/

/-- The symbol stack knows the names that are visible, and the scene is that of a class or is not. -/
structure Scene.Mirrors (a : Scene) (inClass : Bool) (visible : List String) : Prop where
  place : a.className.isEmpty = !inClass
  knows : ∀ name, a.locals.knows (some name) = true ↔ name ∈ visible

namespace Scene.Mirrors

variable {a b : Scene} {inClass : Bool} {visible : List String}

variable (mirrors : a.Mirrors inClass visible)

include mirrors

theorem inner : a.inner.Mirrors inClass visible := by
  refine ⟨mirrors.place,fun name => ?_⟩
  rw [Scene.inner,SymbolStack.knows_push]
  exact mirrors.knows name

theorem resume : (a.resume b).Mirrors inClass visible :=
  ⟨mirrors.place,mirrors.knows⟩

theorem function :
    Mirrors { a.inner with className := "" } false visible :=
  ⟨rfl,mirrors.inner.knows⟩

theorem classOf (given : name ≠ "") :
    Mirrors { a.inner with className := name } true visible :=
  ⟨by simpa using given,mirrors.inner.knows⟩

end Scene.Mirrors

namespace Compile

open Entry

variable {config : Option Config} {a b : Scene} {inClass : Bool} {visible : List String}

theorem Reads.mirrors (reads : Reads config a e text b) (mirrors : a.Mirrors inClass visible) :
    b.Mirrors inClass visible := by
  rw [reads.1]
  exact mirrors.resume

theorem ReadsAll.mirrors (reads : ReadsAll config a es texts b)
    (mirrors : a.Mirrors inClass visible) : b.Mirrors inClass visible := by
  induction reads with
  | nil => exact mirrors
  | cons first _ ih => exact ih (first.mirrors mirrors)

theorem introduces_mirrors (mirrors : a.Mirrors inClass visible) (introduced : Introduces a name keyword b) :
    keyword = (if name ∈ visible then "" else "local ") ∧
      b.Mirrors inClass ((if keyword = "local " then [name] else []) ++ visible) := by
  obtain ⟨written,place,knows⟩ := introduces_knows introduced
  simp only [mirrors.knows] at written knows
  refine ⟨written,by rw [place]; exact mirrors.place,fun other => ?_⟩
  rw [knows other,written]
  by_cases inside : name ∈ visible
  · have visible_other : other = name → other ∈ visible := fun same => same ▸ inside
    simpa [inside] using visible_other
  · simp [inside]

theorem qualified_outside (place : a.className.isEmpty = true) (name : String) :
    qualified a.className name = name := by
  simp [qualified,place]

theorem hasChar_qualified (place : a.className.isEmpty = false) (name : String) :
    Text.hasChar (qualified a.className name) '.' = true := by
  simp [qualified,place,Text.hasChar]

theorem isWord_qualified (place : a.className.isEmpty = false) (name : String) :
    Text.isWord (qualified a.className name) = false := by
  rw [qualified,place,Text.isWord,Bool.and_eq_false_iff]
  refine .inr (List.all_eq_false.mpr ⟨'.',by simp,by decide⟩)

theorem assign_annotated (word : Text.isWord name = true) (mirrors : a.Mirrors inClass visible)
    (written : LineOf config a (.assign [.name (some name) access] value typeComment) text b) :
    ∃ entries after, Read visible [.line text] entries after ∧
      Annotated inClass .statement [.assign [.name (some name) access] value typeComment] entries ∧
      b.Mirrors inClass after := by
  cases written with
  | assign target_read value_read introduced =>
    rename_i target text keyword _ _
    obtain rfl := name_reads target_read
    have mirrors' := value_read.mirrors (target_read.mirrors mirrors)
    cases inClass with
    | false =>
      rw [qualified_outside mirrors.place] at introduced ⊢
      rw [IntroducesIf,if_pos word] at introduced
      obtain ⟨fits,mirrors''⟩ := introduces_mirrors mirrors' introduced
      have line : keyword ++ target ++ " = " ++ text = keyword ++ (target ++ " = " ++ text) := by
        simp only [String.append_assoc]
      exact ⟨_,_,.declaration fits line,.assign,mirrors''⟩
    | true =>
      rw [isWord_qualified mirrors.place] at introduced
      obtain ⟨rfl,rfl⟩ := introduced
      exact ⟨_,_,.line,.attribute,mirrors'⟩

theorem optional_line (condition : Bool) (text : String) :
    (if condition then [Code.line text] else []) = (if condition then [text] else []).map .line := by
  cases condition <;> rfl

/-- The entries of a row of statements fit in with the names that are visible in front of it, and the
symbol stack goes on knowing the names that are visible behind it. -/
theorem emits_annotated {output : List Code} (emits : Emits config row a ns output b)
    (lexical : ∀ n ∈ ns, Lexical n) (mirrors : a.Mirrors inClass visible) :
    ∃ entries after, Read visible output entries after ∧ Annotated inClass row ns entries ∧
      b.Mirrors inClass after := by
  induction emits generalizing inClass visible with
  | nil | nothing | noHandlers | noCases => exact ⟨[],visible,.nil,.nil,mirrors⟩
  | cons _ _ first others =>
    obtain ⟨xs,between,read,annotated,mirrors'⟩ := first (by simpa using lexical _ List.mem_cons_self) mirrors
    obtain ⟨ys,after,read',annotated',mirrors''⟩ :=
      others (fun n member => lexical n (by simp [member])) mirrors'
    exact ⟨xs ++ ys,after,read.append read',.cons annotated annotated',mirrors''⟩
  | pass => exact ⟨[],visible,.nil,.pass,mirrors⟩
  | line written =>
    cases lexical _ List.mem_cons_self with
    | assign word => exact assign_annotated word mirrors written
    | returnStmt =>
      cases written with
      | returned first_read second_read =>
        exact ⟨_,_,.line,.returnStmt,second_read.mirrors (first_read.mirrors mirrors)⟩
    | breakStmt =>
      cases written
      exact ⟨_,_,.line,.breakStmt,mirrors⟩
    | continueStmt =>
      cases written
      exact ⟨_,_,.line,.continueStmt,mirrors⟩
    | pass | exprStmt | ifStmt | whileStmt | forStmt | functionDef | classDef => cases written
  | expression _ => exact ⟨_,_,Read.lines.append .void,.exprStmt,mirrors.resume⟩
  | branch test_read _ _ inside others =>
    cases lexical _ List.mem_cons_self with
    | ifStmt _ body orElse =>
      have mirrors' := test_read.mirrors mirrors
      obtain ⟨xs,_,read,annotated,_⟩ := inside body mirrors'.inner
      obtain ⟨ys,after,read',annotated',mirrors''⟩ := others orElse mirrors'.resume
      exact ⟨_,after,Read.line.append (read.block.append (read'.append .line)),
        .branch annotated annotated',mirrors''⟩
  | elseIf test_read second_read _ _ inside others =>
    cases lexical _ List.mem_cons_self with
    | ifStmt _ body orElse =>
      have mirrors' := second_read.mirrors (test_read.mirrors mirrors)
      obtain ⟨xs,_,read,annotated,_⟩ := inside body mirrors'.inner
      obtain ⟨ys,after,read',annotated',mirrors''⟩ := others orElse mirrors'.resume
      exact ⟨_,after,Read.line.append (read.block.append read'),.elseIf annotated annotated',mirrors''⟩
  | orElse _ _ inside =>
    obtain ⟨xs,_,read,annotated,_⟩ := inside lexical mirrors.inner
    exact ⟨_,visible,Read.line.append read.block,.orElse annotated,mirrors.resume⟩
  | whileLoop test_read _ inside =>
    cases lexical _ List.mem_cons_self with
    | whileStmt _ body =>
      have mirrors' := test_read.mirrors mirrors
      obtain ⟨xs,_,read,annotated,_⟩ := inside body mirrors'.inner
      exact ⟨_,visible,Read.line.append (read.block.append .line),.whileStmt annotated,mirrors'.resume⟩
  | forLoop target_read iter_read _ _ inside | generatorLoop target_read iter_read _ _ _ inside =>
    cases lexical _ List.mem_cons_self with
    | forStmt _ _ body =>
      have mirrors' := iter_read.mirrors (target_read.mirrors mirrors)
      obtain ⟨xs,_,read,annotated,_⟩ := inside body mirrors'.inner
      exact ⟨_,visible,Read.line.append (read.block.append .line),.forStmt annotated,mirrors'.resume⟩
  | function _ _ decorators_read introduced _ defaults_read decorators_again _ inside =>
    cases lexical _ List.mem_cons_self with
    | functionDef simple _ _ body =>
      have mirrors' := decorators_read.mirrors mirrors
      cases inClass with
      | false =>
        rw [qualified_outside mirrors.place] at introduced ⊢
        rw [IntroducesIf,if_pos (by simpa using simple)] at introduced
        obtain ⟨fits,known⟩ := introduces_mirrors mirrors' introduced
        obtain ⟨xs,_,read,annotated,_⟩ := inside body known.function
        have after := decorators_again.mirrors (defaults_read.mirrors known.resume)
        have line (keyword name given : String) : keyword ++ " function " ++ name ++ "(" ++ given ++
            ")" = keyword ++ (" function " ++ name ++ "(" ++ given ++ ")") := by
          simp only [String.append_assoc]
        rw [optional_line]
        exact ⟨_,_,((Read.declaration fits (line _ _ _)).append
          ((Read.lines.append read).block.append .lines)).append (Read.line.append .lines),
          .function annotated,after⟩
      | true =>
        rw [IntroducesIf,if_neg (by simp [hasChar_qualified mirrors.place])] at introduced
        obtain ⟨rfl,rfl⟩ := introduced
        obtain ⟨xs,_,read,annotated,_⟩ := inside body mirrors'.function
        have after := decorators_again.mirrors (defaults_read.mirrors mirrors'.resume)
        rw [optional_line]
        exact ⟨_,_,(Read.line.append ((Read.lines.append read).block.append .lines)).append
          (Read.line.append .lines),.method annotated,after⟩
  | classOf bases_read introduced _ inside =>
    cases lexical _ List.mem_cons_self with
    | classDef given _ body =>
      have mirrors' := bases_read.mirrors mirrors
      cases inClass with
      | false =>
        rw [qualified_outside mirrors.place]
        rw [mirrors.place,Bool.not_false,IntroducesIf,if_pos rfl] at introduced
        obtain ⟨fits,known⟩ := introduces_mirrors mirrors' introduced
        obtain ⟨xs,_,read,annotated,_⟩ := inside body (known.classOf given)
        have line (keyword name : String) : keyword ++ name ++ " = class(function(" ++ name ++ ")" =
            keyword ++ (name ++ " = class(function(" ++ name ++ ")") := by
          simp only [String.append_assoc]
        rw [optional_line]
        exact ⟨_,_,(Read.declaration fits (line _ _)).append ((read.append .line).block.append
          (Read.line.append .lines)),.class annotated,known.resume⟩
      | true =>
        rw [mirrors.place,Bool.not_true,IntroducesIf,if_neg Bool.false_ne_true] at introduced
        obtain ⟨rfl,rfl⟩ := introduced
        obtain ⟨xs,_,read,annotated,_⟩ := inside body (mirrors'.classOf given)
        rw [optional_line]
        exact ⟨_,_,Read.line.append ((read.append .line).block.append (Read.line.append .lines)),
          .innerClass annotated,mirrors'.resume⟩
  | global | withItems | tried | matched | handler | case => cases lexical _ List.mem_cons_self

/-! ## Modules -/

/-- The code of a module reads as entries of its statements. Every assignment to a name, function and
class outside of the body of a class is declared by a line that starts with the keyword if and only if
no declaration of the name is visible there. -/
theorem module_declarations_fit {config : Option Config} {ledger : Ledger}
    {body typeIgnores : List Node} {s : State} (lexical : ∀ n ∈ body, Lexical n)
    (run : visit config (.module body typeIgnores) (State.initial ledger) = (.ok (),s)) :
    ∃ entries, s.output = .block (codes entries) ∧ Annotated false .body body entries ∧ Fit [] entries := by
  obtain ⟨output,b,out,emits⟩ := module_emits (fun n member => (lexical n member).stmt) rfl run
  have mirrors : (State.initial ledger).scene.inner.Mirrors false [] :=
    ⟨rfl,fun name => by simp [State.initial,State.scene,Scene.inner,SymbolStack.knows,
      SymbolStack.push,SymbolStack.new]⟩
  obtain ⟨entries,_,read,annotated,_⟩ := emits_annotated emits lexical mirrors
  exact ⟨entries,by rw [out,read.codes],annotated,read.fit⟩

/-- A name that is assigned before and inside of a branch, in a function and in a class. -/
def nestedScopes : List Node :=
  let name (id : String) : Node := .name (some id) .absent
  let assign (id : String) (value : Node) : Node := .assign [name id] value none
  let function (id param : String) (body : List Node) : Node := .functionDef false (some id)
    (.params [] [.param (some param) .absent none] .absent [] [] .absent []) body [] .absent none
  [assign "x" (.constant (.int 1) none), .ifStmt (name "x") [assign "x" (name "y"),assign "y" (name "x")] [],
    function "f" "y" [assign "y" (name "x"),.returnStmt (name "f")],
    .classDef (some "C") [] [] [assign "x" (name "y"),function "m" "self" [assign "C" (name "x")]] [],
    assign "y" (name "x")]

theorem nestedScopes_lexical : ∀ n ∈ nestedScopes, Lexical n := by
  have assign (id other : String) (word : Text.isWord id = true) :
      Lexical (.assign [.name (some id) .absent] (.name (some other) .absent) none) :=
    .assign word .name
  refine List.forall_mem_cons.mpr ⟨.assign (by decide) .constant,?_⟩
  refine List.forall_mem_cons.mpr ⟨.ifStmt .name ?_ (by simp),?_⟩
  · exact List.forall_mem_cons.mpr ⟨assign _ _ (by decide),
      List.forall_mem_singleton.mpr (assign _ _ (by decide))⟩
  refine List.forall_mem_cons.mpr ⟨.functionDef (by decide) (by simp) (by simp) ?_,?_⟩
  · exact List.forall_mem_cons.mpr ⟨assign _ _ (by decide), List.forall_mem_singleton.mpr (.returnStmt .name)⟩
  refine List.forall_mem_cons.mpr ⟨.classDef (by decide) (by simp) ?_,?_⟩
  · refine List.forall_mem_cons.mpr ⟨assign _ _ (by decide),List.forall_mem_singleton.mpr ?_⟩
    exact .functionDef (by decide) (by simp) (by simp)
      (List.forall_mem_singleton.mpr (assign _ _ (by decide)))
  · exact List.forall_mem_singleton.mpr (assign _ _ (by decide))

theorem nestedScopes_fit :
    (visit (some .defaults) (.module nestedScopes []) (State.initial .empty)).1.isOk = true ∧
    ∃ entries, (visit (some .defaults) (.module nestedScopes []) (State.initial .empty)).2.output =
      .block (codes entries) ∧ Annotated false .body nestedScopes entries ∧ Fit [] entries := by
  have done : (visit (some .defaults) (.module nestedScopes []) (State.initial .empty)).1.isOk =
      true := by decide +kernel
  exact ⟨done,module_declarations_fit nestedScopes_lexical (gives_of_isOk done)⟩

end Compile

end LuauCompiler
