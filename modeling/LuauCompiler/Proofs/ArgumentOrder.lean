import LuauCompiler.Proofs.OutputOptions
import Mathlib.Data.List.Perm.Basic

/-! Arguments in another order. Each argument settles one thing, and arguments that settle different things
can change places, so a command depends only on the order among arguments that settle the same. -/
namespace LuauCompiler.Command

/-- The options that stand alone and let the command go on. -/
inductive Switch where
  | notebook | braces | unchecked | functions | noFunctions | helperFile | useRequire | noExports | tree
  | forwards | backwards
  deriving DecidableEq

def Switch.text : Switch → String
  | .notebook => "-j"
  | .braces => "-b"
  | .unchecked => "-c"
  | .functions => "-f"
  | .noFunctions => "-fn"
  | .helperFile => "-s"
  | .useRequire => "-r"
  | .noExports => "-ne"
  | .tree => "-ast"
  | .forwards => "-py"
  | .backwards => "-lua"

/-- The texts that are not read as the name of a file. -/
def reservedTexts : List String :=
  ["-v","p","-vd","-j","-b","-c","-u","-f","-s","-r","-fn","-ne","-ast","-py","-o","-lua","-clrtxt"]

inductive Argument where
  | switch (s : Switch)
  | output (name : String)
  | input (name : String) (plain : name ∉ reservedTexts)
  deriving DecidableEq

def Argument.words : Argument → List String
  | .switch s => [s.text]
  | .output name => ["-o",name]
  | .input name _ => [name]

/-- What has been found once the argument is read. -/
def Arguments.settle (found : Arguments) : Argument → Arguments
  | .switch .notebook => { found with notebook := true }
  | .switch .braces | .switch .unchecked => found
  | .switch .functions => { found with functions := true }
  | .switch .noFunctions => { found with functions := false }
  | .switch .helperFile => { found with helperFile := true }
  | .switch .useRequire => { found with useRequire := true }
  | .switch .noExports => { found with exportNames := false }
  | .switch .tree => { found with showTree := true }
  | .switch .forwards => { found with backwards := false }
  | .switch .backwards => { found with backwards := true }
  | .output name => { found with output := name }
  | .input name _ => { found with input := name }

/-- What an argument can settle. -/
inductive Setting where
  | switch (s : Switch)
  | output
  | input
  deriving DecidableEq

/-- Two pairs of switches settle the same thing in opposite ways. -/
def Argument.setting : Argument → Setting
  | .switch .noFunctions => .switch .functions
  | .switch .backwards => .switch .forwards
  | .switch s => .switch s
  | .output _ => .output
  | .input _ _ => .input

/-- The arguments that settle the thing, in order. -/
def settling (setting : Setting) (args : List Argument) : List Argument := args.filter (·.setting = setting)

variable {args others : List Argument} {found : Arguments}

/-! ## Changing places -/

theorem settle_comm (found : Arguments) (x y : Argument) (apart : x.setting ≠ y.setting) :
    (found.settle x).settle y = (found.settle y).settle x := by
  cases x with
  | switch s =>
    cases y with
    | switch t => cases s <;> cases t <;> first | rfl | exact absurd rfl apart
    | output | input => cases s <;> rfl
  | output | input =>
    cases y with
    | switch t => cases t <;> rfl
    | output | input => first | rfl | exact absurd rfl apart

theorem foldl_settle_first (apart : ∀ x ∈ front, x.setting ≠ arg.setting) :
    (front ++ arg :: rest).foldl Arguments.settle found =
      (front ++ rest).foldl Arguments.settle (found.settle arg) := by
  induction front generalizing found with
  | nil => rfl
  | cons x front ih =>
    obtain ⟨other,others⟩ := List.forall_mem_cons.mp apart
    simp only [List.cons_append,List.foldl_cons]
    rw [ih others,settle_comm found x arg other]

theorem foldl_settle_eq (same : ∀ setting, settling setting args = settling setting others) :
    args.foldl Arguments.settle found = others.foldl Arguments.settle found := by
  induction args generalizing others found with
  | nil =>
    have none : others = [] := by
      refine List.eq_nil_iff_forall_not_mem.mpr fun arg member => ?_
      have inside : arg ∈ settling arg.setting others := by simp [settling,member]
      rw [← same] at inside
      cases inside
    rw [none]
  | cons arg rest ih =>
    have first := (same arg.setting).symm
    rw [settling,settling,List.filter_cons_of_pos (by simp),List.filter_eq_cons_iff] at first
    obtain ⟨front,behind,rfl,apart,-,later⟩ := first
    rw [List.foldl_cons,foldl_settle_first (by simpa using apart)]
    refine ih fun setting => ?_
    have whole := same setting
    by_cases own : arg.setting = setting
    · subst own
      have none : front.filter (·.setting = arg.setting) = [] := by simpa using apart
      simp only [settling,List.filter_append,none,List.nil_append]
      exact later.symm
    · simpa [settling,own] using whole

/-! ## Reading -/

theorem outputName?_words (one : (settling .output args).length ≤ 1) (member : .output name ∈ args) :
    outputName? (args.flatMap Argument.words) = some name := by
  have values (args : List Argument) : outputValues false (args.flatMap Argument.words) =
      (settling .output args).map fun arg => arg.words[1]? := by
    induction args with
    | nil => rfl
    | cons arg rest ih =>
      cases arg with
      | switch s => cases s <;> simpa [outputValues,Argument.words,Switch.text,settling,Argument.setting] using ih
      | output name => simpa [outputValues,Argument.words,settling,Argument.setting] using ih
      | input name plain =>
        have other : name ≠ "-o" := fun same => plain (by simp [reservedTexts,same])
        simpa [outputValues,Argument.words,settling,Argument.setting,other] using ih
  have first := head_outputValues (args.flatMap Argument.words)
  have inside : .output name ∈ settling .output args := by simp [settling,member,Argument.setting]
  obtain ⟨only,single⟩ := List.length_eq_one_iff.mp (Nat.le_antisymm one (List.length_pos_of_mem inside))
  rw [single,List.mem_singleton] at inside
  rw [values,single,← inside] at first
  exact (first _ rfl).symm

theorem scan_words (named : ∀ name, .output name ∈ args → outputName? all = some name)
    (fresh : settling .input args ≠ [] → found.input = noName) (one : (settling .input args).length ≤ 1) :
    scan all false found (args.flatMap Argument.words) = .ok (args.foldl Arguments.settle found) := by
  induction args generalizing found with
  | nil => rfl
  | cons arg rest ih =>
    have later (fresh : settling .input rest ≠ [] → (found.settle arg).input = noName)
        (one : (settling .input rest).length ≤ 1) : scan all false (found.settle arg)
          (rest.flatMap Argument.words) = .ok (rest.foldl Arguments.settle (found.settle arg)) :=
      ih (fun name member => named name (.tail _ member)) fresh one
    cases arg with
    | switch s => cases s <;> exact later fresh one
    | output name =>
      rw [List.flatMap_cons]
      simp only [Argument.words,List.cons_append,List.nil_append,scan,named name (.head _)]
      exact later fresh one
    | input name plain =>
      have last : settling .input rest = [] := by simpa [settling,Argument.setting] using one
      have start : found.input = noName := fresh (by simp [settling,Argument.setting])
      have step : scan all false found (name :: rest.flatMap Argument.words) =
          scan all false { found with input := name } (rest.flatMap Argument.words) := by
        have other : ∀ text ∈ reservedTexts, name ≠ text := fun text member same => plain (same ▸ member)
        rw [scan,if_neg (by simp [start])]
        all_goals exact other _ (by simp [reservedTexts])
      rw [List.flatMap_cons]
      exact step.trans (later (absurd last) (by simp [last]))

theorem arguments_words (one_output : (settling .output args).length ≤ 1)
    (one_input : (settling .input args).length ≤ 1) :
    arguments (args.flatMap Argument.words) = .ok (args.foldl Arguments.settle {}) :=
  scan_words (fun _ => outputName?_words one_output) (fun _ => rfl) one_input

/-! ## Another order -/

theorem Argument.eq_switch {arg : Argument} (settles : arg.setting = .switch s) (functions : s ≠ .functions)
    (direction : s ≠ .forwards) : arg = .switch s := by
  cases arg with
  | output | input => cases settles
  | switch t => cases t <;> cases settles <;> first | rfl | contradiction

theorem settling_eq (rearranged : args.Perm others) (alike : ∀ x ∈ settling setting args,
    ∀ y ∈ settling setting args, x = y) : settling setting args = settling setting others := by
  have perm : (settling setting args).Perm (settling setting others) := rearranged.filter _
  cases first : settling setting args with
  | nil =>
    rw [first] at perm
    exact perm.nil_eq
  | cons x rest =>
    have same : settling setting args = List.replicate (rest.length + 1) x :=
      List.eq_replicate_iff.mpr ⟨by simp [first],fun y member => alike y member x (by simp [first])⟩
    rw [← first,same]
    rw [same] at perm
    exact (List.replicate_perm.mp perm)

/-- A command does the same with its arguments in any order in which the switches for the functions keep
their order, and so do those for the direction. -/
theorem argument_order_irrelevant (order : Order) (w : Workspace) (parse : String → Parsed)
    (rearranged : args.Perm others)
    (one_output : (settling .output args).length ≤ 1) (one_input : (settling .input args).length ≤ 1)
    (functions : settling (.switch .functions) args = settling (.switch .functions) others)
    (direction : settling (.switch .forwards) args = settling (.switch .forwards) others) :
    run order w parse (args.flatMap Argument.words) = run order w parse (others.flatMap Argument.words) := by
  have single (setting : Setting) (one : (settling setting args).length ≤ 1) :
      settling setting args = settling setting others := by
    refine settling_eq rearranged fun x first y second => ?_
    obtain ⟨only,same⟩ := List.length_eq_one_iff.mp (Nat.le_antisymm one (List.length_pos_of_mem first))
    rw [same,List.mem_singleton] at first second
    rw [first,second]
  have same (setting : Setting) : settling setting args = settling setting others := by
    cases setting with
    | output => exact single _ one_output
    | input => exact single _ one_input
    | switch s =>
      by_cases opposite : s = .functions ∨ s = .forwards
      · rcases opposite with rfl | rfl
        · exact functions
        · exact direction
      · rw [not_or] at opposite
        have only (x : Argument) (member : x ∈ settling (.switch s) args) : x = .switch s :=
          Argument.eq_switch (by simpa using List.of_mem_filter member) opposite.1 opposite.2
        exact settling_eq rearranged fun x first y second => by rw [only x first,only y second]
  have read := arguments_words one_output one_input
  rw [same] at one_output one_input
  rw [run,run,read,arguments_words one_output one_input,foldl_settle_eq same]

/-- The value of the output option looks like an option, and of two opposite switches the last one counts. -/
theorem runBroken_reordered : runBroken ["-o","-c","-f","main.py","-ne","-fn","-s"] =
      runBroken ["-s","-f","-fn","-o","-c","-ne","main.py"] := by
  have rearranged : List.Perm
      [.output "-c",.switch .functions,.input "main.py" (by decide),.switch .noExports,.switch .noFunctions,
        .switch .helperFile]
      [.switch .helperFile,.switch .functions,.switch .noFunctions,.output "-c",.switch .noExports,
        Argument.input "main.py" (by decide)] := by
    decide
  exact argument_order_irrelevant _ brokenSource _ rearranged (by decide) (by decide) rfl rfl

end LuauCompiler.Command
