import LuauCompiler.Command
import Mathlib.Data.List.Basic

/-! A command touches at most one file, the one named by its output option, and it touches it last: a
command that fails has written nothing. -/

namespace LuauCompiler.Command

variable {args : Arguments} {w : Workspace}

theorem outputName?_eq_some (named : outputName? all = some name) :
    ∃ before after, all = before ++ "-o" :: name :: after ∧ "-o" ∉ before := by
  induction all with
  | nil => simp [outputName?] at named
  | cons arg rest ih =>
    by_cases option : arg = "-o"
    · subst option
      simp only [outputName?,List.idxOf_cons_self,Nat.zero_add,List.getElem?_cons_succ] at named
      cases rest with
      | nil => simp at named
      | cons next after =>
        simp only [List.getElem?_cons_zero,Option.some.injEq] at named
        exact ⟨[],after,by simp [named],by simp⟩
    · rw [outputName?,List.idxOf_cons_ne _ option,List.getElem?_cons_succ] at named
      obtain ⟨before,after,rfl,first⟩ := ih named
      exact ⟨arg :: before,after,rfl,by simp [first,Ne.symm option]⟩

theorem scan_output (read : scan all skip found rest = .ok args) :
    args.output = found.output ∨ outputName? all = some args.output := by
  fun_induction scan all skip found rest with
  | case17 found rest name named ih =>
    -- The option names the output, and every further option names the same one.
    obtain same | again := ih read
    · exact .inr (by rw [named,same])
    · exact .inr again
  | _ => simp_all

theorem arguments_output (read : arguments argv = .ok args) (given : args.output ≠ noName) :
    ∃ before after, argv = before ++ "-o" :: args.output :: after ∧ "-o" ∉ before := by
  obtain none_given | named := scan_output read
  · exact absurd none_given given
  · exact outputName?_eq_some named

namespace Outcome

/-- The command ended with an error, or with an exit code other than zero. -/
def Failed (o : Outcome) : Prop :=
  ∃ cause, o.result = .error cause ∧ cause ≠ .exit none ∧ cause ≠ .exit (some 0)

/-- The files of a workspace once the command has ended. -/
def filesAfter (o : Outcome) (w : Workspace) : List (String × String) := o.changed ++ w.files

end Outcome

/-- A command writes where its output's name leads, and nowhere if it fails. -/
structure WritesOnly (w : Workspace) (output : String) (o : Outcome) : Prop where
  place : ∀ file ∈ o.changed, output ≠ noName ∧ w.target output = .ok file.1
  nothing : o.Failed → o.changed = []

variable {o : Outcome}

theorem WritesOnly.of_unchanged (unchanged : o.changed = []) : WritesOnly w output o :=
  ⟨by simp [unchanged],fun _ => unchanged⟩

section Commands

variable (order : Order) (w : Workspace) (args : Arguments) (parse : String → Parsed)

theorem deliver_writesOnly (output text : String) (console : Console) (parsed : List String)
    (ending : Except Failure Unit) (well : ∀ cause, ending = .error cause → cause = .exit (some 0)) :
    WritesOnly w output (deliver w output text console parsed ending) := by
  unfold deliver
  split
  · exact .of_unchanged rfl
  · rename_i given
    cases written : w.write output text with
    | error => exact .of_unchanged rfl
    | ok changed =>
      refine ⟨fun file member => ⟨given,?_⟩,?_⟩
      · rw [Workspace.write] at written
        cases located : w.target output with
        | error => simp [located,Except.map] at written
        | ok plain =>
          rw [located] at written
          obtain rfl := Except.ok.inj written
          -- What is written is the one file at the plain form of the name.
          have here : file = (plain,text) := by
            by_cases same : w.files.lookup plain = some text <;> simp_all
          rw [here]
      · rintro ⟨cause,ended,_,other⟩
        exact absurd (well cause ended) other

theorem compileText_writesOnly (config : Config) (text : String) :
    WritesOnly w args.output (compileText order w args config parse text) := by
  unfold compileText
  dsimp only
  split
  · exact .of_unchanged rfl
  · split
    · exact .of_unchanged rfl
    · exact deliver_writesOnly w _ _ _ _ _ (by simp)

theorem runHelperFile_writesOnly : WritesOnly w args.output (runHelperFile w args) := by
  unfold runHelperFile
  split
  · exact .of_unchanged rfl
  · split
    · exact .of_unchanged rfl
    · exact deliver_writesOnly w _ _ _ _ _ (by simp)

theorem runFile_writesOnly : WritesOnly w args.output (runFile order w args parse) := by
  unfold runFile
  split
  · exact .of_unchanged rfl
  · exact .of_unchanged rfl
  · split
    · exact .of_unchanged rfl
    · split
      · exact .of_unchanged rfl
      · split
        · split
          · exact .of_unchanged rfl
          · exact compileText_writesOnly order w args parse _ _
        · exact compileText_writesOnly order w args parse _ _

/-- A command that writes a file read its arguments, and wrote where the output's name leads. -/
theorem run_writesOnly (argv : List String) : (run order w parse argv).changed = [] ∨
    ∃ args, arguments argv = .ok args ∧ WritesOnly w args.output (run order w parse argv) := by
  unfold run
  split
  · exact .inl rfl
  · rename_i args read
    refine .inr ⟨args,read,?_⟩
    split
    · exact .of_unchanged rfl
    · split
      · exact runHelperFile_writesOnly w args
      · split
        · exact .of_unchanged rfl
        · exact runFile_writesOnly order w args parse

end Commands

theorem Outcome.mem_changed_of_lookup (differs : (o.filesAfter w).lookup name ≠ w.files.lookup name) :
    ∃ text, (name,text) ∈ o.changed := by
  rw [filesAfter,List.lookup_append] at differs
  cases found : o.changed.lookup name with
  | none => simp [found] at differs
  | some text =>
    obtain ⟨before,after,split,_⟩ := List.lookup_eq_some_iff.mp found
    exact ⟨text,by simp [split]⟩

/-- A command changes or creates no file other than the one that the argument after its first
output option leads to, and a command that fails leaves every file as it was. -/
theorem failed_command_writes_nothing (order : Order) (w : Workspace) (parse : String → Parsed)
    (argv : List String) :
    (∀ name, ((run order w parse argv).filesAfter w).lookup name ≠ w.files.lookup name →
      ∃ before taken after, argv = before ++ "-o" :: taken :: after ∧ "-o" ∉ before ∧
        w.target taken = .ok name) ∧
    ((run order w parse argv).Failed → (run order w parse argv).changed = []) := by
  obtain unchanged | ⟨args,read,only⟩ := run_writesOnly order w parse argv
  · refine ⟨fun name differs => ?_,fun _ => unchanged⟩
    simp [Outcome.filesAfter,unchanged] at differs
  · refine ⟨fun name differs => ?_,only.nothing⟩
    obtain ⟨text,member⟩ := Outcome.mem_changed_of_lookup differs
    obtain ⟨given,located⟩ := only.place _ member
    obtain ⟨before,after,split,first⟩ := arguments_output read given
    exact ⟨before,args.output,after,split,first,located⟩

def brokenSource : Workspace := ⟨[("main.py","x =")],[]⟩

def runBroken (argv : List String) : Outcome := run .sorted brokenSource (fun _ => .syntaxError "invalid syntax") argv

/-- Compiling the file fails before its output is made, while the file of helpers is written. -/
theorem brokenSource_commands : (runBroken ["main.py","-o","main.lua"]).Failed ∧
    (runBroken ["main.py","-o","main.lua"]).changed = [] ∧
    ((runBroken ["-s","-o","main.lua"]).filesAfter brokenSource).lookup "main.lua" ≠ none ∧
    ∃ before taken after, ["-s","-o","main.lua"] = before ++ "-o" :: taken :: after ∧
      "-o" ∉ before ∧ brokenSource.target taken = .ok "main.lua" := by
  have failed : (runBroken ["main.py","-o","main.lua"]).Failed := ⟨.exit (some 1),by rfl,by decide,by decide⟩
  have written : ((runBroken ["-s","-o","main.lua"]).filesAfter brokenSource).lookup "main.lua" ≠
      none := by
    decide +kernel
  exact ⟨failed,(failed_command_writes_nothing _ _ _ _).2 failed,written,
    (failed_command_writes_nothing _ _ _ _).1 "main.lua" written⟩

end LuauCompiler.Command
