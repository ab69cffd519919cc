import LuauCompiler.Proofs.WrittenFiles

/-! The arguments behind output options. Every output option of a command names the same file: the name is
looked up behind the first one, while the reader goes on behind the option at hand. -/
namespace LuauCompiler.Command

/-- What stands directly behind each output option, in order. The argument behind an option is none
itself, and an option at the very end has nothing behind it. -/
def outputValues : (skip : Bool) → List String → List (Option String)
  | _, [] => []
  | true, _ :: rest => outputValues false rest
  | false, arg :: rest =>
    if arg = "-o" then rest.head? :: outputValues true rest else outputValues false rest

variable {args : Arguments} {rest : List String}

theorem head_outputValues (all : List String) :
    ∀ value ∈ (outputValues false all).head?, value = outputName? all := by
  induction all with
  | nil => simp [outputValues]
  | cons arg rest ih =>
    by_cases option : arg = "-o"
    · simp [outputValues,outputName?,option,List.head?_eq_getElem?]
    · rw [outputValues,if_neg option,outputName?,List.idxOf_cons_ne _ option,List.getElem?_cons_succ]
      exact ih

theorem scan_outputValues (read : scan all skip found rest = .ok args) :
    (outputValues skip rest = [] → args.output = found.output) ∧
    (outputValues skip rest ≠ [] → outputName? all = some args.output) := by
  fun_induction scan all skip found rest with
  | case17 found rest name named ih =>
    refine ⟨by simp [outputValues],fun _ => ?_⟩
    by_cases last : outputValues true rest = []
    · rw [named,(ih read).1 last]
    · exact (ih read).2 last
  | _ => simp_all [outputValues]

/-- The output is named by the argument behind the first output option, if there is one. So the argument
behind the last option names it exactly if it is the same as the one behind the first. -/
theorem output_named_by_first (read : arguments argv = .ok args) :
    (outputValues false argv).head?.getD (some noName) = some args.output ∧
    ∀ last ∈ (outputValues false argv).getLast?,
      (last = some args.output ↔ (outputValues false argv).head? = some last) := by
  obtain ⟨none_given,given⟩ := scan_outputValues read
  have first := head_outputValues argv
  cases values : outputValues false argv with
  | nil => simp [none_given values]
  | cons value others =>
    have named : value = some args.output := by
      rw [first value (by simp [values]),given (by simp [values])]
    simp [named,eq_comm]

/-- The value of the first option looks like an option, and the last option has another value. -/
theorem second_output_ignored :
    let argv := ["-o","-o","main.py","-o","b.lua"]
    ∃ args, arguments argv = .ok args ∧ args.input = "main.py" ∧
      outputValues false argv = [some "-o",some "b.lua"] ∧
      (outputValues false argv).head?.getD (some noName) = some args.output ∧ some "b.lua" ≠ some args.output := by
  intro argv
  have read : arguments argv = .ok { input := "main.py", output := "-o" } := by decide
  have values : outputValues false argv = [some "-o",some "b.lua"] := by decide
  have named := output_named_by_first read
  exact ⟨_,read,rfl,values,named.1,by simp [named.2 (some "b.lua") (by simp [values]),values]⟩

/-- Two output options with a value each: the first value is taken. -/
theorem first_output_taken :
    (arguments ["main.py","-o","a.lua","-o","b.lua"]).toOption.map (·.output) = some "a.lua" ∧
    (outputValues false ["main.py","-o","a.lua","-o","b.lua"]).getLast? = some (some "b.lua") := by
  decide

end LuauCompiler.Command
