import LuauCompiler.Proofs.Outcomes

/-! The arguments of a call by name. Keyword arguments are not looked at. -/
namespace LuauCompiler

/-- The texts are parts of the line, each behind the one before it. -/
def StandIn : List String → String → Prop
  | [], _ => True
  | text :: rest, line => ∃ front behind, line = front ++ text ++ behind ∧ StandIn rest behind

theorem StandIn.led (front : String) (stand : StandIn texts line) : StandIn texts (front ++ line) := by
  cases texts with
  | nil => trivial
  | cons text rest =>
    obtain ⟨other,behind,rfl,later⟩ := stand
    exact ⟨front ++ other,behind,by simp [String.append_assoc],later⟩

theorem standIn_intercalate (separator last : String) (texts : List String) :
    StandIn texts (String.intercalate separator texts ++ last) := by
  induction texts with
  | nil => trivial
  | cons text rest ih =>
    cases rest with
    | nil => exact ⟨"",last,by simp,trivial⟩
    | cons next rest =>
      refine ⟨"",_,?_,ih.led separator⟩
      simp [String.intercalate_cons_cons,String.append_assoc]

/-- A call of one name asks for a snippet. -/
def State.called (s : State) (name : String) : State :=
  if name = "complex" then { s with ledger := s.ledger.need "complex" } else s

namespace Compile

variable {config : Option Config} {s t : State} {args keywords : List Node}

theorem namedCall_eq : visit config (.call (.name (some name) access) args keywords) s =
    (do emit (name ++ ("(" ++ (Text.commaSeparated (← inlineEach (visits config args)) ++ ")"))))
      (s.called name) := by
  refine (bind_of_gives (name_gives ..)).trans ?_
  unfold State.called
  by_cases complex : name = "complex"
  · rw [if_pos complex,if_pos complex]
    simp only [String.append_assoc]
    rfl
  · rw [if_neg complex,if_neg complex]
    simp only [String.append_assoc]
    rfl

/-- A call by name that compiles adds one line: the texts of its positional arguments between parentheses.
They stand in it in their order. The line is the same for all keyword arguments, so the value of one is in
it only if it is part of the rest by chance. -/
theorem keyword_arguments_dropped
    (run : Gives (visit config (.call (.name (some name) access) args keywords)) s () t) :
    ∃ before texts u line, Gives (inlineEach (visits config args)) (s.called name) texts u ∧
      u.output = .block before ∧ t = { u with output := .block (before ++ [.line line]) } ∧
      line = name ++ ("(" ++ (Text.commaSeparated texts ++ ")")) ∧ StandIn texts line ∧
      ∀ others, Gives (visit config (.call (.name (some name) access) args others)) s () t := by
  have again (others : List Node) :
      Gives (visit config (.call (.name (some name) access) args others)) s () t := by
    rw [Gives,namedCall_eq,← run,namedCall_eq]
  rw [Gives,namedCall_eq] at run
  obtain ⟨texts,u,read,last⟩ := gives_bind.mp run
  obtain ⟨before,out,rfl⟩ := gives_emit.mp last
  exact ⟨before,texts,u,_,read,out,rfl,rfl,((standIn_intercalate ", " ")" texts).led "(").led name,again⟩

/-- Arguments of `f`: one by position, one behind a star, and keywords. -/
def starredCall (keywords : List Node) : Node :=
  .call (.name (some "f") .absent) [.name (some "a") .absent,.starred (.name (some "x") .absent) .absent] keywords

def keyArgument : Node := .keyword (some "key") (.name (some "b") .absent)

theorem keyArgument_dropped :
    let s := State.initial .empty
    let t := (visit none (starredCall [keyArgument]) s).2
    Gives (visit none (starredCall [keyArgument])) s () t ∧ Gives (visit none (starredCall [])) s () t ∧
      ∃ texts, StandIn texts ("f" ++ ("(" ++ (Text.commaSeparated texts ++ ")"))) ∧
        t.output = .block [.line ("f" ++ ("(" ++ (Text.commaSeparated texts ++ ")")))] := by
  intro s t
  have run : Gives (visit none (starredCall [keyArgument])) s () t := gives_of_isOk (by decide +kernel)
  obtain ⟨before,texts,u,_,read,out,same,rfl,stand,again⟩ := keyword_arguments_dropped run
  cases out.symm.trans ((inlineEach_preserves _).holds (P := (· = .block [])) read rfl)
  exact ⟨run,again [],texts,stand,congrArg State.output same⟩

/-- The value of the keyword argument is nowhere in the call. -/
theorem keyword_value_missing :
    (visit none (starredCall [keyArgument]) (.initial .empty)).2.output = .block [.line "f(a, unpack(x))"] ∧
    ¬ StandIn ["a","unpack(x)","b"] "f(a, unpack(x))" := by
  refine ⟨by decide +kernel,fun ⟨front,_,line,_,_,rest,_,_,last,_⟩ => ?_⟩
  rw [rest,last] at line
  have inside : 'b' ∈ "f(a, unpack(x))".toList := by simp [line]
  exact absurd inside (by decide)

end Compile

end LuauCompiler
