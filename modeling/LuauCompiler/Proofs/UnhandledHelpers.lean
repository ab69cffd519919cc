import LuauCompiler.Proofs.Leftovers
import Mathlib.Data.List.Basic

/-! Helpers without a snippet. The rules ask for four helpers, all of which have a snippet, so putting a
program together never stops at one that has none. -/
namespace LuauCompiler

/-- The last character of the line that was printed last. -/
def Console.lastLetter (c : Console) : Option Char := c.out.toList.dropLast.getLast?

theorem Console.lastLetter_of_line {c : Console} {text : String}
    (printed : (text ++ "\n").toList <:+ c.out.toList) (last : text.toList.getLast? = some letter) :
    c.lastLetter = some letter := by
  obtain ⟨before,whole⟩ := printed
  have line : c.out.toList = (before ++ text.toList) ++ ['\n'] := by
    rw [← whole]
    simp
  rw [lastLetter,line,List.dropLast_concat]
  exact List.mem_getLast?_append_of_mem_getLast? last

theorem Console.lastLetter_print (c : Console) {text : String}
    (last : text.toList.getLast? = some letter) : (c.print text).lastLetter = some letter :=
  lastLetter_of_line ⟨c.out.toList,by simp [print]⟩ last

theorem Diagnostic.error_ends (last : message.toList.getLast? = some letter) :
    (Diagnostic.error message).toList.getLast? = some letter := by
  rw [Diagnostic.error,String.toList_append]
  exact List.mem_getLast?_append_of_mem_getLast? last

theorem Program.unhandledMessage_ends (helper : String) :
    (unhandledMessage helper).toList.getLast? = some 'b' := by
  unfold unhandledMessage
  rw [String.toList_append]
  exact List.mem_getLast?_append_of_mem_getLast? (by decide +kernel)

namespace Compile

variable {α : Type}

theorem IsComplaint.ends (worded : IsComplaint message) :
    ∃ letter, message.toList.getLast? = some letter ∧ letter ≠ 'b' := by
  cases worded with
  | assigned name | subscripted name =>
    refine ⟨'.',?_,by decide⟩
    simp only [reservedMessage,String.toList_append]
    exact List.mem_getLast?_append_of_mem_getLast? (by decide +kernel)
  | sum | sorting | pattern => exact ⟨'.',by decide +kernel,by decide⟩
  | wildcard => exact ⟨'d',by decide +kernel,by decide⟩

/-- No run of the step makes the printed text end like the error of an unhandled helper. -/
structure Spares (c : Compile α) : Prop where
  run : ∀ s, s.console.lastLetter ≠ some 'b' → (c s).2.console.lastLetter ≠ some 'b'

namespace Spares

theorem bind (first : Spares c) (rest : ∀ a, Spares (f a)) : Spares (c >>= f) := by
  refine ⟨fun s spared => ?_⟩
  have ran := first.run s spared
  simp only [Bind.bind]
  split <;> rename_i result <;> rw [result] at ran
  · exact (rest _).run _ ran
  · exact ran

theorem silent {c : Compile α} (same : ∀ s, (c s).2.console = s.console) : Spares c :=
  ⟨fun s spared => by rwa [same s]⟩

theorem within (step : Spares c) : Spares (within change c) := by
  refine ⟨fun s spared => ?_⟩
  have ran := step.run { s with frames := s.frames.push change } spared
  simp only [Compile.within,Bind.bind,update]
  split <;> rename_i result <;> rw [result] at ran
  · rename_i t
    simp only [get]
    cases t.frames.pop? <;> exact ran
  · exact ran

theorem nested (step : Spares c) : Spares (nested c) := by
  refine ⟨fun s spared => ?_⟩
  have ran := step.run { s with output := .block [] } spared
  simp only [Compile.nested]
  split <;> rename_i result <;> rw [result] at ran <;> exact ran

theorem reject (worded : IsComplaint message) : Spares (Compile.reject message : Compile α) := by
  refine ⟨fun s _ => ?_⟩
  obtain ⟨letter,last,other⟩ := worded.ends
  simp only [Compile.reject,s.console.lastLetter_print (Diagnostic.error_ends last)]
  exact fun same => other (Option.some.inj same)

theorem declare (name : Option String) : Spares (declare name) := by
  refine .silent fun s => ?_
  simp only [Compile.declare,Bind.bind,get]
  cases s.locals.add? name <;> rfl

theorem publish (name : String) : Spares (declareGlobals [name]) := by
  refine .silent fun s => ?_
  simp only [declareGlobals,Bind.bind,get]
  cases s.globals.add? name <;> rfl

theorem closeBlock : Spares closeBlock := by
  refine .silent fun s => ?_
  simp only [Compile.closeBlock,Bind.bind,get]
  cases s.locals.pop? <;> rfl

end Spares

theorem Built.spares {c : Compile α} (built : Built c) : Spares c := by
  induction built with
  | pure | fail => exact .silent fun _ => rfl
  | bind _ _ first rest => exact .bind first rest
  | reject worded => exact .reject worded
  | ask _ _ rest => exact .bind (.silent fun _ => rfl) rest
  | put change quiet =>
    refine ⟨fun s spared => ?_⟩
    have same : (change s.work).console.out = s.console.out := quiet s.work
    simpa only [update,State.withWork,Console.lastLetter,same] using spared
  | needs => exact .silent fun _ => rfl
  | within _ _ step => exact .within step
  | loop _ step => exact .bind (.silent fun _ => rfl) fun _ => .within step
  | declare name => exact .declare name
  | publish name => exact .publish name
  | nested _ step => exact .nested step
  | scope _ step => exact .bind (.silent fun _ => rfl) fun _ => .bind step fun _ => .closeBlock

end Compile

namespace Listing

theorem record_ends (done : record className fields = .ok text) : text.toList.getLast? = some ')' := by
  simp only [record,bind,Except.bind] at done
  split at done
  · cases done
  · rw [← Except.ok.inj done,String.toList_append]
    exact List.mem_getLast?_append_of_mem_getLast? (by decide +kernel)

theorem ofNode_ends (done : ofNode root = .ok text) :
    ∃ letter, text.toList.getLast? = some letter ∧ letter ≠ 'b' := by
  cases root with
  | absent =>
    cases done
    exact ⟨'e',by decide +kernel,by decide⟩
  | mark m =>
    have written : m.className ++ "()" = text := Except.ok.inj done
    refine ⟨')',?_,by decide⟩
    rw [← written,String.toList_append]
    exact List.mem_getLast?_append_of_mem_getLast? (by decide +kernel)
  | _ => exact ⟨')',record_ends done,by decide⟩

end Listing

namespace Program

theorem assemble_console (options : Options) (output : Code) (console : Console)
    (known : session.ledger.helpers ⊆ requestedHelpers) :
    (assemble options output console session).console = console := by
  unfold assemble
  simp only [addSnippets_requested options known]
  cases output.entries? <;> rfl

theorem listing_ends (listed : listing options root = .ok console) : console.lastLetter ≠ some 'b' := by
  unfold listing at listed
  split at listed
  · cases shown : Listing.ofNode root with
    | error e => simp [shown,Except.map] at listed
    | ok text =>
      obtain ⟨letter,last,other⟩ := Listing.ofNode_ends shown
      simp only [shown,Except.map,Except.ok.injEq] at listed
      rw [← listed,Console.lastLetter_print _ last]
      exact fun same => other (Option.some.inj same)
  · cases listed
    decide

theorem ofTree_ends (config : Config) (options : Options) (root : Node)
    (known : session.ledger.helpers ⊆ requestedHelpers) :
    (ofTree config options session root).console.lastLetter ≠ some 'b' := by
  unfold ofTree
  cases listed : listing options root with
  | error e => exact (by decide : Console.empty.lastLetter ≠ some 'b')
  | ok console =>
    let start := { State.initial session.ledger with console }
    have asked := visit_requests (some config) root (s := start) known
    have spared := (Compile.visit_built (some config) root).spares.run start (listing_ends listed)
    simp only [Compile.run]
    revert asked spared
    cases Compile.visit (some config) root start with
    | mk outcome s =>
      intro asked spared
      cases outcome with
      | error e => exact spared
      | ok => rwa [assemble_console options s.output s.console asked]

end Program

theorem Job.report_ends (job : Job) (known : session.ledger.helpers ⊆ requestedHelpers) :
    (job.report session).console.lastLetter ≠ some 'b' := by
  have silent : Console.empty.lastLetter ≠ some 'b' := by decide
  cases job with
  | helperFile => exact silent
  | program config options parsed =>
    cases parsed with
    | tree root => exact Program.ofTree_ends config options root known
    | syntaxError text =>
      simp only [report,Program.ofParsed]
      split <;> exact silent

namespace Session

/-- What a session can be asked for without naming a helper. -/
inductive Step where
  | translate (job : Job)
  | compile (config : Option Config) (root : Node) (start : State)
  | reset
  /-- The text that starts a runtime is the same at any time. -/
  | runtimeInit

def step (session : Session) : Step → Session
  | .translate job => session.after (.translate job)
  | .compile config root start => session.after (.compile config root start)
  | .reset => session.after .reset
  | .runtimeInit => session

theorem step_requests (session : Session) (step : Step) (known : session.ledger.helpers ⊆ requestedHelpers) :
    (session.step step).ledger.helpers ⊆ requestedHelpers := by
  cases step with
  | translate job => exact job.report_requests known
  | compile config root start =>
    have ran := ((Compile.evaluate_built config root).follows helperLaw).run
      { start with ledger := session.ledger }
    have asked : (Compile.evaluate config root { start with ledger := session.ledger }).2.ledger.helpers ⊆
        requestedHelpers := by
      revert ran
      cases (Compile.evaluate config root { start with ledger := session.ledger }).1 <;>
        exact fun ran => ran known
    exact asked
  | reset | runtimeInit => exact known

theorem steps_request (steps : List Step) (known : session.ledger.helpers ⊆ requestedHelpers) :
    (steps.foldl step session).ledger.helpers ⊆ requestedHelpers := by
  induction steps generalizing session with
  | nil => exact known
  | cons first rest ih => exact ih (session.step_requests first known)

end Session

/-- After any steps of a session, failed ones included, no other helpers have been asked for than the
four that have snippets, and no translation ends with the error of a helper that has none: what it
prints does not end with the line of that error. -/
theorem unhandled_helper_unreachable (order : Order) (steps : List Session.Step) :
    let session := steps.foldl Session.step (.start order)
    session.ledger.helpers ⊆ ["class","dict","complex","generator"] ∧
    ∀ (job : Job) (helper : String), ¬ (Diagnostic.error (Program.unhandledMessage helper) ++ "\n").toList <:+
        (job.report session).console.out.toList := by
  intro session
  have known : session.ledger.helpers ⊆ requestedHelpers := Session.steps_request steps (List.nil_subset _)
  refine ⟨known,fun job helper printed => job.report_ends known ?_⟩
  exact Console.lastLetter_of_line printed (Diagnostic.error_ends (Program.unhandledMessage_ends helper))

end LuauCompiler
