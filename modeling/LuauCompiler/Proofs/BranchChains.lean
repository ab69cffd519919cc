import LuauCompiler.Proofs.Stability
import LuauCompiler.Proofs.Statements

/-! Chains of branches. A branch that starts the else part of another one is compiled as a statement of
its own, and then the first line and the last line of that statement are taken away by their positions.
What is left is one statement with an arm for each test. -/
namespace LuauCompiler

structure Arm where
  test : Node
  body : List Node

/-- The node is a branch whose else part holds nothing but a further branch, and so on, up to an else
part that is empty or starts with another statement. -/
inductive BranchChain : Node → Arm → List Arm → List Node → Prop
  | last (ends : orElse.head?.any Node.isBranch = false) :
    BranchChain (.ifStmt test body orElse) ⟨test,body⟩ [] orElse
  | next (further : BranchChain n first rest orElse) :
    BranchChain (.ifStmt test body [n]) ⟨test,body⟩ (first :: rest) orElse

theorem BranchChain.isBranch (chain : BranchChain n first rest orElse) :
    ∃ others, n = .ifStmt first.test first.body others := by
  cases chain <;> exact ⟨_,rfl⟩

namespace Compile

variable {α : Type} {config : Option Config} {s t : State}

variable {body orElse : List Node} {before : List Code} {v : State}

def elseCode (config : Option Config) (orElse : List Node) : Compile (List Code) :=
  if orElse.isEmpty then return [] else return [.line "else",← bodyCode config orElse]

def armEntries (keyword : String) (part : String × Code) : List Code :=
  [.line (keyword ++ " " ++ part.1 ++ " then"),part.2]

/-- The arms behind the first are compiled from one state to another, to a text and a code each. A test
is compiled twice before its body. An expression has the same text both times; of another test the
first text counts. -/
def FurtherArms (config : Option Config) : List Arm → State → List (String × Code) → State → Prop
  | [],s,parts,t => parts = [] ∧ t = s
  | arm :: rest,s,parts,t => ∃ text again code u v w later, Gives (inline (visit config arm.test)) s text u ∧
    Gives (inline (visit config arm.test)) u again v ∧
    (arm.test.isExpression = true → again = text) ∧
    Gives (bodyCode config arm.body) v code w ∧
    FurtherArms config rest w later t ∧ parts = (text,code) :: later

theorem elseCode_aside (orElse : List Node) : Aside (elseCode config orElse) := by
  unfold elseCode
  split
  · exact .pure _
  · exact .bind (bodyCode_aside orElse) fun _ => .pure _

theorem FurtherArms.aside (out : Code) (ran : FurtherArms config arms s parts t) : t.output = s.output ∧
      FurtherArms config arms { s with output := out } parts { t with output := out } := by
  induction arms generalizing s parts with
  | nil =>
    obtain ⟨rfl,rfl⟩ := ran
    exact ⟨rfl,rfl,rfl⟩
  | cons arm rest ih =>
    obtain ⟨text,again,code,u,v,w,later,first,second,same,body,others,rfl⟩ := ran
    obtain ⟨kept,moved⟩ := ih others
    refine ⟨?_,text,again,code,_,_,_,later,(inline_aside _).run out first,
      (inline_aside _).run out second,same,(bodyCode_aside _).run out body,moved,rfl⟩
    rw [kept,(bodyCode_aside _).kept body,(inline_aside _).kept second,(inline_aside _).kept first]

theorem text_of_second_run (expr : e.isExpression = true) (out : s.output = .block before)
    (first : Gives (inline (visit config e)) s text u)
    (second : Gives (inline (visit config e)) u again v) : again = text := by
  obtain ⟨g,repeated⟩ := (Repeats.inline (visit_repeats config e expr)).again s text u (.refl out) first
  obtain ⟨-,rfl⟩ := first.unique (repeated s (.refl out))
  have alike : s.Resembles (s.gaining g) :=
    ⟨rfl,rfl,rfl,before ++ g.entries,by simp [State.gaining,out,Code.append?]⟩
  exact (second.unique (repeated _ alike)).1

def chainEntries (first : String × Code) (others : List (String × Code)) (tail : List Code) :
    List Code :=
  armEntries "if" first ++ others.flatMap (armEntries "elseif") ++ tail ++ [.line "end"]

theorem chainEntries_cut (before : List Code) (first : String × Code) (others : List (String × Code))
    (tail : List Code) :
    ((before ++ chainEntries first others tail).eraseIdx before.length).dropLast =
      before ++ (first.2 :: others.flatMap (armEntries "elseif") ++ tail) :=
  eraseIdx_dropLast before (first.2 :: others.flatMap (armEntries "elseif") ++ tail) _ _

theorem branch_run (run : Gives (visit config (.ifStmt test body orElse)) s a t) :
    ∃ before text code u v, s.output = .block before ∧ v.output = .block before ∧
      Gives (inline (visit config test)) s text u ∧ Gives (bodyCode config body) u code v ∧
      Gives (proceed (otherwiseOf config orElse))
        { v with output := .block (before ++ armEntries "if" (text,code)) } () t := by
  change Gives (branch _ _ _) _ _ _ at run
  rw [branch_proceeds] at run
  obtain ⟨text,u,read,run⟩ := gives_bind.mp run
  obtain ⟨_,w,headed,run⟩ := gives_bind.mp run
  obtain ⟨before,out,rfl⟩ := gives_emit.mp headed
  obtain ⟨_,x,filled,run⟩ := gives_bind.mp run
  obtain ⟨code,y,coded,rfl⟩ := bodyCode_of_block filled rfl
  have kept : u.output = s.output := (inline_aside _).kept read
  have moved := (bodyCode_aside body).run u.output coded
  refine ⟨before,text,code,u,{ y with output := u.output },kept ▸ out,out,read,moved,?_⟩
  simpa [armEntries] using run

theorem proceed_orElse (ends : orElse.head?.any Node.isBranch = false)
    (run : Gives (proceed (otherwiseOf config orElse)) { v with output := .block written } () t) :
    ∃ tail x, Gives (elseCode config orElse) v tail x ∧
      t = { x with output := .block (written ++ tail ++ [.line "end"]) } := by
  cases orElse with
  | nil =>
    obtain ⟨_,same,rfl⟩ := gives_emit.mp run
    cases same
    exact ⟨[],v,gives_pure.mpr ⟨rfl,rfl⟩,by simp⟩
  | cons m ms =>
    have plain : testOf config m = none := by
      cases m with
      | ifStmt => cases ends
      | _ => rfl
    have chosen : otherwiseOf config (m :: ms) = .orElse (visits config (m :: ms)) := by
      rw [otherwiseOf,plain]
      rfl
    rw [chosen] at run
    obtain ⟨_,w,opened,run⟩ := gives_bind.mp run
    obtain ⟨_,same,rfl⟩ := gives_emit.mp opened
    cases same
    obtain ⟨_,x,filled,run⟩ := gives_bind.mp run
    obtain ⟨code,y,coded,rfl⟩ := bodyCode_of_block filled rfl
    obtain ⟨_,same,rfl⟩ := gives_emit.mp run
    cases same
    have moved := (bodyCode_aside (m :: ms)).run v.output coded
    refine ⟨[.line "else",code],_,gives_bind.mpr ⟨code,_,moved,gives_pure.mpr ⟨rfl,rfl⟩⟩,?_⟩
    simp

theorem proceed_branch (run : Gives (proceed (otherwiseOf config [.ifStmt test body others]))
      { v with output := .block written } () t) :
    ∃ text w z front entries, Gives (inline (visit config test)) v text w ∧
      front = written ++ [.line ("elseif " ++ text ++ " then")] ∧
      Gives (visit config (.ifStmt test body others)) { w with output := .block front } () z ∧
      z.output = .block entries ∧
      t = { z with output := .block ((entries.eraseIdx front.length).dropLast ++ [.line "end"]) } := by
  change Gives (do
    emit ("elseif " ++ (← inline (visit config test)) ++ " then")
    withoutEnds (visit config (.ifStmt test body others))
    emit "end") _ _ _ at run
  obtain ⟨text,w,said,run⟩ := gives_bind.mp run
  obtain ⟨_,x,opened,run⟩ := gives_bind.mp run
  obtain ⟨_,same,rfl⟩ := gives_emit.mp opened
  have still : w.output = _ := (inline_aside _).kept said
  cases same.symm.trans still
  obtain ⟨_,y,cut,run⟩ := gives_bind.mp run
  obtain ⟨z,inner,entries,filled,rfl⟩ := withoutEnds_run cut rfl
  obtain ⟨_,same,rfl⟩ := gives_emit.mp run
  cases same
  have said' := (inline_aside _).run v.output said
  exact ⟨text,_,z,_,entries,said',rfl,inner,filled,rfl⟩

/-- A chain of branches whose compilation succeeds adds one statement to the code: the line of the first
test and the code of its body, a line and a code for each further arm, the else part if there is one,
and a single end. The texts and codes are those that the tests and the bodies have when they are compiled
one after the other, and nothing that was there before has changed. -/
theorem branch_chain_code {n : Node} {first : Arm} {rest : List Arm} {orElse : List Node}
    (chain : BranchChain n first rest orElse) (run : Gives (visit config n) s () t) :
    ∃ before text code others tail u v w x, s.output = .block before ∧
      Gives (inline (visit config first.test)) s text u ∧ Gives (bodyCode config first.body) u code v ∧
      FurtherArms config rest v others w ∧ Gives (elseCode config orElse) w tail x ∧
      t = { x with output := .block (before ++ chainEntries (text,code) others tail) } := by
  induction chain generalizing s t with
  | last ends =>
    obtain ⟨before,text,code,u,v,out,_,read,coded,run⟩ := branch_run run
    obtain ⟨tail,x,ended,rfl⟩ := proceed_orElse ends run
    exact ⟨before,text,code,[],tail,u,v,v,x,out,read,coded,⟨rfl,rfl⟩,ended,by simp [chainEntries]⟩
  | @next test n body orElse first rest further ih =>
    obtain ⟨before,text,code,u,v,out,kept,read,coded,run⟩ := branch_run run
    obtain ⟨others,rfl⟩ := further.isBranch
    obtain ⟨word,w,z,front,entries,said,rfl,inner,filled,rfl⟩ := proceed_branch run
    obtain ⟨_,again,code',others',tail,u',v',w',x',same,reread,coded',ran,ended,rfl⟩ := ih inner
    cases same
    cases filled
    have reread' := (inline_aside _).run w.output reread
    refine ⟨before,text,code,(word,code') :: others',tail,u,v,_,_,out,read,coded,
      ⟨word,again,code',w,_,_,others',said,reread',fun expr => ?_,
        (bodyCode_aside _).run w.output coded',(ran.aside w.output).2,rfl⟩,
      (elseCode_aside _).run w.output ended,?_⟩
    · exact text_of_second_run expr kept said reread'
    · rw [chainEntries_cut]
      simp [chainEntries,armEntries]

def threeWay : Node := .ifStmt (.name (some "a") .absent) [.breakStmt]
    [.ifStmt (.name (some "b") .absent) [.pass] [.continueStmt]]

theorem threeWay_code :
    let s := State.initial .empty
    let t := (visit none threeWay s).2
    let first : Arm := ⟨.name (some "a") .absent,[.breakStmt]⟩
    let second : Arm := ⟨.name (some "b") .absent,[.pass]⟩
    BranchChain threeWay first [second] [.continueStmt] ∧ Gives (visit none threeWay) s () t ∧
      ∃ before text code others tail u v w x, s.output = .block before ∧
        Gives (inline (visit none first.test)) s text u ∧ Gives (bodyCode none first.body) u code v ∧
        FurtherArms none [second] v others w ∧ Gives (elseCode none [.continueStmt]) w tail x ∧
        t = { x with output := .block (before ++ chainEntries (text,code) others tail) } := by
  intro s t first second
  have chain : BranchChain threeWay first [second] [.continueStmt] := .next (.last rfl)
  have run : Gives (visit none threeWay) s () t := gives_of_isOk (by decide +kernel)
  exact ⟨chain,run,branch_chain_code chain run⟩

end Compile

end LuauCompiler
