import LuauCompiler.Proofs.FunctionShapes
import LuauCompiler.Proofs.TextLiterals

/-! Cases of a match over constants. A case becomes an arm that compares the subject with a literal,
which is written in a way of its own. -/
namespace LuauCompiler

structure ConstantCase where
  constant : Constant
  kind : Option String
  guard : Node
  body : List Node

def ConstantCase.node (c : ConstantCase) : Node :=
  .matchCase (.matchValue (.constant c.constant c.kind)) c.guard c.body

/-- What becomes of a case: the two sides of its comparison, the text that the constant has as an
expression, and the code of the body. -/
structure CaseCode where
  subject : String
  literal : String
  usual : String
  code : Code

def CaseCode.arm (p : CaseCode) : String × Code := (p.subject ++ " == " ++ p.literal,p.code)

/-- The comparison is with the usual text, and the guard has its say. -/
def CaseCode.Keeps (p : CaseCode) (guard : Node) : Prop :=
  ∃ condition, p.arm.1 = p.subject ++ " == " ++ p.usual ++ if guard.isAbsent then "" else " and " ++ condition

def Constant.isComparable : Constant → Bool
  | .str _ | .int _ | .float _ => true
  | _ => false

/-- A number, or a text that needs nothing but double quotes around it. -/
def Constant.IsOwnLiteral (asComment : Bool) : Constant → Prop
  | .str text => asComment = false ∧ Text.apostrophe ∈ text.toList ∧
    ∀ c ∈ text.toList, c ≠ Text.doubleQuote ∧ c ≠ '\\' ∧ Text.isPrintable c = true
  | _ => True

namespace Compile

/-- The cases are compiled one after the other, the subject anew for each of them. -/
inductive CaseCodes (config : Option Config) (subject : Node) :
    State → List ConstantCase → List CaseCode → State → Prop
  | nil {s : State} : CaseCodes config subject s [] [] s
  | cons {s t u v : State} {c : ConstantCase} (read : Gives (inline (visit config subject)) s text t)
    (written : caseLiteral c.constant = .ok literal)
    (stated : Gives (inline (visit config (.constant c.constant c.kind))) t usual t)
    (coded : Gives (bodyCode config c.body) t code u) (rest : CaseCodes config subject u cs parts v) :
    CaseCodes config subject s (c :: cs) (⟨text,literal,usual,code⟩ :: parts) v

variable {config : Option Config} {s t : State}

theorem constant_stated (config : Option Config) (known : c.isComparable = true)
    (written : caseLiteral c = .ok literal) :
    ∃ usual, Gives (inline (visit config (.constant c kind))) s usual s ∧
      literal.length ≤ usual.length ∧ (literal = usual ↔ c.IsOwnLiteral s.frames.top.docstring) := by
  have single (text : String) (run : Gives (constant c) { s with output := .block [] } ()
      { s with output := .block [.line text] }) : Gives (inline (visit config (.constant c kind))) s text s :=
    gives_inline.mpr ⟨_,[text],run,rfl,by simp,rfl⟩
  cases c with
  | str text =>
    cases written
    have wrapped : ("\"" ++ text ++ "\"").length = text.length + 2 := by
      have one : "\"".length = 1 := by decide
      rw [String.length_append,String.length_append,one]
      omega
    cases mode : s.frames.top.docstring with
    | true =>
      have longer : 5 + text.length < ("--[[ " ++ text ++ " ]]").length := by
        have ends : "--[[ ".length = 5 ∧ " ]]".length = 3 := by decide
        rw [String.length_append,String.length_append,ends.1,ends.2]
        omega
      refine ⟨_,single ("--[[ " ++ text ++ " ]]") ?_,by omega,iff_of_false (fun same => ?_) fun own => ?_⟩
      · change Gives (textConstant text) _ () _
        rw [textConstant,gives_frame_bind,if_pos mode]
        exact gives_emit.mpr ⟨[],rfl,rfl⟩
      · have sizes := congrArg String.length same
        omega
      · exact absurd own.1 (by decide)
    | false =>
      have longer := Text.length_quote text
      refine ⟨_,single (Text.quote text) ?_,by omega,?_⟩
      · change Gives (textConstant text) _ () _
        rw [textConstant,gives_frame_bind,if_neg (by simp [mode])]
        exact gives_emit.mpr ⟨[],rfl,rfl⟩
      · rw [eq_comm,Text.quote_eq_iff]
        simp [Constant.IsOwnLiteral]
  | int | float =>
    refine ⟨literal,single _ ?_,Nat.le_refl _,iff_of_true rfl trivial⟩
    change Gives (do emit (← ofExcept _)) _ () _
    exact gives_ofExcept_bind.mpr ⟨_,written,gives_emit.mpr ⟨[],rfl,rfl⟩⟩
  | _ => cases known

theorem keeps_iff (shorter : literal.length ≤ usual.length) (guard : Node) :
    CaseCode.Keeps ⟨text,literal,usual,code⟩ guard ↔ guard.isAbsent = true ∧ literal = usual := by
  have parts (rest : String) :
      text ++ " == " ++ literal = text ++ " == " ++ usual ++ rest ↔ literal = usual ++ rest := by
    have grouped : text ++ " == " ++ usual ++ rest = text ++ " == " ++ (usual ++ rest) := String.append_assoc
    rw [grouped,String.append_right_inj]
  simp only [CaseCode.Keeps,CaseCode.arm,parts]
  cases guard.isAbsent with
  | true => simp
  | false =>
    refine iff_of_false (fun ⟨condition,same⟩ => ?_) fun both => absurd both.1 (by decide)
    have sizes := congrArg String.length same
    have word : " and ".length = 5 := by decide
    simp only [Bool.false_eq_true,if_false,String.length_append,word] at sizes
    omega

variable {subject : Node} {c : ConstantCase}

theorem CaseCodes.aside (out : Code) (codes : CaseCodes config subject s cs parts t) :
    CaseCodes config subject { s with output := out } cs parts { t with output := out } := by
  induction codes with
  | nil => exact .nil
  | cons read written stated coded _ ih =>
    exact .cons ((inline_aside _).run out read) written ((inline_aside _).run out stated)
      ((bodyCode_aside _).run out coded) ih

theorem matchCase_run (known : c.constant.isComparable = true)
    (run : Gives (matchCase (visit config subject) isFirst (caseOf config c.node)) s a t) :
    ∃ before p u, s.output = .block before ∧ (∀ {cs parts v}, CaseCodes config subject u cs parts v →
      CaseCodes config subject s (c :: cs) (p :: parts) v) ∧
    (p.Keeps c.guard ↔ c.guard.isAbsent = true ∧ c.constant.IsOwnLiteral s.frames.top.docstring) ∧
    u.frames = s.frames ∧ u.output = s.output ∧
    t = { u with output := .block (before ++ armEntries (if isFirst then "if" else "elseif") p.arm) } := by
  obtain ⟨text,u,read,run⟩ := gives_bind.mp run
  obtain ⟨literal,written,run⟩ := gives_ofExcept_bind.mp run
  obtain ⟨_,v,headed,run⟩ := gives_bind.mp run
  have kept : u.output = s.output := (inline_aside _).kept read
  obtain ⟨before,same,rfl⟩ := gives_emit.mp headed
  have framed : u.frames = s.frames := ((inline_built (visit_built config subject)).follows stackLaw).kept read
    |>.frames
  have still : t.frames = u.frames := ((block_built (visits_built config c.body)).follows stackLaw).kept run
    |>.frames
  obtain ⟨code,w,coded,rfl⟩ := bodyCode_of_block run rfl
  obtain ⟨usual,stated,shorter,equal⟩ := constant_stated (s := u) config known written
  refine ⟨before,⟨text,literal,usual,code⟩,{ w with output := u.output },kept ▸ same,fun rest => ?_,?_,
    still.trans framed,kept,?_⟩
  · exact .cons read written stated ((bodyCode_aside _).back coded) rest
  · rw [keeps_iff shorter,equal,framed]
  · cases isFirst <;> simp [armEntries,CaseCode.arm,← String.append_assoc]

theorem matchCases_run {cs : List ConstantCase} (known : ∀ c ∈ cs, c.constant.isComparable = true)
    (out : s.output = .block before)
    (run : Gives (matchCases (visit config subject) false (casesOf config (cs.map (·.node)))) s a t) :
    ∃ parts u, CaseCodes config subject s cs parts u ∧ u.output = s.output ∧
      List.Forall₂ (fun c p => CaseCode.Keeps p c.guard ↔
        c.guard.isAbsent = true ∧ c.constant.IsOwnLiteral s.frames.top.docstring) cs parts ∧
      t = { u with output := .block (before ++ (parts.map (·.arm)).flatMap (armEntries "elseif")) } := by
  induction cs generalizing s before with
  | nil =>
    obtain ⟨-,rfl⟩ := gives_pure.mp run
    exact ⟨[],_,.nil,rfl,.nil,by simp [← out]⟩
  | cons c cs ih =>
    obtain ⟨_,v,first,run⟩ := gives_bind.mp run
    obtain ⟨_,p,w,same,front,kept,framed,still,rfl⟩ := matchCase_run (known c (by simp)) first
    cases out.symm.trans same
    obtain ⟨parts,u,coded,back,others,rfl⟩ := ih (fun c inside => known c (by simp [inside])) rfl run
    refine ⟨p :: parts,{ u with output := w.output },front (coded.aside w.output),still,
      .cons kept (framed ▸ others),by simp⟩

/-- A match over constants that compiles adds one statement with an arm for each case. The constant of a
case has the text that it has elsewhere, and the guard is tested too, exactly if there is no guard and the
constant is a number or a text with an apostrophe, of printable characters, none of them a double quote or
a backslash. -/
theorem match_cases_code {first : ConstantCase} {rest : List ConstantCase}
    (known : ∀ c ∈ first :: rest, c.constant.isComparable = true)
    (run : Gives (visit config (.matchStmt subject ((first :: rest).map (·.node)))) s () t) :
    ∃ before p parts u, s.output = .block before ∧ CaseCodes config subject s (first :: rest) (p :: parts) u ∧
      t = { u with output := .block (before ++ chainEntries p.arm (parts.map (·.arm)) []) } ∧
      List.Forall₂ (fun c p => CaseCode.Keeps p c.guard ↔
        c.guard.isAbsent = true ∧ c.constant.IsOwnLiteral s.frames.top.docstring) (first :: rest) (p :: parts) := by
  obtain ⟨z,ran,run⟩ := gives_unit_bind.mp run
  obtain ⟨_,v,opened,ran⟩ := gives_bind.mp ran
  obtain ⟨before,p,w,out,front,kept,framed,still,rfl⟩ := matchCase_run (known first (by simp)) opened
  obtain ⟨parts,u,coded,-,others,rfl⟩ := matchCases_run (fun c inside => known c (by simp [inside])) rfl ran
  obtain ⟨_,same,rfl⟩ := gives_emit.mp run
  cases same
  exact ⟨before,p,parts,_,out,front (coded.aside w.output),by simp [chainEntries],.cons kept (framed ▸ others)⟩

/-- A number under a guard, and a text with an apostrophe. -/
def guardedCase : ConstantCase := ⟨.int 1,none,.name (some "g") .absent,[.pass]⟩

def ownedCase : ConstantCase := ⟨.str "it's",none,.absent,[.pass]⟩

theorem guardedCase_code :
    let s := State.initial .empty
    let n := Node.matchStmt (.name (some "x") .absent) ([guardedCase,ownedCase].map (·.node))
    Gives (visit none n) s () (visit none n s).2 ∧ ∃ p q u,
      CaseCodes none (.name (some "x") .absent) s [guardedCase,ownedCase] [p,q] u ∧
      (visit none n s).2.output = .block (chainEntries p.arm [q.arm] []) ∧
      ¬ p.Keeps guardedCase.guard ∧ q.Keeps ownedCase.guard := by
  intro s n
  have run : Gives (visit none n) s () (visit none n s).2 := gives_of_isOk (by decide +kernel)
  obtain ⟨_,p,_,u,out,codes,same,kept⟩ := match_cases_code (by decide) run
  cases out
  cases kept with
  | cons first kept =>
    cases kept with
    | cons second none =>
      cases none
      have dropped := first.not.mpr fun both => absurd both.1 (by decide)
      have plain := List.all_eq_true.mp (by decide +kernel : "it's".toList.all fun c =>
        c ≠ Text.doubleQuote ∧ c ≠ '\\' ∧ Text.isPrintable c = true)
      have own := second.mpr ⟨rfl,rfl,by decide,fun c inside => of_decide_eq_true (plain c inside)⟩
      exact ⟨run,p,_,u,codes,congrArg State.output same,dropped,own⟩

theorem guard_dropped :
    (visit none (.matchStmt (.name (some "x") .absent) [guardedCase.node]) (.initial .empty)).2.output =
      .block [.line "if x == 1 then",.block [],.line "end"] := by
  decide +kernel

end Compile

end LuauCompiler
