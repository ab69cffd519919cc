import LuauCompiler.Proofs.LoopForms
import LuauCompiler.Proofs.LostStatements
import LuauCompiler.Proofs.ReservedNames

/-! An account of the statements that are compiled. A statement leaves its own mark: a loop is counted,
an exported name and a function are recorded, and a definition is headed by a line with its name. What
a whole tree leaves is the account of its statements in the order of the source. -/
namespace LuauCompiler

mutual

/-- The statements that are compiled inside of a statement under the class `c`, in the order of the
source, each with the class where it stands. -/
def Node.standing (c : String) : Node → List (String × Node)
  | .functionDef false _ _ body _ _ _ => rowStanding "" body
  | .classDef own _ _ body _ => rowStanding (own.getD "") body
  | .forStmt false _ _ body _ _ | .whileStmt _ body _ | .withStmt _ _ body _ => rowStanding c body
  | .ifStmt _ body orElse => rowStanding c body ++ otherwiseStanding c orElse
  | .matchStmt _ cases => casesStanding c cases
  | .tryStmt false body handlers _ finalBody =>
    rowStanding c body ++ (handlersStanding c handlers ++ rowStanding c finalBody)
  | _ => []

def rowStanding (c : String) : List Node → List (String × Node)
  | [] => []
  | n :: rest => (c,n) :: n.standing c ++ rowStanding c rest

/-- An else part that goes on testing is compiled up to its first statement. -/
def otherwiseStanding (c : String) : List Node → List (String × Node)
  | [] => []
  | n :: rest => (c,n) :: n.standing c ++ if n.isBranch then [] else rowStanding c rest

def Node.caseStanding (c : String) : Node → List (String × Node)
  | .matchCase _ _ body => rowStanding c body
  | _ => []

def casesStanding (c : String) : List Node → List (String × Node)
  | [] => []
  | n :: rest => n.caseStanding c ++ casesStanding c rest

def Node.handlerStanding (c : String) : Node → List (String × Node)
  | .handler _ _ body => rowStanding c body
  | _ => []

def handlersStanding (c : String) : List Node → List (String × Node)
  | [] => []
  | n :: rest => n.handlerStanding c ++ handlersStanding c rest

end

theorem otherwiseStanding_eq (c : String) (ns : List Node) :
    otherwiseStanding c ns = rowStanding c (Node.compiledOtherwise ns) := by
  cases ns with
  | nil => rfl
  | cons n rest =>
    rw [otherwiseStanding,Node.compiledOtherwise]
    split <;> simp [rowStanding]

theorem casesStanding_eq (c : String) (ns : List Node) :
    casesStanding c ns = (ns.filterMap Node.caseBody?).flatMap (rowStanding c) := by
  induction ns with
  | nil => rfl
  | cons n rest ih =>
    cases n with
    | matchCase => exact congrArg (_ ++ ·) ih
    | _ => exact ih

theorem handlersStanding_eq (c : String) (ns : List Node) :
    handlersStanding c ns = (ns.filterMap Node.handlerBody?).flatMap (rowStanding c) := by
  induction ns with
  | nil => rfl
  | cons n rest ih =>
    cases n with
    | handler => exact congrArg (_ ++ ·) ih
    | _ => exact ih

theorem standing_eq (c : String) (n : Node) :
    n.standing c = (n.bodies c).flatMap fun part => rowStanding part.1 part.2 := by
  unfold Node.standing Node.bodies
  split <;> simp [otherwiseStanding_eq,casesStanding_eq,handlersStanding_eq,List.flatMap_map]

theorem rowStanding_eq (c : String) (ns : List Node) :
    rowStanding c ns = ns.flatMap fun n => (c,n) :: n.standing c := by
  induction ns with
  | nil => rfl
  | cons n rest ih => rw [rowStanding,ih,List.flatMap_cons]

theorem mem_rowStanding : (d,n) ∈ rowStanding c ns ↔ Stands c ns d n := by
  have single {c d : String} {m n : Node} (inside : (d,m) ∈ (c,n) :: n.standing c) : Stands c [n] d m := by
    induction size : sizeOf n using Nat.strongRecOn generalizing c n with
    | ind k ih =>
      subst size
      rcases List.mem_cons.mp inside with same | inside
      · cases same
        exact .here (by simp)
      · rw [standing_eq,List.mem_flatMap] at inside
        obtain ⟨⟨e,body⟩,part,inside⟩ := inside
        rw [rowStanding_eq,List.mem_flatMap] at inside
        obtain ⟨first,member,inside⟩ := inside
        have compiled : first ∈ compiledParts none n := compiled_of_bodies part member
        exact .inside List.mem_cons_self part
          ((ih _ (smaller_of_part compiled) inside rfl).mono (by simpa using member))
  constructor
  · intro inside
    rw [rowStanding_eq,List.mem_flatMap] at inside
    obtain ⟨first,member,inside⟩ := inside
    exact (single inside).mono (by simpa using member)
  · intro stands
    induction stands with
    | here member =>
      rw [rowStanding_eq,List.mem_flatMap]
      exact ⟨_,member,List.mem_cons_self⟩
    | inside member part _ ih =>
      rw [rowStanding_eq,List.mem_flatMap]
      refine ⟨_,member,List.mem_cons_of_mem _ ?_⟩
      rw [standing_eq,List.mem_flatMap]
      exact ⟨_,part,ih⟩

theorem areStatements_of_standing (own : ∀ p ∈ rowStanding "" ns, p.2.IsStatement) :
    AreStatements ns := by
  intro c d n stands
  obtain ⟨_,stands⟩ := stands.change ""
  exact own _ (mem_rowStanding.mpr stands)

/-- The name of a definition in a class, or outside of all classes. -/
def memberName (owner name : String) : String := if owner = "" then name else owner ++ "." ++ name

/-- The line that starts a definition, with the class where it stands and its name. -/
inductive Heading where
  | ofAssign (owner name : String)
  | ofFunction (owner name : String)
  | ofClass (owner name : String)
  deriving DecidableEq, Repr

/-- What introduces a name: nothing is local to a class. -/
def Introducing (owner keyword : String) : Prop := keyword = "" ∨ keyword = "local " ∧ owner = ""

/-- The line defines the name of the heading. -/
def Heading.Heads : Heading → String → Prop
  | .ofAssign owner name,line => ∃ keyword text, Introducing owner keyword ∧
    line = keyword ++ memberName owner name ++ " = " ++ text
  | .ofFunction owner name,line => ∃ keyword names, Introducing owner keyword ∧
    line = keyword ++ " function " ++ memberName owner name ++ "(" ++ names ++ ")"
  | .ofClass owner name,line => ∃ keyword, Introducing owner keyword ∧
    line = keyword ++ memberName owner name ++ " = class(function(" ++ name ++ ")"

abbrev FunctionHead : Type := Option String × List (Option String)

def FunctionRecord.head (record : FunctionRecord) : FunctionHead := (record.name,record.params)

namespace Node

def isLoop : Node → Bool
  | .forStmt false .. | .whileStmt .. => true
  | _ => false

def exportedNames : Node → List String
  | .global names => names
  | _ => []

def functionHead? : Node → Option FunctionHead
  | .functionDef false own ps _ _ _ _ => some (own,(Compile.paramNames ps).toOption.getD [])
  | _ => none

def heading? (owner : String) : Node → Option Heading
  | .assign (.name (some own) _ :: _) _ _ => some (.ofAssign owner own)
  | .functionDef false (some own) _ _ _ _ _ => some (.ofFunction owner own)
  | .classDef (some own) _ _ _ _ => some (.ofClass owner own)
  | _ => none

end Node

/-- What statements leave behind. -/
@[ext] structure Account where
  loops : Nat
  exports : List String
  functions : List FunctionHead
  headings : List Heading

namespace Account

instance : Append Account := ⟨fun a b => ⟨a.loops + b.loops,a.exports ++ b.exports,a.functions ++ b.functions,
    a.headings ++ b.headings⟩⟩

def empty : Account := ⟨0,[],[],[]⟩

def of (ds : List (String × Node)) : Account :=
  ⟨(ds.filter (·.2.isLoop)).length,ds.flatMap (·.2.exportedNames),
    ds.filterMap (·.2.functionHead?),ds.filterMap fun p => p.2.heading? p.1⟩

variable {a b c : Account} {ds es : List (String × Node)}

@[simp] theorem loops_append : (a ++ b).loops = a.loops + b.loops := rfl

@[simp] theorem exports_append : (a ++ b).exports = a.exports ++ b.exports := rfl

@[simp] theorem functions_append : (a ++ b).functions = a.functions ++ b.functions := rfl

@[simp] theorem headings_append : (a ++ b).headings = a.headings ++ b.headings := rfl

@[simp] theorem empty_append : empty ++ a = a := by
  ext1 <;> simp [empty]

@[simp] theorem append_empty : a ++ empty = a := by
  ext1 <;> simp [empty]

theorem append_assoc : a ++ b ++ c = a ++ (b ++ c) := by
  ext1 <;> simp [Nat.add_assoc]

@[simp] theorem of_nil : of [] = empty := rfl

theorem of_append : of (ds ++ es) = of ds ++ of es := by
  ext1 <;> simp [of]

theorem of_cons (p : String × Node) : of (p :: ds) = of [p] ++ of ds := by
  rw [← of_append,List.singleton_append]

end Account

section

variable {code : List Code} {hs : List Heading}

/-- The headings are among the lines, in this order. -/
def Shows (hs : List Heading) (code : List Code) : Prop :=
  ∃ lines, lines.Sublist (Code.lineTexts code) ∧ List.Forall₂ Heading.Heads hs lines

theorem shows_nil : Shows [] code := ⟨[],List.nil_sublist _,.nil⟩

theorem Shows.append (first : Shows hs code) (second : Shows gs rest) : Shows (hs ++ gs) (code ++ rest) := by
  obtain ⟨lines,inside,heads⟩ := first
  obtain ⟨more,within,others⟩ := second
  exact ⟨lines ++ more,by simpa using inside.append within,List.rel_append heads others⟩

theorem Shows.mono (shows : Shows hs code)
    (kept : (Code.lineTexts code).Sublist (Code.lineTexts rest)) : Shows hs rest := by
  obtain ⟨lines,inside,heads⟩ := shows
  exact ⟨lines,inside.trans kept,heads⟩

end

namespace Compile

variable {α β : Type} {d : String} {s t : State}

/-- Nothing is added to the account but what the output shows. -/
structure Unbooked (s t : State) : Prop where
  frames : t.frames = s.frames
  loops : t.ledger.loops = s.ledger.loops
  exports : t.ledger.exports = s.ledger.exports
  functions : t.functions.map FunctionRecord.head = s.functions.map FunctionRecord.head

instance : Calm Unbooked where
  refl _ := ⟨rfl,rfl,rfl,rfl⟩
  trans a b := ⟨b.frames.trans a.frames,b.loops.trans a.loops,b.exports.trans a.exports,
    b.functions.trans a.functions⟩
  frames a := a.frames
  aside _ _ _ := ⟨rfl,rfl,rfl,rfl⟩
  need _ _ := ⟨rfl,rfl,rfl,rfl⟩

theorem Quiet.unbooked (quiet : Quiet s t) : Unbooked s t :=
  ⟨quiet.frames,quiet.loops,quiet.exports,by rw [quiet.functions]⟩

structure Booked (before : List Code) (start : State) (a : Account) (s : State) : Prop where
  frames : s.frames = start.frames
  loops : s.ledger.loops = start.ledger.loops + a.loops
  exports : s.ledger.exports = start.ledger.exports ++ a.exports
  functions : s.functions.map FunctionRecord.head = start.functions.map FunctionRecord.head ++ a.functions
  code : ∃ more, s.output = .block (before ++ more) ∧ Shows a.headings more

theorem booked_start (out : s.output = .block before) : Booked before s .empty s :=
  ⟨rfl,rfl,by simp [Account.empty],by simp [Account.empty],[],by simp [out],shows_nil⟩

/-- Under the class `d` the step adds the account. -/
def Books (d : String) (a : Account) (c : Compile α) : Prop :=
  ∀ before start earlier s x t, start.frames.top.className = d → IsOpen before →
    Booked before start earlier s → Gives c s x t → Booked before start (earlier ++ a) t

namespace Books

variable {a b : Account} {c : Compile α} {g : α → Compile β}

variable {change : State → State}

theorem bind (first : Books d a c) (rest : ∀ x, (∃ u v, Gives c u x v) → Books d b (g x)) :
    Books d (a ++ b) (c >>= g) := by
  intro before start earlier s y t under isOpen booked run
  obtain ⟨x,u,ran,later⟩ := gives_bind.mp run
  rw [← Account.append_assoc]
  exact rest x ⟨s,u,ran⟩ before start _ u y t under isOpen
    (first before start earlier s x u under isOpen booked ran) later

theorem given (first : Books d .empty c) (rest : ∀ x, (∃ u v, Gives c u x v) → Books d a (g x)) :
    Books d a (c >>= g) := by
  simpa using first.bind rest

theorem after (first : Books d .empty c) (rest : ∀ x, Books d a (g x)) : Books d a (c >>= g) :=
  first.given fun x _ => rest x

theorem ahead (first : Books d a c) (rest : ∀ x, Books d .empty (g x)) : Books d a (c >>= g) := by
  simpa using first.bind fun x _ => rest x

theorem ask {g : State → Compile β} (rest : ∀ s, Books d a (g s)) : Books d a (get >>= g) :=
  fun before start earlier s y t under isOpen booked run =>
    rest s before start earlier s y t under isOpen booked run

theorem frame {g : Frame → Compile β} (rest : ∀ top : Frame, top.className = d → Books d a (g top)) :
    Books d a (Compile.frame >>= g) :=
  fun before start earlier s y t under isOpen booked run =>
    rest s.frames.top (by rw [booked.frames,under]) before start earlier s y t under isOpen booked run

theorem ite [Decidable p] (yes : p → Books d a c) (no : ¬p → Books d a e) :
    Books d a (if p then c else e) := by
  split <;> rename_i h
  · exact yes h
  · exact no h

theorem stops (never : ∀ s x t, ¬ Gives c s x t) : Books d a c :=
  fun _ _ _ s x t _ _ _ run => (never s x t run).elim

theorem aside (same : ∀ s x t, Gives c s x t → Unbooked s t ∧ t.output = s.output) : Books d .empty c := by
  intro before start earlier s x t _ _ booked run
  obtain ⟨still,out⟩ := same s x t run
  rw [Account.append_empty]
  exact ⟨still.frames.trans booked.frames,still.loops.trans booked.loops,
    still.exports.trans booked.exports,still.functions.trans booked.functions,by
      rw [out]; exact booked.code⟩

theorem pure (x : α) : Books d .empty (Pure.pure x) := aside fun s _ _ run => by
    obtain ⟨-,rfl⟩ := gives_pure.mp run
    exact ⟨Calm.refl _,rfl⟩

theorem ofExcept (e : Except Failure α) : Books d .empty (Compile.ofExcept e) := aside fun s _ _ run => by
    obtain ⟨-,rfl⟩ := gives_ofExcept.mp run
    exact ⟨Calm.refl _,rfl⟩

theorem tells (step : Tells Quiet (fun _ => True) P c) : Books d .empty c := aside fun s x t run => by
    obtain ⟨quiet,out,-⟩ := step.run s x t trivial run
    exact ⟨quiet.unbooked,out⟩

theorem inline (expr : IsExpr n) : Books d .empty (Compile.inline (Compile.visit config n)) :=
  tells (expr_speaks expr).text

theorem inlineEach (exprs : ∀ e ∈ ns, IsExpr e) : Books d .empty (Compile.inlineEach (visits config ns)) :=
  tells (inlineEach_tells (texts_of_visits fun e member => expr_speaks (exprs e member)))

theorem introduce (name : Option String) : Books d .empty (Compile.introduce name) :=
  aside fun s keyword t run => by
    rcases gives_introduce.mp run with ⟨-,-,rfl⟩ | ⟨-,-,locals,-,rfl⟩ <;>
      exact ⟨⟨rfl,rfl,rfl,rfl⟩,rfl⟩

theorem emitEntries (shown : Shows hs entries) : Books d ⟨0,[],[],hs⟩ (Compile.emitEntries entries) := by
  intro before start earlier s x t _ _ booked run
  obtain ⟨more,out,showing⟩ := booked.code
  obtain ⟨all,read,rfl⟩ := gives_emitEntries.mp run
  obtain rfl := Code.block.inj (out.symm.trans read)
  exact ⟨booked.frames,booked.loops,by simpa using booked.exports,by simpa using booked.functions,
    more ++ entries,by simp,showing.append shown⟩

theorem emit (text : String) : Books d .empty (Compile.emit text) := emitEntries shows_nil

theorem heads (heads : h.Heads text) : Books d ⟨0,[],[],[h]⟩ (Compile.emit text) :=
  emitEntries ⟨[text],by simp [Code.lineTexts,Code.lines,Code.linesIn],.cons heads .nil⟩

theorem editLast {change : List Code → List Code}
    (kept : ∀ body, (Code.lineTexts body).Sublist (Code.lineTexts (change body))) :
    Books d .empty (Compile.editLast change) := by
  intro before start earlier s x t _ isOpen booked run
  obtain ⟨more,out,shows⟩ := booked.code
  obtain ⟨others,body,rfl,rfl⟩ := editLast_behind isOpen out run
  rw [Account.append_empty]
  refine ⟨booked.frames,booked.loops,booked.exports,booked.functions,_,rfl,shows.mono ?_⟩
  simpa using kept body

theorem prepend (text : String) : Books d .empty (Compile.prepend text) :=
  editLast fun body => by simp [Code.lineTexts_cons]

theorem within {change : Frame → Frame}
    (under : ∀ f : Frame, f.className = d → (change f).className = e) (step : Books e a c) :
    Books d a (Compile.within change c) := by
  intro before start earlier s x t outside isOpen booked run
  obtain ⟨u,frames,inner,popped,rfl⟩ := gives_within.mp run
  have inside := step before { start with frames := start.frames.push change } earlier
    { s with frames := s.frames.push change } x u (under _ outside) isOpen
    ⟨by rw [booked.frames],booked.loops,booked.exports,booked.functions,booked.code⟩ inner
  obtain rfl : start.frames = frames := by
    simpa [inside.frames,Frames.push,Frames.pop?] using popped
  exact ⟨rfl,inside.loops,inside.exports,inside.functions,inside.code⟩

theorem records (frames : ∀ s, (change s).frames = s.frames)
    (loops : ∀ s, (change s).ledger.loops = s.ledger.loops + a.loops)
    (exports : ∀ s, (change s).ledger.exports = s.ledger.exports ++ a.exports)
    (functions : ∀ s, (change s).functions.map FunctionRecord.head =
      s.functions.map FunctionRecord.head ++ a.functions)
    (output : ∀ s, (change s).output = s.output) (none : a.headings = []) :
    Books d a (Compile.update change) := by
  intro before start earlier s x t _ _ booked run
  obtain rfl := gives_update.mp run
  refine ⟨by rw [frames,booked.frames],by rw [loops,booked.loops,Account.loops_append,Nat.add_assoc],
    by rw [exports,booked.exports,Account.exports_append,List.append_assoc],
    by rw [functions,booked.functions,Account.functions_append,List.append_assoc],?_⟩
  rw [output,Account.headings_append,none,List.append_nil]
  exact booked.code

theorem update (still : ∀ s, Unbooked s (change s)) (output : ∀ s, (change s).output = s.output) :
    Books d .empty (Compile.update change) :=
  aside fun s _ _ run => by
    obtain rfl := gives_update.mp run
    exact ⟨still s,output s⟩

theorem needs (helper : String) : Books d .empty (Compile.needs helper) :=
  update (fun _ => ⟨rfl,rfl,rfl,rfl⟩) fun _ => rfl

end Books

end Compile

end LuauCompiler
