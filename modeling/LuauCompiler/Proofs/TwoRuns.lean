import LuauCompiler.Program
import LuauCompiler.Proofs.TreeBuilt

/-! Two runs of the same compilation. What the ledger held before has no influence on anything but the
labels of loops, and both runs add the same to it. -/
namespace LuauCompiler

namespace Ledger

/-- The first ledger with the entries of the second one behind its own. -/
def extend (l m : Ledger) : Ledger := ⟨l.helpers ++ m.helpers,l.exports ++ m.exports,l.loops + m.loops⟩

@[simp] theorem extend_empty (l : Ledger) : l.extend .empty = l := by
  simp [extend,empty]

@[simp] theorem empty_extend (l : Ledger) : Ledger.empty.extend l = l := by
  simp [extend,empty]

end Ledger

/-- The states of two runs whose ledgers were the given ones at some point, and have gained the same
since. -/
structure State.Beside (p q : Ledger) (s t : State) : Prop where
  alike : s.Alike t
  gained : ∃ added, s.ledger = p.extend added ∧ t.ledger = q.extend added

theorem State.Beside.withWork {s t : State} (beside : s.Beside p q t) (change : Work → Work) :
    State.Beside p q (s.withWork (change s.work)) (t.withWork (change t.work)) :=
  ⟨⟨congrArg change beside.alike.work,beside.alike.frames,beside.alike.locals,
    beside.alike.globals⟩,beside.gained⟩

theorem State.Beside.withLedger {s t : State} (beside : s.Beside p q t)
    (gained : ∃ added, l = p.extend added ∧ m = q.extend added) :
    State.Beside p q { s with ledger := l } { t with ledger := m } :=
  ⟨⟨beside.alike.work,beside.alike.frames,beside.alike.locals,beside.alike.globals⟩,gained⟩

namespace Frames

theorem unlabelled_push {s t : Frames Frame} (same : s.unlabelled = t.unlabelled)
    {change change' : Frame → Frame}
    (matching : ∀ {f g : Frame}, f.unlabelled = g.unlabelled →
      (change f).unlabelled = (change' g).unlabelled) :
    (s.push change).unlabelled = (t.push change').unlabelled := by
  have top : s.top.unlabelled = t.top.unlabelled := congrArg Frames.top same
  have below : s.below.map Frame.unlabelled = t.below.map Frame.unlabelled := congrArg Frames.below same
  simp only [unlabelled,push,List.map_cons,matching top,top,below]

theorem pop_unlabelled (s : Frames Frame) : s.pop?.map unlabelled = s.unlabelled.pop? := by
  obtain ⟨top,below⟩ := s
  cases below <;> rfl

end Frames

namespace Compile

variable {α : Type} {p q : Ledger} {s t : State}

/-- Two results of a step: the outcomes are the same and the states go on side by side. -/
def Agree (p q : Ledger) (a b : Except Failure α × State) : Prop := a.1 = b.1 ∧ a.2.Beside p q b.2

/-- Runs of the step from states side by side agree. -/
structure Blind (c : Compile α) : Prop where
  run : ∀ {p q : Ledger} {s t : State}, s.Beside p q t → Agree p q (c s) (c t)

namespace Blind

theorem bind (first : Blind c) (rest : ∀ a, Blind (f a)) : Blind (c >>= f) := by
  refine ⟨fun {p q s t} beside => ?_⟩
  have ran := first.run beside
  simp only [Bind.bind]
  revert ran
  cases c s with
  | mk outcome u =>
    cases c t with
    | mk outcome' v =>
      rintro ⟨rfl,beside'⟩
      cases outcome with
      | ok a => exact (rest a).run beside'
      | error e => exact ⟨rfl,beside'⟩

theorem ask (rest : ∀ s, Blind (f s)) (blind : ∀ {s t : State}, s.Alike t → f s = f t) :
    Blind (get >>= f) := by
  refine ⟨fun {p q s t} beside => ?_⟩
  change Agree p q (f s s) (f t t)
  rw [blind beside.alike]
  exact (rest t).run beside

theorem put (change : Work → Work) : Blind (update fun s => s.withWork (change s.work)) := by
  exact ⟨fun beside => ⟨rfl,beside.withWork change⟩⟩

theorem needs (helper : String) : Blind (needs helper) := by
  refine ⟨fun {p q s t} beside => ⟨rfl,beside.withLedger ?_⟩⟩
  obtain ⟨added,left,right⟩ := beside.gained
  refine ⟨added.need helper,?_,?_⟩
  · simp [Ledger.need,Ledger.extend,left]
  · simp [Ledger.need,Ledger.extend,right]

theorem within_agree {c : Compile α} {change change' : Frame → Frame} (step : Blind c)
    (matching : ∀ {f g : Frame}, f.unlabelled = g.unlabelled →
      (change f).unlabelled = (change' g).unlabelled) (beside : s.Beside p q t) :
    Agree p q (within change c s) (within change' c t) := by
  have inner : State.Beside p q { s with frames := s.frames.push change }
      { t with frames := t.frames.push change' } := by
    refine ⟨⟨beside.alike.work,?_,beside.alike.locals,beside.alike.globals⟩,beside.gained⟩
    exact Frames.unlabelled_push beside.alike.frames matching
  have ran := step.run inner
  simp only [within,Bind.bind,update]
  revert ran
  cases c { s with frames := s.frames.push change } with
  | mk outcome u =>
    cases c { t with frames := t.frames.push change' } with
    | mk outcome' v =>
      rintro ⟨rfl,beside'⟩
      cases outcome with
      | error e => exact ⟨rfl,beside'⟩
      | ok a =>
        have popped : u.frames.pop?.map Frames.unlabelled = v.frames.pop?.map Frames.unlabelled := by
          rw [Frames.pop_unlabelled,Frames.pop_unlabelled,beside'.alike.frames]
        simp only [get]
        cases left : u.frames.pop? with
        | none =>
          have right : v.frames.pop? = none := by simpa [left] using popped.symm
          simp only [right]
          exact ⟨rfl,beside'⟩
        | some frames =>
          obtain ⟨frames',right,same⟩ : ∃ frames', v.frames.pop? = some frames' ∧
              frames'.unlabelled = frames.unlabelled := by
            simpa [left] using popped.symm
          simp only [right]
          exact ⟨rfl,⟨beside'.alike.work,same.symm,beside'.alike.locals,beside'.alike.globals⟩,
            beside'.gained⟩

theorem loop {c : Compile α} (step : Blind c) :
    Blind (nextLoop >>= fun label => within (fun f => { f with loopLabel := label }) c) := by
  refine ⟨fun {p q s t} beside => ?_⟩
  refine within_agree step (fun same => same) (beside.withLedger ?_)
  obtain ⟨added,left,right⟩ := beside.gained
  refine ⟨added.addLoop,?_,?_⟩
  · simp [Ledger.addLoop,Ledger.extend,left,Nat.add_assoc]
  · simp [Ledger.addLoop,Ledger.extend,right,Nat.add_assoc]

theorem declare (name : Option String) : Blind (declare name) := by
  refine ⟨fun {p q s t} beside => ?_⟩
  simp only [Compile.declare,Bind.bind,get,beside.alike.locals]
  cases t.locals.add? name with
  | none => exact ⟨rfl,beside⟩
  | some locals =>
    exact ⟨rfl,⟨beside.alike.work,beside.alike.frames,rfl,beside.alike.globals⟩,beside.gained⟩

theorem publish (name : String) : Blind (declareGlobals [name]) := by
  refine ⟨fun {p q s t} beside => ?_⟩
  simp only [declareGlobals,Bind.bind,get,beside.alike.globals]
  cases t.globals.add? name with
  | none => exact ⟨rfl,beside⟩
  | some globals =>
    have published : State.Beside p q { s with globals } { t with globals } :=
      ⟨⟨beside.alike.work,beside.alike.frames,beside.alike.locals,rfl⟩,beside.gained⟩
    refine ⟨rfl,published.withLedger ?_⟩
    obtain ⟨added,left,right⟩ := beside.gained
    refine ⟨{ added with exports := added.exports ++ [name] },?_,?_⟩
    · simp [Ledger.extend,left]
    · simp [Ledger.extend,right]

theorem nested {c : Compile Unit} (step : Blind c) : Blind (nested c) := by
  refine ⟨fun {p q s t} beside => ?_⟩
  have inner : State.Beside p q { s with output := .block [] } { t with output := .block [] } :=
    beside.withWork fun w => { w with output := .block [] }
  have ran := step.run inner
  simp only [Compile.nested]
  revert ran
  cases c { s with output := .block [] } with
  | mk outcome u =>
    cases c { t with output := .block [] } with
    | mk outcome' v =>
      rintro ⟨rfl,beside'⟩
      have left : State.Beside p q { u with output := s.output, current := s.current }
          { v with output := t.output, current := t.current } := by
        rw [beside.alike.output,beside.alike.current]
        exact beside'.withWork fun w => { w with output := t.output, current := t.current }
      cases outcome with
      | ok a => exact ⟨congrArg Except.ok beside'.alike.output,left⟩
      | error e => exact ⟨rfl,left⟩

theorem scope (step : Blind c) : Blind (update State.openBlock >>= fun _ => c >>= fun _ => closeBlock) := by
  have opened : Blind (update State.openBlock) := by
    refine ⟨fun {p q s t} beside => ⟨rfl,⟨?_,beside.gained⟩⟩⟩
    exact ⟨beside.alike.work,beside.alike.frames,congrArg SymbolStack.push beside.alike.locals,
      beside.alike.globals⟩
  have closed : Blind closeBlock := by
    refine ⟨fun {p q s t} beside => ?_⟩
    simp only [closeBlock,Bind.bind,get,beside.alike.locals]
    cases t.locals.pop? with
    | none => exact ⟨rfl,beside⟩
    | some locals =>
      exact ⟨rfl,⟨beside.alike.work,beside.alike.frames,rfl,beside.alike.globals⟩,beside.gained⟩
  exact bind opened fun _ => bind step fun _ => closed

end Blind

theorem Built.blind {c : Compile α} (built : Built c) : Blind c := by
  induction built with
  | pure | fail => exact ⟨fun beside => ⟨rfl,beside⟩⟩
  | @reject message =>
    exact ⟨fun beside => ⟨rfl,beside.withWork fun w =>
      { w with console := w.console.print (Diagnostic.error message) }⟩⟩
  | bind _ _ first rest => exact .bind first rest
  | ask _ blind rest => exact .ask rest blind
  | put change => exact .put change
  | needs => exact .needs _
  | within _ blind step => exact ⟨Blind.within_agree step blind⟩
  | loop _ step => exact .loop step
  | declare name => exact .declare name
  | publish name => exact .publish name
  | nested _ step => exact .nested step
  | scope _ step => exact .scope step

theorem evaluate_built (config : Option Config) (n : Node) : Built (evaluate config n) := by
  have text (pattern : Node) :
      Built (do return some (← inline (visit config pattern)) : Compile (Option String)) :=
    .bind (inline_built (visit_built config pattern)) fun _ => .pure _
  unfold evaluate
  split
  · exact text _
  · exact text _
  · exact text _
  · exact text _
  · exact .bind (visit_built config n) fun _ => .pure none

end Compile

/-- What a session can be asked to translate. -/
inductive Job where
  | program (config : Config) (options : Options) (parsed : Parsed)
  | helperFile (useRequire : Bool)

def Job.report : Job → Session → Report
  | .program config options parsed,session => Program.ofParsed config options session parsed
  | .helperFile useRequire,session => Program.helperFile useRequire session

inductive Request where
  | translate (job : Job)
  /-- The compilation of one node from any state, but with the ledger of the session. -/
  | compile (config : Option Config) (root : Node) (start : State)
  | need (helper : String)
  | reset

namespace Session

def after (session : Session) : Request → Session
  | .translate job => (job.report session).session
  | .compile config root start =>
    { session with
      ledger := (Compile.evaluate config root { start with ledger := session.ledger }).2.ledger }
  | .need helper => session.need helper
  | .reset => session.resetPreamble

def afterAll (session : Session) (requests : List Request) : Session := requests.foldl after session

end Session

namespace Compile

/-- A compilation after any session and the same compilation at the start of one end alike, and add
the same to the ledger. -/
theorem evaluation_ignores_history (order : Order) (requests : List Request) (config : Option Config)
    (root : Node) (start : State) :
    let past := ((Session.start order).afterAll requests).ledger
    let later := evaluate config root { start with ledger := past }
    let first := evaluate config root { start with ledger := .empty }
    later.1 = first.1 ∧ later.2.Alike first.2 ∧ later.2.ledger = past.extend first.2.ledger := by
  intro past later first
  have beside : State.Beside past .empty { start with ledger := past } { start with ledger := .empty } := by
    refine ⟨⟨rfl,rfl,rfl,rfl⟩,.empty,?_,?_⟩ <;> simp
  obtain ⟨same,alike,added,left,right⟩ := (evaluate_built config root).blind.run beside
  refine ⟨same,alike,left.trans ?_⟩
  rw [right,Ledger.empty_extend]

end Compile

end LuauCompiler
