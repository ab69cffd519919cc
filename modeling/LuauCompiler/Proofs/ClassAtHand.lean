import LuauCompiler.Proofs.Emission

/-! The class at hand. The body of a class is compiled under its name, the body of a function under
none, and every other body under the class around it. -/
namespace LuauCompiler

namespace Node

def caseBody? : Node → Option (List Node)
  | .matchCase _ _ body => some body
  | _ => none

def handlerBody? : Node → Option (List Node)
  | .handler _ _ body => some body
  | _ => none

/-- The statements of an else part that are compiled: one that goes on testing is compiled alone. -/
def compiledOtherwise : List Node → List Node
  | n :: rest => if n.isBranch then [n] else n :: rest
  | [] => []

/-- The statements that are compiled for a statement, each row with its class. -/
def bodies (c : String) : Node → List (String × List Node)
  | .functionDef false _ _ body _ _ _ => [("",body)]
  | .classDef own _ _ body _ => [(own.getD "",body)]
  | .forStmt false _ _ body _ _ | .whileStmt _ body _ | .withStmt _ _ body _ => [(c,body)]
  | .ifStmt _ body orElse => [(c,body),(c,compiledOtherwise orElse)]
  | .matchStmt _ cases => (cases.filterMap caseBody?).map (c,·)
  | .tryStmt false body handlers _ finalBody =>
    (c,body) :: (handlers.filterMap handlerBody?).map (c,·) ++ [(c,finalBody)]
  | _ => []

end Node

/-- The turn compiles the row of statements. -/
def Turn.Compiles (body : List Node) : Turn → Prop
  | .block ns | .definition _ _ ns _ => ns = body
  | .here n => [n] = body
  | _ => False

theorem turn_of_bodies (config : Option Config) (part : (d,body) ∈ n.bodies c) : (d = c ∧ body = []) ∨
      (d = (Compile.bodyClass n).getD c ∧ ∃ turn ∈ turns config n, turn.Compiles body) := by
  cases n
  case functionDef isAsync _ _ _ _ _ _ =>
    cases isAsync with
    | true => cases part
    | false => cases List.mem_singleton.mp part; exact .inr ⟨rfl,_,.head _,rfl⟩
  case forStmt isAsync _ _ _ _ _ =>
    cases isAsync with
    | true => cases part
    | false => cases List.mem_singleton.mp part; exact .inr ⟨rfl,.block body,by simp [turns],rfl⟩
  case classDef | whileStmt | withStmt =>
    cases List.mem_singleton.mp part
    exact .inr ⟨rfl,.block body,by simp [turns],rfl⟩
  case ifStmt test row orElse =>
    rcases List.mem_cons.mp part with same | last
    · cases same
      exact .inr ⟨rfl,.block body,by simp [turns],rfl⟩
    · cases List.mem_singleton.mp last
      cases orElse with
      | nil => exact .inl ⟨rfl,rfl⟩
      | cons first rest =>
        cases first with
        | ifStmt => exact .inr ⟨rfl,_,List.mem_append_right _ (.tail _ (.head _)),rfl⟩
        | _ => exact .inr ⟨rfl,_,List.mem_append_right _ (.head _),rfl⟩
  case matchStmt subject cases =>
    obtain ⟨row,inside,same⟩ := List.mem_map.mp part
    cases same
    obtain ⟨n,inside,taken⟩ := List.mem_filterMap.mp inside
    cases n with
    | matchCase pattern guard row =>
      cases taken
      exact .inr ⟨rfl,.block body,List.mem_flatMap.mpr ⟨_,inside,by simp [caseTurns]⟩,rfl⟩
    | _ => cases taken
  case tryStmt isStar row hs orElse finalBody =>
    cases isStar with
    | true => cases part
    | false =>
      simp only [Node.bodies,List.mem_append,List.mem_cons,List.mem_map,List.mem_filterMap] at part
      rcases part with (same | ⟨row,⟨n,inside,taken⟩,same⟩) | same | none
      · cases same
        exact .inr ⟨rfl,.block body,by simp [turns],rfl⟩
      · cases same
        cases n with
        | handler type name row =>
          cases taken
          exact .inr ⟨rfl,.block body,by simp [turns]; exact .inr (.inl ⟨_,inside,by simp [handlerTurns]⟩),rfl⟩
        | _ => cases taken
      · cases same
        exact .inr ⟨rfl,.block body,by simp [turns],rfl⟩
      · cases none
  all_goals cases part

/-- The statement stands in the row, or in the body of a statement of the row, under the class. -/
inductive Stands : (className : String) → List Node → (inner : String) → Node → Prop
  | here (member : n ∈ ns) : Stands c ns c n
  | inside (member : n ∈ ns) (part : (d,body) ∈ n.bodies c) (stands : Stands d body e m) : Stands c ns e m

namespace Compile

variable {α : Type} {config : Option Config} {c : String} {inner : String × List Node}

def Opens (config : Option Config) (c : String) (inner : String × List Node) (x : Compile α) : Prop :=
  ∀ s a t, Gives x s a t → s.frames.top.className = c → ∃ u v,
    Gives (each (visits config inner.2)) u () v ∧ u.frames.top.className = inner.1

namespace Opens

theorem first (opens : Opens config c inner x) : Opens config c inner (x >>= f) := by
  intro s b t run under
  obtain ⟨a,u,ran,-⟩ := gives_bind.mp run
  exact opens s a u ran under

theorem later (built : Built x) (rest : ∀ a, Opens config c inner (f a)) :
    Opens config c inner (x >>= f) := by
  intro s b t run under
  obtain ⟨a,u,ran,run⟩ := gives_bind.mp run
  have frames : u.frames = s.frames := ((built.follows stackLaw).kept ran).frames
  exact rest a u b t run (frames ▸ under)

theorem frame {f : Frame → Compile β} (rest : ∀ top, Opens config c inner (f top)) :
    Opens config c inner (Compile.frame >>= f) :=
  fun s b t run under => rest s.frames.top s b t run under

theorem ask {f : State → Compile β} (rest : ∀ s, Opens config c inner (f s)) :
    Opens config c inner (get >>= f) :=
  fun s b t run under => rest s s b t run under

theorem ite [Decidable p] (yes : Opens config c inner x) (no : Opens config c inner y) :
    Opens config c inner (if p then x else y) := by
  split
  · exact yes
  · exact no

theorem within (under : ∀ f, f.className = c → (change f).className = d) (opens : Opens config d inner x) :
    Opens config c inner (Compile.within change x) := by
  intro s a t run outside
  obtain ⟨u,frames,ran,-⟩ := gives_within.mp run
  exact opens _ a u ran (under _ outside)

theorem block (body : List Node) : Opens config c (c,body) (Compile.block (visits config body)) := by
  intro s a t run under
  obtain ⟨u,locals,before,ran,-⟩ := gives_block.mp run
  exact ⟨_,u,ran,under⟩

theorem visit (n : Node) : Opens config c (c,[n]) (Compile.visit config n) := by
  intro s a t run under
  exact ⟨s,t,gives_each_cons.mpr ⟨t,run,rfl⟩,under⟩

end Opens

theorem functionDefinition_opens (name : Option String) (params : Node) (body : List Node)
    (built : AllBuilt decorators) :
    Opens config c ("",body) (functionDefinition name params decorators (visits config body) defaults) := by
  have reversed : AllBuilt decorators.reverse := fun c member => built c (by simpa using member)
  refine .later (.ofExcept _) fun names =>
    .later (.put fun w => { w with functions := w.functions ++ _ }) fun _ =>
    .later (.put fun w => { w with current := name }) fun _ => .frame fun top =>
    .later (inlineEach_built reversed) fun _ => .later (.ofExcept _) fun _ =>
    .later (.ofExcept _) fun rest => .later (.ofExcept _) fun name => ?_
  have opened : Opens config c ("",body) (functionBody name (visits config body)) :=
    .within (fun _ _ => rfl) (.first (.block body))
  exact .ite
    (.later (.pure _) fun _ => .later (.ofExcept _) fun _ => .later (emit_built _) fun _ => .first opened)
    (.later (introduce_built _) fun _ => .later (.ofExcept _) fun _ => .later (emit_built _) fun _ =>
      .first opened)

theorem Ruled.opens {f : (Node → Compile Unit) → Compile α} (rule : Ruled (fun _ => True) d ts f) (inside : turn ∈ ts)
    (compiles : turn.Compiles body) : Opens config c (d.getD c,body) (f (visit config)) := by
  induction rule generalizing c with
  | quiet | step => cases inside
  | apart | asks =>
    obtain rfl := List.mem_singleton.mp inside
    cases compiles
  | append first _ own later =>
    have built := (first.alike congruence_built (fun _ _ k _ => ⟨visit_built config k,rfl⟩)
      fun k _ => ⟨visit_built config k,rfl⟩).1
    rcases List.mem_append.mp inside with inside | inside
    · exact .first (own inside)
    · exact .later built fun a => later a inside
  | dead _ stops => exact fun s a t run => absurd run ((stops _).never s a t)
  | ask _ _ rest => exact .ask fun s => rest s inside
  | here n =>
    obtain rfl := List.mem_singleton.mp inside
    cases compiles
    exact .visit n
  | block ns =>
    obtain rfl := List.mem_singleton.mp inside
    cases compiles
    have opened := @Opens.block config c body
    rwa [visits_eq_map] at opened
  | inClass _ _ step => exact .within (fun _ _ => rfl) (step inside)
  | loop _ step =>
    intro s a t run under
    have opens (label : String) : Opens config c _ (within (fun f => { f with loopLabel := label }) _) :=
      .within (fun _ same => same) (step inside)
    exact opens _ { s with ledger := s.ledger.addLoop } a t run under

theorem bodies_open (part : (d,body) ∈ n.bodies c) : Opens config c (d,body) (visit config n) := by
  cases regular : isRegular n with
  | true =>
    rcases turn_of_bodies config part with ⟨rfl,rfl⟩ | ⟨rfl,turn,inside,compiles⟩
    · exact fun s _ _ _ under => ⟨s,s,rfl,under⟩
    · rw [visit_eq_visitWith]
      exact (visitWith_ruled config regular fun _ _ => trivial).opens inside compiles
  | false =>
    cases n with
    | functionDef isAsync name params _ decorators =>
      obtain rfl : isAsync = false := regular
      cases List.mem_singleton.mp part
      exact functionDefinition_opens name params body (visits_built config decorators)
    | _ => first | (cases regular; done) | cases part

/-- A statement of a row that succeeds is compiled under the class where it stands. -/
theorem stands_runs (stands : Stands c ns d m) (run : Gives (each (visits config ns)) s () t)
    (under : s.frames.top.className = c) :
    ∃ u v, Gives (visit config m) u () v ∧ u.frames.top.className = d := by
  have member_runs {ns : List Node} {n : Node} {s t : State} (member : n ∈ ns)
      (run : Gives (each (visits config ns)) s () t) :
      ∃ u v, Gives (visit config n) u () v ∧ u.frames = s.frames := by
    induction ns generalizing s with
    | nil => cases member
    | cons first rest ih =>
      obtain ⟨u,ran,later⟩ := gives_each_cons.mp run
      rcases List.mem_cons.mp member with rfl | inside
      · exact ⟨s,u,ran,rfl⟩
      · obtain ⟨v,w,found,frames⟩ := ih inside later
        exact ⟨v,w,found,frames.trans (((visit_built config first).follows stackLaw).kept ran).frames⟩
  induction stands generalizing s t with
  | here member =>
    obtain ⟨u,v,ran,frames⟩ := member_runs member run
    exact ⟨u,v,ran,frames ▸ under⟩
  | inside member part _ ih =>
    obtain ⟨u,v,ran,frames⟩ := member_runs member run
    obtain ⟨w,x,row,inner⟩ := bodies_open part u () v ran (frames ▸ under)
    exact ih row inner

end Compile

end LuauCompiler
