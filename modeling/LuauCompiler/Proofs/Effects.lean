import LuauCompiler.Proofs.TreeCourse

/-! What compiling a node does to the helpers and generators on record. A function that is marked as a
generator while it is compiled has its helper asked for at its end; only a default value, which is
compiled behind the end, can mark a function too late. Whatever a reached node asks for stays on
record. -/
namespace LuauCompiler

open Turn

/-- What the first view has recorded is recorded in the second one. -/
structure View.Grows (v w : View) : Prop where
  helpers : v.helpers ⊆ w.helpers
  generators : v.generators ⊆ w.generators

namespace View

variable {v w x : View}

theorem Grows.refl (v : View) : v.Grows v := ⟨fun _ => id,fun _ => id⟩

theorem Grows.trans (first : v.Grows w) (second : w.Grows x) : v.Grows x :=
  ⟨fun _ known => second.helpers (first.helpers known),
    fun _ known => second.generators (first.generators known)⟩

theorem grows_settle (v : View) (name : Option String) : v.Grows (v.settle name) := by
  unfold settle
  split
  · exact ⟨List.subset_append_left ..,fun _ => id⟩
  · exact .refl v

theorem settled_of_mem (marked : name ∈ v.generators) : "generator" ∈ (v.settle name).helpers := by
  simp [settle,ask,marked]

theorem settle_generators (v : View) (name : Option String) : (v.settle name).generators = v.generators := by
  unfold settle
  split <;> rfl

end View

structure Effect where
  /-- The function at hand is marked. -/
  marks : Bool
  /-- There is no function at hand any more. -/
  leaves : Bool
  /-- A function is marked behind its end. -/
  strays : Bool

def Effect.andThen (e f : Effect) : Effect :=
  ⟨e.marks || (!e.leaves && f.marks),e.leaves || f.leaves,e.strays || f.strays⟩

theorem Effect.andThen_self (e : Effect) : e.andThen e = e := by
  obtain ⟨marks,leaves,strays⟩ := e
  cases marks <;> cases leaves <;> cases strays <;> rfl

/-- The step between the views has the effect. A function that it marks has its helper already, or
it is the function at hand, whose end is still to come. -/
structure Accounts (e : Effect) (v w : View) : Prop extends v.Grows w where
  current : w.current = if e.leaves then none else v.current
  marked : e.marks = true → v.current ∈ w.generators
  settled : e.strays = false → ∀ g, some g ∈ w.generators →
    some g ∈ v.generators ∨ "generator" ∈ w.helpers ∨ e.marks = true ∧ v.current = some g

theorem Accounts.trans (first : Accounts e v w) (second : Accounts f w x) : Accounts (e.andThen f) v x := by
  refine ⟨first.toGrows.trans second.toGrows,?_,?_,?_⟩
  · rw [second.current,first.current]
    cases leaves : e.leaves <;> simp [Effect.andThen,leaves]
  · intro marks
    cases own : e.marks with
    | true => exact second.generators (first.marked own)
    | false =>
      have later : e.leaves = false ∧ f.marks = true := by simpa [Effect.andThen,own] using marks
      have same : w.current = v.current := by simpa [later.1] using first.current
      rw [← same]
      exact second.marked later.2
  · intro strays g member
    have straight : e.strays = false ∧ f.strays = false := by simpa [Effect.andThen] using strays
    rcases second.settled straight.2 g member with before | helper | ⟨marks,current⟩
    · rcases first.settled straight.1 g before with old | helper | ⟨marks,current⟩
      · exact .inl old
      · exact .inr (.inl (second.helpers helper))
      · exact .inr (.inr ⟨by simp [Effect.andThen,marks],current⟩)
    · exact .inr (.inl helper)
    · rw [first.current] at current
      cases leaves : e.leaves with
      | true => simp [leaves] at current
      | false =>
        refine .inr (.inr ⟨by simp [Effect.andThen,leaves,marks],?_⟩)
        simpa [leaves] using current

/-- All steps of the relation have one effect, and for what is conspicuous in it there is a cause. -/
def Caused (yields strays : Prop) (R : View → View → Prop) : Prop :=
  ∃ e : Effect, (e.marks = true → yields) ∧ (e.strays = true → strays) ∧ ∀ v w, R v w → Accounts e v w

namespace Caused

theorem grows (caused : Caused p q R) (step : R v w) : v.Grows w := by
  obtain ⟨e,-,-,all⟩ := caused
  exact (all v w step).toGrows

theorem imp (caused : Caused p q R) (yields : p → p') (strays : q → q')
    (steps : ∀ v w, S v w → R v w) : Caused p' q' S := by
  obtain ⟨e,marks,astray,all⟩ := caused
  exact ⟨e,fun m => yields (marks m),fun m => strays (astray m),fun v w step => all v w (steps v w step)⟩

theorem same : Caused p q fun v w => w = v := by
  refine ⟨⟨false,false,false⟩,nofun,nofun,?_⟩
  rintro v w rfl
  exact ⟨.refl w,rfl,nofun,fun _ g member => .inl member⟩

theorem ask : Caused p q fun v w => w = v.ask helper := by
  refine ⟨⟨false,false,false⟩,nofun,nofun,?_⟩
  rintro v w rfl
  exact ⟨⟨List.subset_append_left ..,fun _ => id⟩,rfl,nofun,fun _ g member => .inl member⟩

theorem mark (yields : p) : Caused p q fun v w => w = v.mark := by
  refine ⟨⟨true,false,false⟩,fun _ => yields,nofun,?_⟩
  rintro v w rfl
  refine ⟨⟨fun _ => id,List.subset_append_left ..⟩,rfl,fun _ => by simp [View.mark],fun _ g member => ?_⟩
  rcases List.mem_append.mp member with old | new
  · exact .inl old
  · exact .inr (.inr ⟨rfl,(List.mem_singleton.mp new).symm⟩)

theorem andThen (first : Caused p q R) (second : Caused p q S) :
    Caused p q fun v w => ∃ x, R v x ∧ S x w := by
  obtain ⟨e,marks,strays,all⟩ := first
  obtain ⟨f,marks',strays',all'⟩ := second
  refine ⟨e.andThen f,?_,?_,fun v w ⟨x,front,back⟩ => (all v x front).trans (all' x w back)⟩
  · simp only [Effect.andThen,Bool.or_eq_true,Bool.and_eq_true]
    rintro (own | ⟨-,later⟩)
    · exact marks own
    · exact marks' later
  · simp only [Effect.andThen,Bool.or_eq_true]
    rintro (own | later)
    · exact strays own
    · exact strays' later

theorem inner (caused : Caused p q R) : Caused p q fun v w => ∃ x, R v x ∧ w = x.enter v.current := by
  obtain ⟨e,marks,strays,all⟩ := caused
  refine ⟨{ e with leaves := false },marks,strays,?_⟩
  rintro v w ⟨x,step,rfl⟩
  have own := all v x step
  exact ⟨⟨own.helpers,own.generators⟩,rfl,own.marked,own.settled⟩

theorem repeats (caused : Caused p q R) : Caused p q fun v w => ∃ x, R v x ∧ (w = x ∨ R x w) := by
  obtain ⟨e,marks,strays,all⟩ := caused
  refine ⟨e,marks,strays,?_⟩
  rintro v w ⟨x,step,rfl | again⟩
  · exact all v w step
  · rw [← e.andThen_self]
    exact (all v x step).trans (all x w again)

end Caused

/-- A function is marked in its decorators or in its body, and then its end asks for the helper. The
decorators come once more behind the end; by then the function is marked if they mark it. -/
theorem Caused.definition (decorators : Caused p q D) (body : Caused p q B)
    (defaults : Caused q q F) (stays : ∀ v w, D v w → w.current = v.current) :
    Caused p q fun v w => ∃ x, D (v.enter name) x ∧ ∃ y, B x y ∧ ∃ z, F (y.settle name) z ∧
      ∃ u, D z u ∧ w = u.enter none := by
  obtain ⟨d,-,dStrays,decorate⟩ := decorators
  obtain ⟨b,-,bStrays,run⟩ := body
  obtain ⟨f,fMarks,fStrays,fill⟩ := defaults
  refine ⟨⟨false,true,d.strays || b.strays || f.strays || f.marks⟩,nofun,?_,?_⟩
  · simp only [Bool.or_eq_true]
    rintro (((strays | strays) | strays) | strays)
    · exact dStrays strays
    · exact bStrays strays
    · exact fStrays strays
    · exact fMarks strays
  · rintro v w ⟨x,before,y,inside,z,after,u,again,rfl⟩
    have first := decorate _ _ before
    have second := run _ _ inside
    have third := fill _ _ after
    have fourth := decorate _ _ again
    have closing : (y.settle name).Grows u := third.toGrows.trans fourth.toGrows
    have whole : x.Grows u := (second.toGrows.trans (y.grows_settle name)).trans closing
    have atX : x.current = name := stays _ _ before
    have asked (marked : name ∈ y.generators) : "generator" ∈ u.helpers :=
      closing.helpers (View.settled_of_mem marked)
    have decorated (marks : d.marks = true) : "generator" ∈ u.helpers :=
      asked (second.generators (first.marked marks))
    refine ⟨⟨fun _ known => whole.helpers (first.helpers known),
      fun _ known => whole.generators (first.generators known)⟩,rfl,nofun,fun strays g member => ?_⟩
    simp only [Bool.or_eq_false_iff] at strays
    obtain ⟨⟨⟨dStraight,bStraight⟩,fStraight⟩,unmarked⟩ := strays
    rcases fourth.settled dStraight g member with inZ | helper | ⟨marks,-⟩
    · rcases third.settled fStraight g inZ with inY | helper | ⟨marks,-⟩
      · rw [y.settle_generators] at inY
        rcases second.settled bStraight g inY with inX | helper | ⟨marks,-⟩
        · rcases first.settled dStraight g inX with old | helper | ⟨marks,-⟩
          · exact .inl old
          · exact .inr (.inl (whole.helpers helper))
          · exact .inr (.inl (decorated marks))
        · exact .inr (.inl (closing.helpers ((y.grows_settle name).helpers helper)))
        · exact .inr (.inl (asked (atX ▸ second.marked marks)))
      · exact .inr (.inl (fourth.helpers helper))
      · simp [unmarked] at marks
    · exact .inr (.inl helper)
    · exact .inr (.inl (decorated marks))

/-- A value is yielded in the course of the node. -/
def Yields (config : Option Config) (n : Node) : Prop := ∃ value, Reaches config n (.yield value)

/-- In the course of the node there is a definition with a default that yields. -/
def Strays (config : Option Config) (n : Node) : Prop := ∃ name params body decorators returns comment,
    Reaches config n (.functionDef false name params body decorators returns comment) ∧
      ∃ d ∈ params.paramDefaults, Yields config d

namespace Compile

theorem inner_caused (parts : ∀ n ∈ ns, Caused p q (Taken config (.here n))) :
    Caused p q (Inner config ns) := by
  suffices row : Caused p q fun v w =>
      ∃ s t, Gives (each (visits config ns)) s () t ∧ s.view = v ∧ w = t.view from
    row.inner.imp id id fun v w ⟨s,t,run,start,stop⟩ => ⟨t.view,⟨s,t,run,start,rfl⟩,stop⟩
  induction ns with
  | nil =>
    refine Caused.same.imp id id ?_
    rintro v w ⟨s,t,run,rfl,rfl⟩
    obtain rfl := gives_each_nil.mp run
    rfl
  | cons n ns ih =>
    obtain ⟨own,others⟩ := List.forall_mem_cons.mp parts
    refine (own.andThen (ih others)).imp id id ?_
    rintro v w ⟨s,t,run,rfl,rfl⟩
    obtain ⟨u,first,rest⟩ := gives_each_cons.mp run
    exact ⟨u.view,⟨s,u,first,rfl,rfl⟩,u,t,rest,rfl,rfl⟩

theorem inners_caused (parts : ∀ n ∈ ns, Caused p q (Taken config (.here n))) :
    Caused p q (Inners config ns) := by
  induction ns with
  | nil => exact Caused.same
  | cons n ns ih =>
    obtain ⟨own,others⟩ := List.forall_mem_cons.mp parts
    exact (inner_caused (List.forall_mem_singleton.mpr own)).andThen (ih others)

theorem taken_caused (yields : turn = .yields → p)
    (parts : ∀ n ∈ turn.nodes, Caused p q (Taken config (.here n)))
    (defaults : ∀ n ∈ turn.defaults, Caused q q (Taken config (.here n))) :
    Caused p q (Taken config turn) := by
  cases turn with
  | asks helper => exact Caused.ask
  | yields => exact Caused.mark (yields rfl)
  | here n => exact parts n (by simp [Turn.nodes])
  | apart ns => exact inners_caused parts
  | block ns => exact inner_caused parts
  | repeats ns => exact (inners_caused parts).repeats
  | definition name ds body fs =>
    simp only [Turn.nodes,List.mem_append] at parts
    exact Caused.definition (inners_caused fun n member => parts n (.inl (.inl member)))
      (inner_caused fun n member => parts n (.inl (.inr member))) (inners_caused defaults)
      fun v w => inners_current

theorem course_caused (steps : ∀ turn ∈ ts, Caused p q (Taken config turn)) :
    Caused p q (Course config ts) := by
  induction ts with
  | nil => exact Caused.same
  | cons turn ts ih =>
    obtain ⟨own,others⟩ := List.forall_mem_cons.mp steps
    exact own.andThen (ih others)

end Compile

/-- The turn marks no function and defines none. -/
def Turn.isPlain : Turn → Bool
  | .yields | .definition .. => false
  | _ => true

section

variable {turn : Turn}

theorem defaults_of_plain (plain : turn.isPlain = true) : turn.defaults = [] := by
  cases turn <;> first | rfl | cases plain

@[grind →] theorem plain_of_heres (inside : turn ∈ heres ns) : turn.isPlain = true := by
  obtain ⟨n,-,rfl⟩ := List.mem_map.mp inside
  rfl

@[grind =] theorem hintTurn_plain : (hintTurn n).isPlain = true := by
  unfold hintTurn
  split <;> rfl

@[grind →] theorem plain_of_case (inside : turn ∈ caseTurns subject n) : turn.isPlain = true := by
  unfold caseTurns at inside
  split at inside <;> simp at inside
  rcases inside with rfl | rfl <;> rfl

@[grind →] theorem plain_of_handler (inside : turn ∈ handlerTurns n) : turn.isPlain = true := by
  unfold handlerTurns at inside
  split at inside <;> simp at inside
  rw [inside]; rfl

@[grind →] theorem plain_of_otherwise (inside : turn ∈ otherwiseTurns ns) : turn.isPlain = true := by
  unfold otherwiseTurns at inside
  split at inside <;> simp at inside
  · rcases inside with rfl | rfl <;> rfl
  · rw [inside]; rfl

theorem turn_cases (inside : turn ∈ turns config n) : turn.isPlain = true ∨
    (∃ value, n = .yield value ∧ turn = .yields) ∨ ∃ name params body decorators returns comment,
        n = .functionDef false name params body decorators returns comment ∧
          turn = .definition name decorators.reverse body params.paramDefaults.reverse := by
  cases n with
  | functionDef isAsync => cases isAsync <;> simp [turns] at inside ⊢ <;> grind
  | forStmt isAsync => cases isAsync <;> simp [turns] at inside ⊢ <;> grind [isPlain]
  | tryStmt isStar => cases isStar <;> simp [turns] at inside ⊢ <;> grind [isPlain]
  | _ => simp [turns] at inside ⊢ <;> grind [isPlain]

end

namespace Compile

variable {config : Option Config}

theorem visit_caused (config : Option Config) (n : Node) :
    Caused (Yields config n) (Strays config n) (Taken config (.here n)) := by
  induction size : sizeOf n using Nat.strongRecOn generalizing n with
  | ind k ih =>
    subst size
    suffices course : Caused (Yields config n) (Strays config n) (Course config (turns config n)) by
      refine course.imp id id ?_
      rintro v w ⟨s,t,run,rfl,rfl⟩
      exact (visit_traces config n).run s () t run
    refine course_caused fun turn inside => ?_
    have part (m : Node) (member : m ∈ turn.nodes) : m ∈ compiledParts config n :=
      List.mem_flatMap.mpr ⟨turn,inside,member⟩
    have caused (m : Node) (member : m ∈ turn.nodes) :
        Caused (Yields config m) (Strays config m) (Taken config (.here m)) :=
      ih _ (smaller_of_part (part m member)) m rfl
    have strays (m : Node) (member : m ∈ turn.nodes) : Strays config m → Strays config n := by
      rintro ⟨name,params,body,decorators,returns,comment,reached,late⟩
      exact ⟨name,params,body,decorators,returns,comment,.head (part m member) reached,late⟩
    refine taken_caused ?_ (fun m member => (caused m member).imp ?_ (strays m member) fun _ _ => id) ?_
    · rintro rfl
      rcases turn_cases inside with plain | ⟨value,rfl,-⟩ | ⟨_,_,_,_,_,_,-,other⟩
      · cases plain
      · exact ⟨value,.refl⟩
      · cases other
    · rintro ⟨value,reached⟩
      exact ⟨value,.head (part m member) reached⟩
    · intro m late
      rcases turn_cases inside with plain | ⟨value,-,rfl⟩ | ⟨name,params,body,decorators,_,_,rfl,rfl⟩
      · simp [defaults_of_plain plain] at late
      · cases late
      · have member : m ∈ params.paramDefaults := by simpa [Turn.defaults] using late
        have inner : m ∈ Turn.nodes (.definition name decorators.reverse body
            params.paramDefaults.reverse) := by simp [Turn.nodes,member]
        refine (caused m inner).imp (fun yields => ?_) (strays m inner) fun _ _ => id
        exact ⟨name,params,body,decorators,_,_,.refl,m,member,yields⟩

end Compile

namespace Compile

variable {config : Option Config} {v w : View} {m n : Node} {turn : Turn} {ts : List Turn} {s t : State}

/-- The node runs somewhere between the views. -/
def Runs (config : Option Config) (n : Node) (v w : View) : Prop :=
  ∃ s t, Gives (visit config n) s () t ∧ v.Grows s.view ∧ t.view.Grows w

theorem here_caused (config : Option Config) (n : Node) : Caused True True (Taken config (.here n)) :=
  (visit_caused config n).imp (fun _ => trivial) (fun _ => trivial) fun _ _ => id

theorem course_grows (course : Course config ts v w) : v.Grows w :=
  (course_caused fun _ _ => taken_caused (fun _ => trivial) (fun n _ => here_caused config n)
    fun n _ => here_caused config n).grows course

theorem course_asks (inside : .asks helper ∈ ts) (course : Course config ts v w) : helper ∈ w.helpers := by
  induction ts generalizing v with
  | nil => cases inside
  | cons turn ts ih =>
    obtain ⟨x,taken,rest⟩ := course
    rcases List.mem_cons.mp inside with rfl | inside
    · refine (course_grows rest).helpers ?_
      rw [show x = v.ask helper from taken]
      simp [View.ask]
    · exact ih inside rest

theorem Runs.helper {helper : String} (runs : Runs config n v w) (asks : .asks helper ∈ turns config n) :
    helper ∈ w.helpers := by
  obtain ⟨s,t,run,-,after⟩ := runs
  exact after.helpers (course_asks asks ((visit_traces config n).run s () t run))

theorem helper_of_generator (run : Gives (visit config n) s () t) (straight : ¬ Strays config n)
    (fresh : s.generators = []) (outside : s.current = none) (marked : some g ∈ t.generators) :
    "generator" ∈ t.view.helpers := by
  obtain ⟨e,-,strays,all⟩ := visit_caused config n
  have unstrayed : e.strays = false := by
    cases astray : e.strays with
    | true => exact (straight (strays astray)).elim
    | false => rfl
  rcases (all _ _ ⟨s,t,run,rfl,rfl⟩).settled unstrayed g marked with old | helper | ⟨-,current⟩
  · rw [show s.view.generators = _ from fresh] at old
    cases old
  · exact helper
  · rw [show s.view.current = _ from outside] at current
    cases current

end Compile

end LuauCompiler
