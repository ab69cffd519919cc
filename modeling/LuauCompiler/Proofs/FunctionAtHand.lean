import LuauCompiler.Proofs.Effects

/-! The function that a yielded value is counted for. A definition puts its name at hand and leaves
no function at hand when it is through; code that is compiled aside gives the function back, but what
follows a definition in the same code is compiled with no function at hand. -/
namespace LuauCompiler

open Turn

/-! ## Where the function at hand is lost -/

mutual

/-- A definition is left in the code at hand, and no function is at hand from there on. -/
def Node.exits : Node → Bool
  | .functionDef isAsync _ params body decorators returns _ =>
    !isAsync || params.exits || anyExits body || anyExits decorators || returns.exits
  | .forStmt isAsync target iter body orElse _ =>
    isAsync && (target.exits || iter.exits || anyExits body || anyExits orElse)
  | .tryStmt isStar body handlers orElse finalBody =>
    isStar && (anyExits body || anyExits handlers || anyExits orElse || anyExits finalBody)
  | .interactive body => anyExits body
  | .expression n | .await n | .param _ n _ | .keyword _ n => n.exits
  | .namedExpr n m | .withItem n m => n.exits || m.exits
  | .clause target iter filters _ => target.exits || iter.exits || anyExits filters
  | .handler type _ body => type.exits || anyExits body
  | .params posOnly regular rest kwOnly kwDefaults kwRest defaults =>
    anyExits posOnly || anyExits regular || rest.exits || anyExits kwOnly || anyExits kwDefaults ||
      kwRest.exits || anyExits defaults
  | .matchCase pattern guard body => pattern.exits || guard.exits || anyExits body
  | _ => false

def anyExits : List Node → Bool
  | [] => false
  | n :: rest => n.exits || anyExits rest

end

def Turn.exits : Turn → Bool
  | .here n => n.exits
  | .definition .. => true
  | _ => false

theorem heres_any_exits (ns : List Node) : (heres ns).any exits = anyExits ns := by
  induction ns with
  | nil => rfl
  | cons n rest ih =>
    rw [anyExits,← ih]
    cases n <;> rfl

theorem hintTurn_exits (n : Node) : (hintTurn n).exits = false := by
  unfold hintTurn
  split <;> rfl

theorem otherwiseTurns_any_exits (ns : List Node) : (otherwiseTurns ns).any exits = false := by
  unfold otherwiseTurns
  split <;> rfl

theorem caseTurns_any_exits (subject n : Node) : (caseTurns subject n).any exits = false := by
  cases n <;> rfl

theorem handlerTurns_any_exits (n : Node) : (handlerTurns n).any exits = false := by
  cases n <;> rfl

theorem flatMap_any_exits (none : ∀ n, (f n).any exits = false) (ns : List Node) :
    (ns.flatMap f).any exits = false := by
  simp [List.any_flatMap,none]

theorem exits_eq_turns (config : Option Config) (n : Node) : n.exits = (turns config n).any exits := by
  cases n with
  | functionDef isAsync | forStmt isAsync =>
    cases isAsync <;> simp [Node.exits,turns,heres_any_exits,Turn.exits,anyExits,Bool.or_assoc]
  | tryStmt isStar =>
    cases isStar <;> simp [Node.exits,turns,heres_any_exits,Turn.exits,Bool.or_assoc,
      flatMap_any_exits handlerTurns_any_exits]
  | ifStmt => simp [Node.exits,turns,Turn.exits,otherwiseTurns_any_exits]
  | matchStmt subject => simp [Node.exits,turns,flatMap_any_exits (caseTurns_any_exits subject)]
  | annAssign target hint value =>
    rw [turns,List.any_cons,List.any_cons,List.any_cons,hintTurn_exits]
    rfl
  | typeAlias =>
    rw [turns]
    split <;> rfl
  | _ => simp [Node.exits,turns,heres_any_exits,Turn.exits,anyExits,Bool.or_assoc]

/-! ## The function at hand -/

/-- The function at hand behind a part that loses it or not. -/
def keptUnless (exits : Bool) (current : Option String) : Option String := bif exits then none else current

/-- The nodes of a row, each with the function at hand when it is compiled. -/
def rowParts (current : Option String) : List Node → List (Option String × Node)
  | [] => []
  | n :: rest => (current,n) :: rowParts (keptUnless n.exits current) rest

/-- The nodes of a turn, each with the function at hand. -/
def Turn.parts (current : Option String) : Turn → List (Option String × Node)
  | .asks _ | .yields => []
  | .here n => [(current,n)]
  | .apart ns | .repeats ns => ns.map fun n => (current,n)
  | .block ns => rowParts current ns
  | .definition name decorators body defaults =>
    (decorators ++ defaults).map (fun n => (name,n)) ++ rowParts name body

def courseParts (current : Option String) : List Turn → List (Option String × Node)
  | [] => []
  | turn :: rest => turn.parts current ++ courseParts (keptUnless turn.exits current) rest

/-- The second node is compiled for the first one, with these functions at hand. -/
def Hands (config : Option Config) (p q : Option String × Node) : Prop :=
  q ∈ courseParts p.1 (turns config p.2)

/-- The second node is compiled in the course of the first one, with these functions at hand. -/
def Comes (config : Option Config) : Option String × Node → Option String × Node → Prop :=
  Relation.ReflTransGen (Hands config)

variable {q : Option String × Node}

theorem rowParts_nodes (current : Option String) (ns : List Node) :
    (rowParts current ns).map Prod.snd = ns := by
  induction ns generalizing current with
  | nil => rfl
  | cons n rest ih => simp [rowParts,ih]

theorem mem_of_rowParts (part : q ∈ rowParts current ns) : q.2 ∈ ns := by
  rw [← rowParts_nodes current ns]
  exact List.mem_map_of_mem part

theorem mem_parts_iff {turn : Turn} : n ∈ (turn.parts current).map Prod.snd ↔ n ∈ turn.nodes := by
  cases turn with
  | definition =>
    simp only [Turn.parts,Turn.nodes,List.map_append,rowParts_nodes,List.mem_append]
    simp [or_right_comm]
  | _ => simp [Turn.parts,Turn.nodes,rowParts_nodes]

theorem mem_courseParts_iff (current : Option String) {ts : List Turn} :
    n ∈ (courseParts current ts).map Prod.snd ↔ n ∈ ts.flatMap Turn.nodes := by
  induction ts generalizing current with
  | nil => simp [courseParts]
  | cons turn rest ih =>
    rw [courseParts,List.map_append,List.mem_append,mem_parts_iff,ih,List.flatMap_cons,List.mem_append]

theorem Hands.compiled (hands : Hands config p q) : q.2 ∈ compiledParts config p.2 :=
  (mem_courseParts_iff _).mp (List.mem_map_of_mem hands)

theorem Reaches.comes (reached : Reaches config n m) (current : Option String) :
    ∃ c, Comes config (current,n) (c,m) := by
  induction reached with
  | refl => exact ⟨current,.refl⟩
  | tail _ part ih =>
    obtain ⟨c,comes⟩ := ih
    obtain ⟨⟨d,_⟩,hands,rfl⟩ := List.mem_map.mp ((mem_courseParts_iff c).mpr part)
    exact ⟨d,comes.tail hands⟩

@[simp] theorem keptUnless_false (current : Option String) : keptUnless false current = current := rfl

theorem keptUnless_or (first second : Bool) (current : Option String) :
    keptUnless (first || second) current = keptUnless second (keptUnless first current) := by
  cases first <;> cases second <;> rfl

namespace Compile

variable {v w : View}

variable {cause : Option String → Prop}

/-! ## The function at hand behind a node -/

theorem taken_current (heres : ∀ n, turn = .here n → ∀ s t, Gives (visit config n) s () t →
    t.current = keptUnless n.exits s.current) (taken : Taken config turn v w) :
    w.current = keptUnless turn.exits v.current := by
  cases turn with
  | asks | yields =>
    rw [show w = _ from taken]
    rfl
  | here n =>
    obtain ⟨s,t,run,rfl,rfl⟩ := taken
    exact heres n rfl s t run
  | apart ns => exact inners_current taken
  | block ns =>
    obtain ⟨s,t,-,-,rfl⟩ := taken
    rfl
  | «repeats» ns =>
    obtain ⟨x,first,rfl | again⟩ := taken
    · exact inners_current first
    · exact (inners_current again).trans (inners_current first)
  | definition =>
    obtain ⟨x,-,y,-,z,-,u,-,rfl⟩ := taken
    rfl

theorem course_current (steps : ∀ turn ∈ ts, ∀ v w, Taken config turn v w →
    w.current = keptUnless turn.exits v.current) (course : Course config ts v w) :
    w.current = keptUnless (ts.any exits) v.current := by
  induction ts generalizing v with
  | nil =>
    rw [show w = v from course]
    rfl
  | cons turn rest ih =>
    obtain ⟨x,taken,later⟩ := course
    obtain ⟨own,others⟩ := List.forall_mem_cons.mp steps
    rw [ih others later,own v x taken,List.any_cons,keptUnless_or]

/-- A node loses the function at hand exactly if a definition is left in it. -/
theorem visit_current (n : Node) (run : Gives (visit config n) s () t) :
    t.current = keptUnless n.exits s.current := by
  induction size : sizeOf n using Nat.strongRecOn generalizing n s t with
  | ind k ih =>
    subst size
    rw [exits_eq_turns config n]
    refine course_current (fun turn inside v w taken => ?_) ((visit_traces config n).run s () t run)
    refine taken_current ?_ taken
    rintro m rfl s t inner
    have part : m ∈ compiledParts config n := List.mem_flatMap.mpr ⟨_,inside,by simp [Turn.nodes]⟩
    exact ih _ (smaller_of_part part) m inner rfl

/-! ## The functions that are marked -/

/-- What the first view has on record stays, and what is marked further has a cause. -/
structure Explains (cause : Option String → Prop) (v w : View) : Prop where
  helpers : v.helpers ⊆ w.helpers
  grows : v.generators <+: w.generators
  marked : ∀ g ∈ w.generators, g ∈ v.generators ∨ cause g

namespace Explains

theorem refl (cause : Option String → Prop) (v : View) : Explains cause v v :=
  ⟨fun _ => id,List.prefix_rfl,fun _ => .inl⟩

theorem trans (first : Explains cause v w) (second : Explains cause w x) : Explains cause v x := by
  refine ⟨fun _ known => second.helpers (first.helpers known),first.grows.trans second.grows,fun g member => ?_⟩
  rcases second.marked g member with before | caused
  · exact first.marked g before
  · exact .inr caused

theorem imp (explains : Explains cause v w) (weaker : ∀ g, cause g → other g) : Explains other v w :=
  ⟨explains.helpers,explains.grows,fun g member => (explains.marked g member).imp id (weaker g)⟩

theorem any (explains : Explains cause v w) : Explains (fun _ => True) v w := explains.imp fun _ _ => trivial

theorem enter (v : View) (name : Option String) : Explains cause v (v.enter name) :=
  ⟨fun _ => id,List.prefix_rfl,fun _ => .inl⟩

theorem ask (v : View) (helper : String) : Explains cause v (v.ask helper) :=
  ⟨List.subset_append_left ..,List.prefix_rfl,fun _ => .inl⟩

theorem settle (v : View) (name : Option String) : Explains cause v (v.settle name) := by
  unfold View.settle
  split
  · exact .ask v _
  · exact .refl cause v

theorem mark (caused : cause v.current) : Explains cause v v.mark := by
  refine ⟨fun _ => id,List.prefix_append ..,fun g member => ?_⟩
  rcases List.mem_append.mp member with old | new
  · exact .inl old
  · rw [List.mem_singleton.mp new]
    exact .inr caused

end Explains

/-- Nodes are compiled one after the other, each with its function at hand. The steps between them mark only
what has a cause. -/
inductive Path (config : Option Config) (cause : Option String → Prop) :
    List (Option String × Node) → View → View → Prop
  | rest (idle : Explains cause a b) : Path config cause [] a b
  | visit (idle : Explains cause a s.view) (run : Gives (visit config n) s () t)
      (later : Path config cause ps t.view b) : Path config cause ((s.current,n) :: ps) a b

theorem Path.after (idle : Explains cause v w) (path : Path config cause ps w x) :
    Path config cause ps v x := by
  cases path with
  | rest later => exact .rest (idle.trans later)
  | visit later run path => exact .visit (idle.trans later) run path

theorem Path.append (first : Path config cause ps v w) (second : Path config cause qs w x) :
    Path config cause (ps ++ qs) v x := by
  induction first with
  | rest idle => exact .after idle second
  | visit idle run _ ih => exact .visit idle run (ih second)

theorem row_path (run : Gives (each (visits config ns)) s () t) :
    Path config cause (rowParts s.current ns) s.view t.view := by
  induction ns generalizing s with
  | nil =>
    obtain rfl := gives_each_nil.mp run
    exact .rest (.refl ..)
  | cons n rest ih =>
    obtain ⟨u,first,later⟩ := gives_each_cons.mp run
    rw [rowParts,← visit_current n first]
    exact .visit (.refl ..) first (ih later)

theorem inner_path (inner : Inner config ns v w) : Path config cause (rowParts v.current ns) v w := by
  obtain ⟨s,t,run,rfl,rfl⟩ := inner
  rw [← List.append_nil (rowParts _ ns)]
  exact (row_path run).append (.rest (.enter ..))

theorem inners_path (inners : Inners config ns v w) :
    Path config cause (ns.map fun n => (v.current,n)) v w := by
  induction ns generalizing v with
  | nil =>
    obtain rfl : w = v := inners
    exact .rest (.refl ..)
  | cons n rest ih =>
    obtain ⟨x,inner,later⟩ := inners
    have single : Inners config [n] v x := ⟨x,inner,rfl⟩
    have path := ih later
    rw [inners_current single] at path
    exact (inner_path inner).append path

theorem taken_path (marks : turn = .yields → cause v.current) (taken : Taken config turn v w) :
    ∃ ps, (∀ q, q ∈ ps ↔ q ∈ turn.parts v.current) ∧ Path config cause ps v w := by
  cases turn with
  | asks helper =>
    obtain rfl : w = v.ask helper := taken
    exact ⟨[],fun _ => .rfl,.rest (.ask ..)⟩
  | yields =>
    obtain rfl : w = v.mark := taken
    exact ⟨[],fun _ => .rfl,.rest (.mark (marks rfl))⟩
  | here n =>
    obtain ⟨s,t,run,rfl,rfl⟩ := taken
    exact ⟨_,fun _ => .rfl,.visit (.refl ..) run (.rest (.refl ..))⟩
  | apart ns => exact ⟨_,fun _ => .rfl,inners_path taken⟩
  | block ns => exact ⟨_,fun _ => .rfl,inner_path taken⟩
  | «repeats» ns =>
    obtain ⟨x,first,rfl | again⟩ := taken
    · exact ⟨_,fun _ => .rfl,inners_path first⟩
    · refine ⟨_,fun q => ?_,(inners_path first).append (inners_path again)⟩
      simp [Turn.parts,inners_current first]
  | definition name decorators body defaults =>
    obtain ⟨x,before,y,within,z,after,u,again,rfl⟩ := taken
    have atX : x.current = name := inners_current before
    have atY : (y.settle name).current = name := by
      obtain ⟨_,_,-,-,rfl⟩ := within
      rw [View.settle]
      split <;> exact atX
    have atZ : z.current = name := (inners_current after).trans atY
    refine ⟨_,fun q => ?_,(Path.after (.enter v name) (inners_path before)).append ((inner_path within).append
      ((Path.after (.settle y name) (inners_path after)).append
        ((inners_path again).append (.rest (.enter u none)))))⟩
    simp only [Turn.parts,View.enter,atX,atY,atZ,List.map_append,List.mem_append,List.not_mem_nil,or_false]
    grind

theorem course_path (marks : ts.head? = some .yields → cause v.current) (others : .yields ∉ ts.tail)
    (course : Course config ts v w) :
    ∃ ps, (∀ q, q ∈ ps ↔ q ∈ courseParts v.current ts) ∧ Path config cause ps v w := by
  induction ts generalizing v with
  | nil =>
    obtain rfl : w = v := course
    exact ⟨[],fun _ => .rfl,.rest (.refl ..)⟩
  | cons turn rest ih =>
    obtain ⟨x,taken,later⟩ := course
    have moved : x.current = keptUnless turn.exits v.current :=
      taken_current (fun n _ s t run => visit_current n run) taken
    obtain ⟨ps,own,path⟩ := taken_path (fun yields => marks (congrArg some yields)) taken
    obtain ⟨qs,further,path'⟩ := ih (fun first => absurd (List.mem_of_mem_head? first) others)
      (fun inside => others (List.mem_of_mem_tail inside)) later
    refine ⟨ps ++ qs,fun q => ?_,path.append path'⟩
    rw [List.mem_append,own,further,moved,courseParts,List.mem_append]

theorem visit_path (run : Gives (visit config n) s () t) :
    ∃ ps, (∀ q, q ∈ ps ↔ Hands config (s.current,n) q) ∧
      Path config (fun g => (∃ value, n = .yield value) ∧ g = s.current) ps s.view t.view := by
  have yields (inside : .yields ∈ turns config n) : ∃ value, n = .yield value := by
    rcases turn_cases inside with plain | ⟨value,same,-⟩ | ⟨_,_,_,_,_,_,-,other⟩
    · cases plain
    · exact ⟨value,same⟩
    · cases other
  refine course_path (fun first => ⟨yields (List.mem_of_mem_head? first),rfl⟩) (fun inside => ?_)
    ((visit_traces config n).run s () t run)
  obtain ⟨value,rfl⟩ := yields (List.mem_of_mem_tail inside)
  simp [turns] at inside

end Compile

/-- A value is yielded in the course of the node with the function `g` at hand. -/
def Marked (config : Option Config) (p : Option String × Node) (g : Option String) : Prop :=
  ∃ value, Comes config p (g,.yield value)

namespace Compile

variable {config : Option Config} {v w : View} {s t : State} {q : Option String × Node}

/-- The marks that a node leaves are explained by the values that are yielded in its course. -/
def Explained (config : Option Config) (n : Node) : Prop :=
  ∀ s t, Gives (visit config n) s () t → Explains (Marked config (s.current,n)) s.view t.view

theorem Path.explains (path : Path config cause ps v w) (parts : ∀ q ∈ ps, Explained config q.2) :
    Explains (fun g => cause g ∨ ∃ q ∈ ps, Marked config q g) v w := by
  induction path with
  | rest idle => exact idle.imp fun _ => .inl
  | visit idle run _ ih =>
    obtain ⟨own,others⟩ := List.forall_mem_cons.mp parts
    refine ((idle.imp fun _ => .inl).trans ((own _ _ run).imp ?_)).trans ((ih others).imp ?_)
    · exact fun g marked => .inr ⟨_,List.mem_cons_self,marked⟩
    · rintro g (caused | ⟨q,part,marked⟩)
      · exact .inl caused
      · exact .inr ⟨q,List.mem_cons_of_mem _ part,marked⟩

theorem visit_explained (config : Option Config) (n : Node) : Explained config n := by
  induction size : sizeOf n using Nat.strongRecOn generalizing n with
  | ind k ih =>
    subst size
    intro s t run
    obtain ⟨ps,same,path⟩ := visit_path run
    have parts (q : Option String × Node) (part : q ∈ ps) : Explained config q.2 :=
      ih _ (smaller_of_part ((same q).mp part).compiled) q.2 rfl
    refine (path.explains parts).imp ?_
    rintro g (⟨⟨value,rfl⟩,rfl⟩ | ⟨q,part,value,comes⟩)
    · exact ⟨value,.refl⟩
    · exact ⟨value,.head ((same q).mp part) comes⟩

/-! ## Runs of parts, with the function at hand -/

/-- The node runs somewhere between the views with its function at hand. -/
def RunsUnder (config : Option Config) (q : Option String × Node) (v w : View) : Prop :=
  ∃ s t, Gives (visit config q.2) s () t ∧ s.current = q.1 ∧
    Explains (fun _ => True) v s.view ∧ Explains (fun _ => True) t.view w

theorem Path.any (path : Path config cause ps v w) : Explains (fun _ => True) v w :=
  (path.explains fun q _ => visit_explained config q.2).any

theorem Path.runsUnder (path : Path config cause ps v w) (part : q ∈ ps) : RunsUnder config q v w := by
  induction path with
  | rest => cases part
  | visit idle run later ih =>
    rcases List.mem_cons.mp part with rfl | part
    · exact ⟨_,_,run,rfl,idle.any,later.any⟩
    · obtain ⟨u,x,inner,atHand,before,after⟩ := ih part
      exact ⟨u,x,inner,atHand,(idle.any.trans (visit_explained config _ _ _ run).any).trans before,after⟩

theorem comes_runsUnder (run : Gives (visit config n) s () t)
    (comes : Comes config (s.current,n) q) : RunsUnder config q s.view t.view := by
  induction comes with
  | refl => exact ⟨s,t,run,rfl,.refl ..,.refl ..⟩
  | @tail p _ _ hands ih =>
    obtain ⟨u,x,inner,atHand,before,after⟩ := ih
    obtain ⟨ps,same,path⟩ := visit_path inner
    rw [atHand] at same
    obtain ⟨u',x',inner',atHand',before',after'⟩ := path.runsUnder ((same _).mpr hands)
    exact ⟨u',x',inner',atHand',before.trans before',after'.trans after⟩

theorem reached_runs (run : Gives (visit config n) s () t) (reached : Reaches config n m) :
    Runs config m s.view t.view := by
  obtain ⟨_,comes⟩ := reached.comes s.current
  obtain ⟨u,x,inner,-,before,after⟩ := comes_runsUnder run comes
  exact ⟨u,x,inner,⟨before.helpers,before.grows.subset⟩,after.helpers,after.grows.subset⟩

/-! ## Yielded values -/

theorem yield_emits (run : Gives (visit config (.yield value)) s () t) :
    s.current ∈ t.generators ∧ ∃ text before, s.output = .block before ∧ t.output = .block (before ++
        [.line ("yieldGenerator('" ++ shownName s.current ++ "', " ++ text ++ ")")]) := by
  have marked : s.current ∈ t.generators := by
    obtain ⟨_,rfl,_,inners,rfl⟩ := (visit_traces config (.yield value)).run s () t run
    have path : Path config (fun _ => False) _ _ _ := inners_path inners
    exact path.any.grows.subset (by simp [View.mark,State.view])
  refine ⟨marked,?_⟩
  obtain ⟨text,u,read,emitted⟩ := (gives_bind (c := inline (visit config value))).mp
    (gives_update_bind.mp (gives_get_bind.mp run))
  obtain ⟨_,_,-,-,-,rfl⟩ := gives_inline.mp read
  obtain ⟨before,out,rfl⟩ := gives_emit.mp emitted
  exact ⟨text,before,out,rfl⟩

theorem marked_iff (run : Gives (visit config n) s () t) (g : Option String) :
    g ∈ t.generators ↔ g ∈ s.generators ∨ Marked config (s.current,n) g := by
  have explains := visit_explained config n s t run
  constructor
  · exact explains.marked g
  · rintro (old | ⟨value,comes⟩)
    · exact explains.grows.subset old
    · obtain ⟨u,w,inner,atHand,-,after⟩ := comes_runsUnder run comes
      have marked := (yield_emits inner).1
      rw [atHand] at marked
      exact after.grows.subset marked

end Compile

/-! ## The code of a function -/

def Node.definition? : Node → Option (Option String)
  | .functionDef false id .. => some id
  | _ => none

/-- The second node stands in the code of the first one and in no definition between. -/
def Own (config : Option Config) : Option String × Node → Option String × Node → Prop :=
  Relation.ReflTransGen fun p q => p.2.definition? = none ∧ Hands config p q

/-- No definition in the course of the node has the name. -/
def Avoids (config : Option Config) (name : Option String) (n : Node) : Prop :=
  ∀ m, Reaches config n m → m.definition? ≠ some name

theorem rowParts_current (part : q ∈ rowParts atHand ns) : q.1 = atHand ∨ q.1 = none := by
  induction ns generalizing atHand with
  | nil => cases part
  | cons n rest ih =>
    rcases List.mem_cons.mp part with rfl | later
    · exact .inl rfl
    · cases exits : n.exits with
      | true =>
        rw [exits] at later
        exact .inr ((ih later).elim id id)
      | false =>
        rw [exits] at later
        exact ih later

theorem parts_current {turn : Turn} (plain : turn.isPlain = true) (part : q ∈ turn.parts atHand) :
    q.1 = atHand ∨ q.1 = none := by
  cases turn with
  | asks => cases part
  | yields | definition => cases plain
  | here n => exact .inl (by rw [List.mem_singleton.mp part])
  | apart ns | «repeats» ns =>
    obtain ⟨n,-,rfl⟩ := List.mem_map.mp part
    exact .inl rfl
  | block ns => exact rowParts_current part

theorem courseParts_current {ts : List Turn} (plain : ∀ turn ∈ ts, turn = .yields ∨ turn.isPlain = true)
    (part : q ∈ courseParts atHand ts) : q.1 = atHand ∨ q.1 = none := by
  induction ts generalizing atHand with
  | nil => cases part
  | cons turn rest ih =>
    obtain ⟨own,others⟩ := List.forall_mem_cons.mp plain
    rcases List.mem_append.mp part with inside | later
    · rcases own with rfl | own
      · cases inside
      · exact parts_current own inside
    · rcases ih others later with kept | lost
      · cases exits : turn.exits with
        | true =>
          rw [exits] at kept
          exact .inr kept
        | false =>
          rw [exits] at kept
          exact .inl kept
      · exact .inr lost

theorem Hands.of_plain (hands : Hands config p q) (plain : p.2.definition? = none) :
    q.1 = p.1 ∨ q.1 = none := by
  refine courseParts_current (fun turn inside => ?_) hands
  rcases turn_cases inside with own | ⟨_,-,rfl⟩ | ⟨_,_,_,_,_,_,whole,-⟩
  · exact .inr own
  · exact .inl rfl
  · rw [whole] at plain
    cases plain

theorem eq_of_definition {n : Node} (defined : n.definition? = some name) :
    ∃ params body decorators returns comment,
      n = .functionDef false name params body decorators returns comment := by
  unfold Node.definition? at defined
  split at defined
  · cases defined
    exact ⟨_,_,_,_,_,rfl⟩
  · cases defined

theorem hands_definition_iff :
    Hands config (atHand,.functionDef false f params body decorators returns comment) q ↔
      q ∈ (decorators ++ params.paramDefaults).map (fun n => (f,n)) ++ rowParts f body := by
  simp [Hands,turns,courseParts,Turn.parts]

theorem Hands.of_definition (hands : Hands config p q) (defined : p.2.definition? = some name) :
    q.1 = name ∨ q.1 = none := by
  obtain ⟨params,body,decorators,returns,comment,whole⟩ := eq_of_definition defined
  obtain ⟨atHand,n⟩ := p
  subst whole
  rcases List.mem_append.mp (hands_definition_iff.mp hands) with aside | inside
  · obtain ⟨_,-,rfl⟩ := List.mem_map.mp aside
    exact .inl rfl
  · exact rowParts_current inside

theorem Own.current (own : Own config p q) : q.1 = p.1 ∨ q.1 = none := by
  induction own with
  | refl => exact .inl rfl
  | tail _ step ih =>
    rcases step.2.of_plain step.1 with kept | lost
    · rw [kept]
      exact ih
    · exact .inr lost

theorem Avoids.part (avoids : Avoids config name p.2) (hands : Hands config p q) : Avoids config name q.2 :=
  fun m reached => avoids m (.head hands.compiled reached)

theorem avoids_of_parts (own : n.definition? ≠ some name)
    (parts : ∀ m ∈ compiledParts config n, Avoids config name m) : Avoids config name n := by
  intro m reached
  rcases Relation.ReflTransGen.cases_head reached with rfl | ⟨k,part,later⟩
  · exact own
  · exact parts k part m later

theorem Hands.ne_of_definition (hands : Hands config p q) (defined : p.2.definition? = some other)
    (avoids : Avoids config name p.2) (given : name ≠ none) : q.1 ≠ name := by
  rintro rfl
  rcases hands.of_definition defined with same | lost
  · rw [← same] at defined
    exact avoids p.2 .refl defined
  · exact given lost

theorem Comes.current_ne (comes : Comes config p q) (avoids : Avoids config name p.2)
    (given : name ≠ none) (other : p.1 ≠ name) : q.1 ≠ name := by
  induction comes using Relation.ReflTransGen.head_induction_on with
  | refl => exact other
  | @head p r hands _ ih =>
    refine ih (avoids.part hands) ?_
    cases defined : p.2.definition? with
    | some id => exact Hands.ne_of_definition hands defined avoids given
    | none =>
      rcases Hands.of_plain hands defined with kept | lost
      · rw [kept]
        exact other
      · rw [lost]
        exact given.symm

theorem Comes.own (comes : Comes config p q) (avoids : Avoids config name p.2) (given : name ≠ none)
    (atHand : q.1 = name) : Own config p q := by
  induction comes using Relation.ReflTransGen.head_induction_on with
  | refl => exact .refl
  | @head p r hands later ih =>
    cases defined : p.2.definition? with
    | none => exact .head ⟨defined,hands⟩ (ih (avoids.part hands))
    | some other =>
      have differs := Hands.ne_of_definition hands defined avoids given
      exact (Comes.current_ne later (avoids.part hands) given differs atHand).elim

theorem Own.comes (own : Own config p q) : Comes config p q :=
  Relation.ReflTransGen.mono (fun _ _ step => step.2) _ _ own

namespace Compile

variable {config : Option Config} {s t : State}

def yieldNumber (k : Int) : Node := .exprStmt (.yield (.constant (.int k) none))

def plainFunction (name : String) (body : List Node) : Node :=
  .functionDef false (some name) (.params [] [] .absent [] [] .absent []) body [] .absent none

end Compile

end LuauCompiler
